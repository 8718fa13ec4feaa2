import StowQ.Core.Judgments
import StowQ.History
import StowQ.Scenario.Basic

/-!
# Resolving conditional writes

Any number of conditional writes race for one key, each with a record of its own.  A write may
fail before it is sent, or be answered with an unknown outcome after it was or was not
applied; the resolver then reads the key back, and every one of its reads may fail as well.

One call is analysed over the objects alone.  It relies on two things: what stands at the key
stays, and nobody else stores its record.  The invariant of its retry loop is that its own
record does not stand at the key, so that a plain rejection always means that somebody else
was first.
-/

namespace StowQ
namespace Resolution

open Data StowQ.Core Store Format Concurrent Interleaving Keys

section OneCall

variable [Sha256] (S : Site) (rel : Key) (record : Record)

/-- The record stands at the key. -/
def Mine (objs : Objects) : Prop :=
  ∃ stored, objs.get? (S.absolute rel) = some stored ∧ S.decodeAt rel stored.body = .ok record

/-- Something else stands at the key. -/
def Foreign (objs : Objects) : Prop :=
  ∃ stored, objs.get? (S.absolute rel) = some stored ∧ S.decodeAt rel stored.body ≠ .ok record

/-- What a result tells about the key. -/
def Told (r : Except Error Resolved) (objs : Objects) : Prop :=
  match r with
  | .ok .committed => Mine S rel record objs
  | .ok .lost => Foreign S rel record objs
  | .ok .notCommitted => False
  | .error _ => True

/-- What the others do: what stands at the key stays, and they do not store the record. -/
def others : Rely Objects where
  rel objs objs' := (∀ stored, objs.get? (S.absolute rel) = some stored →
      objs'.get? (S.absolute rel) = some stored) ∧
    (¬ Mine S rel record objs → ¬ Mine S rel record objs')
  refl _ := ⟨fun _ h => h, fun h => h⟩
  trans h h' := ⟨fun stored hs => h'.1 stored (h.1 stored hs), fun hn => h'.2 (h.2 hn)⟩

/-- What the call does: what stands at the key stays, and it stores nothing but the record. -/
def Keeps (objs objs' : Objects) : Prop :=
  (∀ stored, objs.get? (S.absolute rel) = some stored → objs'.get? (S.absolute rel) = some stored) ∧
  ∀ stored, objs.get? (S.absolute rel) = none → objs'.get? (S.absolute rel) = some stored →
    S.decodeAt rel stored.body = .ok record

/-- Requests meet any fault. -/
def service : Service Objects Op Res where
  answers
    | .store r, objs, answer, objs' => ∃ fault stamp, inject fault objs stamp r = (answer, objs')
    | _, objs, _, objs' => objs' = objs
  inv _ := True

/-- The discipline of a call. -/
def racer : Discipline Objects Op Res where
  service := service
  rely := others S rel record
  guar := Keeps S rel record
  order := ⟨fun _ _ => True, fun _ => trivial, fun _ _ => trivial⟩
  rely_order _ _ _ _ := trivial
  guar_order _ _ _ _ _ := trivial

variable {S rel record} {objs objs' : Objects}

lemma Mine.others (h : Mine S rel record objs) (hr : (others S rel record).rel objs objs') :
    Mine S rel record objs' := by
  obtain ⟨stored, hget, hdec⟩ := h
  exact ⟨stored, hr.1 stored hget, hdec⟩

lemma Foreign.others (h : Foreign S rel record objs) (hr : (others S rel record).rel objs objs') :
    Foreign S rel record objs' := by
  obtain ⟨stored, hget, hdec⟩ := h
  exact ⟨stored, hr.1 stored hget, hdec⟩

lemma not_mine_of_absent (h : objs.get? (S.absolute rel) = none) : ¬ Mine S rel record objs := by
  rintro ⟨stored, hget, -⟩
  rw [h] at hget
  cases hget

lemma holds_read {r : Request} {β : Type} {f : StoreResult r.Answer → Routine β}
    {Q : Except Error β → Objects → Prop} (hr : r.reads = true)
    (h : ∀ objs1 fault stamp, (others S rel record).rel objs objs1 →
      Holds (racer S rel record) (f (inject fault objs1 stamp r).1) Q objs1) :
    Holds (racer S rel record) (Routine.store r >>= f) Q objs := by
  refine Holds.request (o := Op.store r) fun objs1 hobjs1 _ answer objs2 hanswer => ?_
  obtain ⟨fault, stamp, hinject⟩ := hanswer
  obtain rfl : objs1 = objs2 := (inject_reads hr).symm.trans (congrArg Prod.snd hinject)
  obtain rfl : (inject fault objs1 stamp r).1 = answer := congrArg Prod.fst hinject
  exact ⟨trivial, ⟨fun _ hs => hs, fun _ habsent hget => nomatch habsent.symm.trans hget⟩,
    h objs1 fault stamp hobjs1⟩

/-- A body that is read back stands at the key. -/
lemma holds_readRetrying : Holds (racer S rel record) (Queue.readRetrying (S.absolute rel))
    (OnOk fun obj objs' => ∃ stored, objs'.get? (S.absolute rel) = some stored ∧ obj.body = stored.body) objs := by
  refine holds_retrying trivial fun objs1 _ _ => holds_spend ?_
  refine holds_read (r := .get (S.absolute rel)) rfl fun objs2 fault stamp _ => ?_
  cases hanswer : (inject fault objs2 stamp (.get (S.absolute rel))).1 with
  | ok obj =>
    obtain ⟨stored, hget, rfl⟩ := answer_get hanswer
    refine Holds.pure fun objs3 hobjs3 _ => ?_
    rw [onOk_ok]
    rintro _ ⟨⟩
    exact ⟨stored, hobjs3.1 stored hget, rfl⟩
  | error e => exact holds_retryOrFail nofun

/-- The verdict on an unknown outcome. -/
def Verdict (S : Site) (rel : Key) (record : Record) (r : Resolved) (objs : Objects) : Prop :=
  match r with
  | .committed => Mine S rel record objs
  | .lost => Foreign S rel record objs
  | .notCommitted => ¬ Mine S rel record objs

lemma Verdict.others {r : Resolved} (h : Verdict S rel record r objs)
    (hr : (others S rel record).rel objs objs') : Verdict S rel record r objs' := by
  cases r with
  | committed => exact Mine.others h hr
  | lost => exact Foreign.others h hr
  | notCommitted => exact hr.2 h

lemma verdict_evidence {q : Queue} (hsite : q.site = S) {stored : Stored}
    (hget : objs.get? (S.absolute rel) = some stored) :
    Verdict S rel record (q.evidence rel record stored.body) objs := by
  subst hsite
  unfold Queue.evidence
  cases hdec : q.decodeAt rel stored.body with
  | error e => exact ⟨stored, hget, fun h => nomatch hdec.symm.trans h⟩
  | ok found =>
    dsimp only
    split
    · next heq => exact ⟨stored, hget, heq ▸ hdec⟩
    · next hne => exact ⟨stored, hget, fun h => hne (Except.ok.inj (hdec.symm.trans h))⟩

lemma holds_resolveUnknown {q : Queue} (hsite : q.site = S) :
    Holds (racer S rel record) (q.resolveUnknown (S.absolute rel) record rel)
      (OnOk (Verdict S rel record)) objs := by
  refine holds_retrying trivial fun objs1 _ _ => holds_spend ?_
  refine holds_read (r := .head (S.absolute rel)) rfl fun objs2 fault stamp _ => ?_
  cases hanswer : (inject fault objs2 stamp (.head (S.absolute rel))).1 with
  | ok info =>
    refine holds_readRetrying.andThen fun obj objs3 _ _ hobj => ?_
    obtain ⟨stored, hget, hbody⟩ := hobj
    refine Holds.pure fun objs4 hobjs4 _ => ?_
    rw [onOk_ok]
    rintro _ ⟨⟩
    rw [hbody]
    exact (verdict_evidence hsite hget).others hobjs4
  | error e =>
    have hretry := holds_retryOrFail (D := racer S rel record) (w := objs2) (e := e)
      (Q := fun r objs' => ∀ v, r = some v → Verdict S rel record v objs')
      nofun
    cases e with
    | notFound =>
      refine Holds.pure fun objs3 hobjs3 _ => ?_
      rw [onOk_ok]
      rintro _ ⟨⟩
      exact hobjs3.2 (not_mine_of_absent (answer_head_notFound hanswer))
    | _ => exact hretry

/-- A create of the record keeps what stands at the key. -/
lemma keeps_put (hwf : record.WellFormed) (fault : Option Fault) (objs : Objects) (stamp : Stamp) :
    Keeps S rel record objs (inject fault objs stamp (.putIfAbsent (S.absolute rel)
      (S.encodeAt rel record) (Sha256.digest (S.encodeAt rel record)))).2 := by
  rcases inject_put fault objs stamp (S.absolute rel) (S.encodeAt rel record)
    (Sha256.digest (S.encodeAt rel record)) with hsame | ⟨habsent, hinsert⟩
  · rw [hsame]
    exact ⟨fun _ hs => hs, fun _ habsent hget => nomatch habsent.symm.trans hget⟩
  · rw [hinsert]
    refine ⟨fun stored hs => (nomatch habsent.symm.trans hs), fun stored _ hget => ?_⟩
    rw [OrderedMap.get?_insert_self] at hget
    cases hget
    exact decode_encode record hwf _ _

/-- A create that fails before it is sent leaves the objects. -/
lemma same_of_transport {fault : Option Fault} {stamp : Stamp} {key : Str} {body : Bytes}
    (h : (inject fault objs stamp (.putIfAbsent key body (Sha256.digest body))).1 = .error .transport) :
    (inject fault objs stamp (.putIfAbsent key body (Sha256.digest body))).2 = objs := by
  -- a create that reaches the store is answered with a value
  have hreached : ∀ e, (inject none objs stamp (.putIfAbsent key body (Sha256.digest body))).1 ≠
      .error e := by
    intro e
    cases hget : objs.get? key with
    | none => rw [put_absent hget]; nofun
    | some stored => rw [put_present hget]; nofun
  cases fault with
  | none => exact absurd h (hreached _)
  | some f =>
    cases f with
    | preTransmit => rfl
    | postTransmit why => cases h
    | postTransmitAfter why =>
      unfold inject at h
      dsimp only at h
      cases hout : (perform objs stamp (.putIfAbsent key body (Sha256.digest body))).1 with
      | ok a => rw [hout] at h; cases h
      | error e => exact absurd hout (hreached e)

/-- **One conditional write.**  While its record does not stand at the key, the call tells the
truth about the key. -/
theorem holds_putRecord {q : Queue} (hsite : q.site = S) (hwf : record.WellFormed)
    (hnot : ¬ Mine S rel record objs) :
    Holds (racer S rel record) (q.putRecord rel record) (Told S rel record) objs := by
  subst hsite
  refine Holds.retryWhile (I := fun objs => ¬ Mine q.site rel record objs) (fun objs1 _ hnot1 => ?_)
    (fun _ _ _ => trivial) trivial hnot _
  refine Holds.spend ?_ fun _ _ _ => ⟨nofun, nofun, fun _ _ => trivial⟩
  refine Holds.request (o := Op.store (.putIfAbsent _ _ _)) fun objs2 hobjs2 _ answer objs3 hanswer => ?_
  obtain ⟨fault, stamp, hinject⟩ := hanswer
  obtain rfl := congrArg Prod.snd hinject
  refine ⟨trivial, keeps_put hwf fault objs2 stamp, ?_⟩
  have hnot2 : ¬ Mine q.site rel record objs2 := hobjs2.2 hnot1
  cases hans : answer with
  | ok outcome =>
    cases outcome with
    | committed v =>
      obtain ⟨-, hinsert⟩ := answer_put_committed ((congrArg Prod.fst hinject).trans hans)
      have hmine : Mine q.site rel record (inject fault objs2 stamp (.putIfAbsent
          (q.site.absolute rel) (q.encodeAt rel record) _)).2 :=
        ⟨⟨q.encodeAt rel record, stamp.version, stamp.timeNs⟩,
          by rw [hinsert, OrderedMap.get?_insert_self], decode_encode record hwf _ _⟩
      refine Holds.pure fun objs4 hobjs4 _ => ⟨nofun, fun v hv => ?_, nofun⟩
      cases hv
      exact Mine.others hmine hobjs4
    -- the key was filled before, and not by this call, since nothing of its own was there
    | rejected =>
      obtain ⟨stored, hget⟩ := answer_put_rejected ((congrArg Prod.fst hinject).trans hans)
      have hget' := (show Keeps q.site rel record objs2 _ from keeps_put hwf fault objs2 stamp).1
        stored hget
      refine Holds.pure fun objs4 hobjs4 _ => ⟨nofun, fun v hv => ?_, nofun⟩
      cases hv
      exact Foreign.others ⟨stored, hget', fun hdec => hnot2 ⟨stored, hget, hdec⟩⟩ hobjs4
  | error e =>
    have hfail : Holds (racer q.site rel record) (Budgeted.fail (.store e)) (fun r objs' =>
        (r = .ok none → ¬ Mine q.site rel record objs') ∧
        (∀ v, r = .ok (some v) → Told q.site rel record (.ok v) objs') ∧
        ∀ e', r = .error e' → Told q.site rel record (.error e') objs')
        (inject fault objs2 stamp (.putIfAbsent (q.site.absolute rel) (q.encodeAt rel record)
          (Sha256.digest (q.encodeAt rel record)))).2 :=
      Holds.fail fun _ _ _ => ⟨nofun, nofun, fun _ _ => trivial⟩
    cases e with
    -- the put did not reach the store: the next round starts as this one did
    | transport =>
      rw [same_of_transport ((congrArg Prod.fst hinject).trans hans)]
      exact Holds.pure fun objs4 hobjs4 _ => ⟨fun _ => hobjs4.2 hnot2, nofun, nofun⟩
    -- the read decides; only `notCommitted` goes round again
    | outcomeUnknown why =>
      refine (holds_resolveUnknown rfl).bind (fun r objs4 hi _ hverdict => ?_)
        fun _ _ _ _ _ => ⟨nofun, nofun, fun _ _ => trivial⟩
      have hr := hverdict objs4 ((others q.site rel record).refl objs4) hi r rfl
      cases r with
      | committed =>
        refine Holds.pure fun objs5 hobjs5 _ => ⟨nofun, fun v hv => ?_, nofun⟩
        cases hv
        exact Mine.others hr hobjs5
      | lost =>
        refine Holds.pure fun objs5 hobjs5 _ => ⟨nofun, fun v hv => ?_, nofun⟩
        cases hv
        exact Foreign.others hr hobjs5
      | notCommitted =>
        exact Holds.pure fun objs5 hobjs5 _ => ⟨fun _ => hobjs5.2 hr, nofun, nofun⟩
    | notFound => exact hfail
    | integrityViolation => exact hfail
    | profileViolation text => exact hfail

end OneCall

/-! ## Racing calls -/

/-- One conditional write: the handle, the record it means to store, and its budget. -/
structure Put where
  queue : Queue
  record : Record
  wellFormed : record.WellFormed
  budget : Nat

/-- What the racing calls are doing. -/
abbrev Race := Config World Op Res Put (Except Error Resolved)

section Racing

variable [Sha256]

/-- Conditional writes at one key, interleaving over a world. -/
def resolving (rel : Key) :
    Machine World Op Res Choice Outside Put (Except Error Resolved) where
  exec i o c w := some (w.exec i o c)
  env e w := some (w.outside e)
  start _ _ w := some w
  finish _ _ _ := none
  prog put := (put.queue.putRecord rel put.record put.budget).map Prod.fst

/-- Calls on handles of one queue whose records are pairwise different.  Every request may meet
any fault, and nobody else touches the key. -/
def racing (S : Site) (rel : Key) :
    Profile World Op Res Choice Outside Put (Except Error Resolved) where
  start cfg _ put := put.queue.site = S ∧ ∀ j t, cfg.threads j = some t → t.call.record ≠ put.record
  step _ _ _ _ _ := True
  env _ e := Spares (S.absolute rel) e

variable (S : Site) (rel : Key)

/-- The outcome of a race is exact. -/
structure Exact (cfg : Race) : Prop where
  /-- There is at most one winner. -/
  unique : ∀ i j put put', cfg.Returned i put (.ok .committed) → cfg.Returned j put' (.ok .committed) → i = j
  committed : ∀ i put, cfg.Returned i put (.ok .committed) → Mine S rel put.record cfg.world.objects
  lost : ∀ i put, cfg.Returned i put (.ok .lost) → Foreign S rel put.record cfg.world.objects
  /-- A call whose write was applied does not lose. -/
  applied : ∀ i put r answer before after, .did i r answer before after ∈ cfg.world.log →
    Fills (S.absolute rel) (.did i r answer before after) → ¬ cfg.Returned i put (.ok .lost)
  resolved : ∀ i put, ¬ cfg.Returned i put (.ok .notCommitted)

/-- The invariant of a race. -/
structure Fair (cfg : Race) : Prop where
  safe : ∀ i t, cfg.threads i = some t → Safe service (others S rel t.call.record)
    (Keeps S rel t.call.record) t.prog (Told S rel t.call.record) cfg.world.objects
  distinct : ∀ i j t t', cfg.threads i = some t → cfg.threads j = some t' → t.call.record = t'.call.record → i = j
  /-- What stands at the key is the record of a call. -/
  origin : ∀ stored, cfg.world.objects.get? (S.absolute rel) = some stored →
    ∃ i t, cfg.threads i = some t ∧ S.decodeAt rel stored.body = .ok t.call.record
  /-- A call whose write was applied finds its record at the key. -/
  applied : ∀ i r answer before after, .did i r answer before after ∈ cfg.world.log →
    Fills (S.absolute rel) (.did i r answer before after) →
    ∃ t, cfg.threads i = some t ∧ Mine S rel t.call.record cfg.world.objects

variable {S rel} {cfg cfg' : Race}

/-- A move of one call is tolerated by every call with another record. -/
lemma others_of_keeps {r r' : Record} (hne : r ≠ r') {objs objs' : Objects}
    (h : Keeps S rel r objs objs') : (others S rel r').rel objs objs' := by
  refine ⟨h.1, fun hnot hmine => ?_⟩
  obtain ⟨stored, hget, hdec⟩ := hmine
  cases hbefore : objs.get? (S.absolute rel) with
  | none => exact hne (Except.ok.inj ((h.2 stored hbefore hget).symm.trans hdec))
  | some stored' =>
    cases (h.1 stored' hbefore).symm.trans hget
    exact hnot ⟨_, hbefore, hdec⟩

/-- Moving one thread, and the world along its guarantee. -/
lemma Fair.set (h : Fair S rel cfg) {i : Nat} {t t' : Thread Op Res Put (Except Error Resolved)}
    {w' : World} (hthread : cfg.threads i = some t) (hcall : t'.call = t.call)
    (hkeeps : Keeps S rel t.call.record cfg.world.objects w'.objects)
    (hsafe : Safe service (others S rel t.call.record) (Keeps S rel t.call.record) t'.prog
      (Told S rel t.call.record) w'.objects)
    (hlog : ∀ e ∈ w'.log, e ∈ cfg.world.log ∨ ∃ r answer, e = .did i r answer cfg.world.objects w'.objects) :
    Fair S rel (cfg.set w' i t') := by
  -- the calls of the threads are the same before and after the step
  have hcalls : ∀ j u, (cfg.set w' i t').threads j = some u → ∃ u', cfg.threads j = some u' ∧ u.call = u'.call := by
    intro j u hu
    by_cases hj : j = i
    · subst hj
      rw [Config.set_threads_self] at hu
      cases hu
      exact ⟨t, hthread, hcall⟩
    · rw [Config.set_threads_ne _ _ _ hj] at hu
      exact ⟨u, hu, rfl⟩
  have hback : ∀ j u, cfg.threads j = some u → ∃ u', (cfg.set w' i t').threads j = some u' ∧ u'.call = u.call := by
    intro j u hu
    by_cases hj : j = i
    · subst hj
      cases hthread.symm.trans hu
      exact ⟨t', Config.set_threads_self _ _ _ _, hcall⟩
    · exact ⟨u, by rwa [Config.set_threads_ne _ _ _ hj], rfl⟩
  refine ⟨fun j u hu => ?_, fun j k u v hu hv heq => ?_, fun stored hget => ?_,
    fun j r answer before after hmem hfills => ?_⟩
  · by_cases hj : j = i
    · subst hj
      rw [Config.set_threads_self] at hu
      cases hu
      rwa [hcall]
    · rw [Config.set_threads_ne _ _ _ hj] at hu
      have hne : t.call.record ≠ u.call.record := fun heq =>
        hj (h.distinct i j t u hthread hu heq).symm
      exact (h.safe j u hu).later (others_of_keeps hne hkeeps)
  · obtain ⟨u', hu', hcu⟩ := hcalls j u hu
    obtain ⟨v', hv', hcv⟩ := hcalls k v hv
    rw [hcu, hcv] at heq
    exact h.distinct j k u' v' hu' hv' heq
  · cases hbefore : cfg.world.objects.get? (S.absolute rel) with
    | none =>
      obtain ⟨u, hu, hcu⟩ := hback i t hthread
      exact ⟨i, u, hu, hcu ▸ hkeeps.2 stored hbefore hget⟩
    | some stored' =>
      cases (hkeeps.1 stored' hbefore).symm.trans hget
      obtain ⟨j, u, hu, hdec⟩ := h.origin _ hbefore
      obtain ⟨u', hu', hcu⟩ := hback j u hu
      exact ⟨j, u', hu', hcu ▸ hdec⟩
  · rcases hlog _ hmem with hold | ⟨r', answer', heq⟩
    · obtain ⟨u, hu, stored, hget, hdec⟩ := h.applied j r answer before after hold hfills
      obtain ⟨u', hu', hcu⟩ := hback j u hu
      exact ⟨u', hu', stored, hkeeps.1 stored hget, hcu ▸ hdec⟩
    · cases heq
      obtain ⟨u, hu, hcu⟩ := hback i t hthread
      obtain ⟨stored, hget⟩ := Option.ne_none_iff_exists'.mp hfills.2
      exact ⟨u, hu, stored, hget, hcu ▸ hkeeps.2 stored hfills.1 hget⟩

lemma step_fair (h : Fair S rel cfg) (hstep : (resolving rel).Step (racing S rel) cfg cfg') :
    Fair S rel cfg' := by
  cases hstep with
  | start i put w' hfree hadm hrun =>
    cases hrun
    obtain ⟨hsite, hnew⟩ := hadm
    have hother : ∀ {j t}, cfg.threads j = some t → j ≠ i := by
      rintro j t ht rfl
      rw [hfree] at ht
      cases ht
    have hkept : ∀ {j t}, cfg.threads j = some t →
        (cfg.set cfg.world i ⟨put, (resolving rel).prog put⟩).threads j = some t :=
      fun ht => by rwa [Config.set_threads_ne _ _ _ (hother ht)]
    -- whatever stands at the key belongs to a call with another record
    have hnot : ¬ Mine S rel put.record cfg.world.objects := by
      rintro ⟨stored, hget, hdec⟩
      obtain ⟨j, t, ht, hdec'⟩ := h.origin stored hget
      exact hnew j t ht (Except.ok.inj (hdec'.symm.trans hdec))
    refine ⟨fun j t ht => ?_, fun j k t u ht hu heq => ?_, fun stored hget => ?_,
      fun j r answer before after hmem hfills => ?_⟩
    · by_cases hj : j = i
      · subst hj
        rw [Config.set_threads_self] at ht
        cases ht
        exact Safe.map (holds_putRecord hsite put.wellFormed hnot put.budget)
      · rw [Config.set_threads_ne _ _ _ hj] at ht
        exact h.safe j t ht
    · by_cases hj : j = i <;> by_cases hk : k = i
      · exact hj.trans hk.symm
      · subst hj
        rw [Config.set_threads_self] at ht
        rw [Config.set_threads_ne _ _ _ hk] at hu
        cases ht
        exact absurd heq.symm (hnew k u hu)
      · subst hk
        rw [Config.set_threads_self] at hu
        rw [Config.set_threads_ne _ _ _ hj] at ht
        cases hu
        exact absurd heq (hnew j t ht)
      · rw [Config.set_threads_ne _ _ _ hj] at ht
        rw [Config.set_threads_ne _ _ _ hk] at hu
        exact h.distinct j k t u ht hu heq
    · obtain ⟨j, t, ht, hdec⟩ := h.origin stored hget
      exact ⟨j, t, hkept ht, hdec⟩
    · obtain ⟨t, ht, hmine⟩ := h.applied j r answer before after hmem hfills
      exact ⟨t, hkept ht, hmine⟩
  | step i put o k c r w' hthread hadm hrun =>
    obtain ⟨rfl, rfl⟩ := Prod.mk.inj (Option.some.inj hrun)
    have hanswer : service.answers o cfg.world.objects (cfg.world.exec i o c).1
        (cfg.world.exec i o c).2.objects := by
      cases o with
      | store r => exact ⟨c.fault, c.stamp, rfl⟩
      | _ => rfl
    obtain ⟨-, hkeeps, hrest⟩ := h.safe i _ hthread _ ((others S rel _).refl _) trivial _ _ hanswer
    refine h.set hthread rfl hkeeps hrest fun e he => ?_
    cases o with
    | store r =>
      rcases List.mem_cons.mp he with rfl | he
      · exact .inr ⟨r, _, rfl⟩
      · exact .inl he
    | _ => exact .inl he
  | choose i put k b hthread =>
    exact h.set hthread rfl ⟨fun _ hs => hs, fun _ habsent hget => nomatch habsent.symm.trans hget⟩
      (h.safe i _ hthread b) fun e he => .inl he
  | finish i put out w' hret hrun => cases hrun
  | env e w' hadm hrun =>
    cases hrun
    have hsame : (cfg.world.outside e).objects.get? (S.absolute rel) = cfg.world.objects.get? (S.absolute rel) := by
      cases e with
      | tick clock => rfl
      | write key stored => exact OrderedMap.get?_insert_of_ne _ _ (Ne.symm hadm)
      | delete key => exact OrderedMap.get?_erase_of_ne _ (Ne.symm hadm)
    have hmine : ∀ record, Mine S rel record (cfg.world.outside e).objects ↔
        Mine S rel record cfg.world.objects := by
      intro record
      unfold Mine
      rw [hsame]
    refine ⟨fun i t ht => (h.safe i t ht).later ⟨fun stored hs => hsame.trans hs,
      fun hnot => mt (hmine _).mp hnot⟩, h.distinct, fun stored hget => h.origin stored (hsame ▸ hget),
      fun i r answer before after hmem hfills => ?_⟩
    obtain ⟨t, ht, hm⟩ := h.applied i r answer before after (cfg.world.outside_log e ▸ hmem) hfills
    exact ⟨t, ht, (hmine _).mpr hm⟩

lemma run_fair {w : World} (hw : w.log = []) (habsent : w.objects.get? (S.absolute rel) = none)
    (hrun : (resolving rel).Run (racing S rel) (Machine.initial w) cfg) : Fair S rel cfg := by
  induction hrun with
  | refl =>
    refine ⟨fun _ _ ht => (nomatch ht), fun _ _ _ _ ht => (nomatch ht), fun stored hget => ?_,
      fun _ _ _ _ _ hmem => ?_⟩
    · have hget' : w.objects.get? (S.absolute rel) = some stored := hget
      rw [habsent] at hget'
      cases hget'
    · have hmem' : _ ∈ w.log := hmem
      rw [hw] at hmem'
      cases hmem'
  | tail _ hstep ih => exact step_fair ih hstep

/-- **Conditional writes resolve exactly.**  However calls with different records race for a free
key, and whichever of their requests fail, every result tells the truth. -/
theorem resolution_exact (S : Site) (rel : Key) (w : World) (hw : w.log = [])
    (habsent : w.objects.get? (S.absolute rel) = none) (cfg : Race)
    (hrun : (resolving rel).Run (racing S rel) (Machine.initial w) cfg) : Exact S rel cfg := by
  have h := run_fair hw habsent hrun
  have htold : ∀ i put r, cfg.Returned i put r → Told S rel put.record r cfg.world.objects :=
    fun i put r hret => h.safe i _ hret _ ((others S rel _).refl _) trivial
  refine ⟨fun i j put put' hi hj => ?_, fun i put hi => htold i put _ hi, fun i put hi => htold i put _ hi,
    fun i put r answer before after hmem hfills hlost => ?_, fun i put hi => htold i put _ hi⟩
  · obtain ⟨stored, hget, hdec⟩ : Mine S rel put.record cfg.world.objects := htold i put _ hi
    obtain ⟨stored', hget', hdec'⟩ : Mine S rel put'.record cfg.world.objects := htold j put' _ hj
    cases hget.symm.trans hget'
    exact h.distinct i j _ _ hi hj (Except.ok.inj (hdec.symm.trans hdec'))
  · obtain ⟨t, ht, stored, hget, hdec⟩ := h.applied i r answer before after hmem hfills
    cases hlost.symm.trans ht
    obtain ⟨stored', hget', hdec'⟩ : Foreign S rel put.record cfg.world.objects := htold i put _ hlost
    cases hget.symm.trans hget'
    exact hdec' hdec

end Racing

/-! ## A race -/

section Example

open Scenario

variable [Sha256]

/-- The first answer is lost. -/
def deaf : Nat → Option Fault
  | 0 => some (.postTransmitAfter .timeout)
  | _ => none

/-- A dead record of the small job with a reason. -/
def burying (reason : UInt64) : Put := ⟨demo, .dead ⟨jobZero, 1, 1, reason⟩, trivial, 3⟩

/-- A write from its start to its end, with nothing in between. -/
def written (i : Nat) (put : Put) (cfg : Race) : Race :=
  let done := ((resolving (.dead 0 jobZero)).prog put).run (plainly deaf i) cfg.world
  cfg.set done.2 i ⟨put, .ret done.1⟩

lemma run_written {cfg : Race} {i : Nat} {put : Put} (hfree : cfg.threads i = none)
    (hadm : (racing demo.site (.dead 0 jobZero)).start cfg i put) :
    (resolving (.dead 0 jobZero)).Run (racing demo.site (.dead 0 jobZero)) cfg (written i put cfg) := by
  have hanswers : Machine.Answers (resolving (.dead 0 jobZero)) (racing demo.site (.dead 0 jobZero)) i put
      (fun _ => True) (fun _ => True) (plainly deaf i) :=
    ⟨fun o w _ _ => ⟨plain deaf w, trivial, rfl⟩, fun _ _ _ _ => trivial⟩
  have hsolo := Machine.run_solo hanswers (.any ((resolving (.dead 0 jobZero)).prog put))
    (Config.set_threads_self cfg cfg.world i _) trivial
  rw [Config.set_world, Machine.set_set] at hsolo
  exact (Machine.run_start (M := resolving (.dead 0 jobZero)) i put hfree hadm rfl).trans hsolo

lemma returned_written {cfg : Race} {i : Nat} {put : Put} {out : Except Error Resolved}
    (hout : (((resolving (.dead 0 jobZero)).prog put).run (plainly deaf i) cfg.world).1 = out) :
    (written i put cfg).Returned i put out :=
  hout ▸ Config.set_threads_self _ _ _ _

end Example

open Scenario

/-- A race: the answer to the first write is lost, and it is resolved as committed; the second write finds the
record of the first at the key and loses. -/
theorem resolution_exact_race : ∃ (_ : Sha256) (cfg : Race),
    cfg.Returned 0 (burying 0) (.ok .committed) ∧ cfg.Returned 1 (burying 1) (.ok .lost) ∧
      Exact demo.site (.dead 0 jobZero) cfg := by
  let hash := Sha256.zero
  let first : Race := written 0 (burying 0) (Machine.initial (blank 0))
  let second : Race := written 1 (burying 1) first
  have hzero : first.Returned 0 (burying 0) (.ok .committed) := returned_written (by decide +kernel)
  have hone : second.Returned 1 (burying 1) (.ok .lost) := returned_written (by decide +kernel)
  have hdistinct : (racing demo.site (.dead 0 jobZero)).start first 1 (burying 1) := by
    refine ⟨rfl, fun j t ht => ?_⟩
    by_cases hj : j = 0
    · rw [hj, show first.threads 0 = _ from hzero] at ht
      cases ht
      decide
    · rw [show first.threads j = _ from Config.set_threads_ne _ _ _ hj] at ht
      cases ht
  have hrun : (resolving _).Run _ (Machine.initial (blank 0)) second :=
    (run_written rfl ⟨rfl, fun _ _ ht => by cases ht⟩).trans (run_written rfl hdistinct)
  exact ⟨hash, second, (Config.set_threads_ne _ _ _ (by decide)).trans hzero, hone,
    resolution_exact demo.site (.dead 0 jobZero) (blank 0) rfl rfl _ hrun⟩

end Resolution
end StowQ
