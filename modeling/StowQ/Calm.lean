import StowQ.Concurrent.Ends
import StowQ.Core.Footprint
import StowQ.Scenario.Basic

/-!
# Calls that are left alone

A call is left alone at a set of keys when its own requests meet no fault and nobody else
changes the objects at those keys while it runs.  Elsewhere anything may happen.  The call is
then analysed over the objects alone: `Ends (calm K G)` assumes that the objects at `K` stay,
and shows that every request of the call moves the objects along `G`.  `run_ends` carries the
result over to runs in which all other calls are free.
-/

namespace StowQ
namespace Calm

open Data StowQ.Core Store Format Concurrent Interleaving

variable {r : Request} {stored : Stored} {shard : UInt16} {jobId : ByteArr 16} {P : Terms}

/-- The objects at the keys `K` are the same. -/
def agree (K : Set Str) : Rely Objects where
  rel objs objs' := ∀ key ∈ K, objs'.get? key = objs.get? key
  refl _ _ _ := rfl
  trans h h' key hkey := (h' key hkey).trans (h key hkey)

lemma agree_insert {K : Set Str} {objs objs' : Objects} (h : (agree K).rel objs objs') (key : Str)
    (stored : Stored) : (agree K).rel (objs.insert key stored) (objs'.insert key stored) := by
  intro key' hkey'
  rw [OrderedMap.get?_insert, OrderedMap.get?_insert, h key' hkey']

/-- Any move. -/
def anywhere : Rely Objects where
  rel _ _ := True
  refl _ := trivial
  trans _ _ := trivial

/-- No move. -/
def nowhere : Rely Objects where
  rel objs objs' := objs' = objs
  refl _ := rfl
  trans h h' := h'.trans h

section Rules

variable [Sha256]

/-- Every request is answered without a fault. -/
def service : Service Objects Op Res where
  answers
    | .store r, objs, answer, objs' => ∃ stamp, inject none objs stamp r = (answer, objs')
    | _, objs, _, objs' => objs' = objs
  inv _ := True

/-- The discipline of a call that is left alone at `K` and moves the objects along `G`. -/
def calm (K : Set Str) (G : Rely Objects) : Discipline Objects Op Res where
  service := service
  rely := agree K
  guar := G.rel
  order := anywhere
  rely_order _ _ _ _ := trivial
  guar_order _ _ _ _ _ := trivial

variable {K : Set Str} {G : Rely Objects} {α β : Type} {b : Nat} {objs : Objects} {key : Str}
  {Q : Except Error β → Nat → Objects → Prop}

/-- One store request; what it is answered is determined by `K`. -/
lemma ends_store {f : StoreResult r.Answer → Routine β}
    (h : ∀ objs1 stamp, (agree K).rel objs objs1 → G.rel objs1 (inject none objs1 stamp r).2 ∧
      Ends (calm K G) (f (inject none objs1 stamp r).1) b Q (inject none objs1 stamp r).2) :
    Ends (calm K G) (Routine.store r >>= f) b Q objs := by
  refine Ends.request (o := Op.store r) fun objs1 hobjs1 _ answer objs2 hanswer => ?_
  obtain ⟨stamp, hstamp⟩ := hanswer
  have hnext := h objs1 stamp hobjs1
  rw [hstamp] at hnext
  exact ⟨trivial, hnext.1, hnext.2⟩

lemma ends_head {f : StoreResult Meta → Routine β} (hkey : key ∈ K)
    (h : Ends (calm K G) (f (head objs key)) b Q objs) :
    Ends (calm K G) (Routine.head key >>= f) b Q objs := by
  refine ends_store (r := .head key) fun objs1 stamp hobjs1 => ⟨G.refl objs1, ?_⟩
  have hsame : head objs1 key = head objs key := by
    unfold head
    rw [hobjs1 key hkey]
  show Ends (calm K G) (f (head objs1 key)) b Q objs1
  rw [hsame]
  exact h.later hobjs1

lemma ends_get {f : StoreResult Object → Routine β} (hkey : key ∈ K)
    (h : Ends (calm K G) (f (Store.get objs key)) b Q objs) :
    Ends (calm K G) (Routine.get key >>= f) b Q objs := by
  refine ends_store (r := .get key) fun objs1 stamp hobjs1 => ⟨G.refl objs1, ?_⟩
  have hsame : Store.get objs1 key = Store.get objs key := by
    unfold Store.get
    rw [hobjs1 key hkey]
  show Ends (calm K G) (f (Store.get objs1 key)) b Q objs1
  rw [hsame]
  exact h.later hobjs1

/-- A look or a read by itself moves nothing. -/
lemma safe_read {answer : StoreResult r.Answer} (hr : r.reads = true)
    (h : ∀ objs1 stamp, (agree K).rel objs objs1 → (inject none objs1 stamp r).1 = answer) :
    Safe service (agree K) nowhere.rel (Prog.request (Op.store r) : Prog Op Res (StoreResult r.Answer))
      (fun a objs' => a = answer ∧ (agree K).rel objs objs') objs := by
  intro objs1 hobjs1 _ a objs2 ⟨stamp, hstamp⟩
  have hsame : objs2 = objs1 := by
    have hread : (inject none objs1 stamp r).2 = objs1 := inject_reads hr
    rw [← hread, hstamp]
  subst hsame
  refine ⟨trivial, rfl, fun objs3 hobjs3 _ => ⟨?_, (agree K).trans hobjs1 hobjs3⟩⟩
  rw [← h _ stamp hobjs1, hstamp]

lemma safe_head (hkey : key ∈ K) : Safe service (agree K) nowhere.rel
    (Prog.request (Op.store (.head key)) : Prog Op Res (StoreResult Meta))
    (fun a objs' => a = head objs key ∧ (agree K).rel objs objs') objs := by
  refine safe_read (r := .head key) rfl fun objs1 stamp hobjs1 => ?_
  show head objs1 key = head objs key
  unfold head
  rw [hobjs1 key hkey]

lemma safe_get (hkey : key ∈ K) : Safe service (agree K) nowhere.rel
    (Prog.request (Op.store (.get key)) : Prog Op Res (StoreResult Object))
    (fun a objs' => a = Store.get objs key ∧ (agree K).rel objs objs') objs := by
  refine safe_read (r := .get key) rfl fun objs1 stamp hobjs1 => ?_
  show Store.get objs1 key = Store.get objs key
  unfold Store.get
  rw [hobjs1 key hkey]

lemma safe_join {p : Prog Op Res α} {p' : Prog Op Res β} {M : α → Objects → Prop}
    {M' : β → Objects → Prop} (hp : Safe service (agree K) nowhere.rel p M objs)
    (hp' : Safe service (agree K) nowhere.rel p' M' objs) :
    Safe service (agree K) G.rel (p.join p') (fun out objs' => M out.1 objs' ∧ M' out.2 objs') objs := by
  have hstill : ∀ a b : Objects, nowhere.rel a b → (agree K).rel a b := by
    rintro a b rfl
    exact (agree K).refl _
  refine (Safe.join hp hp' (fun a b _ _ => hstill a b) fun a b _ _ => hstill a b).weaken
    (fun _ _ hr => ⟨hr, hr⟩) fun a b hg => ?_
  rcases hg with rfl | rfl <;> exact G.refl _

lemma ends_put {body : Bytes} {f : StoreResult PutOutcome → Routine β} (hkey : key ∈ K)
    (habsent : objs.get? key = none)
    (h : ∀ stamp : Stamp, let stored : Stored := ⟨body, stamp.version, stamp.timeNs⟩
      (∀ objs1, objs1.get? key = none → G.rel objs1 (objs1.insert key stored)) ∧
        Ends (calm K G) (f (.ok (.committed stamp.version))) b Q (objs.insert key stored)) :
    Ends (calm K G) (Routine.put key body >>= f) b Q objs := by
  refine ends_store (r := .putIfAbsent key body _) fun objs1 stamp hobjs1 => ?_
  have habsent1 : objs1.get? key = none := (hobjs1 key hkey).trans habsent
  rw [put_absent habsent1]
  exact ⟨(h stamp).1 objs1 habsent1, (h stamp).2.later (agree_insert hobjs1 key _)⟩

lemma ends_put_present {body : Bytes} {f : StoreResult PutOutcome → Routine β} (hkey : key ∈ K)
    (hpresent : objs.get? key = some stored) (h : Ends (calm K G) (f (.ok .rejected)) b Q objs) :
    Ends (calm K G) (Routine.put key body >>= f) b Q objs := by
  refine ends_store (r := .putIfAbsent key body _) fun objs1 stamp hobjs1 => ?_
  rw [put_present ((hobjs1 key hkey).trans hpresent)]
  exact ⟨G.refl objs1, h.later hobjs1⟩

/-- A request that leaves the keys `K` alone. -/
def Aside (K : Set Str) (G : Rely Objects) (o : Op) : Prop :=
  ∀ r, o = .store r → ∀ objs stamp, (agree K).rel objs (inject none objs stamp r).2 ∧
    G.rel objs (inject none objs stamp r).2

lemma aside_reads (h : r.reads = true) : Aside K G (.store r) := by
  rintro _ ⟨⟩ objs stamp
  rw [inject_reads h]
  exact ⟨(agree K).refl objs, G.refl objs⟩

/-- A create or an overwrite of a key outside `K`. -/
lemma aside_writes (h : ∀ key body, r.Writes key body → key ∉ K) (hdelete : ∀ key, r ≠ .delete key)
    (hG : ∀ objs key stored, r.Writes key stored.body → G.rel objs (objs.insert key stored)) :
    Aside K G (.store r) := by
  rintro _ ⟨⟩ objs stamp
  have hchange := inject_change none objs stamp r
  generalize (inject none objs stamp r).2 = objs' at hchange
  have hinsert : ∀ (key' : Str) (stored : Stored), r.Writes key' stored.body →
      (agree K).rel objs (objs.insert key' stored) ∧ G.rel objs (objs.insert key' stored) :=
    fun key' stored hw => ⟨fun key hkey => OrderedMap.get?_insert_of_ne _ _ (by
      rintro rfl
      exact h key _ hw hkey), hG objs key' stored hw⟩
  cases hchange with
  | same => exact ⟨(agree K).refl objs, G.refl objs⟩
  | created key' body hreq habsent => exact hinsert key' _ ⟨_, .inl hreq⟩
  | replaced key' body old hreq hpresent => exact hinsert key' _ ⟨_, .inr ⟨_, hreq⟩⟩
  | removed key' hreq => exact absurd hreq (hdelete key')

lemma ends_aside {m : Routine α} (hemits : Budgeted.Emits (Aside K G) m)
    (hok : Budgeted.Succeeds m) : Ends (calm K G) m b
      (fun r _ objs' => (∃ a, r = .ok a) ∧ (agree K).rel objs objs') objs := by
  refine Ends.of_emits hemits.prog hok (fun _ _ hr hK => (agree K).trans hK hr)
    (fun o ho objs1 r objs2 _ hK hr => ?_) ((agree K).refl objs)
  cases o with
  | store r =>
    obtain ⟨stamp, hstamp⟩ := hr
    have hside := ho _ rfl objs1 stamp
    rw [hstamp] at hside
    exact ⟨trivial, hside.2, (agree K).trans hK hside.1⟩
  | _ =>
    obtain rfl : objs2 = objs1 := hr
    exact ⟨trivial, G.refl _, hK⟩

/-! ## Operations -/

section Operations

variable {q : Queue} {rel : Keys.Key} {record : Record}

lemma ends_spend {f : Unit → Routine β} (h : Ends (calm K G) (f ()) b Q objs) :
    Ends (calm K G) (Routine.spend >>= f) (b + 1) Q objs :=
  h.spend

lemma ends_ofStore {r : StoreResult α} {f : α → Routine β} {a : α} (hr : r = .ok a)
    (h : Ends (calm K G) (f a) b Q objs) : Ends (calm K G) (Routine.ofStore r >>= f) b Q objs := by
  subst hr
  exact h

lemma ends_provenAbsent {f : Bool → Routine β} (hkey : q.absolute rel ∈ K)
    (h : Ends (calm K G) (f (objs.get? (q.absolute rel)).isNone) b Q objs) :
    Ends (calm K G) (q.provenAbsent rel >>= f) (b + 1) Q objs := by
  have hprobe : Ends (calm K G) (q.provenAbsent rel) (b + 1) (fun r left objs' =>
      r = .ok (objs.get? (q.absolute rel)).isNone ∧ left = b ∧ (agree K).rel objs objs') objs := by
    refine ends_spend (ends_head hkey ?_)
    unfold head
    cases objs.get? (q.absolute rel) with
    | none => exact Ends.pure fun _ hobjs' _ => ⟨rfl, rfl, hobjs'⟩
    | some stored => exact Ends.pure fun _ hobjs' _ => ⟨rfl, rfl, hobjs'⟩
  refine hprobe.bind (fun a left objs' _ ⟨ha, hleft, hobjs'⟩ => ?_) fun e _ _ _ ⟨he, _⟩ => by cases he
  cases ha
  subst hleft
  exact h.later hobjs'

lemma ends_putRecord {f : Resolved → Routine β} (hkey : q.absolute rel ∈ K)
    (habsent : objs.get? (q.absolute rel) = none)
    (h : ∀ stamp : Stamp, let stored : Stored := ⟨q.encodeAt rel record, stamp.version, stamp.timeNs⟩
      (∀ objs1, objs1.get? (q.absolute rel) = none → G.rel objs1 (objs1.insert (q.absolute rel) stored)) ∧
        Ends (calm K G) (f .committed) b Q (objs.insert (q.absolute rel) stored)) :
    Ends (calm K G) (q.putRecord rel record >>= f) (b + 1) Q objs := by
  have hput : Ends (calm K G) (q.putRecord rel record) (b + 1) (fun r left objs' =>
      r = .ok .committed ∧ left = b ∧ ∃ stamp : Stamp, (agree K).rel
        (objs.insert (q.absolute rel) ⟨q.encodeAt rel record, stamp.version, stamp.timeNs⟩) objs')
      objs := by
    refine Ends.retry (ends_spend (ends_put hkey habsent fun stamp => ⟨(h stamp).1, ?_⟩))
    exact Ends.pure fun _ hobjs' _ => .inl ⟨_, rfl, rfl, rfl, stamp, hobjs'⟩
  refine hput.bind (fun a left objs' _ ⟨ha, hleft, stamp, hobjs'⟩ => ?_)
    fun e _ _ _ ⟨he, _⟩ => by cases he
  cases ha
  subst hleft
  exact (h stamp).2.later hobjs'

lemma ends_putRecord_present {f : Resolved → Routine β} (hkey : q.absolute rel ∈ K)
    (hpresent : objs.get? (q.absolute rel) = some stored) (h : Ends (calm K G) (f .lost) b Q objs) :
    Ends (calm K G) (q.putRecord rel record >>= f) (b + 1) Q objs := by
  have hput : Ends (calm K G) (q.putRecord rel record) (b + 1) (fun r left objs' =>
      r = .ok .lost ∧ left = b ∧ (agree K).rel objs objs') objs := by
    refine Ends.retry (ends_spend (ends_put_present hkey hpresent ?_))
    exact Ends.pure fun _ hobjs' _ => .inl ⟨_, rfl, rfl, rfl, hobjs'⟩
  refine hput.bind (fun a left objs' _ ⟨ha, hleft, hobjs'⟩ => ?_) fun e _ _ _ ⟨he, _⟩ => by cases he
  cases ha
  subst hleft
  exact h.later hobjs'

lemma ends_readBack (hkey : key ∈ K) (hget : objs.get? key = some stored) :
    Ends (calm K G) (Queue.readRetrying key) (b + 1) (fun r left objs' =>
      r = .ok ⟨stored.info, stored.body⟩ ∧ left = b ∧ (agree K).rel objs objs') objs := by
  refine Ends.retry (ends_spend (ends_get hkey ?_))
  have hok : Store.get objs key = .ok ⟨stored.info, stored.body⟩ := by
    unfold Store.get
    rw [hget]
  rw [hok]
  exact Ends.pure fun _ hobjs' _ => .inl ⟨_, rfl, rfl, rfl, hobjs'⟩

lemma ends_readRetrying {f : Object → Routine β} (hkey : key ∈ K) (hget : objs.get? key = some stored)
    (h : Ends (calm K G) (f ⟨stored.info, stored.body⟩) b Q objs) :
    Ends (calm K G) (Queue.readRetrying key >>= f) (b + 1) Q objs := by
  refine (ends_readBack hkey hget).bind (fun a left objs' _ ⟨ha, hleft, hobjs'⟩ => ?_)
    fun e _ _ _ ⟨he, _⟩ => by cases he
  cases ha
  subst hleft
  exact h.later hobjs'

/-- A program that does not fail, where any move will do. -/
lemma ends_any {m : Routine α} (hG : ∀ a b, G.rel a b) (hok : Budgeted.Succeeds m) :
    Ends (calm K G) m b (fun r _ _ => ∃ a, r = .ok a) objs := by
  have hends := Ends.of_emits (D := calm K G) (b := b) (w := objs) (A := fun _ => True)
    (K := fun _ => True) (fun b => .any (m b)) hok (fun _ _ _ _ => trivial)
    (fun _ _ _ _ _ _ _ _ => ⟨trivial, hG _ _, trivial⟩) trivial
  exact hends.mono fun _ _ _ _ _ h => h.1

/-! Best-effort updates do not fail. -/

omit [Sha256] in
lemma succeeds_trySpend : Budgeted.Succeeds Routine.trySpend := by
  refine (Budgeted.Succeeds.attempt _).bind fun r => ?_
  cases r <;> exact Budgeted.Succeeds.pure _

lemma succeeds_writeTailHint {generation : UInt64} {known : Option (Version × UInt64)} :
    Budgeted.Succeeds (q.writeTailHint shard jobId generation known) := by
  unfold Queue.writeTailHint
  split
  · cases known with
    | none =>
      refine succeeds_trySpend.bind fun paid => ?_
      cases paid
      · exact Budgeted.Succeeds.pure _
      · exact (Budgeted.Succeeds.request _).bind fun _ => Budgeted.Succeeds.pure _
    | some k =>
      dsimp only
      split
      · exact Budgeted.Succeeds.pure _
      · refine succeeds_trySpend.bind fun paid => ?_
        cases paid
        · exact Budgeted.Succeeds.pure _
        · exact (Budgeted.Succeeds.request _).bind fun _ => Budgeted.Succeeds.pure _
  · exact Budgeted.Succeeds.pure _

lemma succeeds_updateTailHint {generation : UInt64} :
    Budgeted.Succeeds (q.updateTailHint shard jobId generation) := by
  unfold Queue.updateTailHint
  split
  · refine (Budgeted.Succeeds.attempt _).bind fun r => ?_
    split
    · exact succeeds_writeTailHint
    · exact Budgeted.Succeeds.pure _
  · exact Budgeted.Succeeds.pure _

lemma succeeds_writeTermidx {kind : Keys.TermKind} : Budgeted.Succeeds (q.writeTermidx kind shard jobId) := by
  refine succeeds_trySpend.bind fun paid => ?_
  split
  · refine (Budgeted.Succeeds.attempt _).bind fun r => ?_
    split
    · exact Budgeted.Succeeds.pure _
    · split
      · exact Budgeted.Succeeds.pure _
      · refine succeeds_trySpend.bind fun paid => ?_
        split
        · exact (Budgeted.Succeeds.request _).bind fun _ => Budgeted.Succeeds.pure _
        · exact Budgeted.Succeeds.pure _
  · exact Budgeted.Succeeds.pure _

end Operations

/-! ## Runs -/

/-- Call `j` is left alone at `K`: its requests meet no fault, and nobody else changes the
objects there. -/
def terms (K : Set Str) (j : Nat) : Terms where
  start _ _ _ := True
  step w i _ o c :=
    if i = j then c.fault = none else (agree K).rel w.objects (w.exec i o c).2.objects
  env w e := (agree K).rel w.objects (w.outside e).objects

lemma step_self {K : Set Str} {j : Nat} {w : World} {call : Call} {o : Op} {c : Choice} :
    (terms K j).step w j call o c ↔ c.fault = none := by
  unfold terms
  exact iff_of_eq (if_pos rfl)

/-- Nobody changes the objects at `K`, whatever else happens. -/
def undisturbed (K : Set Str) : Terms where
  start _ _ _ := True
  step w i _ o c := (agree K).rel w.objects (w.exec i o c).2.objects
  env w e := (agree K).rel w.objects (w.outside e).objects

lemma run_undisturbed {K : Set Str} {cfg cfg' : Calls} (hrun : machine.Run (undisturbed K) cfg cfg') :
    (agree K).rel cfg.world.objects cfg'.world.objects := by
  induction hrun with
  | refl => exact (agree K).refl _
  | tail _ hstep ih =>
    cases step_happens hstep with
    | noted e he hworld =>
      rw [hworld]
      exact ih
    | asked i call r k c hthread hadm hcfg =>
      rw [hcfg]
      exact (agree K).trans ih hadm
    | moved e hadm hworld =>
      rw [hworld]
      exact (agree K).trans ih hadm
    | silent hobjs hlog =>
      rw [hobjs]
      exact ih

/-- The configuration in which call `j` has just started. -/
def starting (cfg : Calls) (j : Nat) (call : Call) : Calls :=
  cfg.set (cfg.world.record (.started j call)) j ⟨call, call.prog⟩

variable {j : Nat} {call : Call} {before after : Calls}
  {R : Except Error Output → Nat → Objects → Prop}

/-- Every request that call `j` has made since `log` moved the store by `G`. -/
def Moved (G : Objects → Objects → Prop) (j : Nat) (log : List Event) (w : World) : Prop :=
  ∃ new, w.log = new ++ log ∧ ∀ r answer objs objs', .did j r answer objs objs' ∈ new → G objs objs'

section Moved

variable {M : Objects → Objects → Prop} {log : List Event} {w w' : World}

omit [Sha256] in
lemma Moved.cons {e : Event} (h : Moved M j log w) (hlog : w'.log = e :: w.log)
    (he : ∀ r answer objs objs', e = .did j r answer objs objs' → M objs objs') :
    Moved M j log w' := by
  obtain ⟨new, hnew, hmoves⟩ := h
  refine ⟨e :: new, by rw [hlog, hnew, List.cons_append], fun r answer objs objs' hmem => ?_⟩
  rcases List.mem_cons.mp hmem with heq | hmem
  · exact he r answer objs objs' heq.symm
  · exact hmoves r answer objs objs' hmem

omit [Sha256] in
lemma Moved.congr (h : Moved M j log w) (hlog : w'.log = w.log) : Moved M j log w' := by
  unfold Moved at h ⊢
  rwa [hlog]

lemma Moved.step {i : Nat} {o : Op} {c : Choice} (h : Moved M j log w)
    (ho : i = j → M w.objects (w.exec i o c).2.objects) : Moved M j log (w.exec i o c).2 := by
  cases o with
  | store r =>
    refine h.cons rfl fun r' answer objs objs' heq => ?_
    cases heq
    exact ho rfl
  | _ => exact h.congr rfl

end Moved

/-- The terms of a run suit the discipline in which call `j` was analysed: its requests are
answered as the discipline says, and whatever else happens lies in the rely. -/
structure Suits (P : Terms) (D : Discipline Objects Op Res) (j : Nat) (call : Call)
    (reached : Calls → Prop) : Prop where
  answers : ∀ cfg o c, reached cfg → P.step cfg.world j call o c →
    D.service.answers o cfg.world.objects (cfg.world.exec j o c).1 (cfg.world.exec j o c).2.objects
  others : ∀ cfg i call' o k c, reached cfg → D.service.inv cfg.world.objects → i ≠ j →
    cfg.threads i = some ⟨call', .op o k⟩ → P.step cfg.world i call' o c →
    D.rely.rel cfg.world.objects (cfg.world.exec i o c).2.objects ∧ D.service.inv (cfg.world.exec i o c).2.objects
  env : ∀ cfg e, reached cfg → D.service.inv cfg.world.objects → P.env cfg.world e →
    D.rely.rel cfg.world.objects (cfg.world.outside e).objects ∧ D.service.inv (cfg.world.outside e).objects

/-- What is left of call `j` is safe, and so far it has kept to the guarantee. -/
structure Resumes (D : Discipline Objects Op Res) (j : Nat) (call : Call)
    (R : Except Error Output → Nat → Objects → Prop) (log : List Event) (cfg : Calls) : Prop where
  moved : Moved D.guar j log cfg.world
  inv : D.service.inv cfg.world.objects
  rest : ∃ p, cfg.threads j = some ⟨call, p⟩ ∧
    Safe D.service D.rely D.guar p (fun out objs => ∃ left, R out left objs) cfg.world.objects

lemma step_resumes {D : Discipline Objects Op Res} {reached : Calls → Prop}
    (hsuits : Suits P D j call reached) {log : List Event} {cfg cfg' : Calls} (h : Resumes D j call R log cfg)
    (hreached : reached cfg) (hstep : machine.Step P cfg cfg') : Resumes D j call R log cfg' := by
  obtain ⟨hmoved, hinv, p, hthread, hsafe⟩ := h
  cases hstep with
  | start i call' w' hfree hadm hrun =>
    cases hrun
    have hij : j ≠ i := by
      rintro rfl
      rw [hthread] at hfree
      cases hfree
    exact ⟨hmoved.cons rfl fun _ _ _ _ heq => absurd heq (Event.started_ne_did _ _ _ _ _ _ _), hinv,
      p, by rwa [Config.set_threads_ne _ _ _ hij], hsafe⟩
  | step i call' o k c r w' hthread' hadm hrun =>
    obtain ⟨rfl, rfl⟩ := Prod.mk.inj (Option.some.inj hrun)
    -- the call's own request is answered as its discipline says; other requests are the rely
    by_cases hij : i = j
    · subst hij
      cases hthread.symm.trans hthread'
      have hanswer := hsuits.answers cfg o c hreached hadm
      obtain ⟨hinv', hguar, hrest⟩ := hsafe _ (D.rely.refl _) hinv _ _ hanswer
      exact ⟨hmoved.step fun _ => hguar, hinv', _, Config.set_threads_self _ _ _ _, hrest⟩
    · obtain ⟨hrely, hinv'⟩ := hsuits.others cfg i call' o k c hreached hinv hij hthread' hadm
      exact ⟨hmoved.step fun h => absurd h hij, hinv', p,
        by rwa [Config.set_threads_ne _ _ _ (Ne.symm hij)], hsafe.later hrely⟩
  | choose i call' k c hthread' =>
    by_cases hij : i = j
    · subst hij
      cases hthread.symm.trans hthread'
      exact ⟨hmoved, hinv, _, Config.set_threads_self _ _ _ _, hsafe c⟩
    · exact ⟨hmoved, hinv, p, by rwa [Config.set_threads_ne _ _ _ (Ne.symm hij)], hsafe⟩
  | finish i call' out w' hret hrun =>
    obtain rfl := finish_eq_some hrun
    exact ⟨hmoved.cons rfl fun _ _ _ _ heq => absurd heq (Event.returned_ne_did _ _ _ _ _ _ _), hinv,
      p, hthread, hsafe⟩
  | env e w' hadm hrun =>
    cases hrun
    obtain ⟨hrely, hinv'⟩ := hsuits.env cfg e hreached hinv hadm
    exact ⟨hmoved.congr (cfg.world.outside_log e), hinv', p, hthread, hsafe.later hrely⟩

/-- **A call in a run that suits its discipline** ends as its program says, whatever else
runs. -/
theorem run_suited {D : Discipline Objects Op Res}
    (hsuits : Suits P D j call fun cfg => machine.Run P (starting before j call) cfg)
    (hinv : D.service.inv before.world.objects)
    (h : Ends D (call.action.task call.queue) call.budget R before.world.objects)
    (hrun : machine.Run P (starting before j call) after) :
    Moved D.guar j before.world.log after.world ∧ D.service.inv after.world.objects ∧
      ∀ out, after.Returned j call out → ∃ left, R out left after.world.objects := by
  have hresumes : Resumes D j call R before.world.log after := by
    induction hrun with
    | refl =>
      refine ⟨⟨[_], rfl, fun _ _ _ _ hmem => by cases List.mem_singleton.mp hmem⟩, hinv, _,
        Config.set_threads_self _ _ _ _, Safe.map (Safe.mono h fun out _ _ hR => ⟨out.2, hR⟩)⟩
    | tail hbefore hstep ih => exact step_resumes hsuits ih hbefore hstep
  obtain ⟨hmoved, hinv', p, hthread, hsafe⟩ := hresumes
  refine ⟨hmoved, hinv', fun out hret => ?_⟩
  cases hthread.symm.trans hret
  exact hsafe _ (D.rely.refl _) hinv'

/-- **A call that is left alone** ends as its program says, whatever else runs. -/
theorem run_ends (h : Ends (calm K G) (call.action.task call.queue) call.budget R before.world.objects)
    (hrun : machine.Run (terms K j) (starting before j call) after) :
    Moved G.rel j before.world.log after.world ∧
      ∀ out, after.Returned j call out → ∃ left, R out left after.world.objects := by
  have hsuits : Suits (terms K j) (calm K G) j call
      fun cfg => machine.Run (terms K j) (starting before j call) cfg := by
    refine ⟨fun cfg o c _ hadm => ?_, fun cfg i call' o k c _ _ hij _ hadm => ?_, fun _ _ _ _ hadm => ⟨hadm, trivial⟩⟩
    · have hfault : c.fault = none := (if_pos rfl).mp hadm
      cases o with
      | store r => exact ⟨c.stamp, hfault ▸ rfl⟩
      | _ => rfl
    · exact ⟨(if_neg hij).mp hadm, trivial⟩
  obtain ⟨hmoved, -, hout⟩ := run_suited hsuits trivial h hrun
  exact ⟨hmoved, hout⟩

/-- A call that may meet no fault can return. -/
lemma run_returns (call : Call) (hstep : ∀ o w, P.step w j call o (Scenario.plain Scenario.faultless w))
    (before : Calls) : ∃ after out, machine.Run P (starting before j call) after ∧ after.Returned j call out :=
  ⟨_, _, Scenario.solo_plainly hstep, Scenario.play_returned rfl⟩

end Rules

end Calm
end StowQ
