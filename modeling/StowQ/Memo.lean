import StowQ.Core.ScanRules
import StowQ.Core.Upkeep
import StowQ.Gc.Tombstone

/-!
# The memo of terminal jobs

A scan that finds a terminal record of a listed job memoizes the job with the version of its
entry, and later scans of the handle skip the entry while it has that version.  On a store
that never reuses a version the memo is right as long as a terminal record is deleted only
when its job record is gone: `memo_skips_settled`.

A collection does delete the job record first, but somebody may enqueue the job again before
it deletes the terminal record.  A scan in between memoizes the new entry: `memo_skips_live`.
-/

namespace StowQ
namespace Memo

open Data StowQ.Core Store Format Concurrent Interleaving

variable {v : Version} {c : Choice} {r : Request} {shard : UInt16} {jobId : ByteArr 16}

/-- The store has assigned the version to an object. -/
def Used (w : World) (v : Version) : Prop :=
  (∃ key stored, w.objects.get? key = some stored ∧ stored.version = v) ∨
    ∃ i r answer before after key stored, Event.did i r answer before after ∈ w.log ∧
      before.get? key = some stored ∧ stored.version = v

/-- The job has a terminal record, or its entry of that version is gone. -/
def Settled (S : Site) (shard : UInt16) (jobId : ByteArr 16) (v : Version) (w : World) : Prop :=
  (∃ kind, w.objects.get? (S.absolute (Queue.terminalRel kind shard jobId)) ≠ none) ∨
    ∀ stored, w.objects.get? (S.absolute (.job shard jobId)) = some stored → stored.version ≠ v

/-- Calls on one queue over a store that never reuses a version. -/
def scanning (S : Site) (admits : World → Op → Choice → Prop) : Terms where
  start _ _ call := call.queue.site = S
  step w _ _ o c := (∀ r, o = .store r → ¬ Used w c.stamp.version) ∧ admits w o c
  env _ e := ∃ clock, e = .tick clock

/-- A terminal record is deleted only when there is no job record. -/
def Buries (S : Site) (w : World) (o : Op) (_ : Choice) : Prop :=
  ∀ kind shard jobId, o = .store (.delete (S.absolute (Queue.terminalRel kind shard jobId))) →
    w.objects.get? (S.absolute (.job shard jobId)) = none

/-- What the handles have memoized is settled. -/
def Sound (S : Site) (w : World) : Prop :=
  ∀ handle shard jobId v at_, ((shard, jobId), (v, at_)) ∈ (w.handles handle).terminalMemo →
    Used w v ∧ Settled S shard jobId v w

/-- Versions stay used, and what is settled stays settled. -/
def settling (S : Site) : Rely World where
  rel w w' := (∀ v, Used w v → Used w' v) ∧
    ∀ shard jobId v, Used w v → Settled S shard jobId v w → Settled S shard jobId v w'
  refl _ := ⟨fun _ h => h, fun _ _ _ _ h => h⟩
  trans h h' := ⟨fun v hv => h'.1 v (h.1 v hv), fun s j v hv hs => h'.2 s j v (h.1 v hv) (h.2 s j v hv hs)⟩

section Steps

variable {S : Site} {w w' : World}

lemma settling_same (hobjs : w'.objects = w.objects) (hlog : ∀ e ∈ w.log, e ∈ w'.log) :
    (settling S).rel w w' := by
  refine ⟨fun v hv => ?_, fun shard jobId v _ hs => ?_⟩
  · obtain ⟨key, stored, hget, hversion⟩ | ⟨i, r, answer, before, after, key, stored, hmem, hget, hversion⟩ := hv
    · exact .inl ⟨key, stored, hobjs ▸ hget, hversion⟩
    · exact .inr ⟨i, r, answer, before, after, key, stored, hlog _ hmem, hget, hversion⟩
  · unfold Settled
    rw [hobjs]
    exact hs

lemma Sound.later (h : Sound S w) (hmoves : (settling S).rel w w')
    (hmemo : ∀ handle, (w'.handles handle).terminalMemo = (w.handles handle).terminalMemo) : Sound S w' := by
  intro handle shard jobId v at_ hmem
  rw [hmemo] at hmem
  obtain ⟨hused, hsettled⟩ := h handle shard jobId v at_ hmem
  exact ⟨hmoves.1 v hused, hmoves.2 shard jobId v hused hsettled⟩

variable [Sha256] {i : Nat}

lemma used_request (h : Used w v) : Used (w.request i r c) v := by
  obtain ⟨key, stored, hget, hversion⟩ | ⟨j, r', answer, before, after, key, stored, hmem, hget, hversion⟩ := h
  · exact .inr ⟨i, r, _, _, _, key, stored, List.mem_cons_self, hget, hversion⟩
  · exact .inr ⟨j, r', answer, before, after, key, stored, List.mem_cons_of_mem _ hmem, hget, hversion⟩

/-- A request keeps what is settled: a new entry has a new version, and a terminal record goes after the
entry. -/
lemma settling_request (hfresh : ¬ Used w c.stamp.version) (hburies : Buries S w (.store r) c) :
    (settling S).rel w (w.request i r c) := by
  refine ⟨fun v hv => used_request hv, fun shard jobId v hv hs => ?_⟩
  have hentry : (∀ stored, w.objects.get? (S.absolute (.job shard jobId)) = some stored → stored.version ≠ v) →
      ∀ stored, (w.request i r c).objects.get? (S.absolute (.job shard jobId)) = some stored → stored.version ≠ v := by
    intro hgone stored hget
    obtain hold | ⟨hversion, -, -⟩ := inject_get? c.fault w.objects c.stamp r hget
    · exact hgone stored hold
    · rintro rfl
      exact hfresh (hversion ▸ hv)
  obtain ⟨kind, hpresent⟩ | hgone := hs
  · by_cases hdelete : r = .delete (S.absolute (Queue.terminalRel kind shard jobId))
    · -- the terminal record goes; the entry is gone already
      have habsent := hburies kind shard jobId (congrArg Op.store hdelete)
      refine .inr (hentry fun stored hget => ?_)
      rw [habsent] at hget
      cases hget
    · exact .inl ⟨kind, present_of_inject hpresent hdelete⟩
  · exact .inr (hentry hgone)

/-- Requests that do not memoize. -/
def Unmemoized (o : Op) : Prop := ∀ handle shard jobId v, o ≠ .memoizeTerminal handle shard jobId v

lemma exec_unmemoized {o : Op} (ho : Unmemoized o) (h : Sound S w)
    (hfresh : ∀ r, o = .store r → ¬ Used w c.stamp.version) (hburies : Buries S w o c) :
    Sound S (w.exec i o c).2 ∧ (settling S).rel w (w.exec i o c).2 := by
  cases o with
  | store r =>
    have hmoves : (settling S).rel w (w.request i r c) := settling_request (hfresh r rfl) hburies
    exact ⟨h.later hmoves fun _ => rfl, hmoves⟩
  | cacheFloor handle floorNs =>
    have hmoves : (settling S).rel w (w.exec i (.cacheFloor handle floorNs) c).2 := settling_same rfl fun _ he => he
    refine ⟨h.later hmoves fun handle' => ?_, hmoves⟩
    by_cases heq : handle' = handle
    · subst heq
      show (Function.update w.handles handle' _ handle').terminalMemo = _
      rw [Function.update_self]
    · show (Function.update w.handles handle _ handle').terminalMemo = _
      rw [Function.update_of_ne heq]
  | memoizeTerminal handle shard jobId v => exact absurd rfl (ho handle shard jobId v)
  | _ => exact ⟨h, (settling S).refl w⟩

lemma exec_memoize {handle : Nat} (h : Sound S w) (hused : Used w v) (hsettled : Settled S shard jobId v w) :
    Sound S (w.exec i (.memoizeTerminal handle shard jobId v) c).2 ∧
      (settling S).rel w (w.exec i (.memoizeTerminal handle shard jobId v) c).2 := by
  have hmoves : (settling S).rel w (w.exec i (.memoizeTerminal handle shard jobId v) c).2 :=
    settling_same rfl fun _ he => he
  refine ⟨fun handle' shard' jobId' v' at_ hmem => ?_, hmoves⟩
  have hwas : Used w v' ∧ Settled S shard' jobId' v' w := by
    by_cases heq : handle' = handle
    · subst heq
      change _ ∈ (Function.update w.handles handle' _ handle').terminalMemo at hmem
      rw [Function.update_self] at hmem
      obtain hnew | hold := List.mem_cons.mp hmem
      · obtain ⟨hjob, hentry⟩ := Prod.mk.inj hnew
        cases hjob
        cases hentry
        exact ⟨hused, hsettled⟩
      · have hkept := (List.mem_filter.mp hold).1
        split at hkept
        · cases hkept
        · exact h handle' shard' jobId' v' at_ hkept
    · change _ ∈ (Function.update w.handles handle _ handle').terminalMemo at hmem
      rw [Function.update_of_ne heq] at hmem
      exact h handle' shard' jobId' v' at_ hmem
  exact ⟨hmoves.1 v' hwas.1, hmoves.2 shard' jobId' v' hwas.1 hwas.2⟩

end Steps

/-! ## Calls -/

section Calls

variable [Sha256] {S : Site} {q : Queue} {i : Nat} {call : Call} {w : World} {α : Type}

/-- The discipline of the calls. -/
abbrev minding (S : Site) (i : Nat) (call : Call) : Discipline World Op Res :=
  uniform (scanning S (Buries S)) (Sound S) (fun _ => settling S) i call

lemma holds_unmemoized {m : Routine α} (hm : Budgeted.Emits Unmemoized m) :
    Holds (minding S i call) m (fun _ _ => True) w :=
  holds_uniform_of_emits hm.prog fun _ ho _ _ _ hi hc =>
    have hkept := exec_unmemoized ho hi hc.1 hc.2
    ⟨hkept.1, fun _ => hkept.2⟩

omit [Sha256] in
lemma reading_unmemoized : Footprint.Reading Unmemoized := by
  refine ⟨?_, fun _ => nofun⟩
  constructor <;> intros <;> nofun

lemma probing_unmemoized (shard : UInt16) (jobId : ByteArr 16) : Footprint.Probing Unmemoized q shard jobId :=
  ⟨reading_unmemoized, fun _ _ _ => nofun, fun _ _ => nofun⟩

lemma safe_look (call : Call) (kind : Keys.TermKind) (shard : UInt16) (jobId : ByteArr 16) (hv : Used w v) :
    Safe (minding S i call).service (settling S) (minding S i call).guar
      (Prog.request (Op.store (.head (S.absolute (Queue.terminalRel kind shard jobId)))) : Prog Op Res _)
      (fun answer w' => ∀ info, answer = .ok info → Settled S shard jobId v w') w := by
  intro w1 hw1 hi r w2 hr
  obtain ⟨c, hc, rfl, rfl⟩ := answers_iff.mp hr
  have hkept := exec_unmemoized (i := i) (S := S) (o := .store (.head _)) nofun hi hc.1 hc.2
  refine ⟨hkept.1, fun _ => hkept.2, fun w3 hw3 _ info hinfo => ?_⟩
  have hused : Used w1 v := hw1.1 v hv
  obtain ⟨stored, hget, -⟩ := answer_head hinfo
  have hsettled : Settled S shard jobId v w1 := .inl ⟨kind, by rw [hget]; exact Option.some_ne_none stored⟩
  exact hw3.2 shard jobId v (hkept.2.1 v hused) (hkept.2.2 shard jobId v hused hsettled)

/-- A probe of an entry that was listed memoizes what is settled. -/
lemma holds_tryClaim {opts : ClaimOptions} (hq : q.site = S) (hv : Used w v) :
    Holds (minding S i call) (q.tryClaim opts shard jobId v) (OnOk fun _ _ => True) w := by
  subst hq
  have hheads := Safe.join (safe_look (S := q.site) (i := i) call .receipt shard jobId hv)
    (safe_look (S := q.site) (i := i) call .dead shard jobId hv)
    (fun _ _ _ _ hg => hg i) fun _ _ _ _ hg => hg i
  have hboth := Holds.beside (D := minding q.site i call) (m := q.gatherTail shard jobId) (Q := fun _ _ => True)
    (fun _ _ hg => hg) (fun _ _ _ _ hg => hg i)
    (hheads.weaken (fun _ _ hr => ⟨hr, hr⟩) fun _ _ hg => hg.elim id id)
    (holds_unmemoized (Footprint.gatherTail reading_unmemoized))
  refine holds_tryClaim_of (P := fun out w' => (∃ info, out.1 = .ok info ∨ out.2 = .ok info) →
      Settled q.site shard jobId v w') (G := fun _ _ => True)
    (hboth.mono fun r w' _ _ hr out hout => ⟨fun hfound => ?_, fun _ _ => trivial⟩)
    (fun out w' hi ho hknown hfound => ?_) (fun g w' _ _ _ _ => ?_) fun _ => trivial
  · obtain ⟨⟨hreceipt, hdead⟩, -⟩ := hr out hout
    obtain ⟨info, hinfo | hinfo⟩ := hfound
    · exact hreceipt info hinfo
    · exact hdead info hinfo
  · have hlast : Holds (minding q.site i call)
        (Budgeted.request (Op.memoizeTerminal q.handle shard jobId v) : Routine _) (OnOk fun _ _ => True) w' :=
      holds_uniform_last fun w1 c hw1 hi1 _ =>
        have hused : Used w' v := ho.1 v hv
        have hkept := exec_memoize hi1 (hw1.1 v hused) (hw1.2 shard jobId v hused (hknown hfound))
        ⟨⟨hkept.1, fun _ => hkept.2⟩, fun _ _ => trivial⟩
    exact hlast.mono fun _ _ _ _ _ => trivial
  · exact (holds_unmemoized (Footprint.claimFrom (probing_unmemoized shard jobId))).mono
      fun _ _ _ _ _ _ _ => trivial

lemma probesSafely (opts : ClaimOptions) (hq : q.site = S) :
    ProbesSafely (minding S i call) q opts (fun c w => Used w c.version) fun _ _ => True where
  tolerant _ _ _ _ hg := hg i
  list after w _ := by
    refine holds_uniform_last (o := .store (.list (q.jobsPrefix opts.shard) after 1024)) fun w1 c _ hi hc => ?_
    have hkept := exec_unmemoized (i := i) (o := .store (.list (q.jobsPrefix opts.shard) after 1024)) nofun hi hc.1 hc.2
    refine ⟨⟨hkept.1, fun _ => hkept.2⟩, fun w2 hw2 page hpage item hitem cand hcand => ?_⟩
    obtain rfl := answer_list hpage
    obtain ⟨stored, hget, hinfo, -⟩ := mem_listPage hitem
    have hused : Used w1 item.info.version := .inl ⟨item.key, stored, hget, by rw [hinfo]; rfl⟩
    rw [version_of_candidateOf hcand]
    exact hw2.1 _ (hkept.2.1 _ hused)
  memoized shard jobId version w _ := holds_unmemoized (Budgeted.Emits.request nofun)
  probe c w _ hseen := (holds_tryClaim hq hseen).mono fun _ _ _ _ _ _ _ _ _ => trivial
  seen_stable c _ _ _ ho hseen := ho.1 c.version hseen
  stable _ _ _ _ _ _ := trivial

lemma emits_unmemoized (action : Action) (hclaim : ∀ opts, action ≠ .claim opts)
    (hmany : ∀ opts max, action ≠ .claimMany opts max) : Budgeted.Emits Unmemoized (action.task q) := by
  have done : ∀ {α : Type} {m : Routine α} {f : α → Output}, Budgeted.Emits Unmemoized m →
      Budgeted.Emits Unmemoized (m >>= fun a => pure (f a)) :=
    fun hm => hm.bind fun _ => Budgeted.Keeps.pure _
  have hread := reading_unmemoized
  have ht := hread.tame
  cases action with
  | claim opts => exact absurd rfl (hclaim opts)
  | claimMany opts max => exact absurd rfl (hmany opts max)
  | enqueue input => exact done (Footprint.enqueue ht (fun _ => nofun) (fun _ => nofun) (fun _ => nofun) fun _ _ _ => nofun)
  | renew c => exact done (Footprint.renew ht nofun (fun _ => nofun) (fun _ => nofun) fun _ _ => nofun)
  | commitOutput c name body => exact done (Footprint.commitOutput nofun nofun)
  | ack c outputs =>
    exact done (Footprint.ack ht (fun _ => nofun) (fun _ => nofun) (fun _ => nofun) fun _ => nofun)
  | nack c reason floorNs =>
    exact done (f := fun _ => Output.nack) (Footprint.nack ht (fun _ _ => nofun) nofun fun _ => nofun)
  | bury c reason => exact done (Footprint.bury ht nofun nofun nofun (fun _ => nofun) fun _ => nofun)
  | establishFloor => exact done (Footprint.establishFloor ht (fun _ => nofun) nofun)
  | advanceWatermark floorNs =>
    exact done (f := fun _ => Output.advanceWatermark)
      (Footprint.advanceWatermark nofun nofun (fun _ _ _ => nofun) (fun _ _ _ _ => nofun) fun _ _ => trivial)
  | sweepExpiredLeases floorNs => exact done (Footprint.sweepExpiredLeases hread fun _ _ => nofun)
  | sweepDelayed floorNs => exact done (Footprint.sweepDelayed hread fun _ _ => nofun)
  | repairScan startShard => exact done (Footprint.repairScan hread fun _ _ _ => nofun)
  | gc a b c => exact done (Footprint.gc ht fun _ => nofun)

lemma holds_task (action : Action) (hq : q.site = S) (hinv : Sound S w) :
    Holds (minding S i call) (action.task q) (fun _ _ => True) w := by
  have hdone : ∀ {α : Type} {m : Routine α} {f : α → Output} {Q : α → World → Prop},
      Holds (minding S i call) m (OnOk Q) w →
        Holds (minding S i call) (m >>= fun a => pure (f a)) (fun _ _ => True) w :=
    fun hm => (hm.andThen (Q := fun _ _ => True) fun _ _ _ _ _ =>
      holds_pure fun _ _ _ => trivial).mono fun _ _ _ _ _ => trivial
  cases action with
  | claim opts => exact hdone ((probesSafely opts hq).scansSafely.holds_claim hinv)
  | claimMany opts max => exact hdone ((probesSafely opts hq).scansSafely.holds_claimMany max hinv)
  | _ => exact holds_unmemoized (emits_unmemoized _ nofun nofun)

lemma obligations : Obligations machine (scanning S (Buries S)) (Sound S) (fun _ _ => settling S)
    (fun _ _ w w' => ∀ _ : Nat, (settling S).rel w w') (fun _ _ _ _ => True) := by
  have hrecord : ∀ (e : Event) (w : World), Sound S w → Sound S (w.record e) ∧ (settling S).rel w (w.record e) := by
    intro e w hinv
    have hmoves : (settling S).rel w (w.record e) := settling_same rfl fun _ he => List.mem_cons_of_mem _ he
    exact ⟨hinv.later hmoves fun _ => rfl, hmoves⟩
  apply uniform_obligations (fun _ => settling S)
  · intro cfg i call hinv _ hstart
    have hkept := hrecord (.started i call) cfg.world hinv
    exact ⟨hkept.1, fun _ => hkept.2, holds_task call.action hstart hkept.1⟩
  · intro i out w hinv
    have hkept := hrecord (.returned i out) w hinv
    exact ⟨hkept.1, fun _ _ => hkept.2⟩
  · intros
    trivial
  · rintro w e hinv ⟨clock, rfl⟩
    have hmoves : (settling S).rel w (w.outside (.tick clock)) := settling_same rfl fun _ he => he
    exact ⟨hinv.later hmoves fun _ => rfl, fun _ => hmoves⟩

end Calls

/-! ## Skips -/

section Skips

variable [Sha256]

/-- A scan is about to skip a listed entry because of the memo. -/
def Skips (cfg : Calls) (shard : UInt16) (jobId : ByteArr 16) (v : Version) : Prop :=
  ∃ i call resume c, cfg.threads i = some ⟨call, .op (.isMemoizedTerminal call.queue.handle shard jobId v) resume⟩ ∧
      (cfg.world.exec i (.isMemoizedTerminal call.queue.handle shard jobId v) c).1 = true

/-- In every run of handles that have memoized nothing yet, what a scan skips is settled. -/
def SkipsSettled (S : Site) (P : Terms) : Prop :=
  ∀ (w : World) (cfg : Calls) shard jobId v, w.log = [] → (∀ handle, (w.handles handle).terminalMemo = []) →
    machine.Run P (Machine.initial w) cfg → Skips cfg shard jobId v → Settled S shard jobId v cfg.world

omit [Sha256] in
lemma mem_of_isMemoizedTerminal {h : HandleState} {elapsedNs : UInt64}
    (hknown : h.isMemoizedTerminal shard jobId v elapsedNs = true) :
    ∃ at_, ((shard, jobId), (v, at_)) ∈ h.terminalMemo := by
  unfold HandleState.isMemoizedTerminal at hknown
  split at hknown
  · next v' at_ hlookup =>
      obtain ⟨before, after, hmemo, -⟩ := List.lookup_eq_some_iff.mp hlookup
      obtain rfl : v' = v := of_decide_eq_true (Bool.and_eq_true_iff.mp hknown).1
      refine ⟨at_, ?_⟩
      rw [hmemo]
      exact List.mem_append_right before List.mem_cons_self
  · cases hknown

/-- **The memo never causes a wrong skip** as long as terminal records go after the job record: when a scan skips an
entry because its handle has memoized it, the listed version of the job is settled, by a terminal record or because
that version is gone.  Handles, scans and collections may interleave in any way. -/
theorem memo_skips_settled (S : Site) : SkipsSettled S (scanning S (Buries S)) := by
  rintro w cfg shard jobId v - hempty hrun ⟨i, call, resume, c, -, hknown⟩
  have hstart : Sound S w := fun handle shard jobId v at_ hmem => by
    rw [hempty] at hmem
    cases hmem
  have hsound : Sound S cfg.world := (obligations.run_good (Obligations.initial_good hstart) hrun).1
  obtain ⟨at_, hmem⟩ := mem_of_isMemoizedTerminal hknown
  exact (hsound _ shard jobId v at_ hmem).2

end Skips

/-! ## A job enqueued before its old dead record is gone -/

namespace Race

open Scenario
open Budgeted (Evals)

/-- Every version is one of the first ones or has a number of the log. -/
def Numbered (w : World) : Prop :=
  ∀ v, Used w v → v ∈ [(⟨['a']⟩ : Version), ⟨['b']⟩, ⟨['c']⟩] ∨ ∃ n ≤ w.log.length, v = ⟨List.replicate n 'v'⟩

/-- A scan with just the operations it needs to find the job dead. -/
def scan : Call := ⟨demo, .claimMany ⟨0, 1, 1⟩ 1, 5⟩

variable [Sha256] {i : Nat} {w : World}

omit [Sha256] in
lemma Numbered.fresh (h : Numbered w) : ¬ Used w (plain faultless w).stamp.version := by
  intro hused
  obtain hfirst | ⟨n, hn, heq⟩ := h _ hused
  · have hchar : ∀ v ∈ [(⟨['a']⟩ : Version), ⟨['b']⟩, ⟨['c']⟩], 'v' ∉ v.token := by decide
    exact hchar _ hfirst (List.mem_replicate.mpr ⟨Nat.succ_ne_zero _, rfl⟩)
  · have hlength := congrArg (fun v : Version => v.token.length) heq
    simp only [plain, List.length_replicate] at hlength
    omega

/-- A request uses no version but that of its stamp. -/
lemma used_of_request (h : Used (w.request i r c) v) : Used w v ∨ v = c.stamp.version := by
  obtain ⟨key, stored, hget, hversion⟩ | ⟨j, r', answer, before, after, key, stored, hmem, hget, hversion⟩ := h
  · obtain hold | ⟨hnew, -, -⟩ := inject_get? c.fault w.objects c.stamp r hget
    · exact .inl (.inl ⟨key, stored, hold, hversion⟩)
    · exact .inr (hversion.symm.trans hnew)
  · refine .inl ?_
    obtain heq | hold := List.mem_cons.mp hmem
    · cases heq
      exact .inl ⟨key, stored, hget, hversion⟩
    · exact .inr ⟨j, r', answer, before, after, key, stored, hold, hget, hversion⟩

lemma Numbered.request (h : Numbered w) : Numbered (w.request i r (plain faultless w)) := by
  intro v hused
  have hlonger : ∀ {n : Nat}, n ≤ w.log.length + 1 → n ≤ (w.request i r (plain faultless w)).log.length := fun hn => hn
  obtain hold | rfl := used_of_request hused
  · obtain hfirst | ⟨n, hn, rfl⟩ := h v hold
    · exact .inl hfirst
    · exact .inr ⟨n, hlonger (Nat.le_succ_of_le hn), rfl⟩
  · exact .inr ⟨w.log.length + 1, hlonger (Nat.le_refl _), rfl⟩

omit [Sha256] in
lemma Numbered.started (h : Numbered w) (call : Call) : Numbered (w.record (.started i call)) := by
  intro v hused
  have hold : Used w v := by
    obtain hobj | ⟨j, r', answer, before, after, key, stored, hmem, hget, hversion⟩ := hused
    · exact .inl hobj
    · refine .inr ⟨j, r', answer, before, after, key, stored, ?_, hget, hversion⟩
      exact (List.mem_cons.mp hmem).resolve_left nofun
  obtain hfirst | ⟨n, hn, rfl⟩ := h v hold
  · exact .inl hfirst
  · exact .inr ⟨n, Nat.le_succ_of_le hn, rfl⟩

set_option maxRecDepth 8000 in
lemma numbered_ended : Numbered ended := by
  rintro v (⟨key, stored, hget, rfl⟩ | ⟨_, _, _, _, _, _, _, hmem, -⟩)
  · have hversions : ended.objects.entries.map (fun e => e.2.version) = [⟨['b']⟩, ⟨['a']⟩, ⟨['c']⟩] := rfl
    have hmem : stored.version ∈ ended.objects.entries.map fun e => e.2.version :=
      List.mem_map.mpr ⟨_, (OrderedMap.mem_entries_iff _).mpr hget, rfl⟩
    rw [hversions] at hmem
    exact .inl ((List.Perm.swap _ _ _).subset hmem)
  · cases hmem

lemma answers_scanning {admits : World → Op → Choice → Prop} {A : Op → Prop} (call : Call)
    (hadmits : ∀ o w, A o → admits w o (plain faultless w)) :
    Machine.Answers machine (scanning demo.site admits) i call A Numbered (plainly faultless i) where
  exec o w ho hJ := ⟨plain faultless w, ⟨fun _ _ => hJ.fresh, hadmits o w ho⟩, rfl⟩
  keeps o w _ hJ := by
    cases o with
    | store r => exact hJ.request
    | _ => exact hJ

/-- The handles after a scan has memoized the entry of that version. -/
def memos (v : Version) : Nat → HandleState :=
  Function.update (fun _ => {}) demo.handle (({} : HandleState).memoizeTerminal 0 jobZero v 0)

/-- A scan that finds the job dead memoizes it. -/
lemma run_scan {objs : Objects} {clock : UInt64} {n : Nat} (stored : Stored) {dead : Stored}
    (hjobs : listPage objs (demo.jobsPrefix 0) none 1024 = ⟨[⟨jobKey, stored.info⟩], none⟩)
    (hreceipt : objs.get? receiptKey = none) (hdead : objs.get? deadKey = some dead)
    (hclaims : listPage objs (demo.claimsPrefix 0 jobZero) none 64 = ⟨[], none⟩) :
    scan.prog.run (staged faultless) ⟨objs, clock, fun _ => {}, n⟩ =
      (.ok (.claimMany []), ⟨objs, clock, memos stored.version, n + 4⟩) :=
  run_call (Evals.bind (evals_claimMany_dead rfl (demo.parseRel_absolute (.job 0 jobZero)) (serves_list rfl hjobs)
    rfl (serves_head_absent rfl hreceipt) (serves_head rfl hdead) (serves_list rfl hclaims) rfl) (Evals.pure _))

lemma scan_keeps : scan.prog.Emits fun o => ∀ key, o ≠ .store (.delete key) := by
  have hprobing : ∀ shard jobId, Footprint.Probing (fun o : Op => ∀ key, o ≠ .store (.delete key)) demo shard jobId := by
    intro shard jobId
    refine ⟨⟨?_, fun _ => nofun⟩, fun _ _ _ => nofun, fun _ _ => nofun⟩
    constructor <;> intros <;> nofun
  have htask : Budgeted.Emits (fun o => ∀ key, o ≠ .store (.delete key)) (scan.action.task demo) :=
    (Footprint.claimMany hprobing fun _ _ _ _ => nofun).bind fun _ => Budgeted.Keeps.pure _
  exact (htask.prog _).map

/-- The store with the job enqueued again. -/
def renewed (v : Version) : Objects := (OrderedMap.empty.insert deadKey
  ⟨demo.encodeAt (.dead 0 jobZero) (.dead ⟨jobZero, 1, 1, 4⟩), ⟨['b']⟩, 0⟩).insert jobKey ⟨jobBody 1, v, 1⟩

set_option maxRecDepth 8000 in
/-- The collection of the ended job, with those calls before its last request. -/
lemma run_collect_renewed {handles : Nat → HandleState} {n m : Nat} :
    collect.prog.run (interrupted (staged faultless) fun _ => ⟨renewed v, 1, handles, m⟩)
      ⟨⟨ended.objects, 1, fun _ => {}, n⟩, 13, none⟩ =
    (.ok (.gc ⟨1, 0, 0, 0⟩), ⟨⟨OrderedMap.empty.insert jobKey ⟨jobBody 1, v, 1⟩, 1, handles, m + 1⟩, 0,
      some ⟨OrderedMap.empty.insert deadKey ⟨demo.encodeAt (.dead 0 jobZero) (.dead ⟨jobZero, 1, 1, 4⟩), ⟨['b']⟩, 0⟩,
        1, fun _ => {}, n + 13⟩⟩) :=
  run_collect (serves_list rfl rfl).ahead (serves_list rfl rfl).ahead (serves_list rfl rfl).ahead
    (serves_list rfl rfl).ahead (serves_head rfl rfl).ahead rfl (serves_list rfl rfl).ahead
    (serves_list rfl rfl).ahead (serves_delete rfl).ahead (serves_delete rfl).ahead (serves_list rfl rfl).ahead
    (serves_list rfl rfl).ahead (serves_list rfl rfl).ahead (serves_delete rfl).struck (serves_delete rfl).past

/-- A scan that has come to an entry its handle has memoized. -/
lemma skips_scan {cfg : Calls} {s s' : Stage} {k : Bool → Prog Op Res (Except Error Output)}
    (hat : stage cfg = s) (hhandles : s'.handles = memos v)
    (hstop : scan.prog.advance (staged faultless) 1 s.next = (.op (.isMemoizedTerminal demo.handle 0 jobZero v) k, s')) :
    Skips (pause i scan 1 cfg) 0 jobZero v ∧ (pause i scan 1 cfg).world.objects = s'.objects := by
  obtain ⟨hpaused, hthread⟩ := pause_stops i hat hstop
  refine ⟨⟨i, scan, k, plain faultless (pause i scan 1 cfg).world, hthread, ?_⟩, congrArg Stage.objects hpaused⟩
  show ((stage (pause i scan 1 cfg)).handles demo.handle).isMemoizedTerminal 0 jobZero v 0 = true
  rw [hpaused, hhandles]
  simp [memos, HandleState.isMemoizedTerminal, HandleState.memoizeTerminal, satSub, terminalMemoTtlNs]

end Race

open Race Scenario

set_option maxRecDepth 8000 in
/-- The second scan of a handle skips the dead job that the first one has memoized. -/
theorem memo_skips_settled_dead : ∃ _ : Sha256, ∃ cfg : Calls,
    machine.Run (scanning demo.site (Buries demo.site)) (Machine.initial ended) cfg ∧
      Skips cfg 0 jobZero ⟨['a']⟩ ∧ Settled demo.site 0 jobZero ⟨['a']⟩ cfg.world := by
  let _ := Sha256.zero
  let P := scanning demo.site (Buries demo.site)
  have hadmits : ∀ o w, (∀ key, o ≠ .store (.delete key)) → Buries demo.site w o (plain faultless w) :=
    fun o w ho kind shard jobId heq => absurd heq (ho _)
  let cfg1 := play faultless 0 scan (Machine.initial ended)
  let cfg2 := pause 1 scan 1 cfg1
  obtain ⟨hfirst, hJ1⟩ : machine.Run P (Machine.initial ended) cfg1 ∧ Numbered cfg1.world :=
    run_play (answers_scanning scan hadmits) scan_keeps rfl rfl (numbered_ended.started scan)
  have hsecond : machine.Run P cfg1 cfg2 :=
    (run_pause 1 (answers_scanning scan hadmits) scan_keeps rfl (play_threads (by decide)) (hJ1.started scan)).1
  obtain ⟨h1, -⟩ : stage cfg1 = _ ∧ _ := play_at rfl (run_scan ⟨jobBody 1, ⟨['a']⟩, 0⟩ rfl rfl rfl rfl)
  obtain ⟨hskips, -⟩ := skips_scan (i := 1) h1 rfl rfl
  have hrun := hfirst.trans hsecond
  exact ⟨_, cfg2, hrun, hskips, memo_skips_settled demo.site ended cfg2 0 jobZero _ rfl (fun _ => rfl) hrun hskips⟩

set_option maxRecDepth 8000 in
/-- Without that condition a live job is skipped: call 0 collects the dead job and has deleted its job record
when call 1 enqueues the job again; call 2 finds the old dead record and memoizes the new entry; call 0
deletes the dead record; call 3 skips the new entry. -/
theorem memo_skips_live : ¬ ∃ _ : Sha256, ∀ S, SkipsSettled S (scanning S fun _ _ c => c.fault = none) := by
  rintro ⟨_, hall⟩
  let P := scanning demo.site fun _ _ c => c.fault = none
  let looked := pause 0 collect 13 (Machine.initial ended)
  let placed := play faultless 1 (enqueue 1) looked
  let marked := play faultless 2 scan placed
  let gone := resume 0 marked
  let cfg := pause 3 scan 1 gone
  -- what they leave
  obtain ⟨hlooked, hend⟩ := pause_at 0 (Machine.initial ended) rfl run_collect_renewed
  obtain ⟨hplaced, -⟩ : stage placed = _ ∧ _ := play_at hlooked (run_enqueue (by decide) rfl)
  obtain ⟨hmarked, -⟩ : stage marked = _ ∧ _ := play_at hplaced
    (run_scan ⟨jobBody 1, versionAt 15, 1⟩ rfl rfl rfl rfl)
  have hwaiting : marked.threads 0 = looked.threads 0 := (play_threads (by decide)).trans (play_threads (by decide))
  obtain ⟨hgone, -⟩ := hend marked hmarked hwaiting
  obtain ⟨hskips, hobjs⟩ := skips_scan (i := 3) hgone rfl rfl
  -- the run
  have hans : ∀ i call, Machine.Answers machine P i call (fun _ => True) Numbered (plainly faultless i) :=
    fun i call => answers_scanning call fun _ _ _ => rfl
  obtain ⟨p, hthread, -⟩ := pause_thread 0 (Machine.initial ended) (.any collect.prog) 13
  obtain ⟨r1, j1⟩ : machine.Run P _ looked ∧ Numbered looked.world :=
    run_pause 13 (hans 0 collect) (.any _) rfl rfl (numbered_ended.started collect)
  obtain ⟨r2, j2⟩ : machine.Run P looked placed ∧ Numbered placed.world :=
    run_play (hans 1 (enqueue 1)) (.any _) rfl (pause_threads (by decide)) (j1.started _)
  obtain ⟨r3, j3⟩ : machine.Run P placed marked ∧ Numbered marked.world :=
    run_play (hans 2 scan) (.any _) rfl ((play_threads (by decide)).trans (pause_threads (by decide))) (j2.started _)
  obtain ⟨r4, j4⟩ : machine.Run P marked gone ∧ Numbered gone.world :=
    run_resume (hwaiting.trans hthread) (hans 0 collect) (.any p) j3
  have hfree : gone.threads 3 = none := ((resume_threads (by decide)).trans (play_threads (by decide))).trans
    ((play_threads (by decide)).trans (pause_threads (by decide)))
  have hrun : machine.Run P (Machine.initial ended) cfg := (((r1.trans r2).trans r3).trans r4).trans
    (run_pause 1 (hans 3 scan) (.any _) rfl hfree (j4.started _)).1
  -- there is no terminal record, and the entry is there
  obtain ⟨kind, hpresent⟩ | hnone := hall demo.site ended cfg 0 jobZero _ rfl (fun _ => rfl) hrun hskips
  · rw [hobjs] at hpresent
    cases kind with
    | receipt => exact hpresent rfl
    | dead => exact hpresent rfl
  · rw [hobjs] at hnone
    exact hnone _ rfl rfl

end Memo
end StowQ
