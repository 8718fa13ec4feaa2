import StowQ.Custody.Results
import StowQ.History

/-!
# Burying over a later generation

`bury` looks for a receipt and then creates the dead record.  It does not look at the claims
of the job, so a worker whose claim was taken over long ago can still end the job
(`stale_bury_commits`).  In every interleaving it is kept from doing so by a budget too small to
reach the write; and in an interleaving in which no terminal record of the job is deleted, as a
collection may do, by exactly that or a terminal record that is there when the call starts
(`bury_fenced_iff`).
-/

namespace StowQ
namespace Terminal

open Data StowQ.Core Store Format Concurrent Interleaving

variable {j : Nat} {o : Op} {choice : Choice} {call : Call}

section Fencing

variable [Sha256]

/-- A later claim of the job was written by another worker. -/
def Overtaken (S : Site) (objs : Objects) (c : Claim) : Prop :=
  ∃ (g : UInt32) (r : ClaimRecord), c.generation < g.toUInt64 ∧
    recordAt S objs (.claim c.shard c.jobId g) = some (.claim r) ∧ r.workerToken ≠ c.workerToken

/-- Call `i` is the given one.  Beside it any calls on the queue may run, collections among them, with any faults. -/
def besides (S : Site) (i : Nat) (call : Call) : Terms where
  start _ j call' := call'.queue.site = S ∧ (j = i → call' = call)
  step _ _ _ _ _ := True
  env _ e := ∃ clock, e = .tick clock

/-- The call that buries. -/
def buryCall (q : Queue) (c : Claim) (reason : UInt64) (budget : Nat) : Call :=
  ⟨q, .bury c reason, budget⟩

/-- None of the events deletes a terminal record of the job. -/
def Keeps (S : Site) (c : Claim) (new : List Event) : Prop :=
  ∀ e ∈ new, ∀ kind, ¬ Empties (S.absolute (Queue.terminalRel kind c.shard c.jobId)) e

/-- If the claim was overtaken when the call started, the call does not create the dead record, whatever runs beside
it, in any run whose events `new` since the start of the call are as said. -/
def Fences (q : Queue) (c : Claim) (reason : UInt64) (budget i : Nat) (before : Calls)
    (said : List Event → Prop) : Prop :=
  let call := buryCall q c reason budget
  Overtaken q.site before.world.objects c → ∀ after new, machine.Run (besides q.site i call)
        (before.set (before.world.record (.started i call)) i ⟨call, call.prog⟩) after →
      after.world.log = new ++ before.world.log → said new →
      ∀ r answer objs objs', .did i r answer objs objs' ∈ new →
        ¬ Fills (q.absolute (.dead c.shard c.jobId)) (.did i r answer objs objs')

/-- A terminal record is there. -/
def Ended (S : Site) (objs : Objects) (c : Claim) : Prop :=
  ∃ kind, objs.get? (S.absolute (Queue.terminalRel kind c.shard c.jobId)) ≠ none

variable {q : Queue} {c : Claim} {reason : UInt64} {budget i : Nat} {w : World} {log : List Event}

/-- Since `log`, call `i` has not created the dead record. -/
def Innocent (q : Queue) (c : Claim) (i : Nat) (log : List Event) (w : World) : Prop :=
  ∃ new, w.log = new ++ log ∧ ∀ r answer objs objs', .did i r answer objs objs' ∈ new →
    ¬ Fills (q.absolute (.dead c.shard c.jobId)) (.did i r answer objs objs')

/-- A call that can reach its write needs the terminal records of the job to stay. -/
def Harmless (S : Site) (c : Claim) (budget : Nat) (e : Event) : Prop :=
  3 ≤ budget → ∀ kind, ¬ Empties (S.absolute (Queue.terminalRel kind c.shard c.jobId)) e

/-- Terminal records of the job stay. -/
def lasting (S : Site) (c : Claim) (budget : Nat) : Rely World where
  rel w w' := 3 ≤ budget → ∀ kind, w.objects.get? (S.absolute (Queue.terminalRel kind c.shard c.jobId)) ≠ none →
    w'.objects.get? (S.absolute (Queue.terminalRel kind c.shard c.jobId)) ≠ none
  refl _ _ _ h := h
  trans h h' hbudget kind hpresent := h' hbudget kind (h hbudget kind hpresent)

omit [Sha256] in
lemma Innocent.cons {w' : World} {e : Event} (h : Innocent q c i log w) (hlog : w'.log = e :: w.log)
    (he : ∀ r answer objs objs', e = .did i r answer objs objs' →
      ¬ Fills (q.absolute (.dead c.shard c.jobId)) (.did i r answer objs objs')) :
    Innocent q c i log w' := by
  obtain ⟨new, hnew, hnone⟩ := h
  refine ⟨e :: new, by rw [hlog, hnew, List.cons_append], fun r answer objs objs' hmem => ?_⟩
  rcases List.mem_cons.mp hmem with heq | hmem
  · exact he r answer objs objs' heq.symm
  · exact hnone r answer objs objs' hmem

omit [Sha256] in
lemma Innocent.congr {w' : World} (h : Innocent q c i log w) (hlog : w'.log = w.log) : Innocent q c i log w' := by
  unfold Innocent at h ⊢
  rwa [hlog]

/-- Any request that is not a create of the dead record by call `i`. -/
lemma Innocent.exec (h : Innocent q c i log w) (ho : j = i → ∀ body sha256,
      o = .store (.putIfAbsent (q.absolute (.dead c.shard c.jobId)) body sha256) →
        w.objects.get? (q.absolute (.dead c.shard c.jobId)) ≠ none) :
    Innocent q c i log (w.exec j o choice).2 := by
  cases o with
  | store r =>
    refine h.cons rfl fun r' answer objs objs' heq hfills => ?_
    cases heq
    obtain ⟨body, hreq, -⟩ := eq_put_of_fills hfills.1 hfills.2
    exact ho rfl body _ (congrArg Op.store hreq) hfills.1
  | _ => exact h.congr rfl

/-- What every request beside the call, and every harmless request of the call, keeps. -/
def Guarded (q : Queue) (c : Claim) (budget i : Nat) (log : List Event) (w : World) : Prop :=
  (3 ≤ budget → Ended q.site w.objects c) ∧ Innocent q c i log w

lemma lasting_exec {P : Terms} (hstep : (only P (Harmless q.site c budget)).step w j call o choice) :
    (lasting q.site c budget).rel w (w.exec j o choice).2 := by
  cases o with
  | store r =>
    intro hbudget kind hpresent habsent
    exact hstep.2 _ rfl hbudget kind ⟨hpresent, habsent⟩
  | _ => exact (lasting q.site c budget).refl w

lemma Guarded.exec {P : Terms} (h : Guarded q c budget i log w)
    (hstep : (only P (Harmless q.site c budget)).step w j call o choice) (ho : j = i → ∀ body sha256,
      o = .store (.putIfAbsent (q.absolute (.dead c.shard c.jobId)) body sha256) →
        w.objects.get? (q.absolute (.dead c.shard c.jobId)) ≠ none) :
    Guarded q c budget i log (w.exec j o choice).2 ∧
      ∀ _ : Nat, (lasting q.site c budget).rel w (w.exec j o choice).2 := by
  have hlasting : (lasting q.site c budget).rel w (w.exec j o choice).2 := lasting_exec hstep
  refine ⟨⟨fun hbudget => ?_, h.2.exec ho⟩, fun _ => hlasting⟩
  obtain ⟨kind, hpresent⟩ := h.1 hbudget
  exact ⟨kind, hlasting hbudget kind hpresent⟩

/-! ## The call -/

/-- The discipline of every call here. -/
abbrev watched (q : Queue) (c : Claim) (reason : UInt64) (budget i : Nat) (log : List Event)
    (j : Nat) (call : Call) : Discipline World Op Res :=
  uniform (only (besides q.site i (buryCall q c reason budget)) (Harmless q.site c budget))
    (Guarded q c budget i log) (fun _ => lasting q.site c budget) j call

/-- Once the dead record is there, nothing the call does can create it. -/
lemma holds_after_dead {α : Type} (m : Routine α) (hbudget : 3 ≤ budget)
    (hdead : w.objects.get? (q.absolute (.dead c.shard c.jobId)) ≠ none) :
    Holds (watched q c reason budget i log i (buryCall q c reason budget)) m (fun _ _ => True) w :=
  holds_uniform_of_emits (fun _ => .any _) fun _ _ _ _ hw1 hi hstep =>
    hi.exec hstep fun _ _ _ _ => hw1 hbudget .dead hdead

/-- With budget for the write, the look at the receipt stops the call, or the dead record is
there. -/
lemma holds_bury (hbudget : 3 ≤ budget) :
    Holds (watched q c reason budget i log i (buryCall q c reason budget)) (q.bury c reason)
      (OnOk fun _ _ => True) w := by
  have hlook : Holds (watched q c reason budget i log i (buryCall q c reason budget))
      (Routine.head (q.absolute (.receipt c.shard c.jobId))) (OnOk fun r w' =>
        r = .error .notFound → w'.objects.get? (q.absolute (.dead c.shard c.jobId)) ≠ none) w := by
    refine holds_uniform_last (o := .store (.head _)) fun w1 choice _ hi hstep =>
      ⟨hi.exec hstep nofun, fun w2 hw2 hnone => ?_⟩
    obtain ⟨kind, hpresent⟩ := hi.1 hbudget
    cases kind with
    | receipt => exact absurd (answer_head_notFound hnone) hpresent
    | dead => exact hw2 hbudget .dead (lasting_exec hstep hbudget .dead hpresent)
  have habsent : Holds (watched q c reason budget i log i (buryCall q c reason budget))
      (q.provenAbsent (.receipt c.shard c.jobId)) (OnOk fun absent w' => absent = true →
        w'.objects.get? (q.absolute (.dead c.shard c.jobId)) ≠ none) w := by
    refine holds_spend (hlook.andThen fun r w1 _ _ hr => ?_)
    split
    · exact holds_pure nofun
    · exact holds_pure fun w2 _ hw2 _ => hw2 hbudget .dead (hr rfl)
    · exact holds_fail
  refine habsent.andThen fun absent w1 _ _ hdead => ?_
  cases absent with
  | false => exact holds_pure fun _ _ _ => trivial
  | true => exact (holds_after_dead _ hbudget (hdead rfl)).mono fun _ _ _ _ _ _ _ => trivial

/-- With a smaller budget the call ends before the write. -/
lemma bury_emits (hbudget : budget < 3) : (buryCall q c reason budget).prog.Emits fun o =>
      o = .store (.head (q.absolute (.receipt c.shard c.jobId))) := by
  have htask : (q.bury c reason budget).Emits fun o =>
      o = .store (.head (q.absolute (.receipt c.shard c.jobId))) := by
    match budget, hbudget with
    | 0, _ => trivial
    | 1, _ =>
      refine ⟨rfl, fun (r : StoreResult Meta) => ?_⟩
      cases r with
      | ok info => trivial
      | error e => cases e <;> trivial
    | 2, _ =>
      refine ⟨rfl, fun (r : StoreResult Meta) => ?_⟩
      cases r with
      | ok info => trivial
      | error e => cases e <;> trivial
  exact (htask.bind fun out => by cases out.1 <;> trivial).map

/-! ## Runs -/

/-- Programs whose requests cannot create the dead record in the name of call `i`. -/
lemma safe_harmless {α : Type} {A : Op → Prop} {p : Prog Op Res α} (hp : p.Emits A)
    (hA : ∀ o, A o → j = i → ∀ body sha256,
      o ≠ .store (.putIfAbsent (q.absolute (.dead c.shard c.jobId)) body sha256)) :
    Safe (watched q c reason budget i log j call).service (lasting q.site c budget)
      (watched q c reason budget i log j call).guar p (fun _ _ => True) w := by
  refine Safe.of_emits_while (K := fun _ => True) hp (fun _ _ _ h => h) (fun o ho w1 r w2 hi _ hr => ?_)
    trivial
  obtain ⟨choice, hstep, rfl, rfl⟩ := answers_iff.mp hr
  obtain ⟨hinv, hmoves⟩ : Guarded q c budget i log (w1.exec j o choice).2 ∧ _ :=
    hi.exec hstep fun hj body sha256 heq => absurd heq (hA o ho hj body sha256)
  exact ⟨hinv, hmoves, trivial⟩

lemma safe_call : Safe (watched q c reason budget i log i (buryCall q c reason budget)).service
    (lasting q.site c budget) (watched q c reason budget i log i (buryCall q c reason budget)).guar
    (buryCall q c reason budget).prog (fun _ _ => True) w := by
  by_cases hbudget : budget < 3
  · refine safe_harmless (bury_emits hbudget) fun o ho _ body sha256 heq => ?_
    rw [ho] at heq
    cases heq
  · have hholds : Holds (watched q c reason budget i log i (buryCall q c reason budget))
        (q.bury c reason >>= fun out => pure (Output.bury out)) (OnOk fun _ _ => True) w :=
      (holds_bury (Nat.le_of_not_lt hbudget)).andThen fun _ _ _ _ _ =>
        holds_pure fun _ _ _ => trivial
    exact (Safe.map (hholds budget)).mono fun _ _ _ _ => trivial

omit [Sha256] in
lemma Guarded.record {e : Event} (h : Guarded q c budget i log w)
    (he : ∀ j r answer objs objs', e ≠ .did j r answer objs objs') :
    Guarded q c budget i log (w.record e) :=
  ⟨h.1, h.2.cons rfl fun r answer objs objs' heq => absurd heq (he i r answer objs objs')⟩

lemma watched_obligations : Obligations machine
    (only (besides q.site i (buryCall q c reason budget)) (Harmless q.site c budget)) (Guarded q c budget i log)
    (fun _ _ => lasting q.site c budget) (fun _ _ w w' => ∀ _ : Nat, (lasting q.site c budget).rel w w')
    (fun _ _ _ _ => True) where
  start cfg j call w' hinv _ hadm hrun := by
    cases hrun
    refine ⟨hinv.record (Event.started_ne_did j call), fun _ _ _ _ _ h => h, ?_⟩
    by_cases hj : j = i
    · subst hj
      rw [hadm.2 rfl]
      exact safe_call
    · exact safe_harmless (.any _) fun _ _ hji => absurd hji hj
  finish j out w w' hinv hrun := by
    obtain rfl := finish_eq_some hrun
    exact ⟨hinv.record (Event.returned_ne_did j out), fun _ _ _ _ _ h => h,
      fun _ _ _ _ _ => trivial⟩
  env w e w' hinv hadm hrun := by
    cases hrun
    obtain ⟨clock, rfl⟩ := hadm
    exact ⟨⟨hinv.1, hinv.2.congr rfl⟩, fun _ _ _ _ h => h⟩
  compat _ _ j _ _ _ _ _ _ h := h j

/-- From a state without terminal records, two requests of the call suffice. -/
lemma bury_creates (reason : UInt64) (i : Nat) (before : Calls) (hfree : ¬ Ended q.site before.world.objects c)
    (hbudget : 3 ≤ budget) : ∃ after new r answer objs objs',
      machine.Run (besides q.site i (buryCall q c reason budget))
        (before.set (before.world.record (.started i (buryCall q c reason budget))) i
          ⟨buryCall q c reason budget, (buryCall q c reason budget).prog⟩) after ∧
      after.world.log = new ++ before.world.log ∧ Keeps q.site c new ∧ .did i r answer objs objs' ∈ new ∧
      Fills (q.absolute (.dead c.shard c.jobId)) (.did i r answer objs objs') := by
  obtain ⟨b, rfl⟩ := Nat.exists_eq_add_of_le' hbudget
  let call := buryCall q c reason (b + 3)
  let w0 := before.world.record (.started i call)
  have habsent : ∀ kind, w0.objects.get? (q.site.absolute (Queue.terminalRel kind c.shard c.jobId)) =
      none := fun kind => by
    by_contra hpresent
    exact hfree ⟨kind, hpresent⟩
  -- look at the receipt, then write the dead record
  let w1 := w0.request i (.head (q.absolute (.receipt c.shard c.jobId))) (Scenario.plain Scenario.faultless w0)
  let body := q.encodeAt (.dead c.shard c.jobId) (.dead ⟨c.jobId, c.generation, c.attempt, reason⟩)
  let w2 := w1.request i (.putIfAbsent (q.absolute (.dead c.shard c.jobId)) body (Sha256.digest body))
    (Scenario.plain Scenario.faultless w1)
  have hlook : machine.exec i (.store (.head (q.absolute (.receipt c.shard c.jobId))))
      (Scenario.plain Scenario.faultless w0) w0 = some (.error .notFound, w1) :=
    congrArg (fun out : StoreResult Meta × Objects => some (out.1, w1)) (head_absent (habsent .receipt))
  have hdead : w1.objects.get? (q.absolute (.dead c.shard c.jobId)) = none := habsent .dead
  have hwrite : inject none w1.objects (Scenario.plain Scenario.faultless w1).stamp (.putIfAbsent _ body _) = _ :=
    put_absent hdead
  have hexec : machine.exec i (.store (.putIfAbsent (q.absolute (.dead c.shard c.jobId)) body (Sha256.digest body)))
      (Scenario.plain Scenario.faultless w1) w1 = some (.ok (.committed _), w2) :=
    congrArg (fun out : StoreResult PutOutcome × Objects => some (out.1, w2)) hwrite
  have hfilled : w2.objects.get? (q.absolute (.dead c.shard c.jobId)) ≠ none := by
    rw [show w2.objects = _ from congrArg Prod.snd hwrite, OrderedMap.get?_insert_self]
    exact Option.some_ne_none _
  have hrun := (Machine.run_request (M := machine) (P := besides q.site i call)
    (Config.set_threads_self before w0 i ⟨call, call.prog⟩) trivial hlook).trans
    (Machine.run_request (Config.set_threads_self _ _ _ _) trivial hexec)
  refine ⟨_, [_, _, _], _, _, _, _, hrun, rfl, ?_, List.mem_cons_self, hdead, hfilled⟩
  -- both requests find no terminal record
  simp only [Keeps, List.forall_mem_cons]
  exact ⟨fun kind hempties => hempties.1 (habsent kind), fun kind hempties => hempties.1 (habsent kind),
    fun _ h => h, nofun⟩

/-- A call that cannot reach its write, or that starts with a terminal record in a run that keeps it, creates no
dead record. -/
lemma fences_of_kept {before : Calls} {said : List Event → Prop}
    (hcond : 3 ≤ budget → Ended q.site before.world.objects c)
    (hsaid : ∀ new, said new → 3 ≤ budget → Keeps q.site c new) : Fences q c reason budget i before said := by
  intro _ after new hrun hnew hkept r answer objs objs' hmem
  obtain ⟨new', hnew', honly⟩ := run_only hrun
  have hharmless : ∀ e ∈ new', Harmless q.site c budget e := by
    refine fun e he hbudget => hsaid new hkept hbudget e ?_
    have heq : new = new' ++ [.started i (buryCall q c reason budget)] :=
      List.append_cancel_right (hnew.symm.trans (hnew'.trans (List.append_cons _ _ _)))
    exact heq ▸ List.mem_append_left _ he
  have hguarded : Guarded q c budget i before.world.log
      (before.world.record (.started i (buryCall q c reason budget))) :=
    ⟨hcond, [_], rfl, fun _ _ _ _ h => by cases List.mem_singleton.mp h⟩
  have hgood := watched_obligations.run_good ⟨hguarded, fun j t ht => ?_⟩ (honly _ hharmless)
  · obtain ⟨since, hsince, hnone⟩ := hgood.1.2
    have heq : new = since := List.append_cancel_right (hnew.symm.trans hsince)
    exact hnone r answer objs objs' (heq ▸ hmem)
  · by_cases hj : j = i
    · subst hj
      rw [Config.set_threads_self] at ht
      cases ht
      exact safe_call
    · exact safe_harmless (.any _) fun _ _ hji => absurd hji hj

/-- **A stale claim is kept from burying** in every interleaving by a budget that does not reach the write.  Where no
terminal record of the job is deleted while the call runs, it is kept from it exactly by such a budget or by a
terminal record that is there when the call starts. -/
theorem bury_fenced_iff (q : Queue) (c : Claim) (reason : UInt64) (budget i : Nat) (before : Calls) :
    (¬ Overtaken q.site before.world.objects c ∨ budget < 3 → Fences q c reason budget i before fun _ => True) ∧
    (Fences q c reason budget i before (Keeps q.site c) ↔ ¬ Overtaken q.site before.world.objects c ∨
      Ended q.site before.world.objects c ∨ budget < 3) := by
  refine ⟨?_, ?_, ?_⟩
  · rintro (hnone | hbudget)
    · exact fun hover => absurd hover hnone
    · exact fences_of_kept (fun h => absurd hbudget (Nat.not_lt.mpr h)) fun _ _ h => absurd hbudget (Nat.not_lt.mpr h)
  · intro hfences
    by_contra hcond
    simp only [not_or, not_not, Nat.not_lt] at hcond
    obtain ⟨hover, hfree, hbudget⟩ := hcond
    obtain ⟨after, new, r, answer, objs, objs', hrun, hnew, hkept, hmem, hfills⟩ :=
      bury_creates reason i before hfree hbudget
    exact hfences hover after new hrun hnew hkept r answer objs objs' hmem hfills
  · rintro (hnone | hended | hbudget)
    · exact fun hover => absurd hover hnone
    · exact fences_of_kept (fun _ => hended) fun _ hkept _ => hkept
    · exact fences_of_kept (fun h => absurd hbudget (Nat.not_lt.mpr h)) fun _ hkept _ => hkept

end Fencing

open Scenario

set_option maxRecDepth 8000 in
/-- After the second delivery the first handle is stale, and the job has not ended. -/
lemma twice_overtaken [Sha256] : Overtaken demo.site twice.world.objects firstClaim ∧
    ¬ Ended demo.site twice.world.objects firstClaim := by
  rw [show twice.world.objects = _ from congrArg Stage.objects twice_at.1]
  constructor
  · exact ⟨2, demo.takeoverRecord jobZero ⟨0, 1, 1⟩ (firstTail (tokenAt 8) (versionAt 8)) (tokenAt 19), by decide,
      recordAt_of_encode (demo.takeoverRecord_wellFormed _ _ _ _) rfl rfl, show tokenAt 19 ≠ tokenAt 8 by decide⟩
  · rintro ⟨kind, hpresent⟩
    cases kind <;> exact hpresent rfl

/-- Without a terminal record nothing fences: the claim of call 1 runs out, call 2 takes the job
over, and the handle of call 1 still buries it. -/
theorem stale_bury_commits : ¬ ∃ _ : Sha256, ∀ q c reason budget i w before, w.objects = OrderedMap.empty →
    machine.Run (besides q.site i (buryCall q c reason budget)) (Machine.initial w) before →
    (∃ j call out, before.Returned j call (.ok out) ∧ c ∈ out.handles) →
      Fences q c reason budget i before fun _ => True := by
  rintro ⟨_, hall⟩
  let P := besides demo.site 3 (buryCall demo firstClaim 0 3)
  have hplay : ∀ (i : Nat) (call : Call) (floorNs : UInt64), i ≠ 3 → call.queue = demo → Playable P i call floorNs :=
    fun i call floorNs hi hqueue =>
      ⟨fun _ => ⟨congrArg Queue.site hqueue, fun h => absurd h hi⟩, fun _ _ _ _ => trivial⟩
  have hrun : machine.Run P (Machine.initial (blank 0)) twice :=
    run_twice (hplay 0 (enqueue 2) 0 (by decide) rfl) (hplay 1 (claiming 0 1) 0 (by decide) rfl)
      (hplay 2 (claiming 1 1) 1 (by decide) rfl) fun _ => ⟨1, rfl⟩
  have hfences := hall demo firstClaim 0 3 3 (blank 0) twice rfl hrun
    ⟨1, _, _, twice_first, List.mem_singleton_self firstClaim⟩
  obtain ⟨hover, hfree⟩ := twice_overtaken
  obtain ⟨after, new, r, answer, objs, objs', hrun', hnew, -, hmem, hfills⟩ :=
    bury_creates 0 3 twice hfree (le_refl 3)
  exact hfences hover after new hrun' hnew trivial r answer objs objs' hmem hfills

end Terminal
end StowQ
