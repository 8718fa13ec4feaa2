import StowQ.Calm
import StowQ.Custody.Results

/-!
# Repeating a renewal

`renew` appends a continuation at the next generation and then reads its store time back.  A
call that fails after the write has left the continuation behind; a repeated call meets it as
a taken key and reports a lost lease, because a plain rejection is never compared with the
record that was meant.  `renewal_retryable_iff`: a repeated renewal succeeds exactly when
nothing stands at the next generation and the job has not ended.
-/

namespace StowQ
namespace Custody

open Data StowQ.Core Store Format Concurrent Interleaving Calm

section Renewal

variable [Sha256]

/-- The keys that decide about a renewal. -/
def renewalKeys (q : Queue) (c : Claim) : Set Str :=
  {q.absolute (.receipt c.shard c.jobId), q.absolute (.dead c.shard c.jobId),
    q.absolute (.claim c.shard c.jobId (c.generation + 1).toUInt32)}

/-- The chain of the claim can be continued. -/
def Extendable (q : Queue) (c : Claim) (objs : Objects) : Prop :=
  c.generation < UInt64.ofNat u32Max.toNat ∧ ∀ key ∈ renewalKeys q c, objs.get? key = none

/-- A call that renews. -/
def renewCall (q : Queue) (c : Claim) (budget : Nat) : Call := ⟨q, .renew c, budget⟩

/-- A renewal of the claim has failed. -/
def RenewalFailed (q : Queue) (c : Claim) (cfg : Calls) : Prop :=
  ∃ i budget e, cfg.Returned i (renewCall q c budget) (.error e)

/-- Call `j` that renews the claim, left alone with the claims and the terminal records of the
job, can return, and returns nothing but the continued claim. -/
def Renews (q : Queue) (c : Claim) (budget j : Nat) (before : Calls) : Prop :=
  (∃ after out, machine.Run (terms (renewalKeys q c) j) (starting before j (renewCall q c budget))
      after ∧ after.Returned j (renewCall q c budget) out) ∧
    ∀ after out, machine.Run (terms (renewalKeys q c) j) (starting before j (renewCall q c budget))
        after → after.Returned j (renewCall q c budget) out →
      ∃ c', out = .ok (.renew (.renewed c')) ∧ c'.generation = c.generation + 1 ∧ c'.workerToken = c.workerToken

/-- Once a renewal has failed, and as long as nobody writes the next claim or a terminal record of the job, every
renewal that is left alone and can pay for its five operations succeeds. -/
def Retryable (q : Queue) (c : Claim) (failed : Calls) : Prop :=
  RenewalFailed q c failed → ∀ before, machine.Run (undisturbed (renewalKeys q c)) failed before →
    ∀ budget j, 5 ≤ budget → Renews q c budget j before

variable {q : Queue} {c : Claim} {objs : Objects} {b : Nat}

/-- The tail hint is at none of the keys. -/
lemma updateTailHint_aside (G : Rely Objects) (hG : ∀ objs stored,
      G.rel objs (objs.insert (q.absolute (.tail c.shard c.jobId)) stored)) (generation : UInt64) :
    Budgeted.Emits (Aside (renewalKeys q c) G) (q.updateTailHint c.shard c.jobId generation) := by
  have hwrites : ∀ {r : Request}, (∀ key, r ≠ .delete key) →
      (∀ key body, r.Writes key body → key = q.absolute (.tail c.shard c.jobId)) →
        Aside (renewalKeys q c) G (.store r) := by
    intro r hdelete hkey
    refine aside_writes (fun key body hw => ?_) hdelete fun objs key stored hw => ?_
    · rw [hkey key body hw]
      simp [renewalKeys]
    · rw [hkey key _ hw]
      exact hG objs stored
  refine Footprint.updateTailHint (aside_reads rfl) (fun body => hwrites nofun ?_)
    fun body v => hwrites nofun ?_
  · rintro key body' ⟨digest, heq | ⟨v, heq⟩⟩ <;> cases heq
    rfl
  · rintro key body' ⟨digest, heq | ⟨v', heq⟩⟩ <;> cases heq
    rfl

/-- Once the continuation is there, the handle is read back. -/
lemma ends_renewedHandle {stored : Stored}
    (hget : objs.get? (q.absolute (.claim c.shard c.jobId (c.generation + 1).toUInt32)) = some stored) :
    Ends (calm (renewalKeys q c) anywhere) (q.renewedHandle c) (b + 1) (fun r _ _ =>
      r = .ok { c with generation := c.generation + 1, claimStoreTimeNs := stored.storeTimeNs })
      objs := by
  refine ends_spend (ends_head (by simp [renewalKeys]) ?_)
  refine ends_ofStore (by unfold head; rw [hget]) ?_
  refine (ends_aside (updateTailHint_aside anywhere (fun _ _ => trivial) _)
    succeeds_updateTailHint).bind (fun _ _ _ _ _ => ?_) fun e _ _ _ ⟨⟨_, he⟩, _⟩ => by cases he
  exact Ends.pure fun _ _ _ => rfl

/-- The result of a renewal that started at `objs`. -/
def Tells (q : Queue) (c : Claim) (objs : Objects) (r : Except Error RenewOutcome) : Prop :=
  (Extendable q c objs → ∃ t, r = .ok (.renewed
    { c with generation := c.generation + 1, claimStoreTimeNs := t })) ∧
  (¬ Extendable q c objs → ∀ c', r ≠ .ok (.renewed c'))

lemma ends_renew : Ends (calm (renewalKeys q c) anywhere) (q.renew c) (b + 5)
    (fun r _ _ => Tells q c objs r) objs := by
  unfold Queue.renew
  split
  · next hspace =>
      exact Ends.fail fun _ _ _ => ⟨fun h => absurd h.1 (UInt64.not_lt.mpr hspace), fun _ => nofun⟩
  next hspace =>
  -- a key that is taken ends the call without a new claim
  have hstop : ∀ {left : Nat} {key : Str}, key ∈ renewalKeys q c → objs.get? key ≠ none →
      Ends (calm (renewalKeys q c) anywhere) (pure .leaseLost) left
        (fun r _ _ => Tells q c objs r) objs :=
    fun hkey htaken => Ends.pure fun _ _ _ => ⟨fun h => absurd (h.2 _ hkey) htaken, fun _ => nofun⟩
  refine ends_provenAbsent (by simp [renewalKeys]) ?_
  cases hreceipt : objs.get? (q.absolute (.receipt c.shard c.jobId)) with
  | some stored => exact hstop (by simp [renewalKeys]) (hreceipt ▸ Option.some_ne_none stored)
  | none =>
  refine ends_provenAbsent (by simp [renewalKeys]) ?_
  cases hdead : objs.get? (q.absolute (.dead c.shard c.jobId)) with
  | some stored => exact hstop (by simp [renewalKeys]) (hdead ▸ Option.some_ne_none stored)
  | none =>
  refine ends_spend ?_
  cases hnext : objs.get? (q.absolute (.claim c.shard c.jobId (c.generation + 1).toUInt32)) with
  | some stored =>
    exact ends_putRecord_present (by simp [renewalKeys]) hnext
      (hstop (by simp [renewalKeys]) (hnext ▸ Option.some_ne_none stored))
  | none =>
    have hext : Extendable q c objs := by
      refine ⟨UInt64.not_le.mp hspace, ?_⟩
      rintro key (rfl | rfl | rfl)
      · exact hreceipt
      · exact hdead
      · exact hnext
    refine ends_putRecord (by simp [renewalKeys]) hnext fun stamp => ⟨fun _ _ => trivial, ?_⟩
    refine (ends_renewedHandle (OrderedMap.get?_insert_self _ _ _)).bind
      (fun c' _ _ _ hc' => ?_) nofun
    cases hc'
    exact Ends.pure fun _ _ _ => ⟨fun _ => ⟨_, rfl⟩, fun h => absurd hext h⟩

/-- A renewal that is left alone continues the claim exactly when its chain can be extended. -/
lemma renews_iff {budget j : Nat} {before : Calls} (hbudget : 5 ≤ budget) :
    Renews q c budget j before ↔ Extendable q c before.world.objects := by
  obtain ⟨b, rfl⟩ := Nat.exists_eq_add_of_le' hbudget
  have hends : Ends (calm (renewalKeys q c) anywhere)
      ((renewCall q c (b + 5)).action.task (renewCall q c (b + 5)).queue) (b + 5)
      (fun r _ _ => ∃ r', Tells q c before.world.objects r' ∧ r = r'.map .renew)
      before.world.objects :=
    ends_renew.bind (fun out _ _ _ hout => Ends.pure fun _ _ _ => ⟨.ok out, hout, rfl⟩)
      fun e _ _ _ he => ⟨.error e, he, rfl⟩
  have hreturns := run_returns (P := terms (renewalKeys q c) j) (renewCall q c (b + 5))
    (fun _ _ => (if_pos rfl).mpr rfl) before
  constructor
  · rintro ⟨-, hall⟩
    obtain ⟨after, out, hrun, hret⟩ := hreturns
    obtain ⟨c', rfl, -, -⟩ := hall after out hrun hret
    obtain ⟨left, r', hresult, hout⟩ := (run_ends hends hrun).2 _ hret
    by_contra hnot
    cases r' with
    | error e => cases hout
    | ok out' =>
      obtain rfl : RenewOutcome.renewed c' = out' := Output.renew.inj (Except.ok.inj hout)
      exact hresult.2 hnot c' rfl
  · intro hext
    refine ⟨hreturns, fun after out hrun hret => ?_⟩
    obtain ⟨left, r', hresult, rfl⟩ := (run_ends hends hrun).2 _ hret
    obtain ⟨t, rfl⟩ := hresult.1 hext
    exact ⟨_, rfl, rfl, rfl⟩

/-- **Repeating a renewal.**  A renewal can be repeated after a failure exactly when the failed
call, and everyone else until then, has left the next generation free and the job has not ended: a retry meets the
store that the failure left, because nobody writes in between, and does not recognise its own continuation there. -/
theorem renewal_retryable_iff (q : Queue) (c : Claim) (failed : Calls) : Retryable q c failed ↔
      ¬ RenewalFailed q c failed ∨ Extendable q c failed.world.objects := by
  constructor
  · intro hretry
    by_cases hfailed : RenewalFailed q c failed
    · exact .inr ((renews_iff (le_refl 5)).mp (hretry hfailed failed .refl 5 0 (le_refl 5)))
    · exact .inl hfailed
  · rintro (hnone | hext) hfailed before hquiet budget j hbudget
    · exact absurd hfailed hnone
    · refine (renews_iff hbudget).mpr ⟨hext.1, fun key hkey => ?_⟩
      exact (run_undisturbed hquiet key hkey).trans (hext.2 key hkey)

end Renewal

/-! ## A renewal that meets its own continuation -/

open Scenario

section CutShort

variable [Sha256]

/-- A renewal of the first delivery that cannot pay for reading its continuation back. -/
def cutShort : Call := renewCall demo firstClaim 4

set_option maxRecDepth 8000 in
lemma run_cutShort {token : ByteArr 16} {v v1 v2 : Version} {n : Nat} :
    cutShort.prog.run (staged faultless) ⟨delivered 1 token v v1 v2, 0, fun _ => {}, n⟩ =
      (.error .budgetExhausted, ⟨(delivered 1 token v v1 v2).insert (claimKey 2)
        ⟨demo.encodeAt (.claim 0 jobZero 2) (.claim (demo.continuationRecord firstClaim)), versionAt (n + 2), 0⟩,
        0, fun _ => {}, n + 3⟩) :=
  run_call (b := 0) (Budgeted.Evals.bind_error ((evals_provenAbsent (serves_head_absent rfl rfl)).bind
    ((evals_provenAbsent (serves_head_absent rfl rfl)).bind (evals_spend
      ((evals_putRecord (serves_put rfl rfl)).bind (Budgeted.Evals.bind_error rfl))))))

end CutShort

/-- A failed renewal may have left its continuation behind: call 2 writes it and cannot pay for
reading it back, and from then on every renewal of the claim reports a lost lease. -/
theorem renewal_not_retryable : ¬ ∃ _ : Sha256, ∀ S w, Fresh S w → ∀ before,
    Reachable S False w before → ∀ q c, q.site = S → Retryable q c before := by
  rintro ⟨_, hall⟩
  let P := profile demo.site False
  have hplay : ∀ (i : Nat) (call : Call), call.queue = demo → (∀ a b c, call.action ≠ .gc a b c) →
      call.action.handle = none → Playable P i call 0 :=
    fun i call hqueue hgc hhandle => ⟨fun _ => ⟨congrArg Queue.site hqueue, hgc, by simp [hhandle]⟩,
      fun _ _ _ _ => False.elim⟩
  obtain ⟨honce, hret⟩ := once_at (show ¬ (1 : UInt64) < 1 by decide)
  have hrun : machine.Run P (Machine.initial (blank 0)) (once 1) :=
    run_once (hplay 0 (enqueue 1) rfl nofun rfl) (hplay 1 (claiming 0 1) rfl nofun rfl)
  let before := play faultless 2 cutShort (once 1)
  have hfails : machine.Run P (once 1) before := by
    refine run_plainly ⟨rfl, nofun, fun c hc => ?_⟩ (fun _ _ => False.elim) (once_free (le_refl 2))
    obtain rfl : firstClaim = c := Option.some.inj hc
    exact ⟨1, claiming 0 1, _, hret, List.mem_singleton_self _⟩
  obtain ⟨hbefore, hfailed⟩ : stage before = _ ∧ _ := play_at honce run_cutShort
  have hretry := hall demo.site (blank 0) ⟨rfl, fun _ _ => rfl⟩ before (hrun.trans hfails) demo firstClaim rfl
    ⟨2, 4, _, hfailed⟩ before .refl 5 3 (le_refl 5)
  have hnext := ((renews_iff (le_refl 5)).mp hretry).2 (claimKey 2) (.inr (.inr rfl))
  rw [show before.world.objects = _ from congrArg Stage.objects hbefore, OrderedMap.get?_insert_self] at hnext
  cases hnext

end Custody
end StowQ
