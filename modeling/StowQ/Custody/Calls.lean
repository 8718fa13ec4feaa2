import StowQ.Custody.Scan
import StowQ.Planes

/-!
# Custody over every call

Every operation but garbage collection keeps the custody invariant, whatever the others do in between.  Only
claims and renewals write to the claims plane; the rest is harmless by its footprint.  The obligations are then
discharged for all runs at once: each call is safe against the moves of the others, and its own moves are among
those they tolerate.
-/

namespace StowQ
namespace Custody

open Data StowQ.Core Store Format Concurrent Interleaving Keys

section Renew

variable [Sha256] {q : Queue} {timed : Prop} {i : Nat} {call : Call} {w : World} {claim : Claim}

/-- A handle's continuation is due: the job that admitted the claim admits it. -/
lemma due_continuation {objs : Objects} (hkept : Kept q.site timed objs)
    (hok : HandleOk q.site objs claim) (hgen : ¬ UInt64.ofNat u32Max.toNat ≤ claim.generation) :
    Due q.site objs claim.shard claim.jobId claim.generation.toUInt32
      (q.continuationRecord claim) 0 := by
  obtain ⟨hlt, hnext, hcast⟩ := next_lt hgen
  obtain ⟨-, e, hclaim, hattempt, htoken, hlease⟩ := hok
  obtain ⟨c, hrep, -, hallowed⟩ := hkept.chains claim.shard claim.jobId
  have hmem : e ∈ c.entries := by
    have hentry := hrep.claim claim.generation.toUInt32
    rw [hclaim] at hentry
    split at hentry
    · cases hentry
    · exact List.mem_of_getElem? hentry.symm
  obtain ⟨job, hjob, hmax, -⟩ := hallowed e hmem
  refine ⟨by rw [hcast]; exact hlt, by rw [hcast]; exact hnext, q.continuationRecord_wellFormed claim,
    ⟨job, hjob, ?_, nofun⟩, .inr ⟨e, hclaim, ?_, nofun, ?_⟩⟩
  · show claim.attempt ≤ job.maximumAttempts
    rw [← hattempt]
    exact hmax
  · exact ⟨hattempt.symm, htoken.symm, hlease.symm⟩
  · exact congrArg some htoken.symm

/-- **Renewal.**  The handle it returns names the continuation in the store. -/
theorem holds_renew (hok : HandleOk q.site w.objects claim) : Holds (whole q.site timed i call) (q.renew claim)
      (OnOk fun out w' => ∀ c, out = .renewed c → HandleOk q.site w'.objects c) w := by
  have hlost : ∀ w', Holds (whole q.site timed i call) (pure .leaseLost : Routine RenewOutcome)
      (OnOk fun out w' => ∀ c, out = .renewed c → HandleOk q.site w'.objects c) w' :=
    fun w' => holds_pure nofun
  have hprobe : ∀ (k : Key) (w' : World), Holds (whole q.site timed i call)
      (q.provenAbsent k) (fun _ _ => True) w' :=
    fun k w' => holds_of_calm (fun _ h => h.1) (Footprint.provenAbsent tame_calm) w'
  unfold Queue.renew
  split
  · exact holds_fail
  next hgen =>
  refine holds_after (hprobe _ w) fun absent w1 _ ho1 => ?_
  split
  · exact hlost w1
  refine holds_after (hprobe _ w1) fun absent' w2 hi2 ho2 => ?_
  split
  · exact hlost w2
  refine holds_spend ?_
  -- generation and token of the handle are those of a claim, which is still there
  have hdue := due_continuation hi2.kept ((hok.extends ho1.objects).extends ho2.objects) hgen
  rw [next_toUInt32]
  refine (holds_putClaim (fun _ h => h.1) nofun hi2 hdue
    nofun).andThen fun res w3 _ _ hres => ?_
  cases res with
  | committed =>
    obtain ⟨e, hclaim, hrec⟩ := hres rfl
    have hhint : Budgeted.Emits (Calm q.site)
        (q.updateTailHint claim.shard claim.jobId (claim.generation + 1)) :=
      Footprint.updateTailHint (calm_get (show tailsSeg ≠ failsSeg by decide))
        (fun _ => calm_put (show tailsSeg ≠ claimsSeg by decide))
        fun _ _ => calm_cas (show tailsSeg ∉ custodyPlanes by decide)
    have hhandle : Holds (whole q.site timed i call) (q.renewedHandle claim)
        (OnOk fun c w' => HandleOk q.site w'.objects c) w3 := by
      refine holds_spend (holds_head (fun e => doneBy_of_logged) fun w4 r _ ho4 _ =>
        holds_ofStore fun info _ => ?_)
      refine holds_after (holds_of_calm (fun _ h => h.1) hhint w4) fun _ w5 _ ho5 =>
        holds_pure fun w6 _ ho6 => ?_
      obtain ⟨hlt, hnext, -⟩ := next_lt hgen
      have hpath := (Grows.trans ho4 (Grows.trans ho5 ho6)).objects
      refine ⟨by rw [hnext]; exact hlt, e, ?_, ?_⟩
      · rw [next_toUInt32]
        exact hpath.claimAt hclaim
      · rw [hrec]
        exact ⟨rfl, rfl, rfl⟩
    refine hhandle.andThen fun c w4 _ _ hc => holds_pure fun w5 _ ho5 c' hc' => ?_
    injection hc' with hc'
    subst hc'
    exact hc.extends ho5.objects
  | lost => exact hlost w3
  | notCommitted => exact hlost w3

end Renew

/-! ## All operations -/

section Tasks

variable [Sha256] {timed : Prop} {i : Nat} {call : Call} {w : World}

lemma harmless_of_within {S : Site} {planes : List Str} (hplanes : claimsSeg ∉ planes) {o : Op}
    (ho : Within S planes o) : Harmless S o := by
  have haside : ∀ {key : Str} {ps : List Str}, (∀ plane ∈ custodyPlanes, plane ∉ ps) →
      (∃ plane ∈ ps, S.plane key = some plane) → ∀ plane ∈ custodyPlanes, S.plane key ≠ some plane := by
    rintro key ps hps ⟨plane, hmem, hplane⟩ plane' hmem' heq
    exact hps plane' hmem' (Option.some.inj (hplane.symm.trans heq) ▸ hmem)
  intro _ _ _
  cases o with
  | store r =>
    cases r with
    | putIfAbsent key body digest =>
      obtain ⟨plane, hmem, hplane⟩ := ho
      exact .put _ _ _ fun heq => hplanes (Option.some.inj (hplane.symm.trans heq) ▸ hmem)
    | cas key body digest v => exact .cas _ _ _ _ (haside (by decide) ho.plane)
    | delete key => exact .delete _ (haside (by decide) ho)
    | _ => exact .read _ rfl
  | freshToken => exact .freshToken
  | cachedFloor h => exact .cachedFloor h
  | cacheFloor h f => exact .cacheFloor h f
  | isMemoizedTerminal h s j v => exact .isMemoizedTerminal h s j v
  | memoizeTerminal h s j v => exact .memoizeTerminal h s j v

/-- **Every operation but garbage collection keeps custody.** -/
theorem holds_task (hinv : Inv call.queue.site timed w) (hgc : ∀ a b c, call.action ≠ .gc a b c)
    (hhandle : ∀ c ∈ call.action.handle, HandleOk call.queue.site w.objects c) :
    Holds (whole call.queue.site timed i call) (call.action.task call.queue)
      (OnOk fun out w' => HandlesOk call.queue.site w'.objects out.handles) w := by
  obtain ⟨q, action, budget⟩ := call
  dsimp only at hinv hgc hhandle ⊢
  -- what stays off the claims plane hands nothing out
  have hother : ∀ {α : Type} {m : Routine α} {f : α → Output}, action.task q = (m >>= fun a => pure (f a)) →
      claimsSeg ∉ action.planes → (∀ a, (f a).handles = []) → Holds (whole q.site timed i ⟨q, action, budget⟩)
        (action.task q) (OnOk fun out w' => HandlesOk q.site w'.objects out.handles) w := by
    intro α m f htask hplanes hf
    have hm : Budgeted.Emits (Within q.site action.planes) (m >>= fun a => pure (f a)) := htask ▸ action.within hgc
    rw [htask]
    refine holds_after (fun b => safe_of_harmless (hm.prog b).of_bind (fun o => harmless_of_within hplanes)
      (fun _ _ _ => doneBy_of_logged) w) fun a w1 _ _ => holds_pure fun w2 _ _ c hc => ?_
    rw [hf a] at hc
    cases hc
  cases action with
  | claim opts =>
    refine ((scansSafely rfl).holds_claim hinv).andThen fun out w1 _ _ hout => holds_pure fun w2 _ ho2 c hc => ?_
    cases out with
    | claimed c' =>
      obtain rfl := List.mem_singleton.mp hc
      exact (hout _ rfl).extends ho2.objects
    | empty => cases hc
  | claimMany opts max =>
    exact ((scansSafely rfl).holds_claimMany max hinv).andThen fun cs w1 _ _ hcs =>
      holds_pure fun w2 _ ho2 => HandlesOk.extends hcs ho2.objects
  | renew claim =>
    refine (holds_renew (hhandle claim rfl)).andThen fun out w1 _ _ hout =>
      holds_pure fun w2 _ ho2 c hc => ?_
    cases out with
    | renewed c' =>
      obtain rfl := List.mem_singleton.mp hc
      exact (hout _ rfl).extends ho2.objects
    | leaseLost => cases hc
  | repairScan startShard =>
    exact hother (m := q.repairScan startShard) (f := fun out => .repairScan out.1 out.2) rfl
      (by simp only [Action.planes]; decide) fun _ => rfl
  | gc nowNs retentionNs orphanHorizonNs => exact absurd rfl (hgc _ _ _)
  | _ => exact hother rfl (by simp only [Action.planes]; decide) fun _ => rfl

end Tasks

/-! ## All runs -/

section Runs

variable [Sha256] {S : Site} {timed : Prop}

/-- What a returned call leaves behind. -/
def Issued (S : Site) (out : Except Error Output) (w : World) : Prop :=
  OnOk (fun out (w : World) => HandlesOk S w.objects out.handles) out w

lemma Inv.record {w : World} (h : Inv S timed w) (e : Event)
    (he : ∀ i r answer before after, e ≠ .did i r answer before after) :
    Inv S timed (w.record e) where
  kept := h.kept
  clock := h.clock
  past i r answer before after hmem := by
    rcases List.mem_cons.mp hmem with heq | hmem
    · exact absurd heq.symm (he i r answer before after)
    · exact h.past i r answer before after hmem
  prompt ht := ⟨fun i r answer before after heq => absurd heq (he i r answer before after),
    h.prompt ht⟩

omit [Sha256] in
lemma Grows.record {w : World} {ok : Event → Prop} (e : Event) (he : ok e) : Grows S ok w (w.record e) :=
  ⟨Extends.refl S _, UInt64.le_refl _, [e], rfl, by simpa using he⟩

lemma outside_keeps {w : World} {e : Outside} (h : Inv S timed w)
    (he : (profile S timed).env w e) :
    Inv S timed (w.outside e) ∧ ∀ ok, Grows S ok w (w.outside e) := by
  have hsame : ∀ objs, (∀ plane ∈ custodyPlanes, ∀ key, S.plane key = some plane →
      objs.get? key = w.objects.get? key) → Extends S w.objects objs → ∀ clock, w.clock ≤ clock →
      Inv S timed { w with objects := objs, clock } ∧ ∀ ok, Grows S ok w { w with objects := objs, clock } := by
    intro objs hobjs hext clock hclock
    have hclaims := hobjs claimsSeg (by simp [custodyPlanes])
    refine ⟨⟨h.kept.of_same_claims hext hclaims, fun ht key stored hplane hget => ?_,
      fun i r answer before after hmem => ?_, h.prompt⟩, fun ok => ⟨hext, hclock, [], rfl, by simp⟩⟩
    · rw [hclaims key hplane] at hget
      exact UInt64.le_trans (h.clock ht key stored hplane hget) hclock
    · obtain ⟨hb, ha⟩ := h.past i r answer before after hmem
      exact ⟨hb.trans hext, ha.trans hext⟩
  have hkeep : ∀ {key : Str} {objs : Objects}, (∀ plane ∈ custodyPlanes, S.plane key ≠ some plane) →
      (∀ k, k ≠ key → objs.get? k = w.objects.get? k) →
      Inv S timed { w with objects := objs } ∧ ∀ ok, Grows S ok w { w with objects := objs } := by
    intro key objs hplane hother
    refine hsame objs (fun plane hmem k hk => hother k ?_) (Extends.of_outside hplane hother) w.clock
      (UInt64.le_refl _)
    rintro rfl
    exact hplane plane hmem hk
  cases e with
  | tick clock => exact hsame w.objects (fun _ _ _ _ => rfl) (Extends.refl S _) _ (le_clock_left _ _)
  | write key stored => exact hkeep he fun k hk => OrderedMap.get?_insert_of_ne _ _ hk
  | delete key => exact hkeep he fun k hk => OrderedMap.get?_erase_of_ne _ hk

/-- The calls of a custody run meet their obligations. -/
lemma obligations : Obligations machine (profile S timed) (Inv S timed)
    (fun i _ => Grows.rely S fun e => ¬ DoneBy i e) (fun i _ => Grows S (DoneBy i))
    (fun _ _ => Issued S) where
  start cfg i call w' hinv hpost hstart hrun := by
    cases hrun
    obtain ⟨rfl, hgc, hissued⟩ := hstart
    refine ⟨hinv.record _ nofun, fun j _ _ => Grows.record _ (by simp [DoneBy]), ?_⟩
    refine Safe.map (holds_task (hinv.record _ (fun _ _ _ _ _ h => by cases h)) hgc
      (fun c hc => ?_) _)
    obtain ⟨j, call', out, hret, hmem⟩ := hissued c hc
    exact hpost j call' (.ok out) hret out rfl c hmem
  finish i out w w' hinv hrun := by
    obtain rfl := finish_eq_some hrun
    have hgrows : ∀ j, Grows S (fun e => ¬ DoneBy j e) w (w.record (.returned i out)) :=
      fun j => Grows.record _ (by simp [DoneBy])
    exact ⟨hinv.record _ nofun, fun j _ _ => hgrows j,
      fun _ hsafe => hsafe.later (hgrows i)⟩
  env w e w' hinv hadm hrun := by
    cases hrun
    obtain ⟨hi, hg⟩ := outside_keeps hinv hadm
    exact ⟨hi, fun _ _ => hg _⟩
  compat i _ j _ w w' hne _ _ hguar := by
    refine hguar.mono fun e hi hj => hne ?_
    cases e with
    | did caller r answer before after => exact hi.symm.trans hj
    | _ => cases hi

end Runs

end Custody
end StowQ
