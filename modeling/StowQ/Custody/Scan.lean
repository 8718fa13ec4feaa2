import StowQ.Custody.Claiming

/-!
# Scanning a shard for claims

A scan probes its candidates in concurrent waves.  Candidates come from one page of an
ascending listing, so no two of a wave are the same job, and no branch reads the fail
records another branch relies on.
-/

namespace StowQ
namespace Custody

open Data StowQ.Core Store Format Concurrent Interleaving
open Core.Queue (Candidate)

/-- The discipline of a whole call: the others do not act in its name. -/
abbrev whole [Sha256] (S : Site) (timed : Prop) (i : Nat) (call : Call) :
    Discipline World Op Res :=
  discipline S timed i call (fun e => ¬ DoneBy i e) (DoneBy i) (fun _ => True)
    (fun _ _ => trivial) fun _ _ => trivial

lemma doneBy_of_probesJob {S : Site} {i : Nat} {shard : UInt16} {jobId : ByteArr 16} {e : Event}
    (h : ProbesJob S i shard jobId e) : DoneBy i e := by
  obtain ⟨g, answer, before, after, rfl⟩ := h
  exact rfl

lemma doneBy_of_logged {i : Nat} {o : Op} {e : Event} (h : LoggedAs i o e) : DoneBy i e := by
  obtain ⟨r, answer, before, after, -, rfl⟩ := h
  exact rfl

/-- Every handle of a list names a claim of the store. -/
def HandlesOk (S : Site) (objs : Objects) (cs : List Claim) [Sha256] : Prop :=
  ∀ c ∈ cs, HandleOk S objs c

/-- Candidates in the order of their job keys. -/
def InOrder (q : Queue) (cs : List Candidate) : Prop :=
  cs.Pairwise fun a b =>
    q.absolute (.job a.shard a.jobId) < q.absolute (.job b.shard b.jobId)

/-- The candidates of a page keep the page's order. -/
lemma inOrder_candidates {q : Queue} {items : List Listing}
    (hitems : items.Pairwise fun a b => a.key < b.key) : InOrder q (items.filterMap q.candidateOf) := by
  have hkey : ∀ {item : Listing} {c : Candidate}, q.candidateOf item = some c →
      q.absolute (.job c.shard c.jobId) = item.key := by
    intro item c hc
    unfold Queue.candidateOf at hc
    split at hc
    · next hparse =>
        cases hc
        exact Queue.absolute_of_parseRel hparse
    · cases hc
  refine hitems.filterMap _ fun a b hab c hc d hd => ?_
  rw [hkey hc, hkey hd]
  exact hab

section Scan

variable [Sha256] {q : Queue} {timed : Prop} {i : Nat} {call : Call} {w : World}
  {opts : ClaimOptions}

lemma HandlesOk.extends {S : Site} {a b : Objects} {cs : List Claim} (h : HandlesOk S a cs)
    (hab : Extends S a b) : HandlesOk S b cs :=
  fun c hc => (h c hc).extends hab

/-- One wave: the branches do not read each other's fail records. -/
lemma holds_wave {xs : List Candidate} (hfloor : claimFloor call = some opts.floorNs)
    (hinv : Inv q.site timed w) (hxs : InOrder q xs) :
    Holds (whole q.site timed i call)
      (Budgeted.joinSplit (xs.map fun c => q.tryClaim opts c.shard c.jobId c.version))
      (OnOk fun results w' => List.Forall₂ (fun _ r => OnOk (fun found (w' : World) =>
        ∀ h, found = some h → HandleOk q.site w'.objects h) r w') xs results) w := by
  have hbranch : ∀ (c : Candidate) (b : Nat), Safe (whole q.site timed i call).service
      (Grows.rely q.site fun e => ¬ ProbesJob q.site i c.shard c.jobId e)
      (Grows q.site (CandidateEvent q.site i c.shard c.jobId))
      (q.tryClaim opts c.shard c.jobId c.version b) (fun out w' => OnOk (fun found (w' : World) =>
        ∀ h, found = some h → HandleOk q.site w'.objects h) out.1 w') w :=
    fun c b => holds_tryClaim hfloor hinv b
  refine Holds.joinSplit xs (fun c _ b => hbranch c b) (fun c _ a b h => ?_)
    (fun c _ a b h => ?_) ?_
  · exact h.mono fun e he hp => he (doneBy_of_probesJob hp)
  · exact h.mono fun e he => he.1
  · have hne : ∀ {x y : Candidate}, q.absolute (.job x.shard x.jobId) ≠
        q.absolute (.job y.shard y.jobId) → ∀ a b,
        Grows q.site (CandidateEvent q.site i x.shard x.jobId) a b →
        Grows q.site (fun e => ¬ ProbesJob q.site i y.shard y.jobId e) a b := by
      intro x y hxy a b h
      refine h.mono fun e he hp => hxy ?_
      obtain ⟨hs, hj⟩ := he.2 _ _ hp
      rw [hs, hj]
    exact hxs.imp fun hlt => ⟨fun a b _ _ => hne (ne_of_lt hlt) a b,
      fun a b _ _ => hne (ne_of_gt hlt) a b⟩

/-- **A scan.**  Every handle it returns names a claim of the store. -/
theorem scansSafely (hfloor : claimFloor call = some opts.floorNs) :
    ScansSafely (whole q.site timed i call) q opts (fun xs _ => InOrder q xs)
      fun c w => HandleOk q.site w.objects c where
  list after w _ := by
    refine holds_list (f := pure) (fun e => doneBy_of_logged) fun w1 r _ _ hr =>
      holds_pure fun w2 _ _ page hpage => inOrder_candidates ?_
    rw [hr page hpage]
    exact listPage_ascending _ _ _ _
  memoized _ _ _ w _ := holds_of_calm (fun _ h => h.1)
    (Budgeted.Emits.request (tame_calm.isMemoizedTerminal _ _ _ _)) w
  wave _ _ hinv hxs := (holds_wave hfloor hinv hxs).mono
    fun _ _ _ _ hr results hresults => allGood_waveClaims (hr results hresults)
  none_queued _ := List.Pairwise.nil
  sublist hsub hxs := hxs.sublist hsub
  queued_stable _ _ _ _ _ hxs := hxs
  stable _ _ _ _ hab hok := hok.extends hab.objects

end Scan

end Custody
end StowQ
