import StowQ.Core.Footprint
import StowQ.Core.Repair

/-!
# Footprints of sweeps and repair

A sweep reads, and deletes entries of the index it walks.  A repair scan reads, and creates
index entries and quarantine records.
-/

namespace StowQ
namespace Core
namespace Footprint

open Data Concurrent Store Format Keys
open Budgeted (Emits Keeps Yields)

variable {shard : UInt16} {floorNs : UInt64} {report : RepairReport} {item : Listing} {jobId : ByteArr 16}

variable {T : Regime Op Res Error} [Fair T] {A : Op → Prop} [Sha256] {q : Queue}

/-! ## Sweeps -/

omit [Fair T] [Sha256] in
/-- An entry with a bucket lies under its index. -/
lemma dir_of_indexEntry {seg key : Str} {bucket : Nat}
    (h : fromStrRadix (2 ^ 64) (q.indexEntry seg key).1 = some bucket) : q.under [seg] <+: key := by
  unfold Queue.indexEntry at h
  by_cases hroot : q.root.isPrefixOf key = true
  · by_cases hseg : (seg ++ ['/']).isPrefixOf (key.drop q.root.length) = true
    · obtain ⟨rest, hrest⟩ := List.isPrefixOf_iff_prefix.mp hroot
      obtain ⟨tail, htail⟩ := List.isPrefixOf_iff_prefix.mp hseg
      refine ⟨tail, ?_⟩
      rw [← hrest, List.drop_left] at htail
      rw [← hrest, ← htail]
      simp [Site.dir, Queue.site]
    · simp [hroot, hseg, splitOnce, fromStrRadix, stripPlus] at h
  · simp [hroot, splitOnce, fromStrRadix, stripPlus] at h

section Reads

variable (hr : Reading A) {shard : UInt16} {jobId : ByteArr 16}

include hr

lemma claimTail : Keeps T A 0 (q.claimTail shard jobId) := by
  refine (listTail hr).bind fun found => ?_
  cases found with
  | none => exact Keeps.pure _
  | some link =>
    refine paid (hr.get _) fun r ha => ?_
    split
    · refine (ofRecord _).bind fun record => ?_
      split <;> exact Keeps.pure _
    · exact Keeps.pure _
    · exact refused rfl ha

lemma leaseReclaimable : Keeps T A 0 (q.leaseReclaimable shard jobId floorNs) := by
  refine (provenAbsent hr.tame).bind fun absent => ?_
  split
  · exact Keeps.pure _
  refine (provenAbsent hr.tame).bind fun absent => ?_
  split
  · exact Keeps.pure _
  refine (claimTail hr).bind fun tail => ?_
  dsimp only
  split <;> exact Keeps.pure _

lemma retryDue {generation : UInt64} : Keeps T A 0 (q.retryDue shard jobId generation floorNs) := by
  unfold Queue.retryDue
  split
  · exact Keeps.pure _
  refine paid (hr.get _) fun r ha => ?_
  split
  · refine (ofRecord _).bind fun record => ?_
    split <;> exact Keeps.pure _
  · exact Keeps.pure _
  · exact refused rfl ha

lemma jobPromotable : Keeps T A 0 (q.jobPromotable shard jobId floorNs) := by
  refine paid (hr.get _) fun r ha => ?_
  split
  · refine (ofRecord _).bind fun record => ?_
    split
    · split
      · exact Keeps.pure _
      · exact (claimTail hr).bind fun tail => retryDue hr
    · exact Keeps.pure _
  · exact Keeps.pure _
  · exact refused rfl ha

omit [Sha256] in
lemma sweepIndex {seg : Str} {widthNs : UInt64} {zeroWidth : String} {judge : Str → Option (Routine Bool)}
    {count : SweepReport → SweepReport} (hdelete : ∀ key, q.under [seg] <+: key → A (.store (.delete key)))
    (hjudge : ∀ rest examine, judge rest = some examine → Keeps T A 0 examine) :
    Keeps T A 0 (q.sweepIndex seg widthNs zeroWidth floorNs judge count) := by
  unfold Queue.sweepIndex
  split
  · exact settled rfl
  refine pages (fun a => hr.tame.list _ a _) (fun report item => ?_) _
  unfold Queue.sweepEntry
  dsimp only
  split
  · exact Keeps.pure _
  next bucket hbucket =>
  split
  · exact Keeps.pure _
  split
  · exact Keeps.pure _
  next examine hexamine =>
  refine (hjudge _ _ hexamine).bind fun due => Keeps.bind ?_ fun _ => Keeps.pure _
  exact paid (hdelete _ (dir_of_indexEntry hbucket)) fun _ _ => Keeps.pure _

lemma sweepExpiredLeases (hdelete : ∀ key, q.under [leasesSeg] <+: key → A (.store (.delete key))) :
    Keeps T A 0 (q.sweepExpiredLeases floorNs) := by
  refine sweepIndex hr hdelete fun rest examine hexamine => ?_
  obtain ⟨entry, -, rfl⟩ := Option.map_eq_some_iff.mp hexamine
  exact leaseReclaimable hr

lemma sweepDelayed (hdelete : ∀ key, q.under [delayedSeg] <+: key → A (.store (.delete key))) :
    Keeps T A 0 (q.sweepDelayed floorNs) := by
  refine sweepIndex hr hdelete fun rest examine hexamine => ?_
  obtain ⟨entry, -, rfl⟩ := Option.map_eq_some_iff.mp hexamine
  exact jobPromotable hr

end Reads

/-! ## Repair -/

/-- The index entries a repair scan puts back, and the quarantine records it writes. -/
inductive RepairPut (q : Queue) : Key → Bytes → Prop
  | delay (b : UInt64) (s : UInt16) (j : ByteArr 16) : RepairPut q (.delayIndex b s j) []
  | lease (b : UInt64) (s : UInt16) (j : ByteArr 16) (g : UInt32) : RepairPut q (.leaseIndex b s j g) []
  | term (b : UInt64) (kind : TermKind) (s : UInt16) (j : ByteArr 16) : RepairPut q (.termIndex b kind s j) []
  | quarantine (b : UInt64) (r : QuarantineRecord) :
      RepairPut q (.quarantine b r.qid) (q.encodeAt (.quarantine b r.qid) (.quarantine r))

section Repair

variable (hr : Reading A) (hput : ∀ k body, RepairPut q k body → A (.put (q.absolute k) body))

include hr

omit [Sha256] in
lemma listAuthoritative {pre : Str} : Keeps T A 0 (Queue.listAuthoritative pre) :=
  pages (fun a => hr.tame.list _ a _) (fun _ _ => Keeps.pure _) _

lemma ensureIndex {index : Str} (h : A (.put index [])) : Emits A (Queue.ensureIndex index) := by
  refine (store (hr.tame.head _)).bind fun r => ?_
  split
  · exact Keeps.pure _
  · exact paid h fun _ _ => Keeps.pure _
  · exact Yields.fail trivial

include hput

lemma writeQuarantine {relKey : Str} {reason observed : UInt64} {detail : Option UInt64} :
    Keeps T A 0 (q.writeQuarantine relKey reason observed detail) := by
  unfold Queue.writeQuarantine
  split
  · exact Keeps.pure _
  refine Keeps.bind ?_ fun bucket => ?_
  · cases Math.bucketNumber observed q.format.terminalBucketWidthNs
    · exact settled rfl
    · exact Keeps.pure _
  · exact putBytesResolving (hput _ _ (.quarantine bucket ⟨_, relKey, reason, observed, detail⟩))
      (hr.tame.head _)

lemma finding {α : Type} {relKey : Str} {reason observed : UInt64} {detail : Option UInt64} (a : α) :
    Keeps T A 0 (do
      q.writeQuarantine relKey reason observed detail
      pure a) :=
  (writeQuarantine hr hput).bind fun _ => Keeps.pure _

lemma repairJobs {state : RepairReport × List (ByteArr 16)} : Emits A (q.repairJobs shard state item) := by
  unfold Queue.repairJobs
  dsimp only
  split
  · next jobId _ =>
      refine Keeps.bind ?_ fun _ => Keeps.pure _
      refine (store (hr.get _)).bind fun r => ?_
      split
      · split
        · refine Keeps.bind ?_ fun report => ?_
          · unfold Queue.checkPayload
            split
            · exact Keeps.pure _
            · refine paid (hr.tame.head _) fun r _ => ?_
              split
              · exact Keeps.pure _
              · exact finding hr hput _
              · exact Yields.fail trivial
          · unfold Queue.restoreDelay
            split
            · exact Keeps.pure _
            split
            · exact Keeps.pure _
            · exact (ensureIndex hr (hput _ _ (.delay _ shard jobId))).bind fun _ => Keeps.pure _
        · exact finding hr hput _
        · exact finding hr hput _
      · exact Keeps.pure _
      · exact Yields.fail trivial
  · exact (finding hr hput _).bind fun _ => Keeps.pure _

lemma auditRecord {state : RepairReport × List (Option ClaimRecord)} {link : UInt64 × Meta} :
    Emits A (q.auditRecord shard jobId state link) := by
  refine paid (hr.get _) fun r _ => ?_
  split
  · split
    · exact Keeps.pure _
    · exact (finding hr hput _).bind fun _ => Keeps.pure _
    · exact (finding hr hput _).bind fun _ => Keeps.pure _
  · exact Keeps.pure _
  · exact Yields.fail trivial

lemma auditClaimChain {chain : Links} : Emits A (q.auditClaimChain shard jobId chain report) := by
  refine (Keeps.foldM _ (fun report pair _ => ?_) _).bind fun report => ?_
  · unfold Queue.auditContiguity
    split
    · exact finding hr hput _
    · exact Keeps.pure _
  refine Keeps.bind ?_ fun report => ?_
  · unfold Queue.auditHead
    split
    · exact finding hr hput _
    · exact Keeps.pure _
  refine (Keeps.foldM _ (fun _ _ _ => auditRecord hr hput) _).bind fun state => ?_
  refine (Keeps.foldM _ (fun report pair _ => ?_) _).bind fun report => Keeps.pure _
  unfold Queue.auditEvidence
  split
  · split
    · exact Keeps.pure _
    · exact finding hr hput _
  · exact Keeps.pure _

lemma collectChain {state : RepairReport × List (ByteArr 16 × Links)} : Emits A (q.collectChain state item) := by
  unfold Queue.collectChain
  split
  · exact Keeps.pure _
  · exact (finding hr hput _).bind fun _ => Keeps.pure _

lemma restoreLease {tailGen tailDuration : UInt64} {tailMeta : Meta} :
    Emits A (q.restoreLease shard jobId report tailGen tailMeta tailDuration) := by
  unfold Queue.restoreLease
  split
  · exact Keeps.pure _
  · exact (ensureIndex hr (hput _ _ (.lease _ shard jobId _))).bind fun _ => Keeps.pure _

lemma repairChain {jobIds : List (ByteArr 16)} {chain : ByteArr 16 × Links} :
    Emits A (q.repairChain shard jobIds report chain) := by
  refine (auditClaimChain hr hput).bind fun tail => ?_
  dsimp only
  split
  · exact (writeQuarantine hr hput).bind fun _ => restoreLease hr hput
  · exact restoreLease hr hput

lemma repairTerminal {state : RepairReport × List (ByteArr 16 × UInt64)} :
    Emits A (q.repairTerminal shard state item) := by
  unfold Queue.repairTerminal
  dsimp only
  split
  · exact (finding hr hput _).bind fun _ => Keeps.pure _
  · split
    · exact Keeps.pure _
    · exact (ensureIndex hr (hput _ _ (.term _ _ shard _))).bind fun _ => Keeps.pure _

lemma repairShard : Emits A (q.repairShard shard report) := by
  have hlist : ∀ pre, Emits A (Queue.listAuthoritative pre) := fun pre => listAuthoritative hr
  refine (hlist _).bind fun jobs =>
    (Keeps.foldM _ (fun _ _ _ => repairJobs hr hput) _).bind fun seen => ?_
  refine (hlist _).bind fun claims =>
    (Keeps.foldM _ (fun _ _ _ => collectChain hr hput) _).bind fun chains => ?_
  refine (Keeps.foldAny _ (fun _ _ _ => repairChain hr hput) _).bind fun report => ?_
  refine (hlist _).bind fun receipts =>
    (Keeps.foldM _ (fun _ _ _ => repairTerminal hr hput) _).bind fun ended => ?_
  refine (hlist _).bind fun dead =>
    (Keeps.foldM _ (fun _ _ _ => repairTerminal hr hput) _).bind fun buried => ?_
  exact Keeps.foldAny _ (fun _ _ _ => finding hr hput _) _

lemma repairFrom (left next : Nat) (report : RepairReport) : Emits A (q.repairFrom next left report) := by
  induction left generalizing next report with
  | zero => exact Keeps.pure _
  | succ left ih =>
    refine (repairShard hr hput).bind fun report => Keeps.remaining.bind fun budget => ?_
    split
    · exact Keeps.pure _
    · exact ih (next + 1) _

/-- A repair scan reads, and creates index entries and quarantine records. -/
lemma repairScan {startShard : UInt16} : Emits A (q.repairScan startShard) := repairFrom hr hput _ _ _

end Repair

end Footprint
end Core
end StowQ
