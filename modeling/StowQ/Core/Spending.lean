import StowQ.Core.Depth
import StowQ.Core.Upkeep
import StowQ.Interleaving

/-!
# Spending

Every operation but the repair scan pays for a store request before it issues it (`pays_task`), whatever the
answers are.  The judgment `Pays` follows a program request by request and is proved for each routine from those
of its parts.  The repair scan reads without paying at every record it meets; what it does with other keys is
paid for.
-/

namespace StowQ
namespace Core

open Data Concurrent Store Format Keys
open Interleaving (Action)

lemma Footprint.reading_any : Reading fun _ => True := by
  refine ⟨?_, fun _ => trivial⟩
  constructor <;> intros <;> trivial

/-- Every call but the repair scan keeps to fair terms; an advance of the watermark is left open. -/
lemma Footprint.task [Sha256] {q : Queue} {T : Regime Op Res Error} [Footprint.Fair T] {action : Action}
    (hrepair : ∀ shard, action ≠ .repairScan shard)
    (hwatermark : ∀ floorNs, action = .advanceWatermark floorNs →
      Budgeted.Keeps T (fun _ => True) 0 (q.advanceWatermark floorNs)) :
    Budgeted.Keeps T (fun _ => True) 0 (action.task q) := by
  have done : ∀ {α : Type} {m : Routine α} {f : α → Interleaving.Output}, Budgeted.Keeps T (fun _ => True) 0 m →
      Budgeted.Keeps T (fun _ => True) 0 (m >>= fun a => pure (f a)) := fun hm => hm.bind fun _ => Budgeted.Keeps.pure _
  have hr : Reading fun _ => True := reading_any
  have ht : Tame fun _ => True := hr.tame
  have hs : ∀ shard jobId, Probing (fun _ => True) q shard jobId :=
    fun _ _ => ⟨hr, fun _ _ _ => trivial, fun _ _ => trivial⟩
  cases action with
  | enqueue input =>
    exact done (enqueue ht (fun _ => trivial) (fun _ => trivial) (fun _ => trivial) fun _ _ _ => trivial)
  | claim opts => exact done (claim hs fun _ _ _ _ => trivial)
  | claimMany opts max => exact done (claimMany hs fun _ _ _ _ => trivial)
  | renew c => exact done (renew ht trivial (fun _ => trivial) (fun _ => trivial) fun _ _ => trivial)
  | commitOutput c name body => exact done (commitOutput trivial trivial)
  | ack c outputs => exact done (ack ht (fun _ => trivial) (fun _ => trivial) (fun _ => trivial) fun _ => trivial)
  | nack c reason floorNs =>
    exact done (f := fun _ => .nack) (nack ht (fun _ _ => trivial) trivial fun _ => trivial)
  | bury c reason => exact done (bury ht trivial trivial trivial (fun _ => trivial) fun _ => trivial)
  | establishFloor => exact done (establishFloor ht (fun _ => trivial) trivial)
  | advanceWatermark floorNs => exact done (f := fun _ => .advanceWatermark) (hwatermark floorNs rfl)
  | sweepExpiredLeases floorNs => exact done (sweepExpiredLeases hr fun _ _ => trivial)
  | sweepDelayed floorNs => exact done (sweepDelayed hr fun _ _ => trivial)
  | repairScan shard => exact absurd rfl (hrepair shard)
  | gc nowNs retentionNs orphanHorizonNs => exact done (gc ht fun _ => trivial)

namespace Spending

open Budgeted (Keeps Yields)

/-- Every store request costs one operation. -/
abbrev counted (V : (o : Op) → Res o → Prop) : Regime Op Res Error := ⟨storeOps, V, fun _ => True⟩

variable {V : (o : Op) → Res o → Prop} {α : Type} {k : Nat}

instance : Footprint.Fair (counted V) := ⟨fun _ => Nat.le_refl _, fun _ _ => trivial, fun _ _ _ _ => trivial⟩

/-- A routine that pays for its requests, with `k` operations paid in advance. -/
abbrev Pays (V : (o : Op) → Res o → Prop) (k : Nat) (m : Routine α) : Prop :=
  Keeps (counted V) (fun _ => True) k m

variable [Sha256] {q : Queue}

omit [Sha256] in
lemma depth (shard : UInt16) : Pays V 0 (q.depth shard) := by
  have hcount : ∀ plane, Pays V 0 (q.countPlane plane shard) :=
    fun _ => Footprint.pages (fun _ => trivial) (fun _ _ => Keeps.pure _) _
  exact (hcount _).bind fun jobs => (hcount _).bind fun claims => (hcount _).bind fun receipts =>
    (hcount _).bind fun dead => Keeps.pure _

lemma pays_task {action : Action} (h : ∀ shard, action ≠ .repairScan shard) : Pays V 0 (action.task q) :=
  Footprint.task h fun _ _ => Footprint.advanceWatermark trivial trivial (fun _ _ _ => trivial)
    (fun _ _ _ _ => trivial) fun _ _ => trivial

/-! ## The repair scan without records -/

/-- The planes whose records the scan reads. -/
def recordPlanes : List Str := [jobsSeg, claimsSeg, receiptsSeg, deadSeg]

/-- What the record directories of the queue list does not parse. -/
def Strange (q : Queue) : (o : Op) → Res o → Prop
  | .store (.list pre _ _), answer =>
    ∀ plane ∈ recordPlanes, ∀ shard : UInt16, shard.toNat < q.format.shardCount.toNat →
      pre = q.shardDir plane shard → ∀ page, answer = .ok page →
      ∀ item ∈ page.items, q.parseRel item.key = none
  | _, _ => True

section Repair

lemma finding {relKey : Str} {reason observed : UInt64} {detail : Option UInt64} (a : α) : Pays V 0 (do
      q.writeQuarantine relKey reason observed detail
      pure a) :=
  Footprint.finding Footprint.reading_any (fun _ _ _ => trivial) a

omit [Sha256] in
/-- What a listing returns are the items of its pages. -/
lemma yields_listAuthoritative {pre : Str} {P : Listing → Prop}
    (hpage : ∀ after page, V (.store (.list pre after 64)) (.ok page) → ∀ item ∈ page.items, P item) :
    Yields (counted V) (fun _ => True) 0 (fun items => ∀ item ∈ items, P item) (Queue.listAuthoritative pre) := by
  refine Footprint.yields_pages (fun _ => trivial) hpage (fun items item hitem hitems => Yields.pure ?_) (by simp)
  intro x hx
  obtain hold | hnew := List.mem_append.mp hx
  · exact hitems x hold
  · obtain rfl := List.mem_singleton.mp hnew
    exact hitem

variable {item : Listing} {shard : UInt16}

lemma repairJobs (h : q.parseRel item.key = none) (state : RepairReport × List (ByteArr 16)) :
    Pays V 0 (q.repairJobs shard state item) := by
  unfold Queue.repairJobs
  rw [h]
  exact (finding _).bind fun _ => Keeps.pure _

lemma collectChain (h : q.parseRel item.key = none) {state : RepairReport × List (ByteArr 16 × Links)}
    (hstate : state.2 = []) :
    Yields (counted V) (fun _ => True) 0 (fun s => s.2 = []) (q.collectChain state item) := by
  unfold Queue.collectChain
  rw [h]
  exact (finding _).bind fun _ => Yields.pure hstate

lemma repairTerminal (h : q.parseRel item.key = none) (state : RepairReport × List (ByteArr 16 × UInt64)) :
    Pays V 0 (q.repairTerminal shard state item) := by
  unfold Queue.repairTerminal
  rw [h]
  exact (finding _).bind fun _ => Keeps.pure _

lemma repairShard (hshard : shard.toNat < q.format.shardCount.toNat) (report : RepairReport) :
    Pays (Strange q) 0 (q.repairShard shard report) := by
  have hlisted : ∀ plane ∈ recordPlanes, Yields (counted (Strange q)) (fun _ => True) 0
      (fun items => ∀ item ∈ items, q.parseRel item.key = none)
      (Queue.listAuthoritative (q.shardDir plane shard)) := fun plane hplane =>
    yields_listAuthoritative fun after page hanswer => hanswer plane hplane shard hshard rfl page rfl
  refine (hlisted _ (by simp [recordPlanes])).bind fun jobs hjobs => ?_
  refine (Keeps.foldM _ (fun state item hitem => repairJobs (hjobs item hitem) state) _).bind fun seen => ?_
  refine (hlisted _ (by simp [recordPlanes])).bind fun claims hclaims => ?_
  refine (Yields.foldM (I := fun s => s.2 = []) (fun state item hitem => collectChain (hclaims item hitem))
    rfl).bind fun gathered hchains => ?_
  obtain ⟨report, chains⟩ := gathered
  obtain rfl : chains = [] := hchains
  refine (Keeps.foldAny [] nofun report).bind fun report => ?_
  refine (hlisted _ (by simp [recordPlanes])).bind fun receipts hreceipts => ?_
  refine (Keeps.foldM _ (fun state item hitem => repairTerminal (hreceipts item hitem) state) _).bind fun ended => ?_
  refine (hlisted _ (by simp [recordPlanes])).bind fun dead hdead => ?_
  refine (Keeps.foldM _ (fun state item hitem => repairTerminal (hdead item hitem) state) _).bind fun buried => ?_
  exact Keeps.foldAny _ (fun _ _ _ => finding _) _

lemma repairFrom (left next : Nat) (hcount : next + left ≤ q.format.shardCount.toNat) (report : RepairReport) :
    Pays (Strange q) 0 (q.repairFrom next left report) := by
  induction left generalizing next report with
  | zero => exact Keeps.pure _
  | succ left ih =>
    have hshard : (UInt16.ofNat next).toNat < q.format.shardCount.toNat := by
      have hmod : (UInt16.ofNat next).toNat ≤ next := Nat.mod_le _ _
      omega
    refine (repairShard hshard report).bind fun report => Keeps.remaining.bind fun budget => ?_
    split
    · exact Keeps.pure _
    · exact ih (next + 1) (by omega) _

/-- A scan that meets no record pays for what it does. -/
lemma repairScan (startShard : UInt16) : Pays (Strange q) 0 (q.repairScan startShard) := by
  unfold Queue.repairScan
  by_cases hstart : startShard.toNat ≤ q.format.shardCount.toNat
  · exact repairFrom _ _ (by omega) _
  · have hnone : q.format.shardCount.toNat - startShard.toNat = 0 := by omega
    rw [hnone]
    exact Keeps.pure _

end Repair

end Spending
end Core
end StowQ
