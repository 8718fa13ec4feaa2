import StowQ.Core.Gc

/-!
# Index sweeps

The two sweeps walk an advisory index up to the bucket of the floor.  Each entry is judged against the
authoritative objects and then deleted, whatever the verdict: the jobs become claimable through the ordinary
scan, and the report only counts.  Entries are parsed by hand; `Core.Entries` compares the parsers with the key
grammar.
-/

namespace StowQ
namespace Core

open Data Concurrent Store Format Keys

structure SweepReport where
  /-- Index entries examined. -/
  entries : Nat := 0
  reclaimed : Nat := 0
  promoted : Nat := 0
  deriving DecidableEq

/-- `str::rsplit_once`. -/
def rsplitOnce (c : Char) (s : Str) : Option (Str × Str) :=
  (splitOnce c s.reverse).map fun parts => (parts.2.reverse, parts.1.reverse)

/-- `<shard>/<job>.<generation>`. -/
def parseLeaseEntry (rest : Str) : Option (UInt16 × ByteArr 16 × UInt32) := do
  let (shardStr, tail) ← splitOnce '/' rest
  let (jobStr, genStr) ← rsplitOnce '.' tail
  let shard ← fromStrRadix (2 ^ 16) shardStr
  if shardStr.length ≠ 4 ∨ jobStr.length ≠ 32 ∨ genStr.length ≠ 8 then none
  else do
    let jobId ← radixBytes jobStr
    let generation ← fromStrRadix (2 ^ 32) genStr
    if h : jobId.length = 16 then
      some (UInt16.ofNat shard, ⟨jobId, h⟩, UInt32.ofNat generation)
    else none

/-- `<shard>/<job>`. -/
def parseDelayEntry (rest : Str) : Option (UInt16 × ByteArr 16) := do
  let (shardStr, jobStr) ← splitOnce '/' rest
  if shardStr.length ≠ 4 ∨ jobStr.length ≠ 32 then none
  else do
    let shard ← fromStrRadix (2 ^ 16) shardStr
    let jobId ← radixBytes jobStr
    if h : jobId.length = 16 then some (UInt16.ofNat shard, ⟨jobId, h⟩) else none

namespace Queue

variable [Sha256] (q : Queue)

/-- The tail of a claim chain with its lease duration.  A tail whose record is gone, or is
no claim, has duration 0. -/
def claimTail (shard : UInt16) (jobId : ByteArr 16) : Routine (UInt64 × Meta × UInt64) := do
  match ← q.listTail shard jobId with
  | none => pure (0, emptyMeta, 0)
  | some (generation, info) => do
    Routine.spend
    let rel := Key.claim shard jobId generation.toUInt32
    match ← Routine.get (q.absolute rel) with
    | .ok obj =>
      match ← Routine.ofRecord (q.decodeAt rel obj.body) with
      | .claim c => pure (generation, info, c.leaseDurationNs)
      | _ => pure (generation, info, 0)
    | .error .notFound => pure (generation, info, 0)
    | .error e => Budgeted.fail (.store e)

/-- Whether the job is not terminal and its lease has run out at the floor. -/
def leaseReclaimable (shard : UInt16) (jobId : ByteArr 16) (floorNs : UInt64) : Routine Bool := do
  if !(← q.provenAbsent (.receipt shard jobId)) then pure false
  else if !(← q.provenAbsent (.dead shard jobId)) then pure false
  else do
    let (generation, info, duration) ← q.claimTail shard jobId
    if generation = 0 then pure false
    else
      pure (satAdd (satAdd info.storeTimeNs duration) q.opts.skewGuardNs ≤ floorNs)

/-- Whether the fail record of the tail generation, if there is one, allows a delivery. -/
def retryDue (shard : UInt16) (jobId : ByteArr 16) (generation floorNs : UInt64) :
    Routine Bool := do
  if generation = 0 then pure true
  else do
    Routine.spend
    let rel := Key.fail shard jobId generation.toUInt32
    match ← Routine.get (q.absolute rel) with
    | .ok obj =>
      match ← Routine.ofRecord (q.decodeAt rel obj.body) with
      | .fail f => pure (f.retryNotBeforeNs ≤ floorNs)
      | _ => pure true
    | .error .notFound => pure true
    | .error e => Budgeted.fail (.store e)

/-- Whether the delays of the job and of its tail are over at the floor. -/
def jobPromotable (shard : UInt16) (jobId : ByteArr 16) (floorNs : UInt64) : Routine Bool := do
  Routine.spend
  let rel := Key.job shard jobId
  match ← Routine.get (q.absolute rel) with
  | .ok obj =>
    match ← Routine.ofRecord (q.decodeAt rel obj.body) with
    | .job job =>
      if floorNs < job.notBeforeNs.getD 0 then pure false
      else do
        let (generation, _, _) ← q.claimTail shard jobId
        q.retryDue shard jobId generation floorNs
    | _ => pure false
  | .error .notFound => pure false
  | .error e => Budgeted.fail (.store e)

/-- The bucket text of an index key and what follows it. -/
def indexEntry (seg : Str) (key : Str) : Str × Str :=
  let rel := if q.root.isPrefixOf key then key.drop q.root.length else []
  let entry := if (seg ++ ['/']).isPrefixOf rel then rel.drop (seg.length + 1) else []
  (splitOnce '/' entry).getD (entry, [])

/-- One entry of an index: judge it if its bucket is due, and delete it. -/
def sweepEntry (seg : Str) (maxBucket : UInt64) (judge : Str → Option (Routine Bool))
    (count : SweepReport → SweepReport) (report : SweepReport) (item : Listing) :
    Routine SweepReport := do
  let (bucketStr, rest) := q.indexEntry seg item.key
  match fromStrRadix (2 ^ 64) bucketStr with
  | none => pure report
  | some bucket =>
    if maxBucket < UInt64.ofNat bucket then pure report
    else
      let report := { report with entries := report.entries + 1 }
      match judge rest with
      | none => pure report
      | some examine => do
        let due ← examine
        discard item.key
        pure (if due then count report else report)

/-- A sweep of one index. -/
def sweepIndex (seg : Str) (widthNs : UInt64) (zeroWidth : String) (floorNs : UInt64)
    (judge : Str → Option (Routine Bool)) (count : SweepReport → SweepReport) :
    Routine SweepReport :=
  match Math.bucketNumber floorNs widthNs with
  | none => Budgeted.fail (.internal zeroWidth)
  | some maxBucket =>
    Routine.pages true (q.under [seg]) 64 (q.sweepEntry seg maxBucket judge count) {}

def sweepExpiredLeases (floorNs : UInt64) : Routine SweepReport :=
  q.sweepIndex leasesSeg q.format.leaseBucketWidthNs "zero lease width" floorNs
    (fun rest => (parseLeaseEntry rest).map fun entry =>
      q.leaseReclaimable entry.1 entry.2.1 floorNs)
    (fun report => { report with reclaimed := report.reclaimed + 1 })

def sweepDelayed (floorNs : UInt64) : Routine SweepReport :=
  q.sweepIndex delayedSeg q.format.delayedBucketWidthNs "zero delayed width" floorNs
    (fun rest => (parseDelayEntry rest).map fun entry =>
      q.jobPromotable entry.1 entry.2 floorNs)
    (fun report => { report with promoted := report.promoted + 1 })

end Queue
end Core
end StowQ
