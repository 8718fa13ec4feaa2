import StowQ.Core.Custody

/-!
# Retention garbage collection

`gc` removes orphaned payloads and claims, stale beacons, and the whole graph of a job whose terminal record is
old enough.  It decides by looking: a listed object is collected if its job record was seen to be absent, a
graph if its terminal record was seen to be old.  The deletes that follow are unconditional, in a fixed order
with the job record before the terminal record, and their results are dropped, so that a pass can be cut off or
overtaken at any of them.
-/

namespace StowQ
namespace Core

open Data Concurrent Store Format Keys

/-- `str::contains`. -/
def containsStr (s pat : Str) : Bool :=
  s.tails.any fun t => pat.isPrefixOf t

/-- A byte of two digits as `u8::from_str_radix` reads it. -/
def radixByte (a b : Char) : Option UInt8 :=
  (fromStrRadix 256 [a, b]).map UInt8.ofNat

/-- Read pairs of digits. -/
def radixBytes : Str → Option Bytes
  | [] => some []
  | [_] => none
  | a :: b :: rest => do
    let x ← radixByte a b
    let tail ← radixBytes rest
    some (x :: tail)

/-- `termidx/<bucket>/<kind>/<shard>/<job>`. -/
def parseTermEntry (rel : Str) : Option (TermKind × UInt16 × ByteArr 16) := do
  let (seg, rest) ← splitOnce '/' rel
  if seg ≠ termidxSeg then none
  else do
    let (_, rest) ← splitOnce '/' rest
    let (kindStr, rest) ← splitOnce '/' rest
    let (shardStr, jobStr) ← splitOnce '/' rest
    let kind ← kindStr.head?
    if shardStr.length ≠ 4 ∨ jobStr.length ≠ 32 then none
    else do
      let kind ← if kind = 'r' then some .receipt else if kind = 'd' then some .dead else none
      let shard ← fromStrRadix (2 ^ 16) shardStr
      let jobId ← radixBytes jobStr
      if h : jobId.length = 16 then some (kind, UInt16.ofNat shard, ⟨jobId, h⟩) else none

namespace Queue

variable [Sha256] (q : Queue)

/-- The shard of a payload's job. -/
def payloadShard (jobId : ByteArr 16) : UInt16 :=
  Keys.computeShard q.opts.queueId jobId q.format.shardCount

/-- Delete, and drop the result. -/
def discard (key : Str) : Routine Unit := do
  Routine.spend
  let _ ← Routine.delete key
  pure ()

/-- Collect a listed object that is old and whose job record is absent.  The object is
looked at again before the delete: its store time tells a recreated one. -/
def collectOrphan (cutoff : UInt64) (item : Listing) (jobRel : Key) : Routine Bool := do
  if cutoff ≤ item.info.storeTimeNs then pure false
  else if !(← q.provenAbsent jobRel) then pure false
  else do
    Routine.spend
    match ← Routine.head item.key with
    | .ok now =>
      if now.storeTimeNs = item.info.storeTimeNs then do
        discard item.key
        pure true
      else pure false
    | .error .notFound => pure true
    | .error e => Budgeted.fail (.store e)

/-- One item of the orphan payload pass. -/
def gcPayload (orphanCutoff : UInt64) (report : GcReport) (item : Listing) : Routine GcReport := do
  match q.parseRel item.key with
  | some (.payload jobId _) => do
    if ← q.collectOrphan orphanCutoff item (.job (q.payloadShard jobId) jobId) then
      pure { report with orphansDeleted := report.orphansDeleted + 1 }
    else pure report
  | _ => pure report

/-- One item of the orphan claim pass. -/
def gcClaim (orphanCutoff : UInt64) (report : GcReport) (item : Listing) : Routine GcReport := do
  match q.parseRel item.key with
  | some (.claim shard jobId _) => do
    if ← q.collectOrphan orphanCutoff item (.job shard jobId) then
      pure { report with claimOrphansDeleted := report.claimOrphansDeleted + 1 }
    else pure report
  | _ => pure report

/-- One item of the beacon pass. -/
def gcBeacon (beaconCutoff : UInt64) (report : GcReport) (item : Listing) : Routine GcReport := do
  if item.info.storeTimeNs < beaconCutoff then do
    discard item.key
    pure { report with beaconsDeleted := report.beaconsDeleted + 1 }
  else pure report

/-- Delete every object under a directory. -/
def discardAll (pre : Str) : Routine Unit :=
  Routine.pages true pre 64 (fun _ item => discard item.key) ()

/-- Delete the index entries of one job under a directory. -/
def discardEntries (pre : Str) (shard : UInt16) (jobId : ByteArr 16) : Routine Unit :=
  Routine.pages true pre 64 (fun _ item =>
    if containsStr item.key ('/' :: (hex16 shard ++ '/' :: hex jobId.toList)) then
      discard item.key
    else pure ()) ()

/-- Delete one job's terminal graph in the strict order: indexes, tail hint, fails, claims,
payloads, job, and the terminal record last. -/
def deleteTerminalGraph (shard : UInt16) (jobId : ByteArr 16) (terminalRel : Key)
    (indexKey : Str) : Routine Bool := do
  let jhex := hex jobId.toList
  discardEntries (q.under [leasesSeg]) shard jobId
  discardEntries (q.under [delayedSeg]) shard jobId
  discard indexKey
  discard (q.absolute (.tail shard jobId))
  discardAll (q.under [failsSeg, hex16 shard, jhex])
  discardAll (q.under [claimsSeg, hex16 shard, jhex])
  discardAll (q.under [payloadsSeg, jhex])
  discard (q.absolute (.job shard jobId))
  discard (q.absolute terminalRel)
  pure true

/-- The key of a terminal record. -/
def terminalRel (kind : TermKind) (shard : UInt16) (jobId : ByteArr 16) : Key :=
  match kind with
  | .receipt => .receipt shard jobId
  | .dead => .dead shard jobId

/-- One item of the terminal pass.  Only `NotFound` proves the terminal record gone. -/
def gcTerminal (cutoff : UInt64) (report : GcReport) (item : Listing) : Routine GcReport := do
  let relStr := if q.root.isPrefixOf item.key then item.key.drop q.root.length else []
  match parseTermEntry relStr with
  | none => pure report
  | some (kind, shard, jobId) => do
    let rel := terminalRel kind shard jobId
    Routine.spend
    match ← Routine.head (q.absolute rel) with
    | .error .notFound => do
      discard item.key
      pure report
    | .error e => Budgeted.fail (.store e)
    | .ok info =>
      if cutoff ≤ info.storeTimeNs then pure report
      else if ← q.deleteTerminalGraph shard jobId rel item.key then
        pure { report with jobsDeleted := report.jobsDeleted + 1 }
      else pure report

def gc (nowNs retentionNs orphanHorizonNs : UInt64) : Routine GcReport := do
  let cutoff := satSub nowNs retentionNs
  let orphanCutoff := satSub nowNs orphanHorizonNs
  let beaconCutoff := satSub nowNs (satMul floorStalenessNs 10)
  let report ← Routine.pages true (q.under [payloadsSeg]) 64 (q.gcPayload orphanCutoff) {}
  let report ← Routine.pages true (q.under [claimsSeg]) 64 (q.gcClaim orphanCutoff) report
  let report ← Routine.pages true (q.under [metaSeg, clockSeg]) 64
    (gcBeacon beaconCutoff) report
  Routine.pages true (q.under [termidxSeg]) 64 (q.gcTerminal cutoff) report

end Queue
end Core
end StowQ
