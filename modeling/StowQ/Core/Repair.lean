import StowQ.Core.Sweep

/-!
# Repair scan

The scan reads a shard's jobs, claim chains and terminal records, puts back missing index
entries, and reports what cannot have come from the protocol: keys that do not parse,
records that do not decode, claims without a job, gaps and inadmissible evidence in a
chain, a receipt beside a dead record.  On queues with feature bit 1 every finding is also
written as a quarantine record.

The hash maps of the source are lists here, and a loop over one visits them in an order that
the scheduler picks.
-/

namespace StowQ
namespace Core

open Data Concurrent Store Format Keys

inductive FindingKind
  /-- A key under an authoritative directory that does not parse. -/
  | keyGrammar
  /-- A record that fails digest, envelope or field decoding. -/
  | recordCorrupt
  | claimWithoutJob
  /-- A claim whose evidence contradicts the claim before it. -/
  | inadmissibleClaim
  /-- Both a receipt and a dead record. -/
  | duplicateTerminal
  /-- A chain with a missing generation. -/
  | chainGap
  /-- A detached job whose payload is absent. -/
  | payloadMissing
  deriving DecidableEq

structure Finding where
  kind : FindingKind
  /-- The offending object's absolute key. -/
  key : Str
  reason : UInt64
  deriving DecidableEq

structure RepairReport where
  shardsScanned : Nat := 0
  jobsScanned : Nat := 0
  claimChainsScanned : Nat := 0
  indexesRegenerated : Nat := 0
  findings : List Finding := []
  deriving DecidableEq

namespace RepairReport

def push (report : RepairReport) (f : Finding) : RepairReport :=
  { report with findings := report.findings ++ [f] }

/-- Count an index entry that was missing. -/
def regenerated (report : RepairReport) (missing : Bool) : RepairReport :=
  if missing then { report with indexesRegenerated := report.indexesRegenerated + 1 } else report

end RepairReport

/-- `StowQ-1-qid\0`. -/
def qidDomain : Bytes :=
  utf8 ['S', 't', 'o', 'w', 'Q', '-', '1', '-', 'q', 'i', 'd', '\x00']

/-- The quarantine id of an offending relative key. -/
def quarantineQid [Sha256] (queueId : ByteArr 16) (relKey : Str) (reason : UInt64) : ByteArr 16 :=
  ⟨(Sha256.digest (qidDomain ++ queueId.toList ++ utf8 relKey ++ beBytes 8 reason.toNat)).toList.take
    16, by simp⟩

/-- The reason code of a decode failure. -/
def recordViolationReason (e : RecordError) : UInt64 :=
  if e = .field "queue binding" then 0x0004 else 0x0001

/-- The generations of one chain as a listing shows them. -/
abbrev Links := List (UInt64 × Meta)

/-- Add a listed claim to the chain of its job. -/
def addLink (chains : List (ByteArr 16 × Links)) (jobId : ByteArr 16) (link : UInt64 × Meta) :
    List (ByteArr 16 × Links) :=
  if chains.any fun c => c.1 = jobId then
    chains.map fun c => if c.1 = jobId then (c.1, c.2 ++ [link]) else c
  else chains ++ [(jobId, [link])]

/-- Whether a claim's evidence fits the claim before it: a continuation names its holder, a
takeover the store time and the lease that had run out. -/
def admissible (prevInfo : Meta) (prev rec : ClaimRecord) : Bool :=
  if rec.continuation then
    rec.workerId = prev.workerId && rec.prevToken = some prev.workerToken
  else
    match rec.basis with
    | none => false
    | some basis =>
      basis.prevStoreTimeNs = prevInfo.storeTimeNs &&
        basis.prevDurationNs = prev.leaseDurationNs &&
        satAdd basis.prevStoreTimeNs basis.prevDurationNs ≤ basis.observedWatermarkNs

namespace Queue

variable [Sha256] (q : Queue)

/-- Feature bit 1. -/
def quarantines : Bool :=
  q.format.requiredFeatureBits &&& 1 ≠ 0

/-- Write a finding as a quarantine record.  Key and body depend on the finding only, so
independent auditors write the same object. -/
def writeQuarantine (relKey : Str) (reason observedStoreNs : UInt64) (detail : Option UInt64) :
    Routine Unit := do
  if !q.quarantines then pure ()
  else do
    let qid := quarantineQid q.opts.queueId relKey reason
    let bucket ← Routine.ofOption "zero terminal width"
      (Math.bucketNumber observedStoreNs q.format.terminalBucketWidthNs)
    let rel := Key.quarantine bucket qid
    let body := q.encodeAt rel (.quarantine ⟨qid, relKey, reason, observedStoreNs, detail⟩)
    putBytesResolving (q.absolute rel) body (Sha256.digest body)

/-- All objects under a directory. -/
def listAuthoritative (pre : Str) : Routine (List Listing) :=
  Routine.pages true pre 64 (fun items item => pure (items ++ [item])) []

/-- Put an index entry back if it is absent; `true` when it was. -/
def ensureIndex (index : Str) : Routine Bool := do
  match ← Routine.head index with
  | .ok _ => pure false
  | .error .notFound => do
    Routine.spend
    let _ ← Routine.put index []
    pure true
  | .error e => Budgeted.fail (.store e)

/-- `strip_prefix(root).unwrap_or("")`. -/
def stripped (key : Str) : Str :=
  if q.root.isPrefixOf key then key.drop q.root.length else []

/-- Report a listed key that does not parse. -/
def findGrammar (report : RepairReport) (item : Listing) : Routine RepairReport := do
  q.writeQuarantine (q.stripped item.key) 0x0003 item.info.storeTimeNs none
  pure (report.push ⟨.keyGrammar, item.key, 0x0003⟩)

/-- Report a record that does not decode, or is of another type. -/
def findCorrupt (report : RepairReport) (rel : Key) (reason observedStoreNs : UInt64) :
    Routine RepairReport := do
  q.writeQuarantine rel.fmt reason observedStoreNs none
  pure (report.push ⟨.recordCorrupt, q.absolute rel, reason⟩)

/-! ## Jobs -/

/-- Report a detached job whose payload is absent. -/
def checkPayload (report : RepairReport) (job : JobRecord) (observedStoreNs : UInt64) :
    Routine RepairReport := do
  match job.payloadKey with
  | none => pure report
  | some pk => do
    let abs := q.root ++ pk
    Routine.spend
    match ← Routine.head abs with
    | .ok _ => pure report
    | .error .notFound => do
      q.writeQuarantine pk 0x0014 observedStoreNs none
      pure (report.push ⟨.payloadMissing, abs, 0x0014⟩)
    | .error e => Budgeted.fail (.store e)

/-- Put the delay entry of a job back. -/
def restoreDelay (shard : UInt16) (jobId : ByteArr 16) (report : RepairReport) (job : JobRecord) :
    Routine RepairReport := do
  match job.notBeforeNs with
  | none => pure report
  | some nb =>
    match Math.bucketNumber nb q.format.delayedBucketWidthNs with
    | none => pure report
    | some bucket => do
      let missing ← ensureIndex (q.absolute (.delayIndex bucket shard jobId))
      pure (report.regenerated missing)

/-- The record of a listed job.  The read is not paid for. -/
def repairJob (shard : UInt16) (jobId : ByteArr 16) (report : RepairReport) (item : Listing) :
    Routine RepairReport := do
  let rel := Key.job shard jobId
  match ← Routine.get (q.absolute rel) with
  | .ok obj =>
    match q.decodeAt rel obj.body with
    | .ok (.job job) => do
      let report ← q.checkPayload report job item.info.storeTimeNs
      q.restoreDelay shard jobId report job
    | .ok _ => do
      q.writeQuarantine rel.fmt 0x0005 item.info.storeTimeNs none
      pure (report.push ⟨.recordCorrupt, item.key, 0x0005⟩)
    | .error e => do
      q.writeQuarantine rel.fmt (recordViolationReason e) item.info.storeTimeNs none
      pure (report.push ⟨.recordCorrupt, item.key, recordViolationReason e⟩)
  -- listed but gone: a collection came in between
  | .error .notFound => pure report
  | .error e => Budgeted.fail (.store e)

/-- The job pass: the report and the jobs it has seen. -/
def repairJobs (shard : UInt16) (state : RepairReport × List (ByteArr 16)) (item : Listing) :
    Routine (RepairReport × List (ByteArr 16)) := do
  let report := { state.1 with jobsScanned := state.1.jobsScanned + 1 }
  match q.parseRel item.key with
  | some (.job _ jobId) => do
    let report ← q.repairJob shard jobId report item
    pure (report, state.2 ++ [jobId])
  | _ => do
    let report ← q.findGrammar report item
    pure (report, state.2)

/-! ## Claim chains -/

/-- Report a missing generation. -/
def findGap (shard : UInt16) (jobId : ByteArr 16) (report : RepairReport)
    (missing observedStoreNs : UInt64) : Routine RepairReport := do
  let rel := Key.claim shard jobId missing.toUInt32
  q.writeQuarantine rel.fmt 0x0015 observedStoreNs (some missing)
  pure (report.push ⟨.chainGap, q.absolute rel, 0x0015⟩)

/-- Generations must follow each other without a gap. -/
def auditContiguity (shard : UInt16) (jobId : ByteArr 16) (report : RepairReport)
    (pair : (UInt64 × Meta) × (UInt64 × Meta)) : Routine RepairReport := do
  if pair.2.1 ≠ pair.1.1 + 1 then
    q.findGap shard jobId report (pair.1.1 + 1) pair.1.2.storeTimeNs
  else pure report

/-- The first generation must be 1. -/
def auditHead (shard : UInt16) (jobId : ByteArr 16) (report : RepairReport)
    (first : UInt64 × Meta) : Routine RepairReport := do
  if first.1 ≠ 1 then q.findGap shard jobId report first.1 first.2.storeTimeNs
  else pure report

/-- Read the claim record of one generation. -/
def auditRecord (shard : UInt16) (jobId : ByteArr 16)
    (state : RepairReport × List (Option ClaimRecord)) (link : UInt64 × Meta) :
    Routine (RepairReport × List (Option ClaimRecord)) := do
  let rel := Key.claim shard jobId link.1.toUInt32
  Routine.spend
  match ← Routine.get (q.absolute rel) with
  | .ok obj =>
    match q.decodeAt rel obj.body with
    | .ok (.claim c) => pure (state.1, state.2 ++ [some c])
    | .ok _ => do
      let report ← q.findCorrupt state.1 rel 0x0005 link.2.storeTimeNs
      pure (report, state.2 ++ [none])
    | .error e => do
      let report ← q.findCorrupt state.1 rel (recordViolationReason e) link.2.storeTimeNs
      pure (report, state.2 ++ [none])
  | .error .notFound => pure (state.1, state.2 ++ [none])
  | .error e => Budgeted.fail (.store e)

/-- One generation against the one before it; records that could not be read are skipped. -/
def auditEvidence (shard : UInt16) (jobId : ByteArr 16) (report : RepairReport)
    (pair : ((UInt64 × Meta) × Option ClaimRecord) × ((UInt64 × Meta) × Option ClaimRecord)) :
    Routine RepairReport := do
  match pair.1.2, pair.2.2 with
  | some prev, some rec =>
    if admissible pair.1.1.2 prev rec then pure report
    else do
      let rel := Key.claim shard jobId pair.2.1.1.toUInt32
      q.writeQuarantine rel.fmt 0x0010 pair.2.1.2.storeTimeNs (some pair.2.1.1)
      pure (report.push ⟨.inadmissibleClaim, q.absolute rel, 0x0010⟩)
  | _, _ => pure report

/-- Audit a whole chain.  Returns its last generation, with duration 0 when the record of
that generation is not available. -/
def auditClaimChain (shard : UInt16) (jobId : ByteArr 16) (chain : Links) (report : RepairReport) :
    Routine (RepairReport × UInt64 × Meta × UInt64) := do
  let report ← Budgeted.foldM (q.auditContiguity shard jobId) report (chain.zip chain.tail)
  let report ← q.auditHead shard jobId report (chain.headD (0, emptyMeta))
  let (report, decoded) ← Budgeted.foldM (q.auditRecord shard jobId) (report, []) chain
  let audited := chain.zip decoded
  let report ← Budgeted.foldM (q.auditEvidence shard jobId) report (audited.zip audited.tail)
  let (tailGen, tailMeta) := chain.getLastD (0, emptyMeta)
  let tailDuration := ((decoded.getLast?.bind id).map ClaimRecord.leaseDurationNs).getD 0
  pure (report, tailGen, tailMeta, tailDuration)

/-- Sort the listed claims of a shard into chains. -/
def collectChain (state : RepairReport × List (ByteArr 16 × Links)) (item : Listing) :
    Routine (RepairReport × List (ByteArr 16 × Links)) := do
  match q.parseRel item.key with
  | some (.claim _ jobId generation) =>
    pure (state.1, addLink state.2 jobId (generation.toUInt64, item.info))
  | _ => do
    let report ← q.findGrammar state.1 item
    pure (report, state.2)

/-- Put the lease entry of a chain's tail back. -/
def restoreLease (shard : UInt16) (jobId : ByteArr 16) (report : RepairReport)
    (tailGen : UInt64) (tailMeta : Meta) (tailDuration : UInt64) : Routine RepairReport := do
  match Math.bucketNumber (satAdd tailMeta.storeTimeNs tailDuration)
      q.format.leaseBucketWidthNs with
  | none => pure report
  | some bucket => do
    let missing ← ensureIndex
      (q.absolute (.leaseIndex bucket shard jobId tailGen.toUInt32))
    pure (report.regenerated missing)

/-- One chain: report it if its job was not listed, audit it, and put the lease entry of its
tail back. -/
def repairChain (shard : UInt16) (jobIds : List (ByteArr 16)) (report : RepairReport)
    (chain : ByteArr 16 × Links) : Routine RepairReport := do
  let jobId := chain.1
  let orphaned := !jobIds.contains jobId
  let jobRel := Key.job shard jobId
  let report := { report with claimChainsScanned := report.claimChainsScanned + 1 }
  let report := if orphaned then
    report.push ⟨.claimWithoutJob, q.absolute jobRel, 0x0005⟩ else report
  let (report, tailGen, tailMeta, tailDuration) ← q.auditClaimChain shard jobId
    (chain.2.mergeSort fun a b => a.1 ≤ b.1) report
  if orphaned then q.writeQuarantine jobRel.fmt 0x0005 tailMeta.storeTimeNs none
  q.restoreLease shard jobId report tailGen tailMeta tailDuration

/-! ## Terminal records -/

/-- Put the index entry of a terminal record back; collects the jobs with their store
times. -/
def repairTerminal (shard : UInt16) (state : RepairReport × List (ByteArr 16 × UInt64))
    (item : Listing) : Routine (RepairReport × List (ByteArr 16 × UInt64)) := do
  let found := match q.parseRel item.key with
    | some (.receipt _ jobId) => some (jobId, TermKind.receipt)
    | some (.dead _ jobId) => some (jobId, TermKind.dead)
    | _ => none
  match found with
  | none => do
    let report ← q.findGrammar state.1 item
    pure (report, state.2)
  | some (jobId, kind) => do
    let jobs := state.2 ++ [(jobId, item.info.storeTimeNs)]
    match Math.bucketNumber item.info.storeTimeNs q.format.terminalBucketWidthNs with
    | none => pure (state.1, jobs)
    | some bucket => do
      let missing ← ensureIndex (q.absolute (.termIndex bucket kind shard jobId))
      pure (state.1.regenerated missing, jobs)

/-- Report a receipt beside a dead record. -/
def findDuplicate (shard : UInt16) (report : RepairReport) (receipt : ByteArr 16 × UInt64) :
    Routine RepairReport := do
  let rel := Key.receipt shard receipt.1
  q.writeQuarantine rel.fmt 0x0007 receipt.2 none
  pure (report.push ⟨.duplicateTerminal, q.absolute rel, 0x0007⟩)

/-! ## Shards -/

/-- `<plane>/<shard>/` under the root. -/
def shardDir (plane : Str) (shard : UInt16) : Str :=
  q.under [plane, hex16 shard]

def repairShard (shard : UInt16) (report : RepairReport) : Routine RepairReport := do
  let jobs ← listAuthoritative (q.shardDir jobsSeg shard)
  let (report, jobIds) ← Budgeted.foldM (q.repairJobs shard) (report, []) jobs
  let claims ← listAuthoritative (q.shardDir claimsSeg shard)
  let (report, chains) ← Budgeted.foldM q.collectChain (report, []) claims
  let report ← Budgeted.foldAny (q.repairChain shard jobIds) report chains
  let receipts ← listAuthoritative (q.shardDir receiptsSeg shard)
  let (report, receiptJobs) ← Budgeted.foldM (q.repairTerminal shard) (report, []) receipts
  let dead ← listAuthoritative (q.shardDir deadSeg shard)
  let (report, deadJobs) ← Budgeted.foldM (q.repairTerminal shard) (report, []) dead
  let duplicates := receiptJobs.filter fun r => deadJobs.any fun d => d.1 = r.1
  Budgeted.foldAny (q.findDuplicate shard) report duplicates

/-- Scan from shard `next`, with `left` shards to go.  Stops early when the budget has run
low, and returns the next shard then. -/
def repairFrom : Nat → Nat → RepairReport → Routine (RepairReport × Option UInt16)
  | _, 0, report => pure (report, none)
  | next, left + 1, report => do
    let report ← q.repairShard (UInt16.ofNat next) report
    let report := { report with shardsScanned := report.shardsScanned + 1 }
    if (← Budgeted.remaining) ≤ 4 then
      pure (report, if left = 0 then none else some (UInt16.ofNat (next + 1)))
    else repairFrom (next + 1) left report

def repairScan (startShard : UInt16) : Routine (RepairReport × Option UInt16) :=
  q.repairFrom startShard.toNat (q.format.shardCount.toNat - startShard.toNat) {}

end Queue
end Core
end StowQ
