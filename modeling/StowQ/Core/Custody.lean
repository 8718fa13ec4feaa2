import StowQ.Core.Claim

/-!
# Operations on a claim

What the holder of a claim handle can do with it: renew the lease, commit outputs, and end the job with a
receipt, a fail record or a dead record.  Each of them ends in one conditional create, which decides the race,
and reads back what it cannot know.  The looks before the create are not atomic with it.
-/

namespace StowQ
namespace Core

open Data Concurrent Store Format

/-- The display text of a retry policy error. -/
def retryErrorText : Math.RetryError → String
  | .zeroBase => "base_ms must be positive"
  | .capTooSmall => "cap_ms must be >= base_ms"
  | .overflow => "deadline overflow"

def outputsSeg : Str := ['o', 'u', 't', 'p', 'u', 't', 's']

/-- An output name cannot escape the job's directory. -/
def validOutputName (name : Str) : Bool :=
  !name.isEmpty && !(name.head? = some '/') && !name.contains '\\' && !name.contains '\x00' &&
    (name.splitOn '/').all fun seg => !seg.isEmpty && seg != ['.'] && seg != ['.', '.']

/-- Bytes found at an output key against the digest we meant to write. -/
def classifyOutput [Sha256] (body : Bytes) (out : CommittedOutput) : Except Error CommitOutcome :=
  if Sha256.digest body = out.digest then .ok (.converged out)
  else .error (.outputConflict (Sha256.digest body))

/-- The payload bytes of a claim, digest-verified.  A detached payload is fetched. -/
def Claim.payloadBytes [Sha256] (claim : Claim) : Prog Op Res (Except Error Bytes) :=
  match claim.payload with
  | .inline b => .ret (.ok b)
  | .detached key digest length =>
    (Prog.request (Op.store (.get key))).map fun (r : StoreResult Object) =>
      match r with
      | .error e => .error (.store e)
      | .ok obj =>
        if UInt64.ofNat obj.body.length ≠ length then .error .payloadCorrupt
        else if Sha256.digest obj.body ≠ digest then .error .payloadCorrupt
        else .ok obj.body

namespace Queue

variable [Sha256] (q : Queue)

/-- `true` when the key is absent; only `NotFound` proves it. -/
def provenAbsent (rel : Keys.Key) : Routine Bool := do
  Routine.spend
  match ← Routine.head (q.absolute rel) with
  | .ok _ => pure false
  | .error .notFound => pure true
  | .error e => Budgeted.fail (.store e)

/-! ## Renew -/

/-- The claim record that continues a claim. -/
def continuationRecord (claim : Claim) : ClaimRecord where
  jobId := claim.jobId
  generation := claim.generation + 1
  attempt := claim.attempt
  workerId := q.opts.workerId
  workerToken := claim.workerToken
  leaseDurationNs := claim.leaseDurationNs
  continuation := true
  basis := none
  prevToken := some claim.workerToken

/-- The handle of a committed continuation. -/
def renewedHandle (claim : Claim) : Routine Claim := do
  let generation := claim.generation + 1
  Routine.spend
  let info ← Routine.ofStore
    (← Routine.head (q.absolute (.claim claim.shard claim.jobId generation.toUInt32)))
  q.updateTailHint claim.shard claim.jobId generation
  pure { claim with generation, claimStoreTimeNs := info.storeTimeNs }

/-- Extend the lease by appending a continuation; a terminal job cannot extend its
chain. -/
def renew (claim : Claim) : Routine RenewOutcome := do
  if UInt64.ofNat u32Max.toNat ≤ claim.generation then
    Budgeted.fail (.internal "generation space exhausted")
  else if !(← q.provenAbsent (.receipt claim.shard claim.jobId)) then pure .leaseLost
  else if !(← q.provenAbsent (.dead claim.shard claim.jobId)) then pure .leaseLost
  else do
    Routine.spend
    match ← q.putRecord (.claim claim.shard claim.jobId (claim.generation + 1).toUInt32)
        (.claim (q.continuationRecord claim)) with
    | .committed => do pure (.renewed (← q.renewedHandle claim))
    | _ => pure .leaseLost

/-! ## Outputs and ack -/

/-- `outputs/<job>/` under the root. -/
def outputsPrefix (jobId : ByteArr 16) : Str :=
  q.under [outputsSeg, hex jobId.toList]

/-- Commit an output at a key derived from the job, never from the attempt.  The bytes
that are there first decide. -/
def commitOutput (claim : Claim) (name : Str) (body : Bytes) : Routine CommitOutcome := do
  if !validOutputName name then Budgeted.fail (.key (.invalidOutputName name))
  else
    let abs := q.outputsPrefix claim.jobId ++ name
    let out : CommittedOutput := ⟨abs, Sha256.digest body⟩
    Routine.retrying do
      Routine.spend
      match ← Routine.putIfAbsent abs body out.digest with
      | .ok (.committed _) => pure (some (.committed out))
      | .ok .rejected => do
        let obj ← readRetrying abs
        let outcome ← Budgeted.ofExcept (classifyOutput obj.body out)
        pure (some outcome)
      | .error .transport => pure none
      | .error (.outcomeUnknown _) => do
        match ← Budgeted.attempt (readRetrying abs) with
        | .ok obj => do
          let outcome ← Budgeted.ofExcept (classifyOutput obj.body out)
          pure (some outcome)
        | .error (.store .notFound) => pure none
        | .error e => Budgeted.fail e
      | .error e => Budgeted.fail (.store e)

/-- Verify that an output is the job's own and holds its committed digest. -/
def verifyOutput (claim : Claim) (out : CommittedOutput) : Routine Unit := do
  if !(q.outputsPrefix claim.jobId).isPrefixOf out.key then
    Budgeted.fail (.key (.foreignOutput out.key claim.jobId))
  else
    match ← Budgeted.attempt (readRetrying out.key) with
    | .ok obj =>
      if Sha256.digest obj.body = out.digest then pure ()
      else Budgeted.fail (.outputEvidenceMismatch
        ("output " ++ String.ofList out.key ++ " body does not match its committed digest"))
    | .error (.store .notFound) =>
      Budgeted.fail (.outputEvidenceMismatch
        ("output " ++ String.ofList out.key ++ " absent at ack"))
    | .error e => Budgeted.fail e

/-- The receipt of a claim. -/
def receiptRecord (claim : Claim) (payloadDigest : Digest) (outputs : List CommittedOutput) :
    ReceiptRecord where
  jobId := claim.jobId
  generation := claim.generation
  attempt := claim.attempt
  workerId := q.opts.workerId
  workerToken := claim.workerToken
  payloadDigest := payloadDigest
  outputDigests := outputs.map CommittedOutput.digest

/-- Whether an existing receipt carries this claim's evidence. -/
def receiptEvidence (claim : Claim) (payloadDigest : Digest) (outputs : List CommittedOutput) :
    Record → Except Error AckOutcome
  | .receipt r =>
    if r.jobId = claim.jobId ∧ r.generation = claim.generation ∧ r.attempt = claim.attempt ∧
        r.payloadDigest = payloadDigest ∧
        r.outputDigests = outputs.map CommittedOutput.digest then .ok .alreadyAcked
    else .error .receiptEvidenceMismatch
  | _ => .error (.record "receipt key holds a non-receipt record")

/-- `ack` and `ack_with_outputs`: verify the payload and the outputs, then write the
receipt. -/
def ack (claim : Claim) (outputs : List CommittedOutput) : Routine AckOutcome := do
  Routine.spend
  Routine.spend
  let probes := Prog.join
    (Prog.request (Op.store (.head (q.absolute (.dead claim.shard claim.jobId)))))
    claim.payloadBytes
  let (dead, payload) ← Budgeted.lift probes
  match (dead : StoreResult Meta) with
  | .ok _ => pure .supersededByDead
  | .error .notFound => do
    let digest := Sha256.digest (← Budgeted.ofExcept payload)
    Budgeted.foldM (fun _ out => q.verifyOutput claim out) () outputs
    let rel := Keys.Key.receipt claim.shard claim.jobId
    Routine.spend
    match ← q.putRecord rel (.receipt (q.receiptRecord claim digest outputs)) with
    | .committed => do
      q.writeTermidx .receipt claim.shard claim.jobId
      pure .acked
    | _ => do
      let obj ← readRetrying (q.absolute rel)
      let found ← Routine.ofRecord (q.decodeAt rel obj.body)
      Budgeted.ofExcept (receiptEvidence claim digest outputs found)
  | .error e => Budgeted.fail (.store e)

/-! ## Nack and bury -/

/-- The wall floor before which a failed attempt is not retried. -/
def retryFloor (claim : Claim) (floorNs : UInt64) : Except Error UInt64 :=
  match Math.retryDelayMs q.opts.queueId claim.jobId
      (min claim.attempt (UInt64.ofNat u32Max.toNat)).toUInt32 q.opts.retry with
  | .error e => .error (.internal (retryErrorText e))
  | .ok delayMs =>
    match Math.retryNotBefore floorNs (delayMs * 1000000) with
    | none => .error (.internal "retry_not_before overflow")
    | some notBefore => .ok notBefore

/-- Give a claim up: the fail record delays the next delivery. -/
def nack (claim : Claim) (reason floorNs : UInt64) : Routine Unit := do
  let notBefore ← Budgeted.ofExcept (q.retryFloor claim floorNs)
  Routine.spend
  match ← q.putRecord (.fail claim.shard claim.jobId claim.generation.toUInt32)
      (.fail ⟨claim.jobId, claim.generation, reason, claim.attempt, notBefore⟩) with
  | .notCommitted => Budgeted.fail (.internal "nack not committed")
  | _ =>
    match q.delayIndexEntry notBefore claim.shard claim.jobId with
    | some put => put
    | none => pure ()

/-- Whether an existing dead record carries this claim's evidence. -/
def deadEvidence (claim : Claim) : Record → Except Error BuryOutcome
  | .dead d =>
    if d.generation = claim.generation ∧ d.attempt = claim.attempt then .ok .buried
    else .error (.record "dead key holds conflicting evidence")
  | _ => .error (.record "dead key holds conflicting evidence")

/-- End a job with a dead record, unless a receipt is there first. -/
def bury (claim : Claim) (reason : UInt64) : Routine BuryOutcome := do
  if !(← q.provenAbsent (.receipt claim.shard claim.jobId)) then pure .supersededByReceipt
  else do
    let rel := Keys.Key.dead claim.shard claim.jobId
    Routine.spend
    match ← q.putRecord rel (.dead ⟨claim.jobId, claim.generation, claim.attempt, reason⟩) with
    | .committed => do
      q.writeTermidx .dead claim.shard claim.jobId
      pure .buried
    | .lost => do
      let obj ← readRetrying (q.absolute rel)
      let found ← Routine.ofRecord (q.decodeAt rel obj.body)
      Budgeted.ofExcept (deadEvidence claim found)
    | .notCommitted => Budgeted.fail (.internal "bury not committed")

end Queue
end Core
end StowQ
