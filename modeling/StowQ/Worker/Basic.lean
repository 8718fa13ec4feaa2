import StowQ.Core.Sweep

/-!
# The worker harness

A doorbell hint is turned into at most one delivery of one job, or into a batch of deliveries that run side by
side, each with a budget of its own.  The executor is application code, here a function of the job and its
payload.  Whether it has finished when the next heartbeat is due is up to the scheduler, so a delivery is a
nondeterministic program: it renews the lease at the heartbeats and gives up when a renewal says that the lease
is lost.
-/

namespace StowQ

open Data Concurrent Store Format StowQ.Core

/-- Read and verify the receipt of a claim's job, if present. -/
def Core.Queue.receiptFor [Sha256] (q : Queue) (claim : Claim) : Routine (Option ReceiptRecord) := do
  let rel := Keys.Key.receipt claim.shard claim.jobId
  match ← Budgeted.attempt (Queue.readRetrying (q.absolute rel)) with
  | .ok obj => do
    match ← Routine.ofRecord (q.decodeAt rel obj.body) with
    | .receipt r => pure (some r)
    | _ => Budgeted.fail (.record "receipt key holds a non-receipt record")
  | .error (.store .notFound) => pure none
  | .error e => Budgeted.fail e

namespace Worker

/-- A lossy work hint.  No shards is a hint to try every shard. -/
structure DoorbellMsg where
  shards : List UInt16

/-- An effect that an executor wants in the store. -/
structure ExecutorOutput where
  name : Str
  body : Bytes

inductive ExecutionFailure
  | retryable (reason : UInt64)
  | permanent (reason : UInt64)
  deriving DecidableEq

/-- Application work: job and verified payload in, named outputs out. -/
structure Executor where
  run : ByteArr 16 → Bytes → Except ExecutionFailure (List ExecutorOutput)
  /-- The outputs are in memory. -/
  fits : ∀ jobId payload outputs, run jobId payload = .ok outputs → outputs.length < 2 ^ 64

/-- What one delivery came to. -/
inductive DeliveryReport
  | noWork
  | delivered (outputs : List CommittedOutput)
  | failed (failure : ExecutionFailure) (buried : Bool)
  | lostLease
  deriving DecidableEq

def deliveryBudgetOps : Nat := 1024

section Harness

variable [Sha256] (q : Queue)

/-- Commit the outputs of an execution, in order, after those committed already. -/
def commitOutputs (claim : Claim) (committed : List CommittedOutput) :
    List ExecutorOutput → Routine (List CommittedOutput)
  | [] => pure committed
  | out :: outputs => do
    match ← q.commitOutput claim out.name out.body with
    | .committed c | .converged c => commitOutputs claim (committed ++ [c]) outputs

/-- From the result of an execution to the report.  A receipt of another claim that holds the same
completed state is as good as ours. -/
def finishDelivery (claim : Claim) (executed : Except ExecutionFailure (List ExecutorOutput))
    (payloadDigest : Digest) : Routine DeliveryReport :=
  match executed with
  | .ok outputs => do
    let committed ← commitOutputs q claim [] outputs
    match ← Budgeted.attempt (q.ack claim committed) with
    | .ok .acked | .ok .alreadyAcked => pure (.delivered committed)
    | .ok .supersededByDead => pure .lostLease
    | .error .receiptEvidenceMismatch => do
      match ← q.receiptFor claim with
      | some r =>
        if r.payloadDigest = payloadDigest ∧ r.outputDigests = committed.map CommittedOutput.digest then
          pure (.delivered committed)
        else Budgeted.fail .receiptEvidenceMismatch
      | none => Budgeted.fail .receiptEvidenceMismatch
    | .error e => Budgeted.fail e
  | .error (.retryable reason) => do
    let floorNs ← q.establishFloor
    q.nack claim reason floorNs
    pure (.failed (.retryable reason) false)
  | .error (.permanent reason) => do
    match ← q.bury claim reason with
    | .buried => pure (.failed (.permanent reason) true)
    | .supersededByReceipt => pure (.failed (.permanent reason) false)

/-- One round of a delivery: the executor has finished, or the lease is renewed.  After a lost
lease nothing more is done. -/
def deliveryRound (exec : Executor) (payload : Bytes) (claim : Claim) :
    Routine (Claim ⊕ DeliveryReport) := do
  if ← Budgeted.lift (.amb .ret) then
    pure (.inr (← finishDelivery q claim (exec.run claim.jobId payload) (Sha256.digest payload)))
  else
    match ← q.renew claim with
    | .renewed c => pure (.inl c)
    | .leaseLost => pure (.inr .lostLease)

/-- A claimed job through its execution to the report. -/
def deliverOne (exec : Executor) (claim : Claim) : Routine DeliveryReport := do
  let payload ← Budgeted.ofExcept (← Budgeted.lift claim.payloadBytes)
  Budgeted.loop .budgetExhausted (deliveryRound q exec payload) claim

/-- The shards a hint is about. -/
def hinted (msg : DoorbellMsg) : List UInt16 :=
  if msg.shards.isEmpty then (List.range q.format.shardCount.toNat).map UInt16.ofNat else msg.shards

/-- The first claim that a shard yields. -/
def claimFirst (floorNs leaseNs : UInt64) : List UInt16 → Routine (Option Claim)
  | [] => pure none
  | shard :: shards => do
    match ← q.claim ⟨shard, floorNs, leaseNs⟩ with
    | .claimed c => pure (some c)
    | .empty => claimFirst floorNs leaseNs shards

def runDelivery (msg : DoorbellMsg) (exec : Executor) (leaseNs : UInt64) : Routine DeliveryReport := do
  let floorNs ← q.establishFloor
  match ← claimFirst q floorNs leaseNs (hinted q msg) with
  | some claim => deliverOne q exec claim
  | none => pure .noWork

/-- Claims for a batch, shard by shard. -/
def claimBatch (floorNs leaseNs : UInt64) (batch : Nat) : List Claim → List UInt16 → Routine (List Claim)
  | claims, [] => pure claims
  | claims, shard :: shards => do
    if batch ≤ claims.length then pure claims
    else
      let more ← q.claimMany ⟨shard, floorNs, leaseNs⟩ (batch - claims.length)
      claimBatch floorNs leaseNs batch (claims ++ more) shards

/-- The deliveries of a batch run side by side, each with a budget of its own.  The first error
in claim order is the error of the batch. -/
def runBatch (msg : DoorbellMsg) (exec : Executor) (leaseNs : UInt64) (batch : Nat) :
    Routine (List DeliveryReport) := do
  let floorNs ← q.establishFloor
  let claims ← claimBatch q floorNs leaseNs batch [] (hinted q msg)
  let results ← Budgeted.lift (Prog.joinAll (claims.map fun c => deliverOne q exec c deliveryBudgetOps))
  Budgeted.ofExcept (results.mapM Prod.fst)

/-- One pass of the sweeper. -/
def sweepOnce : Routine SweepReport := do
  let floorNs ← q.establishFloor
  let leases ← q.sweepExpiredLeases floorNs
  let delayed ← q.sweepDelayed floorNs
  pure { entries := leases.entries + delayed.entries, reclaimed := leases.reclaimed, promoted := delayed.promoted }

end Harness

end Worker
end StowQ
