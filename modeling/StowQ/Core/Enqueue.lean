import StowQ.Core.Floor

/-!
# Enqueue

An enqueue puts a payload that is too large for the record in place first, under a key that names the job and
the digest, and then creates the job record, which decides races for the id.  Where the create was lost, the
record that is there is read back: the enqueue has committed if it is the same, and the id is taken otherwise.
The entry of a delayed job in the delay index comes last and may fail without a report.
-/

namespace StowQ
namespace Core
namespace Queue

open Data Concurrent Store Format

variable [Sha256] (q : Queue)

/-- The shard of a job in this queue. -/
def shardOf (jobId : ByteArr 16) : UInt16 :=
  Keys.computeShard q.opts.queueId jobId (max q.format.shardCount 1)

/-- The inline bound: the client's, never above the queue's. -/
def inlines (payload : Bytes) : Bool :=
  UInt64.ofNat payload.length ≤ min q.opts.maxInlinePayload q.format.inlineLimit

/-- The job record of an enqueue. -/
def jobRecord (input : EnqueueInput) (jobId : ByteArr 16) : JobRecord where
  jobId := jobId
  maximumAttempts := input.maximumAttempts
  contentType := input.contentType
  createdStoreTimeNs := 0
  notBeforeNs := input.notBeforeNs
  payloadDigest := Sha256.digest input.payload
  payloadLength := UInt64.ofNat input.payload.length
  payloadInline := if q.inlines input.payload then some input.payload else none
  payloadKey :=
    if q.inlines input.payload then none
    else some (Keys.Key.payload jobId (Sha256.digest input.payload)).fmt

/-- Put a large payload in place before the job record that refers to it. -/
def placePayload (input : EnqueueInput) (jobId : ByteArr 16) : Routine Unit := do
  if q.inlines input.payload then pure ()
  else
    putBytesResolving (q.absolute (.payload jobId (Sha256.digest input.payload)))
      input.payload (Sha256.digest input.payload)

/-- Best-effort delayed index entry of a job. -/
def delayIndexEntry (notBeforeNs : UInt64) (shard : UInt16) (jobId : ByteArr 16) :
    Option (Routine Unit) :=
  (Math.bucketNumber notBeforeNs q.format.delayedBucketWidthNs).map fun bucket => do
    Routine.spend
    let _ ← Routine.put (q.absolute (.delayIndex bucket shard jobId)) []
    pure ()

/-- The given id, or a fresh one. -/
def pickJobId (input : EnqueueInput) : Routine (ByteArr 16) :=
  match input.jobId with
  | some jobId => pure jobId
  | none => Routine.freshToken

/-- The delayed index entry of a job that is not to be delivered yet. -/
def indexDelay (notBeforeNs : Option UInt64) (shard : UInt16) (jobId : ByteArr 16) : Routine Unit :=
  match notBeforeNs with
  | none => pure ()
  | some nb =>
    match q.delayIndexEntry nb shard jobId with
    | some put => put
    | none => Budgeted.fail (.internal "zero delayed width")

def enqueue (input : EnqueueInput) : Routine EnqueueOutcome := do
  if input.maximumAttempts = 0 then
    Budgeted.fail (.record "maximum_attempts must be positive")
  else do
    let jobId ← pickJobId input
    q.placePayload input jobId
    let shard := q.shardOf jobId
    let rel := Keys.Key.job shard jobId
    let record := Record.job (q.jobRecord input jobId)
    Routine.spend
    match ← q.putRecord rel record with
    | .notCommitted => Budgeted.fail (.internal "enqueue not committed after retry")
    | .committed => do
      q.indexDelay input.notBeforeNs shard jobId
      pure (.committed jobId)
    | .lost => do
      -- ours if identical (idempotent enqueue), theirs otherwise
      let obj ← readRetrying (q.absolute rel)
      match q.evidence rel record obj.body with
      | .committed => pure (.committed jobId)
      | _ => pure (.idTaken jobId)

end Queue
end Core
end StowQ
