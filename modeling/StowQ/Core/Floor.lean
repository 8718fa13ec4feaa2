import StowQ.Core.Resolve

/-!
# Wall floors and the watermark

A floor is a proven lower bound on store time: the store-assigned time of a beacon, raised to the watermark's
bucket.  A handle caches its floor for a while by its own monotonic clock.  The watermark is overwritten by
compare-and-swap, so it is, with the tail hints, what changes in place in the protocol; `advanceWatermark`
writes only above what it has read.
-/

namespace StowQ
namespace Core
namespace Queue

open Data Concurrent Store Format

variable [Sha256] (q : Queue)

/-- Read and verify the watermark record, if present. -/
def watermark : Routine (Option WatermarkRecord) := do
  match ← Budgeted.attempt (readRetrying (q.absolute .watermark)) with
  | .ok obj => do
    match ← Routine.ofRecord (q.decodeAt .watermark obj.body) with
    | .watermark w => pure (some w)
    | _ => Budgeted.fail (.record "watermark key holds a non-watermark record")
  | .error (.store .notFound) => pure none
  | .error e => Budgeted.fail e

/-- One beacon: put it at a fresh nonce and read its store time back.  On a collision
or an unknown outcome a fresh nonce is always correct. -/
def beacon : Routine (Option UInt64) := do
  let nonce ← Routine.freshToken
  let abs := q.absolute (.beacon nonce)
  Routine.spend
  match ← Routine.put abs [] with
  | .ok (.committed _) => do
    Routine.spend
    let info ← Routine.ofStore (← Routine.head abs)
    pure (some info.storeTimeNs)
  | .ok .rejected => pure none
  | .error e => if retryable e then pure none else Budgeted.fail (.store e)

/-- The regression gate on the raw beacon time, and the raise to the watermark's
bucket. -/
def gateFloor (floorNs : UInt64) : Option WatermarkRecord → Except Error UInt64
  | none => .ok floorNs
  | some w =>
    let wmNs := satMul w.highestObservedWallBucket q.format.delayedBucketWidthNs
    if satAdd floorNs q.opts.skewGuardNs < wmNs then
      .error (.store (.profileViolation "store time regression"))
    else
      match Math.effectiveFloor floorNs w.highestObservedWallBucket
          q.format.delayedBucketWidthNs with
      | some raised => .ok raised
      | none => .error (.internal "floor raise overflow")

/-- Establish a wall floor: put a beacon, read it back, take the store-assigned time.
Cached until stale. -/
def establishFloor : Routine UInt64 := do
  match ← Budgeted.request (Op.cachedFloor q.handle) with
  | some floorNs => pure floorNs
  | none => do
    let raw ← Routine.retrying q.beacon
    if raw = 0 then Budgeted.fail .transportExhausted
    else do
      let floorNs ← Budgeted.ofExcept (q.gateFloor raw (← q.watermark))
      Budgeted.request (Op.cacheFloor q.handle floorNs)
      pure floorNs

/-- Whether the stored watermark already covers `bucket`. -/
def watermarkCovers (bucket : UInt64) : Routine Bool := do
  match ← q.watermark with
  | some w => pure (bucket ≤ w.highestObservedWallBucket)
  | none => pure false

/-- The record that follows the stored one; none when the stored bucket already covers
ours. -/
def nextWatermark (bucket : UInt64) : Option WatermarkRecord → Option WatermarkRecord
  | none => some ⟨bucket, 0⟩
  | some w =>
    if bucket ≤ w.highestObservedWallBucket then none
    else some ⟨bucket, w.sequence + 1⟩

omit [Sha256] in
lemma nextWatermark_eq {bucket : UInt64} {current : Option WatermarkRecord}
    {next : WatermarkRecord} (h : nextWatermark bucket current = some next) :
    ∃ sequence, next = ⟨bucket, sequence⟩ := by
  unfold nextWatermark at h
  split at h
  · exact ⟨0, (Option.some.inj h).symm⟩
  · next r =>
      split at h
      · cases h
      · exact ⟨r.sequence + 1, (Option.some.inj h).symm⟩

/-- The conditional write of the watermark: create it when it was missing, otherwise
read its version and overwrite that version. -/
def writeWatermark (current : Option WatermarkRecord) (next : WatermarkRecord) :
    Routine (StoreResult PutOutcome) := do
  let abs := q.absolute .watermark
  let body := q.encodeAt .watermark (.watermark next)
  Routine.spend
  match current with
  | some _ => do
    Routine.spend
    let info ← Routine.ofStore (← Routine.head abs)
    Routine.cas abs body (Sha256.digest body) info.version
  | none => Routine.put abs body

/-- One round of `advanceWatermark`: `true` when the watermark covers the bucket,
`false` to read again. -/
def advanceRound (bucket : UInt64) : Routine Bool := do
  let current ← q.watermark
  match nextWatermark bucket current with
  | none => pure true
  | some next => do
    match ← q.writeWatermark current next with
    | .ok (.committed _) => pure true
    | .ok .rejected => pure false
    | .error (.outcomeUnknown _) => q.watermarkCovers bucket
    | .error e => Budgeted.fail (.store e)

/-- Advance the watermark to the bucket of a floor.  Every round pays for its read,
so the rounds are bounded by the budget. -/
def advanceWatermark (floorNs : UInt64) : Routine Unit := do
  match Math.bucketNumber floorNs q.format.delayedBucketWidthNs with
  | none => Budgeted.fail (.internal "zero delayed width")
  | some bucket =>
    Budgeted.loop .budgetExhausted (fun _ => do
      if ← q.advanceRound bucket then pure (.inr ()) else pure (.inl ())) ()

/-- Best-effort terminal index entry; its bucket derives from the handle's floor. -/
def writeTermidx (kind : Keys.TermKind) (shard : UInt16) (jobId : ByteArr 16) : Routine Unit := do
  if ← Routine.trySpend then
    match ← Budgeted.attempt q.establishFloor with
    | .error _ => pure ()
    | .ok floorNs => do
      match Math.bucketNumber floorNs q.format.terminalBucketWidthNs with
      | none => pure ()
      | some bucket => do
        if ← Routine.trySpend then
          let _ ← Routine.put (q.absolute (.termIndex bucket kind shard jobId)) []
          pure ()

end Queue
end Core
end StowQ
