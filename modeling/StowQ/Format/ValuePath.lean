import StowQ.Format.Canonical
import StowQ.Format.Direct

/-!
# The value path

Records through the value tree: `fields` lists the fields of a record as values,
`valueEncode` encodes the tree and `valueDecode` reads a record out of a decoded
tree.  The direct codec is compared with this path.
-/

namespace StowQ
namespace Format

open Data Cbor

/-! ## Encoding -/

def kvU64 (key : Str) (v : UInt64) : Value × Value := (.text key, .uint v)

def kvBytes {n : Nat} (key : Str) (v : ByteArr n) : Value × Value := (.text key, .bytes v.toList)

def kvText (key : Str) (v : Str) : Value × Value := (.text key, .text v)

def kvBool (key : Str) (v : Bool) : Value × Value := (.text key, .bool v)

/-- A field that is pushed only when present. -/
def kvOpt {α : Type} (v : Option α) (kv : α → Value × Value) : List (Value × Value) :=
  (v.map kv).toList

/-- The fields of a record, unsorted. -/
def Record.fields : Record → List (Value × Value)
  | .format r =>
    [kvU64 Field.shardCount r.shardCount.toUInt64, kvU64 Field.leaseBucketWidthNs r.leaseBucketWidthNs,
      kvU64 Field.delayedBucketWidthNs r.delayedBucketWidthNs,
      kvU64 Field.terminalBucketWidthNs r.terminalBucketWidthNs, kvU64 Field.inlineLimit r.inlineLimit,
      kvU64 Field.requiredFeatureBits r.requiredFeatureBits]
  | .job r =>
    [kvBytes Field.jobId r.jobId, kvU64 Field.maximumAttempts r.maximumAttempts,
      kvText Field.contentType r.contentType, kvU64 Field.createdStoreTimeNs r.createdStoreTimeNs] ++
    kvOpt r.notBeforeNs (kvU64 Field.notBeforeNs) ++
    [kvBytes Field.payloadDigest r.payloadDigest, kvU64 Field.payloadLength r.payloadLength] ++
    kvOpt r.payloadInline (fun b => (.text Field.payloadInline, .bytes b)) ++
    kvOpt r.payloadKey (kvText Field.payloadKey)
  | .claim r =>
    [kvBytes Field.jobId r.jobId, kvU64 Field.generation r.generation, kvU64 Field.attempt r.attempt,
      kvText Field.workerId r.workerId, kvBytes Field.workerToken r.workerToken,
      kvU64 Field.leaseDurationNs r.leaseDurationNs, kvBool Field.continuation r.continuation] ++
    kvOpt r.basis (fun b => (.text Field.basis,
      .map [kvU64 Field.prevStoreTimeNs b.prevStoreTimeNs, kvU64 Field.prevDurationNs b.prevDurationNs,
        kvU64 Field.observedWatermarkNs b.observedWatermarkNs])) ++
    kvOpt r.prevToken (kvBytes Field.prevToken)
  | .fail r =>
    [kvBytes Field.jobId r.jobId, kvU64 Field.generation r.generation, kvU64 Field.reason r.reason,
      kvU64 Field.attempt r.attempt, kvU64 Field.retryNotBeforeNs r.retryNotBeforeNs]
  | .receipt r =>
    [kvBytes Field.jobId r.jobId, kvU64 Field.generation r.generation, kvU64 Field.attempt r.attempt,
      kvText Field.workerId r.workerId, kvBytes Field.workerToken r.workerToken,
      kvBytes Field.payloadDigest r.payloadDigest] ++
    (if r.outputDigests.isEmpty then []
      else [(.text Field.outputDigests, .array (r.outputDigests.map fun d => .bytes d.toList))])
  | .dead r =>
    [kvBytes Field.jobId r.jobId, kvU64 Field.generation r.generation, kvU64 Field.attempt r.attempt,
      kvU64 Field.reason r.reason]
  | .watermark r =>
    [kvU64 Field.highestObservedWallBucket r.highestObservedWallBucket, kvU64 Field.sequence r.sequence]
  | .quarantine r =>
    [kvBytes Field.qid r.qid, kvText Field.sourceKey r.sourceKey, kvU64 Field.reason r.reason,
      kvU64 Field.observedStoreNs r.observedStoreNs] ++
    kvOpt r.detail (kvU64 Field.detail)

/-- The array without the digest, as a value with the given fields. -/
def envelope (record : Record) (queueId : ByteArr 16) (keyTag : ByteArr 8) (fields : List (Value × Value)) :
    Value :=
  .array [.uint magic, .uint major, .uint minor, .bytes queueId.toList, .bytes keyTag.toList,
    .uint record.typeNumber, .map fields]

/-- The encoding through the value tree, with its map sort. -/
def valueEncode [Sha256] (record : Record) (queueId : ByteArr 16) (keyTag : ByteArr 8) : Bytes :=
  let body := Value.encode (envelope record queueId keyTag record.fields)
  let digest := recordDigest ((typeName record.typeNumber).getD []) body
  body ++ [0x58, 32] ++ digest.toList

/-! ## Decoding -/

/-- `k == &Value::Text(key)`. -/
def isText (key : Str) : Value → Bool
  | .text t => t = key
  | .uint _ | .bool _ | .bytes _ | .array _ | .map _ => false

/-- The value of the first pair with this key. -/
def field (m : List (Value × Value)) (key : Str) : Option Value :=
  (m.find? fun p => isText key p.1).map Prod.snd

def getU64 (m : List (Value × Value)) (key : Str) : Except RecordError UInt64 :=
  match field m key with
  | some (.uint n) => .ok n
  | some _ => .error (.field "uint")
  | none => .error (.missingField key)

def getOptU64 (m : List (Value × Value)) (key : Str) : Except RecordError (Option UInt64) :=
  match field m key with
  | some (.uint n) => .ok (some n)
  | some _ => .error (.field "uint")
  | none => .ok none

/-- A byte string of the width its type wants. -/
def width (n : Nat) (b : Bytes) : Except RecordError (ByteArr n) :=
  if h : b.length = n then .ok ⟨b, h⟩ else .error (.field "byte width")

def getBytes (n : Nat) (m : List (Value × Value)) (key : Str) : Except RecordError (ByteArr n) :=
  match field m key with
  | some (.bytes b) => width n b
  | some _ => .error (.field "bytes")
  | none => .error (.missingField key)

def getText (m : List (Value × Value)) (key : Str) : Except RecordError Str :=
  match field m key with
  | some (.text t) => .ok t
  | some _ => .error (.field "text")
  | none => .error (.missingField key)

def getBool (m : List (Value × Value)) (key : Str) : Except RecordError Bool :=
  match field m key with
  | some (.bool b) => .ok b
  | some _ => .error (.field "bool")
  | none => .error (.missingField key)

def expectKeys : List (Value × Value) → List Str → Except RecordError Unit
  | [], _ => .ok ()
  | (.text t, _) :: rest, allowed =>
    if t ∈ allowed then expectKeys rest allowed else .error (.unknownField t)
  | _ :: _, _ => .error (.field "text key")

/-- `key` is allowed where it occurs. -/
def allowIf (m : List (Value × Value)) (key : Str) : List Str :=
  if m.any fun p => isText key p.1 then [key] else []

/-- An array of digests. -/
def digestItems : List Value → Except RecordError (List Digest)
  | [] => .ok []
  | .bytes b :: rest =>
    if h : b.length = 32 then do
      let ds ← digestItems rest
      pure (⟨b, h⟩ :: ds)
    else .error (.field "output_digests")
  | _ :: _ => .error (.field "output_digests")

def formatFields (m : List (Value × Value)) : Except RecordError FormatRecord := do
  expectKeys m [Field.shardCount, Field.leaseBucketWidthNs, Field.delayedBucketWidthNs,
    Field.terminalBucketWidthNs, Field.inlineLimit, Field.requiredFeatureBits]
  let shardCount ← getU64 m Field.shardCount
  if 65536 < shardCount then throw (.field "shard_count")
  else
    let leaseBucketWidthNs ← getU64 m Field.leaseBucketWidthNs
    let delayedBucketWidthNs ← getU64 m Field.delayedBucketWidthNs
    let terminalBucketWidthNs ← getU64 m Field.terminalBucketWidthNs
    let inlineLimit ← getU64 m Field.inlineLimit
    let requiredFeatureBits ← getU64 m Field.requiredFeatureBits
    pure { shardCount := shardCount.toUInt32, leaseBucketWidthNs, delayedBucketWidthNs,
           terminalBucketWidthNs, inlineLimit, requiredFeatureBits }

/-- The inline payload, if there is one. -/
def inlineOf (m : List (Value × Value)) : Except RecordError (Option Bytes) :=
  match field m Field.payloadInline with
  | some (.bytes b) => .ok (some b)
  | some _ => .error (.field "payload_inline")
  | none => .ok none

/-- The key of the detached payload, if there is one. -/
def payloadKeyOf (m : List (Value × Value)) : Except RecordError (Option Str) :=
  match field m Field.payloadKey with
  | some (.text t) => .ok (some t)
  | some _ => .error (.field "payload_key")
  | none => .ok none

def jobFields (m : List (Value × Value)) : Except RecordError JobRecord := do
  expectKeys m ([Field.jobId, Field.maximumAttempts, Field.contentType, Field.createdStoreTimeNs,
    Field.payloadDigest, Field.payloadLength] ++ allowIf m Field.notBeforeNs ++
    allowIf m Field.payloadInline ++ allowIf m Field.payloadKey)
  let payloadInline ← inlineOf m
  let payloadKey ← payloadKeyOf m
  if payloadInline.isSome = payloadKey.isSome then throw (.field "payload inline xor key")
  else
    let jobId ← getBytes 16 m Field.jobId
    let maximumAttempts ← getU64 m Field.maximumAttempts
    let contentType ← getText m Field.contentType
    let createdStoreTimeNs ← getU64 m Field.createdStoreTimeNs
    let notBeforeNs ← getOptU64 m Field.notBeforeNs
    let payloadDigest ← getBytes 32 m Field.payloadDigest
    let payloadLength ← getU64 m Field.payloadLength
    pure { jobId, maximumAttempts, contentType, createdStoreTimeNs, notBeforeNs, payloadDigest,
           payloadLength, payloadInline, payloadKey }

/-- The takeover evidence, if there is any. -/
def basisOf (m : List (Value × Value)) : Except RecordError (Option ClaimBasis) :=
  match field m Field.basis with
  | some (.map bm) => do
    expectKeys bm [Field.prevStoreTimeNs, Field.prevDurationNs, Field.observedWatermarkNs]
    let prevStoreTimeNs ← getU64 bm Field.prevStoreTimeNs
    let prevDurationNs ← getU64 bm Field.prevDurationNs
    let observedWatermarkNs ← getU64 bm Field.observedWatermarkNs
    pure (some { prevStoreTimeNs, prevDurationNs, observedWatermarkNs })
  | some _ => .error (.field "basis")
  | none => .ok none

/-- The token a continuation carries on, if there is one. -/
def prevTokenOf (m : List (Value × Value)) : Except RecordError (Option (ByteArr 16)) :=
  match field m Field.prevToken with
  | some (.bytes b) => do
    let t ← width 16 b
    pure (some t)
  | some _ => .error (.field "prev_token")
  | none => .ok none

def claimFields (m : List (Value × Value)) : Except RecordError ClaimRecord := do
  expectKeys m [Field.jobId, Field.generation, Field.attempt, Field.workerId, Field.workerToken,
    Field.leaseDurationNs, Field.continuation, Field.basis, Field.prevToken]
  let continuation ← getBool m Field.continuation
  let basis ← basisOf m
  let prevToken ← prevTokenOf m
  if continuation = basis.isSome ∨ continuation ≠ prevToken.isSome ∨ basis.isSome = prevToken.isSome then
    throw (.field "basis xor prev_token")
  else
    let jobId ← getBytes 16 m Field.jobId
    let generation ← getU64 m Field.generation
    let attempt ← getU64 m Field.attempt
    let workerId ← getText m Field.workerId
    let workerToken ← getBytes 16 m Field.workerToken
    let leaseDurationNs ← getU64 m Field.leaseDurationNs
    pure { jobId, generation, attempt, workerId, workerToken, leaseDurationNs, continuation, basis, prevToken }

def failFields (m : List (Value × Value)) : Except RecordError FailRecord := do
  expectKeys m [Field.jobId, Field.generation, Field.reason, Field.attempt, Field.retryNotBeforeNs]
  let jobId ← getBytes 16 m Field.jobId
  let generation ← getU64 m Field.generation
  let reason ← getU64 m Field.reason
  let attempt ← getU64 m Field.attempt
  let retryNotBeforeNs ← getU64 m Field.retryNotBeforeNs
  pure { jobId, generation, reason, attempt, retryNotBeforeNs }

/-- The output digests; an explicit empty array is refused. -/
def outputsOf (m : List (Value × Value)) : Except RecordError (List Digest) :=
  match field m Field.outputDigests with
  | some (.array items) => if items.isEmpty then .error (.field "output_digests") else digestItems items
  | some _ => .error (.field "output_digests")
  | none => .ok []

def receiptFields (m : List (Value × Value)) : Except RecordError ReceiptRecord := do
  expectKeys m [Field.jobId, Field.generation, Field.attempt, Field.workerId, Field.workerToken,
    Field.payloadDigest, Field.outputDigests]
  let outputDigests ← outputsOf m
  let jobId ← getBytes 16 m Field.jobId
  let generation ← getU64 m Field.generation
  let attempt ← getU64 m Field.attempt
  let workerId ← getText m Field.workerId
  let workerToken ← getBytes 16 m Field.workerToken
  let payloadDigest ← getBytes 32 m Field.payloadDigest
  pure { jobId, generation, attempt, workerId, workerToken, payloadDigest, outputDigests }

def deadFields (m : List (Value × Value)) : Except RecordError DeadRecord := do
  expectKeys m [Field.jobId, Field.generation, Field.attempt, Field.reason]
  let jobId ← getBytes 16 m Field.jobId
  let generation ← getU64 m Field.generation
  let attempt ← getU64 m Field.attempt
  let reason ← getU64 m Field.reason
  pure { jobId, generation, attempt, reason }

def watermarkFields (m : List (Value × Value)) : Except RecordError WatermarkRecord := do
  expectKeys m [Field.highestObservedWallBucket, Field.sequence]
  let highestObservedWallBucket ← getU64 m Field.highestObservedWallBucket
  let sequence ← getU64 m Field.sequence
  pure { highestObservedWallBucket, sequence }

/-- The detail, if there is one. -/
def detailOf (m : List (Value × Value)) : Except RecordError (Option UInt64) :=
  match field m Field.detail with
  | some (.uint d) => .ok (some d)
  | some _ => .error (.field "detail")
  | none => .ok none

def quarantineFields (m : List (Value × Value)) : Except RecordError QuarantineRecord := do
  expectKeys m ([Field.qid, Field.sourceKey, Field.reason, Field.observedStoreNs] ++ allowIf m Field.detail)
  let detail ← detailOf m
  let qid ← getBytes 16 m Field.qid
  let sourceKey ← getText m Field.sourceKey
  let reason ← getU64 m Field.reason
  let observedStoreNs ← getU64 m Field.observedStoreNs
  pure { qid, sourceKey, reason, observedStoreNs, detail }

/-- A record of type `t` out of a fields map. -/
def fromFields (t : UInt64) (m : List (Value × Value)) : Except RecordError Record :=
  if t = 1 then .format <$> formatFields m
  else if t = 2 then .job <$> jobFields m
  else if t = 3 then .claim <$> claimFields m
  else if t = 4 then .fail <$> failFields m
  else if t = 5 then .receipt <$> receiptFields m
  else if t = 6 then .dead <$> deadFields m
  else if t = 7 then .watermark <$> watermarkFields m
  else if t = 8 then .quarantine <$> quarantineFields m
  else .error .type

/-- The checks on the decoded array. -/
def openEnvelope [Sha256] (body found : Bytes) (queueId : ByteArr 16) (keyTag : ByteArr 8) :
    Value → Except RecordError Record
  | .array [.uint magicItem, .uint verMajor, .uint verMinor, .bytes qid, .bytes tag, .uint rtype, .map m] =>
    if magicItem ≠ magic then .error .magic
    else if verMajor ≠ major ∨ verMinor ≠ minor then .error (.version verMajor verMinor)
    else
      match typeName rtype with
      | none => .error .type
      | some typeStr =>
        if (recordDigest typeStr body).toList ≠ found.drop 2 then .error .digest
        else if qid ≠ queueId.toList ∨ tag ≠ keyTag.toList then .error (.field "queue binding")
        else fromFields rtype m
  | _ => .error .envelope

/-- The decoder through the value tree. -/
def valueDecode [Sha256] (bits : Nat) (data : Bytes) (queueId : ByteArr 16) (keyTag : ByteArr 8) :
    Except RecordError Record :=
  if data.length < 34 then .error .envelope
  else
    let body := data.take (data.length - 34)
    let found := data.drop (data.length - 34)
    if found.take 2 ≠ [0x58, 32] then .error .envelope
    else
      match Value.decode bits body with
      | .error e => .error (.cbor e)
      | .ok v => openEnvelope body found queueId keyTag v

end Format
end StowQ
