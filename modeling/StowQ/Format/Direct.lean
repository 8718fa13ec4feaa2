import StowQ.Format.Record

/-!
# The direct record decoder

Bytes to `Record` without an intermediate value tree.  A fields map is read
against the record type's table: the table fixes which names are known, their
canonical order, and how each value is read.  `decodeRecord` checks the envelope,
the version, the digest and the binding to queue and key, in this order, before
it looks at a field.

Declared lengths are 64-bit on the wire and pass through a cast to `usize`;
`bits` is the width of that type.
-/

namespace StowQ
namespace Format

open Data Cbor

/-- Readers consume a prefix of their input or fail. -/
abbrev Parser (α : Type) := StateT Bytes (Except RecordError) α

section Readers

variable (bits : Nat)

def liftCbor {α : Type} (p : Bytes → Except Cbor.Error (α × Bytes)) : Parser α := fun data =>
  match p data with
  | .ok r => .ok r
  | .error e => .error (.cbor e)

def readHead : Parser (UInt8 × UInt64) :=
  liftCbor head

/-- An unsigned integer; `wrong` is the error for another shape. -/
def uintItem (wrong : RecordError) : Parser UInt64 := do
  let (major, v) ← readHead
  if major ≠ 0 then throw wrong else pure v

/-- A byte string; `wrong` is the error for another shape. -/
def bytesItem (wrong : RecordError) : Parser Bytes := do
  let (major, len) ← readHead
  if major ≠ 2 then throw wrong else liftCbor (take (asUsize bits len))

def readUint : Parser UInt64 := uintItem (.field "uint")
def envUint : Parser UInt64 := uintItem .envelope
def envBytes : Parser Bytes := bytesItem bits .envelope
def readBorrowedBytes : Parser Bytes := bytesItem bits (.field "bytes")

def readBool : Parser Bool := do
  let (major, v) ← readHead
  if major = 7 ∧ v = 20 then pure false
  else if major = 7 ∧ v = 21 then pure true
  else throw (.field "bool")

def readBorrowedText : Parser Str := do
  let (major, len) ← readHead
  if major ≠ 3 then throw (.field "text")
  else
    let b ← liftCbor (take (asUsize bits len))
    match fromUtf8 b with
    | some t => pure t
    | none => throw (.cbor .invalidUtf8)

def fixed (n : Nat) (b : Bytes) : Parser (ByteArr n) :=
  if h : b.length = n then pure ⟨b, h⟩ else throw (.field "byte width")

/-- A byte string of fixed width. -/
def readFixed (n : Nat) : Parser (ByteArr n) := do
  let b ← readBorrowedBytes bits
  fixed n b

/-- A field table: names in canonical order, each with the reader of its value. -/
abbrev Table (σ : Type) := List (Str × (σ → Parser σ))

/-- The key order check of `read_map`. -/
def checkOrder (prev : Option Nat) (pos : Nat) : Except RecordError Unit :=
  match prev with
  | some p =>
    if p = pos then .error (.cbor .duplicateMapKey)
    else if pos < p then .error (.cbor .unsortedMapKeys)
    else .ok ()
  | none => .ok ()

/-- The position of a name in a table and the reader of its value. -/
def tablePos {σ : Type} : Table σ → Str → Option (Nat × (σ → Parser σ))
  | [], _ => none
  | (k, reader) :: rest, key =>
    if k = key then some (0, reader)
    else (tablePos rest key).map fun found => (found.1 + 1, found.2)

/-- `n` key-value pairs. -/
def readPairs {σ : Type} (table : Table σ) : Nat → Option Nat → σ → Parser σ
  | 0, _, s => pure s
  | n + 1, prev, s => do
    let key ← readBorrowedText bits
    match tablePos table key with
    | none => throw (.unknownField key)
    | some (pos, reader) =>
      checkOrder prev pos
      let s' ← reader s
      readPairs table n (some pos) s'

/-- A fields map; `nonMapErr` is the error for another shape. -/
def readMap {σ : Type} (table : Table σ) (nonMapErr : RecordError) (s : σ) : Parser σ := do
  let (major, n) ← readHead
  if major ≠ 5 then throw nonMapErr else readPairs bits table n.toNat none s

/-- `ok_or(MissingField(name))`. -/
def require {α : Type} (name : Str) (v : Option α) : Parser α :=
  match v with
  | some a => pure a
  | none => throw (.missingField name)

/-! ## Record types -/

structure FormatDraft where
  shardCount : Option UInt32 := none
  inlineLimit : Option UInt64 := none
  leaseBucketWidthNs : Option UInt64 := none
  requiredFeatureBits : Option UInt64 := none
  delayedBucketWidthNs : Option UInt64 := none
  terminalBucketWidthNs : Option UInt64 := none

def formatKeys : Table FormatDraft :=
  [(Field.shardCount, fun d => do
      let v ← readUint
      -- range-checked on the wire value, before the cast
      if 65536 < v then throw (.field "shard_count")
      else pure { d with shardCount := some v.toUInt32 }),
    (Field.inlineLimit, fun d => do pure { d with inlineLimit := some (← readUint) }),
    (Field.leaseBucketWidthNs, fun d => do pure { d with leaseBucketWidthNs := some (← readUint) }),
    (Field.requiredFeatureBits, fun d => do
      pure { d with requiredFeatureBits := some (← readUint) }),
    (Field.delayedBucketWidthNs, fun d => do
      pure { d with delayedBucketWidthNs := some (← readUint) }),
    (Field.terminalBucketWidthNs, fun d => do
      pure { d with terminalBucketWidthNs := some (← readUint) })]

def readFormat : Parser FormatRecord := do
  let d ← readMap bits formatKeys .envelope {}
  let shardCount ← require Field.shardCount d.shardCount
  let inlineLimit ← require Field.inlineLimit d.inlineLimit
  let leaseBucketWidthNs ← require Field.leaseBucketWidthNs d.leaseBucketWidthNs
  let requiredFeatureBits ← require Field.requiredFeatureBits d.requiredFeatureBits
  let delayedBucketWidthNs ← require Field.delayedBucketWidthNs d.delayedBucketWidthNs
  let terminalBucketWidthNs ← require Field.terminalBucketWidthNs d.terminalBucketWidthNs
  pure { shardCount, leaseBucketWidthNs, delayedBucketWidthNs, terminalBucketWidthNs, inlineLimit,
         requiredFeatureBits }

structure JobDraft where
  jobId : Option (ByteArr 16) := none
  payloadKey : Option Str := none
  contentType : Option Str := none
  notBeforeNs : Option UInt64 := none
  payloadDigest : Option Digest := none
  payloadInline : Option Bytes := none
  payloadLength : Option UInt64 := none
  maximumAttempts : Option UInt64 := none
  createdStoreTimeNs : Option UInt64 := none

def jobKeys : Table JobDraft :=
  [(Field.jobId, fun d => do pure { d with jobId := some (← readFixed bits 16) }),
    (Field.payloadKey, fun d => do pure { d with payloadKey := some (← readBorrowedText bits) }),
    (Field.contentType, fun d => do pure { d with contentType := some (← readBorrowedText bits) }),
    (Field.notBeforeNs, fun d => do pure { d with notBeforeNs := some (← readUint) }),
    (Field.payloadDigest, fun d => do pure { d with payloadDigest := some (← readFixed bits 32) }),
    (Field.payloadInline, fun d => do
      pure { d with payloadInline := some (← readBorrowedBytes bits) }),
    (Field.payloadLength, fun d => do pure { d with payloadLength := some (← readUint) }),
    (Field.maximumAttempts, fun d => do pure { d with maximumAttempts := some (← readUint) }),
    (Field.createdStoreTimeNs, fun d => do
      pure { d with createdStoreTimeNs := some (← readUint) })]

def readJob : Parser JobRecord := do
  let d ← readMap bits (jobKeys bits) .envelope {}
  if d.payloadInline.isSome = d.payloadKey.isSome then throw (.field "payload inline xor key")
  else
    let jobId ← require Field.jobId d.jobId
    let maximumAttempts ← require Field.maximumAttempts d.maximumAttempts
    let contentType ← require Field.contentType d.contentType
    let createdStoreTimeNs ← require Field.createdStoreTimeNs d.createdStoreTimeNs
    let payloadDigest ← require Field.payloadDigest d.payloadDigest
    let payloadLength ← require Field.payloadLength d.payloadLength
    pure { jobId, maximumAttempts, contentType, createdStoreTimeNs, notBeforeNs := d.notBeforeNs,
           payloadDigest, payloadLength, payloadInline := d.payloadInline,
           payloadKey := d.payloadKey }

structure BasisDraft where
  prevDurationNs : Option UInt64 := none
  prevStoreTimeNs : Option UInt64 := none
  observedWatermarkNs : Option UInt64 := none

def basisKeys : Table BasisDraft :=
  [(Field.prevDurationNs, fun d => do pure { d with prevDurationNs := some (← readUint) }),
    (Field.prevStoreTimeNs, fun d => do pure { d with prevStoreTimeNs := some (← readUint) }),
    (Field.observedWatermarkNs, fun d => do
      pure { d with observedWatermarkNs := some (← readUint) })]

def readBasis : Parser ClaimBasis := do
  let d ← readMap bits basisKeys (.field "basis") {}
  let prevDurationNs ← require Field.prevDurationNs d.prevDurationNs
  let prevStoreTimeNs ← require Field.prevStoreTimeNs d.prevStoreTimeNs
  let observedWatermarkNs ← require Field.observedWatermarkNs d.observedWatermarkNs
  pure { prevStoreTimeNs, prevDurationNs, observedWatermarkNs }

structure ClaimDraft where
  basis : Option ClaimBasis := none
  jobId : Option (ByteArr 16) := none
  attempt : Option UInt64 := none
  workerId : Option Str := none
  generation : Option UInt64 := none
  prevToken : Option (ByteArr 16) := none
  continuation : Option Bool := none
  workerToken : Option (ByteArr 16) := none
  leaseDurationNs : Option UInt64 := none

def claimKeys : Table ClaimDraft :=
  [(Field.basis, fun d => do pure { d with basis := some (← readBasis bits) }),
    (Field.jobId, fun d => do pure { d with jobId := some (← readFixed bits 16) }),
    (Field.attempt, fun d => do pure { d with attempt := some (← readUint) }),
    (Field.workerId, fun d => do pure { d with workerId := some (← readBorrowedText bits) }),
    (Field.generation, fun d => do pure { d with generation := some (← readUint) }),
    (Field.prevToken, fun d => do pure { d with prevToken := some (← readFixed bits 16) }),
    (Field.continuation, fun d => do pure { d with continuation := some (← readBool) }),
    (Field.workerToken, fun d => do pure { d with workerToken := some (← readFixed bits 16) }),
    (Field.leaseDurationNs, fun d => do pure { d with leaseDurationNs := some (← readUint) })]

def readClaim : Parser ClaimRecord := do
  let d ← readMap bits (claimKeys bits) .envelope {}
  let continuation ← require Field.continuation d.continuation
  if continuation = d.basis.isSome ∨ continuation ≠ d.prevToken.isSome ∨ d.basis.isSome = d.prevToken.isSome then
    throw (.field "basis xor prev_token")
  else
    let jobId ← require Field.jobId d.jobId
    let generation ← require Field.generation d.generation
    let attempt ← require Field.attempt d.attempt
    let workerId ← require Field.workerId d.workerId
    let workerToken ← require Field.workerToken d.workerToken
    let leaseDurationNs ← require Field.leaseDurationNs d.leaseDurationNs
    pure { jobId, generation, attempt, workerId, workerToken, leaseDurationNs, continuation,
           basis := d.basis, prevToken := d.prevToken }

structure FailDraft where
  jobId : Option (ByteArr 16) := none
  reason : Option UInt64 := none
  attempt : Option UInt64 := none
  generation : Option UInt64 := none
  retryNotBeforeNs : Option UInt64 := none

def failKeys : Table FailDraft :=
  [(Field.jobId, fun d => do pure { d with jobId := some (← readFixed bits 16) }),
    (Field.reason, fun d => do pure { d with reason := some (← readUint) }),
    (Field.attempt, fun d => do pure { d with attempt := some (← readUint) }),
    (Field.generation, fun d => do pure { d with generation := some (← readUint) }),
    (Field.retryNotBeforeNs, fun d => do pure { d with retryNotBeforeNs := some (← readUint) })]

def readFail : Parser FailRecord := do
  let d ← readMap bits (failKeys bits) .envelope {}
  let jobId ← require Field.jobId d.jobId
  let generation ← require Field.generation d.generation
  let reason ← require Field.reason d.reason
  let attempt ← require Field.attempt d.attempt
  let retryNotBeforeNs ← require Field.retryNotBeforeNs d.retryNotBeforeNs
  pure { jobId, generation, reason, attempt, retryNotBeforeNs }

structure ReceiptDraft where
  jobId : Option (ByteArr 16) := none
  attempt : Option UInt64 := none
  workerId : Option Str := none
  generation : Option UInt64 := none
  workerToken : Option (ByteArr 16) := none
  outputDigests : Option (List Digest) := none
  payloadDigest : Option Digest := none

/-- `n` byte strings of digest width. -/
def readDigests : Nat → Parser (List Digest)
  | 0 => pure []
  | n + 1 => do
    let d ← readFixed bits 32
    let rest ← readDigests n
    pure (d :: rest)

/-- A non-empty array of digests; the encoder omits an empty one. -/
def readOutputDigests : Parser (List Digest) := do
  let (major, n) ← readHead
  if major ≠ 4 then throw (.field "output_digests")
  else if n = 0 then throw (.field "output_digests")
  else readDigests bits n.toNat

def receiptKeys : Table ReceiptDraft :=
  [(Field.jobId, fun d => do pure { d with jobId := some (← readFixed bits 16) }),
    (Field.attempt, fun d => do pure { d with attempt := some (← readUint) }),
    (Field.workerId, fun d => do pure { d with workerId := some (← readBorrowedText bits) }),
    (Field.generation, fun d => do pure { d with generation := some (← readUint) }),
    (Field.workerToken, fun d => do pure { d with workerToken := some (← readFixed bits 16) }),
    (Field.outputDigests, fun d => do
      pure { d with outputDigests := some (← readOutputDigests bits) }),
    (Field.payloadDigest, fun d => do pure { d with payloadDigest := some (← readFixed bits 32) })]

def readReceipt : Parser ReceiptRecord := do
  let d ← readMap bits (receiptKeys bits) .envelope {}
  let jobId ← require Field.jobId d.jobId
  let generation ← require Field.generation d.generation
  let attempt ← require Field.attempt d.attempt
  let workerId ← require Field.workerId d.workerId
  let workerToken ← require Field.workerToken d.workerToken
  let payloadDigest ← require Field.payloadDigest d.payloadDigest
  pure { jobId, generation, attempt, workerId, workerToken, payloadDigest,
         outputDigests := d.outputDigests.getD [] }

structure DeadDraft where
  jobId : Option (ByteArr 16) := none
  reason : Option UInt64 := none
  attempt : Option UInt64 := none
  generation : Option UInt64 := none

def deadKeys : Table DeadDraft :=
  [(Field.jobId, fun d => do pure { d with jobId := some (← readFixed bits 16) }),
    (Field.reason, fun d => do pure { d with reason := some (← readUint) }),
    (Field.attempt, fun d => do pure { d with attempt := some (← readUint) }),
    (Field.generation, fun d => do pure { d with generation := some (← readUint) })]

def readDead : Parser DeadRecord := do
  let d ← readMap bits (deadKeys bits) .envelope {}
  let jobId ← require Field.jobId d.jobId
  let generation ← require Field.generation d.generation
  let attempt ← require Field.attempt d.attempt
  let reason ← require Field.reason d.reason
  pure { jobId, generation, attempt, reason }

structure WatermarkDraft where
  sequence : Option UInt64 := none
  highestObservedWallBucket : Option UInt64 := none

def watermarkKeys : Table WatermarkDraft :=
  [(Field.sequence, fun d => do pure { d with sequence := some (← readUint) }),
    (Field.highestObservedWallBucket, fun d => do
      pure { d with highestObservedWallBucket := some (← readUint) })]

def readWatermark : Parser WatermarkRecord := do
  let d ← readMap bits watermarkKeys .envelope {}
  let highestObservedWallBucket ←
    require Field.highestObservedWallBucket d.highestObservedWallBucket
  let sequence ← require Field.sequence d.sequence
  pure { highestObservedWallBucket, sequence }

structure QuarantineDraft where
  qid : Option (ByteArr 16) := none
  detail : Option UInt64 := none
  reason : Option UInt64 := none
  sourceKey : Option Str := none
  observedStoreNs : Option UInt64 := none

def quarantineKeys : Table QuarantineDraft :=
  [(Field.qid, fun d => do pure { d with qid := some (← readFixed bits 16) }),
    (Field.detail, fun d => do pure { d with detail := some (← readUint) }),
    (Field.reason, fun d => do pure { d with reason := some (← readUint) }),
    (Field.sourceKey, fun d => do pure { d with sourceKey := some (← readBorrowedText bits) }),
    (Field.observedStoreNs, fun d => do pure { d with observedStoreNs := some (← readUint) })]

def readQuarantine : Parser QuarantineRecord := do
  let d ← readMap bits (quarantineKeys bits) .envelope {}
  let qid ← require Field.qid d.qid
  let sourceKey ← require Field.sourceKey d.sourceKey
  let reason ← require Field.reason d.reason
  let observedStoreNs ← require Field.observedStoreNs d.observedStoreNs
  pure { qid, sourceKey, reason, observedStoreNs, detail := d.detail }

/-! ## The envelope -/

/-- The fields of a record of type `t`. -/
def parseFields (t : UInt64) : Parser Record :=
  if t = 1 then do pure (.format (← readFormat bits))
  else if t = 2 then do pure (.job (← readJob bits))
  else if t = 3 then do pure (.claim (← readClaim bits))
  else if t = 4 then do pure (.fail (← readFail bits))
  else if t = 5 then do pure (.receipt (← readReceipt bits))
  else if t = 6 then do pure (.dead (← readDead bits))
  else if t = 7 then do pure (.watermark (← readWatermark bits))
  else if t = 8 then do pure (.quarantine (← readQuarantine bits))
  else throw .type

/-- Everything of `decode_record` after the trailing digest was split off. -/
def decodeEnvelope [Sha256] (body : Bytes) (tail : Bytes) (queueId : ByteArr 16)
    (keyTag : ByteArr 8) : Parser Record := do
  let (m, n) ← readHead
  if m ≠ 4 ∨ n ≠ 7 then throw .envelope
  else
    let magicItem ← envUint
    let verMajor ← envUint
    let verMinor ← envUint
    let qid ← envBytes bits
    let tag ← envBytes bits
    let rtype ← envUint
    if magicItem ≠ magic then throw .magic
    else if verMajor ≠ major ∨ verMinor ≠ minor then throw (.version verMajor verMinor)
    else
      match typeName rtype with
      | none => throw .type
      | some typeStr =>
        -- digest before binding: no field is trusted on an unverifiable body
        if (recordDigest typeStr body).toList ≠ tail.drop 2 then throw .digest
        else if qid ≠ queueId.toList ∨ tag ≠ keyTag.toList then throw (.field "queue binding")
        else parseFields bits rtype

/-- Decodes and fully verifies a record. -/
def decodeRecord [Sha256] (data : Bytes) (queueId : ByteArr 16) (keyTag : ByteArr 8) :
    Except RecordError Record :=
  if data.length < 34 then .error .envelope
  else
    let body := data.take (data.length - 34)
    let tail := data.drop (data.length - 34)
    if tail.take 2 ≠ [0x58, 32] then .error .envelope
    else
      match decodeEnvelope bits body tail queueId keyTag body with
      | .error e => .error e
      | .ok (record, rest) =>
        if rest = [] then .ok record else .error (.cbor .trailingBytes)

end Readers

/-- The decoder on a 64-bit target. -/
def decode [Sha256] (data : Bytes) (queueId : ByteArr 16) (keyTag : ByteArr 8) :
    Except RecordError Record :=
  decodeRecord 64 data queueId keyTag

end Format
end StowQ
