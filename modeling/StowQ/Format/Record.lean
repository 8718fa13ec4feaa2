import StowQ.Format.Cbor

/-!
# Records and their encoding

Every record is a canonical CBOR array of seven items (magic, version, queue id,
key tag, record type, fields) closed by a digest over a type-specific domain
separator and that array.  `encode` writes the bytes directly, one write per
field, in the canonical order of the field names.
-/

namespace StowQ
namespace Format

open Data Cbor

/-! ## Field names -/

namespace Field

def shardCount : Str := ['s', 'h', 'a', 'r', 'd', '_', 'c', 'o', 'u', 'n', 't']
def inlineLimit : Str := ['i', 'n', 'l', 'i', 'n', 'e', '_', 'l', 'i', 'm', 'i', 't']
def leaseBucketWidthNs : Str :=
  ['l', 'e', 'a', 's', 'e', '_', 'b', 'u', 'c', 'k', 'e', 't', '_', 'w', 'i', 'd', 't', 'h', '_', 'n', 's']
def requiredFeatureBits : Str :=
  ['r', 'e', 'q', 'u', 'i', 'r', 'e', 'd', '_', 'f', 'e', 'a', 't', 'u', 'r', 'e', '_', 'b', 'i', 't', 's']
def delayedBucketWidthNs : Str :=
  ['d', 'e', 'l', 'a', 'y', 'e', 'd', '_', 'b', 'u', 'c', 'k', 'e', 't', '_', 'w', 'i', 'd', 't',
    'h', '_', 'n', 's']
def terminalBucketWidthNs : Str :=
  ['t', 'e', 'r', 'm', 'i', 'n', 'a', 'l', '_', 'b', 'u', 'c', 'k', 'e', 't', '_', 'w', 'i', 'd',
    't', 'h', '_', 'n', 's']
def jobId : Str := ['j', 'o', 'b', '_', 'i', 'd']
def payloadKey : Str := ['p', 'a', 'y', 'l', 'o', 'a', 'd', '_', 'k', 'e', 'y']
def contentType : Str := ['c', 'o', 'n', 't', 'e', 'n', 't', '_', 't', 'y', 'p', 'e']
def notBeforeNs : Str := ['n', 'o', 't', '_', 'b', 'e', 'f', 'o', 'r', 'e', '_', 'n', 's']
def payloadDigest : Str := ['p', 'a', 'y', 'l', 'o', 'a', 'd', '_', 'd', 'i', 'g', 'e', 's', 't']
def payloadInline : Str := ['p', 'a', 'y', 'l', 'o', 'a', 'd', '_', 'i', 'n', 'l', 'i', 'n', 'e']
def payloadLength : Str := ['p', 'a', 'y', 'l', 'o', 'a', 'd', '_', 'l', 'e', 'n', 'g', 't', 'h']
def maximumAttempts : Str :=
  ['m', 'a', 'x', 'i', 'm', 'u', 'm', '_', 'a', 't', 't', 'e', 'm', 'p', 't', 's']
def createdStoreTimeNs : Str :=
  ['c', 'r', 'e', 'a', 't', 'e', 'd', '_', 's', 't', 'o', 'r', 'e', '_', 't', 'i', 'm', 'e', '_', 'n', 's']
def basis : Str := ['b', 'a', 's', 'i', 's']
def attempt : Str := ['a', 't', 't', 'e', 'm', 'p', 't']
def workerId : Str := ['w', 'o', 'r', 'k', 'e', 'r', '_', 'i', 'd']
def generation : Str := ['g', 'e', 'n', 'e', 'r', 'a', 't', 'i', 'o', 'n']
def prevToken : Str := ['p', 'r', 'e', 'v', '_', 't', 'o', 'k', 'e', 'n']
def continuation : Str := ['c', 'o', 'n', 't', 'i', 'n', 'u', 'a', 't', 'i', 'o', 'n']
def workerToken : Str := ['w', 'o', 'r', 'k', 'e', 'r', '_', 't', 'o', 'k', 'e', 'n']
def leaseDurationNs : Str :=
  ['l', 'e', 'a', 's', 'e', '_', 'd', 'u', 'r', 'a', 't', 'i', 'o', 'n', '_', 'n', 's']
def prevDurationNs : Str :=
  ['p', 'r', 'e', 'v', '_', 'd', 'u', 'r', 'a', 't', 'i', 'o', 'n', '_', 'n', 's']
def prevStoreTimeNs : Str :=
  ['p', 'r', 'e', 'v', '_', 's', 't', 'o', 'r', 'e', '_', 't', 'i', 'm', 'e', '_', 'n', 's']
def observedWatermarkNs : Str :=
  ['o', 'b', 's', 'e', 'r', 'v', 'e', 'd', '_', 'w', 'a', 't', 'e', 'r', 'm', 'a', 'r', 'k', '_', 'n', 's']
def reason : Str := ['r', 'e', 'a', 's', 'o', 'n']
def retryNotBeforeNs : Str :=
  ['r', 'e', 't', 'r', 'y', '_', 'n', 'o', 't', '_', 'b', 'e', 'f', 'o', 'r', 'e', '_', 'n', 's']
def outputDigests : Str := ['o', 'u', 't', 'p', 'u', 't', '_', 'd', 'i', 'g', 'e', 's', 't', 's']
def sequence : Str := ['s', 'e', 'q', 'u', 'e', 'n', 'c', 'e']
def highestObservedWallBucket : Str :=
  ['h', 'i', 'g', 'h', 'e', 's', 't', '_', 'o', 'b', 's', 'e', 'r', 'v', 'e', 'd', '_', 'w', 'a',
    'l', 'l', '_', 'b', 'u', 'c', 'k', 'e', 't']
def qid : Str := ['q', 'i', 'd']
def detail : Str := ['d', 'e', 't', 'a', 'i', 'l']
def sourceKey : Str := ['s', 'o', 'u', 'r', 'c', 'e', '_', 'k', 'e', 'y']
def observedStoreNs : Str :=
  ['o', 'b', 's', 'e', 'r', 'v', 'e', 'd', '_', 's', 't', 'o', 'r', 'e', '_', 'n', 's']

end Field

/-! ## Records -/

/-- Why a byte string is not a record. -/
inductive RecordError
  | cbor (e : Cbor.Error)
  | magic
  | version (major minor : UInt64)
  | envelope
  | type
  | digest
  | field (name : String)
  | unknownField (name : Str)
  | missingField (name : Str)
  deriving DecidableEq

/-- `meta/FORMAT`: the parameters all handles of a queue share. -/
structure FormatRecord where
  shardCount : UInt32
  leaseBucketWidthNs : UInt64
  delayedBucketWidthNs : UInt64
  terminalBucketWidthNs : UInt64
  inlineLimit : UInt64
  requiredFeatureBits : UInt64
  deriving DecidableEq

/-- The feature bits the decoder understands. -/
def knownFeatureBits : UInt64 := 1 ||| 2

/-- `u32::is_power_of_two`. -/
def isPowerOfTwo (n : UInt32) : Bool :=
  n ≠ 0 && n &&& (n - 1) = 0

/-- The checks of queue open and init. -/
def FormatRecord.validate (f : FormatRecord) : Except RecordError Unit :=
  if f.shardCount = 0 ∨ isPowerOfTwo f.shardCount = false ∨ 65536 < f.shardCount then
    .error (.field "shard_count")
  else if f.leaseBucketWidthNs = 0 ∨ f.delayedBucketWidthNs = 0 ∨ f.terminalBucketWidthNs = 0 then
    .error (.field "bucket width")
  else if f.requiredFeatureBits &&& ~~~knownFeatureBits ≠ 0 then
    .error (.field "required_feature_bits")
  else .ok ()

structure JobRecord where
  jobId : ByteArr 16
  maximumAttempts : UInt64
  contentType : Str
  createdStoreTimeNs : UInt64
  notBeforeNs : Option UInt64
  payloadDigest : Digest
  payloadLength : UInt64
  /-- Present iff the payload is inline. -/
  payloadInline : Option Bytes
  /-- Present iff the payload is detached. -/
  payloadKey : Option Str
  deriving DecidableEq

/-- Takeover evidence. -/
structure ClaimBasis where
  prevStoreTimeNs : UInt64
  prevDurationNs : UInt64
  observedWatermarkNs : UInt64
  deriving DecidableEq

structure ClaimRecord where
  jobId : ByteArr 16
  generation : UInt64
  attempt : UInt64
  workerId : Str
  workerToken : ByteArr 16
  leaseDurationNs : UInt64
  continuation : Bool
  /-- Required iff `continuation` is false. -/
  basis : Option ClaimBasis
  /-- Required iff `continuation` is true. -/
  prevToken : Option (ByteArr 16)
  deriving DecidableEq

structure FailRecord where
  jobId : ByteArr 16
  generation : UInt64
  reason : UInt64
  attempt : UInt64
  retryNotBeforeNs : UInt64
  deriving DecidableEq

structure ReceiptRecord where
  jobId : ByteArr 16
  generation : UInt64
  attempt : UInt64
  workerId : Str
  workerToken : ByteArr 16
  payloadDigest : Digest
  outputDigests : List Digest
  deriving DecidableEq

structure DeadRecord where
  jobId : ByteArr 16
  generation : UInt64
  attempt : UInt64
  reason : UInt64
  deriving DecidableEq

structure QuarantineRecord where
  qid : ByteArr 16
  sourceKey : Str
  reason : UInt64
  observedStoreNs : UInt64
  detail : Option UInt64
  deriving DecidableEq

structure WatermarkRecord where
  highestObservedWallBucket : UInt64
  sequence : UInt64
  deriving DecidableEq

inductive Record
  | format (r : FormatRecord)
  | job (r : JobRecord)
  | claim (r : ClaimRecord)
  | fail (r : FailRecord)
  | receipt (r : ReceiptRecord)
  | dead (r : DeadRecord)
  | watermark (r : WatermarkRecord)
  | quarantine (r : QuarantineRecord)
  deriving DecidableEq

/-! ## Encoding -/

def magic : UInt64 := 0x53544f5751312d00
def major : UInt64 := 1
def minor : UInt64 := 0

def Record.typeNumber : Record → UInt64
  | .format _ => 1
  | .job _ => 2
  | .claim _ => 3
  | .fail _ => 4
  | .receipt _ => 5
  | .dead _ => 6
  | .watermark _ => 7
  | .quarantine _ => 8

def typeName (t : UInt64) : Option Str :=
  if t = 1 then some ['f', 'o', 'r', 'm', 'a', 't']
  else if t = 2 then some ['j', 'o', 'b']
  else if t = 3 then some ['c', 'l', 'a', 'i', 'm']
  else if t = 4 then some ['f', 'a', 'i', 'l']
  else if t = 5 then some ['r', 'e', 'c', 'e', 'i', 'p', 't']
  else if t = 6 then some ['d', 'e', 'a', 'd']
  else if t = 7 then some ['w', 'a', 't', 'e', 'r', 'm', 'a', 'r', 'k']
  else if t = 8 then some ['q', 'u', 'a', 'r', 'a', 'n', 't', 'i', 'n', 'e']
  else none

/-- SHA-256 over `StowQ-1-<type>\0` and the array without the digest. -/
def recordDigest [Sha256] (typeStr : Str) (body : Bytes) : Digest :=
  Sha256.digest (utf8 (['S', 't', 'o', 'w', 'Q', '-', '1', '-'] ++ typeStr ++ ['\x00']) ++ body)

def putKey (k : Str) (v : UInt64) : Bytes :=
  putText k ++ pushHead 0 v

def putKeyBytes (k : Str) (v : Bytes) : Bytes :=
  putText k ++ putBytes v

def putKeyText (k : Str) (v : Str) : Bytes :=
  putText k ++ putText v

def putKeyBool (k : Str) (v : Bool) : Bytes :=
  putText k ++ [if v then 0xf5 else 0xf4]

/-- A field that is written only when present. -/
def putOpt {α : Type} (v : Option α) (write : α → Bytes) : Bytes :=
  match v with
  | some a => write a
  | none => []

/-- `Option::is_some() as u64`. -/
def countSome {α : Type} (v : Option α) : UInt64 :=
  if v.isSome then 1 else 0

/-- The fields map, keys in canonical order. -/
def writeFields : Record → Bytes
  | .format r =>
    pushHead 5 6 ++ putKey Field.shardCount r.shardCount.toUInt64 ++
    putKey Field.inlineLimit r.inlineLimit ++
    putKey Field.leaseBucketWidthNs r.leaseBucketWidthNs ++
    putKey Field.requiredFeatureBits r.requiredFeatureBits ++
    putKey Field.delayedBucketWidthNs r.delayedBucketWidthNs ++
    putKey Field.terminalBucketWidthNs r.terminalBucketWidthNs
  | .job r =>
    pushHead 5 (6 + countSome r.notBeforeNs + countSome r.payloadInline +
      countSome r.payloadKey) ++
    putKeyBytes Field.jobId r.jobId.toList ++
    putOpt r.payloadKey (putKeyText Field.payloadKey) ++
    putKeyText Field.contentType r.contentType ++
    putOpt r.notBeforeNs (putKey Field.notBeforeNs) ++
    putKeyBytes Field.payloadDigest r.payloadDigest.toList ++
    putOpt r.payloadInline (putKeyBytes Field.payloadInline) ++
    putKey Field.payloadLength r.payloadLength ++
    putKey Field.maximumAttempts r.maximumAttempts ++
    putKey Field.createdStoreTimeNs r.createdStoreTimeNs
  | .claim r =>
    pushHead 5 (7 + countSome r.basis + countSome r.prevToken) ++
    putOpt r.basis (fun b =>
      putText Field.basis ++ pushHead 5 3 ++
      putKey Field.prevDurationNs b.prevDurationNs ++
      putKey Field.prevStoreTimeNs b.prevStoreTimeNs ++
      putKey Field.observedWatermarkNs b.observedWatermarkNs) ++
    putKeyBytes Field.jobId r.jobId.toList ++
    putKey Field.attempt r.attempt ++
    putKeyText Field.workerId r.workerId ++
    putKey Field.generation r.generation ++
    putOpt r.prevToken (fun t => putKeyBytes Field.prevToken t.toList) ++
    putKeyBool Field.continuation r.continuation ++
    putKeyBytes Field.workerToken r.workerToken.toList ++
    putKey Field.leaseDurationNs r.leaseDurationNs
  | .fail r =>
    pushHead 5 5 ++ putKeyBytes Field.jobId r.jobId.toList ++
    putKey Field.reason r.reason ++ putKey Field.attempt r.attempt ++
    putKey Field.generation r.generation ++
    putKey Field.retryNotBeforeNs r.retryNotBeforeNs
  | .receipt r =>
    pushHead 5 (6 + if r.outputDigests.isEmpty then 0 else 1) ++
    putKeyBytes Field.jobId r.jobId.toList ++
    putKey Field.attempt r.attempt ++
    putKeyText Field.workerId r.workerId ++
    putKey Field.generation r.generation ++
    putKeyBytes Field.workerToken r.workerToken.toList ++
    (if r.outputDigests.isEmpty then []
      else putText Field.outputDigests ++ pushHead 4 (UInt64.ofNat r.outputDigests.length) ++
        r.outputDigests.flatMap fun d => putBytes d.toList) ++
    putKeyBytes Field.payloadDigest r.payloadDigest.toList
  | .dead r =>
    pushHead 5 4 ++ putKeyBytes Field.jobId r.jobId.toList ++
    putKey Field.reason r.reason ++ putKey Field.attempt r.attempt ++
    putKey Field.generation r.generation
  | .watermark r =>
    pushHead 5 2 ++ putKey Field.sequence r.sequence ++
    putKey Field.highestObservedWallBucket r.highestObservedWallBucket
  | .quarantine r =>
    pushHead 5 (4 + countSome r.detail) ++ putKeyBytes Field.qid r.qid.toList ++
    putOpt r.detail (putKey Field.detail) ++
    putKey Field.reason r.reason ++ putKeyText Field.sourceKey r.sourceKey ++
    putKey Field.observedStoreNs r.observedStoreNs

/-- The array, without the closing digest. -/
def encodeBody (record : Record) (queueId : ByteArr 16) (keyTag : ByteArr 8) : Bytes :=
  pushHead 4 7 ++ pushHead 0 magic ++ pushHead 0 major ++ pushHead 0 minor ++
  putBytes queueId.toList ++ putBytes keyTag.toList ++ pushHead 0 record.typeNumber ++
  writeFields record

/-- Encodes a record against a queue identity and the tag of its key. -/
def encode [Sha256] (record : Record) (queueId : ByteArr 16) (keyTag : ByteArr 8) : Bytes :=
  let body := encodeBody record queueId keyTag
  let digest := recordDigest ((typeName record.typeNumber).getD []) body
  body ++ [0x58, 32] ++ digest.toList

end Format
end StowQ
