import StowQ.Concurrent.Budgeted
import StowQ.Format.Direct
import StowQ.Keys
import StowQ.Math
import StowQ.Store

/-!
# Queue handles, outcomes and effects

The data of the queue's public operations, and the requests they issue.  Besides
store requests an operation draws random tokens and reads or writes the two caches
of its handle, each inside one critical section: the wall floor and the memo of
jobs proven terminal.  `Routine` is the monad the operations are written in.
-/

namespace StowQ
namespace Core

open Data Concurrent Store Format Keys

/-! ## Errors -/

/-- The display text of a record error. -/
def recordErrorText : RecordError → String
  | .cbor _ => "cbor layer rejected the bytes"
  | .magic => "bad magic"
  | .version a b =>
    "unsupported version " ++ toString a.toNat ++ "." ++ toString b.toNat
  | .envelope => "unexpected envelope length"
  | .type => "unknown record type"
  | .digest => "digest mismatch"
  | .field name => "malformed field: " ++ name
  | .unknownField name => "unknown field: " ++ String.ofList name
  | .missingField name => "missing field: " ++ String.ofList name

/-- Why an output name or key is refused. -/
inductive KeyViolation
  /-- `invalid output name {name:?}` -/
  | invalidOutputName (name : Str)
  /-- `output {key} is not job {job}'s output` -/
  | foreignOutput (key : Str) (jobId : ByteArr 16)
  deriving DecidableEq

inductive Error
  | store (e : StoreError)
  | record (text : String)
  | key (why : KeyViolation)
  | budgetExhausted
  | transportExhausted
  | queueIdMismatch
  | payloadCorrupt
  | receiptEvidenceMismatch
  | outputConflict (found : Digest)
  | outputEvidenceMismatch (text : String)
  | internal (text : String)
  deriving DecidableEq

/-! ## Handles -/

structure OpenOptions where
  queueId : ByteArr 16
  workerId : Str
  retry : Math.RetryPolicy
  /-- Absorbs store clock dispersion. -/
  skewGuardNs : UInt64
  maxInlinePayload : UInt64
  /-- No string in memory is longer. -/
  workerIdFits : (utf8 workerId).length < 2 ^ 64

/-- An open queue.  `handle` names the pair of caches the methods use; the last
field is the check of `open`. -/
structure Queue where
  handle : Nat
  root : Str
  opts : OpenOptions
  format : FormatRecord
  accepted : format.validate = .ok ()

inductive PayloadRef
  | inline (bytes : Bytes)
  | detached (key : Str) (digest : Digest) (length : UInt64)
  deriving DecidableEq

/-- Custody of one job at one generation. -/
structure Claim where
  jobId : ByteArr 16
  shard : UInt16
  generation : UInt64
  attempt : UInt64
  workerToken : ByteArr 16
  leaseDurationNs : UInt64
  /-- Store time of the claim object, read back after commit. -/
  claimStoreTimeNs : UInt64
  payload : PayloadRef
  deriving DecidableEq

structure EnqueueInput where
  jobId : Option (ByteArr 16)
  payload : Bytes
  contentType : Str
  maximumAttempts : UInt64
  notBeforeNs : Option UInt64
  /-- No byte string or text in memory is longer. -/
  payloadFits : payload.length < 2 ^ 64
  contentTypeFits : (utf8 contentType).length < 2 ^ 64

inductive EnqueueOutcome
  | committed (jobId : ByteArr 16)
  | idTaken (jobId : ByteArr 16)
  deriving DecidableEq

structure ClaimOptions where
  shard : UInt16
  floorNs : UInt64
  leaseDurationNs : UInt64
  deriving DecidableEq

inductive ClaimOutcome
  | claimed (claim : Claim)
  | empty
  deriving DecidableEq

inductive RenewOutcome
  | renewed (claim : Claim)
  | leaseLost
  deriving DecidableEq

inductive AckOutcome
  | acked
  | alreadyAcked
  | supersededByDead
  deriving DecidableEq

inductive BuryOutcome
  | buried
  | supersededByReceipt
  deriving DecidableEq

structure CommittedOutput where
  key : Str
  digest : Digest
  deriving DecidableEq

inductive CommitOutcome
  | committed (out : CommittedOutput)
  | converged (out : CommittedOutput)
  deriving DecidableEq

structure GcReport where
  jobsDeleted : Nat := 0
  beaconsDeleted : Nat := 0
  orphansDeleted : Nat := 0
  claimOrphansDeleted : Nat := 0
  deriving DecidableEq

/-- How the outcome of a conditional write was resolved. -/
inductive Resolved
  | committed
  /-- Someone else's record holds the key. -/
  | lost
  /-- Resolution proved the write never happened. -/
  | notCommitted
  deriving DecidableEq

/-! ## Constants -/

def retryTransportMax : Nat := 4

def floorStalenessNs : UInt64 := 30 * 1000000000

def terminalMemoTtlNs : UInt64 := 30 * 1000000000

def terminalMemoCap : Nat := 65536

/-! ## Effects -/

/-- What an operation asks for, one atomic step at a time. -/
inductive Op
  | store (r : Request)
  /-- Sixteen random bytes. -/
  | freshToken
  /-- The handle's cached floor, if it is set and not stale. -/
  | cachedFloor (handle : Nat)
  | cacheFloor (handle : Nat) (floorNs : UInt64)
  | isMemoizedTerminal (handle : Nat) (shard : UInt16) (jobId : ByteArr 16) (version : Version)
  | memoizeTerminal (handle : Nat) (shard : UInt16) (jobId : ByteArr 16) (version : Version)
  deriving DecidableEq

def Res : Op → Type
  | .store r => StoreResult r.Answer
  | .freshToken => ByteArr 16
  | .cachedFloor _ => Option UInt64
  | .cacheFloor .. => Unit
  | .isMemoizedTerminal .. => Bool
  | .memoizeTerminal .. => Unit

/-- A queue operation: requests, an error exit, and the operation budget. -/
abbrev Routine (α : Type) := Budgeted Op Res Error α

namespace Routine

/-- `budget.spend()?`. -/
def spend : Routine Unit := Budgeted.spend .budgetExhausted

/-- `budget.spend().is_ok()`: pays if it can. -/
def trySpend : Routine Bool := do
  match ← Budgeted.attempt spend with
  | .ok _ => pure true
  | .error _ => pure false

/-- One store request. -/
def store (r : Request) : Routine (StoreResult r.Answer) := Budgeted.request (Op.store r)

def head (key : Str) : Routine (StoreResult Meta) := store (.head key)

def get (key : Str) : Routine (StoreResult Object) := store (.get key)

def list (pre : Str) (after : Option Str) (limit : Nat) : Routine (StoreResult Page) :=
  store (.list pre after limit)

def delete (key : Str) : Routine (StoreResult Unit) := store (.delete key)

def putIfAbsent (key : Str) (body : Bytes) (digest : Digest) : Routine (StoreResult PutOutcome) :=
  store (.putIfAbsent key body digest)

def cas (key : Str) (body : Bytes) (digest : Digest) (ifMatch : Version) :
    Routine (StoreResult PutOutcome) :=
  store (.cas key body digest ifMatch)

def freshToken : Routine (ByteArr 16) := Budgeted.request Op.freshToken

/-- `result?` on a store result. -/
def ofStore {α : Type} (r : StoreResult α) : Routine α :=
  match r with
  | .ok a => pure a
  | .error e => Budgeted.fail (.store e)

/-- `result?` on a decoded record. -/
def ofRecord {α : Type} (r : Except RecordError α) : Routine α :=
  match r with
  | .ok a => pure a
  | .error e => Budgeted.fail (.record (recordErrorText e))

/-- `option.ok_or(Error::Internal(text))?`. -/
def ofOption {α : Type} (text : String) (v : Option α) : Routine α :=
  match v with
  | some a => pure a
  | none => Budgeted.fail (.internal text)

/-- The retry loop of the resolvers: `none` counts one transport retry. -/
def retrying {α : Type} (attempt : Routine (Option α)) : Routine α :=
  Budgeted.retry .transportExhausted attempt retryTransportMax

/-- Walk a listing page by page, handing every item to `item`.  Some of the loops also
end at an empty page. -/
def pages {σ : Type} (stopOnEmpty : Bool) (pre : Str) (limit : Nat)
    (item : σ → Listing → Routine σ) (s : σ) : Routine σ :=
  Budgeted.loop .budgetExhausted (fun (s, after) => do
    spend
    let page ← ofStore (← list pre after limit)
    if stopOnEmpty && page.items.isEmpty then pure (.inr s)
    else do
      let s ← Budgeted.foldM item s page.items
      match page.nextAfter with
      | some k => pure (.inl (s, some k))
      | none => pure (.inr s)) (s, none)

end Routine

/-- The errors a read may be repeated on. -/
def retryable : StoreError → Bool
  | .transport => true
  | .outcomeUnknown _ => true
  | _ => false

/-- `put_if_absent` with the body's own digest. -/
def Routine.put [Sha256] (key : Str) (body : Bytes) : Routine (StoreResult PutOutcome) :=
  Routine.putIfAbsent key body (Sha256.digest body)

/-! ## Keys and records of a queue -/

/-- Where the objects of a queue live, and the identity its records are bound to.  The
handles of one queue share it. -/
structure Site where
  root : Str
  queueId : ByteArr 16
  deriving DecidableEq

namespace Site

variable (S : Site)

/-- The absolute key of a relative one. -/
def absolute (rel : Key) : Str :=
  S.root ++ rel.fmt

/-- A directory under the root. -/
def dir (segments : List Str) : Str :=
  S.root ++ segments.flatMap fun s => s ++ ['/']

variable [Sha256]

/-- The tag that binds a record to its key. -/
def tagFor (rel : Key) : ByteArr 8 :=
  Keys.keyTag S.queueId rel.fmt

/-- Encode a record for the key it goes to. -/
def encodeAt (rel : Key) (record : Record) : Bytes :=
  encode record S.queueId (S.tagFor rel)

/-- Decode the body found at a key. -/
def decodeAt (rel : Key) (body : Bytes) : Except RecordError Record :=
  decode body S.queueId (S.tagFor rel)

end Site

namespace Queue

variable [Sha256] (q : Queue)

def site : Site := ⟨q.root, q.opts.queueId⟩

abbrev absolute (rel : Key) : Str := q.site.absolute rel

abbrev under (segments : List Str) : Str := q.site.dir segments

abbrev encodeAt (rel : Key) (record : Record) : Bytes := q.site.encodeAt rel record

abbrev decodeAt (rel : Key) (body : Bytes) : Except RecordError Record :=
  q.site.decodeAt rel body

/-- Feature bit 2. -/
def hintsEnabled : Bool :=
  q.format.requiredFeatureBits &&& 2 ≠ 0

/-- `strip_prefix(root)` followed by `parse`. -/
def parseRel (key : Str) : Option Key :=
  if q.root.isPrefixOf key then (Keys.parse (key.drop q.root.length)).toOption else none

end Queue

end Core
end StowQ
