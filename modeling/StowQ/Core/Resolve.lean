import StowQ.Core.Basic

/-!
# Resolving the outcome of a write

A store may report that it does not know whether a request was applied.  The
functions here turn such answers into facts by reading the key back, with bounded
retries, so that no unknown outcome of a write reaches the operations above.
-/

namespace StowQ
namespace Core
namespace Queue

open Data Concurrent Store Format Keys

variable [Sha256] (q : Queue)

/-- Head-only presence probe with transport retries. -/
def resolvePresence (abs : Str) : Routine Bool :=
  Routine.retrying do
    Routine.spend
    match ← Routine.head abs with
    | .ok _ => pure (some true)
    | .error .notFound => pure (some false)
    | .error e => if retryable e then pure none else Budgeted.fail (.store e)

/-- A full read with transport retries. -/
def readRetrying (abs : Str) : Routine Object :=
  Routine.retrying do
    Routine.spend
    match ← Routine.get abs with
    | .ok obj => pure (some obj)
    | .error e => if retryable e then pure none else Budgeted.fail (.store e)

/-- Write a content-addressed payload.  Presence at the key proves the payload is
in place. -/
def putBytesResolving (abs : Str) (body : Bytes) (digest : Digest) : Routine Unit :=
  Routine.retrying do
    Routine.spend
    match ← Routine.putIfAbsent abs body digest with
    | .ok _ => pure (some ())
    | .error .transport => pure none
    | .error (.outcomeUnknown _) => do
      if ← resolvePresence abs then pure (some ()) else pure none
    | .error e => Budgeted.fail (.store e)

/-- Whether the body found at a key is the intended record.  An undecodable body is
not ours. -/
def evidence (rel : Key) (intended : Record) (body : Bytes) : Resolved :=
  match q.decodeAt rel body with
  | .ok found => if found = intended then .committed else .lost
  | .error _ => .lost

/-- Re-read the key after an unknown outcome: absent means not committed, present
means committed by someone. -/
def resolveUnknown (abs : Str) (intended : Record) (rel : Key) : Routine Resolved :=
  Routine.retrying do
    Routine.spend
    match ← Routine.head abs with
    | .ok _ => do
      let obj ← readRetrying abs
      pure (some (q.evidence rel intended obj.body))
    | .error .notFound => pure (some .notCommitted)
    | .error e => if retryable e then pure none else Budgeted.fail (.store e)

/-- The conditional write shared by every record. -/
def putResolving (abs : Str) (body : Bytes) (digest : Digest) (intended : Record)
    (rel : Key) : Routine Resolved :=
  Routine.retrying do
    Routine.spend
    match ← Routine.putIfAbsent abs body digest with
    | .ok (.committed _) => pure (some .committed)
    | .ok .rejected => pure (some .lost)
    | .error .transport => pure none
    | .error (.outcomeUnknown _) => do
      match ← q.resolveUnknown abs intended rel with
      | .committed => pure (some .committed)
      | .lost => pure (some .lost)
      | .notCommitted => pure none
    | .error e => Budgeted.fail (.store e)

/-- Encode a record at its key and write it there. -/
def putRecord (rel : Key) (record : Record) : Routine Resolved :=
  q.putResolving (q.absolute rel) (q.encodeAt rel record) (Sha256.digest (q.encodeAt rel record))
    record rel

end Queue
end Core
end StowQ
