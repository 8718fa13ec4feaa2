import Mathlib.Data.List.DropRight
import StowQ.Core.Resolve

/-!
# Opening and initializing a queue

Neither operation has a budget.  `openAt` reads the format record and accepts it only if it validates, so that a
`Queue` carries the proof.  `init` creates that record by one conditional write, which it does not resolve: what
the write meets is passed on to the caller.
-/

namespace StowQ
namespace Core

open Data Concurrent Store Format

variable [Sha256]

/-- The root with exactly one slash at its end. -/
def slashed (root : Str) : Str := root.rdropWhile (· = '/') ++ ['/']

/-- Opens an initialized queue: reads and verifies `meta/FORMAT`. -/
def Queue.openAt (handle : Nat) (root : Str) (opts : OpenOptions) : Routine Queue := do
  let site : Site := ⟨slashed root, opts.queueId⟩
  let obj ← Routine.ofStore (← Routine.get (site.absolute .format))
  match ← Routine.ofRecord (site.decodeAt .format obj.body) with
  | .format format =>
    match accepted : format.validate with
    | .ok _ => pure { handle, root := site.root, opts, format, accepted }
    | .error e => Routine.ofRecord (.error e)
  | _ => Budgeted.fail (.record "meta/FORMAT is not a format record")

/-- The read of the record that is there, with retries that nothing pays for. -/
def Queue.readUnpaid (abs : Str) : Routine Object :=
  Routine.retrying do
    match ← Routine.get abs with
    | .ok obj => pure (some obj)
    | .error e => if retryable e then pure none else Budgeted.fail (.store e)

/-- Whether the record that is there is the same. -/
def Queue.compareFormat (site : Site) (format : FormatRecord) : Routine Unit := do
  let obj ← Queue.readUnpaid (site.absolute .format)
  let existing ← Routine.ofRecord (site.decodeAt .format obj.body)
  if existing ≠ .format format then Budgeted.fail .queueIdMismatch

/-- Initializes a queue: writes `meta/FORMAT`, or accepts the record that is there if it is
the same.  The read of that record is retried; the write is not. -/
def Queue.init (handle : Nat) (root : Str) (opts : OpenOptions) (format : FormatRecord) : Routine Queue := do
  Routine.ofRecord format.validate
  let site : Site := ⟨slashed root, opts.queueId⟩
  match ← Routine.ofStore (← Routine.put (site.absolute .format) (site.encodeAt .format (.format format))) with
  | .committed _ => Queue.openAt handle site.root opts
  | .rejected => do
    Queue.compareFormat site format
    Queue.openAt handle site.root opts

end Core
end StowQ
