import StowQ.Core.Custody

/-!
# Shard depth

The monitoring probe: it counts the objects in four planes of a shard by listing them, pays for every page, and
changes nothing.
-/

namespace StowQ
namespace Core

open Data Concurrent Store Format Keys

/-- Object counts per plane. -/
structure DepthReport where
  jobs : UInt64 := 0
  claims : UInt64 := 0
  receipts : UInt64 := 0
  dead : UInt64 := 0
  deriving DecidableEq

namespace Queue

variable (q : Queue)

/-- Count the objects of a plane in a shard. -/
def countPlane (plane : Str) (shard : UInt16) : Routine UInt64 :=
  Routine.pages false (q.under [plane, hex16 shard]) 1024 (fun n _ => pure (n + 1)) 0

/-- A monitoring probe: four listings. -/
def depth (shard : UInt16) : Routine DepthReport := do
  let jobs ← q.countPlane jobsSeg shard
  let claims ← q.countPlane claimsSeg shard
  let receipts ← q.countPlane receiptsSeg shard
  let dead ← q.countPlane deadSeg shard
  pure { jobs, claims, receipts, dead }

end Queue
end Core
end StowQ
