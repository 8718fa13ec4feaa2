import StowQ.Core.Init
import StowQ.Core.Spending

/-!
# What the write paths keep to themselves

On a store whose reads are answered, transport failures and unknown outcomes of conditional
writes stay inside the operations (`task`).  `advanceWatermark` does not retry after a
transport failure; it is sealed only against unknown outcomes.
-/

namespace StowQ
namespace Core
namespace Sealing

open Data Concurrent Store Format
open Budgeted (Keeps Yields)

/-- The calls that are not passes over the store in the background. -/
def foreground : Interleaving.Action → Bool
  | .sweepExpiredLeases _ | .sweepDelayed _ | .repairScan _ | .gc _ _ _ => false
  | _ => true

/-- A store that answers everything but conditional writes. -/
def Reliable (V : (o : Op) → Res o → Prop) : Prop :=
  ∀ r a, conditional r = false → V (.store r) a → ∀ e, a = .error e → retryable e = false

/-- No transport failure and no unknown outcome may leave. -/
abbrev discreet (V : (o : Op) → Res o → Prop) : Regime Op Res Error := ⟨fun _ => 0, V, fun e => escapes e = false⟩

/-- No transport failure and no unknown outcome leaves the routine. -/
abbrev Seals {α : Type} (V : (o : Op) → Res o → Prop) (m : Routine α) : Prop :=
  Keeps (discreet V) (fun _ => True) 0 m

variable {V : (o : Op) → Res o → Prop}

lemma Reliable.fair (hV : Reliable V) : Footprint.Fair (discreet V) :=
  ⟨fun _ => Nat.zero_le _, fun _ h => h, fun r e hr h => hV r _ hr h e rfl⟩

variable [Sha256] {q : Queue} (hV : Reliable V)

include hV

/-- The watermark, where no write fails before it is transmitted. -/
lemma advanceWatermark (hput : ∀ key body digest, ¬ V (.store (.putIfAbsent key body digest)) (.error .transport))
    (hcas : ∀ key body digest v, ¬ V (.store (.cas key body digest v)) (.error .transport)) (floorNs : UInt64) :
    Seals V (q.advanceWatermark floorNs) := by
  have := hV.fair
  refine Footprint.advanceWatermark trivial trivial (fun _ _ _ => trivial) (fun _ _ _ _ => trivial) fun r hr => ?_
  cases r with
  | putIfAbsent key body digest => exact absurd hr (hput _ _ _)
  | cas key body digest v => exact absurd hr (hcas _ _ _ _)
  | _ => exact Footprint.Fair.answered (T := discreet V) _ _ rfl hr

lemma openAt (handle : Nat) (root : Str) (opts : OpenOptions) : Seals V (Queue.openAt handle root opts) := by
  have := hV.fair
  refine Yields.request (o := Op.store (.get _)) (k := 0) trivial fun r hr => ?_
  refine (Footprint.ofStore rfl hr).bind fun obj => (Footprint.ofRecord _).bind fun record => ?_
  split
  · split
    · exact Keeps.pure _
    · exact Footprint.ofRecord _
  · exact Footprint.settled rfl

lemma compareFormat (site : Site) (format : FormatRecord) : Seals V (Queue.compareFormat site format) := by
  have := hV.fair
  have hread : Seals V (Queue.readUnpaid (site.absolute .format)) := by
    refine Footprint.retrying (Yields.request (o := Op.store (.get _)) (k := 0) trivial fun r _ => ?_)
    split
    · exact Keeps.pure _
    · exact Footprint.retryOrFail _
  refine hread.bind fun obj => (Footprint.ofRecord _).bind fun existing => ?_
  split
  · exact Footprint.settled rfl
  · exact Keeps.pure _

lemma init {handle : Nat} {root : Str} {opts : OpenOptions} {format : FormatRecord}
    (hput : format.validate = .ok () → ∀ key body digest e,
      V (.store (.putIfAbsent key body digest)) (.error e) → retryable e = false) :
    Seals V (Queue.init handle root opts format) := by
  have := hV.fair
  unfold Queue.init
  cases hformat : format.validate with
  | error e => exact Footprint.settled rfl
  | ok _ =>
    refine (Footprint.ofRecord _).bind fun _ => ?_
    refine Yields.request (o := Op.store (.putIfAbsent _ _ _)) (k := 0) trivial fun r hr => ?_
    cases r with
    | error e => exact Yields.bind (P := fun _ => False) (Yields.fail (hput hformat _ _ _ e hr)) fun _ h => h.elim
    | ok outcome =>
      refine (Keeps.pure outcome).bind fun outcome => ?_
      cases outcome with
      | committed v => exact openAt hV _ _ _
      | rejected => exact (compareFormat hV _ _).bind fun _ => openAt hV _ _ _

/-- The calls, where no write of the watermark fails before it is transmitted. -/
lemma task {action : Interleaving.Action} (hforeground : foreground action = true)
    (hwatermark : ∀ floorNs, action = .advanceWatermark floorNs → Seals V (q.advanceWatermark floorNs)) :
    Seals V (action.task q) := by
  have := hV.fair
  refine Footprint.task (fun shard heq => ?_) hwatermark
  subst heq
  cases hforeground

end Sealing
end Core
end StowQ
