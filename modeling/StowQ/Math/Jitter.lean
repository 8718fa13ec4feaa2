import Mathlib.Data.Int.CardIntervalMod
import Mathlib.Data.Nat.Periodic
import Mathlib.Data.Set.Card
import StowQ.Math.Backoff

/-!
# The sampler of the jitter

A jittered delay is half of its ceiling plus an offset below `span`.  The offset comes from a stream of 64-bit draws:
`sampleOffset` rejects a draw below a threshold, reduces the first draw it accepts modulo `span`, and takes the
midpoint when all of 64 draws were rejected.

The threshold is the number of words left over when whole spans are cut from the range of a word.  The draws that
remain fall into one residue class for every offset, and all classes have the same size: `jitter_unbiased`.  The
statement counts the accepted draws with `Set.ncard`; that the stream itself is uniform is a property of the digest
and is not claimed.
-/

namespace StowQ
namespace Math

open Finset

/-- The number of draws that are rejected. -/
def threshold (span : UInt64) : UInt64 := (0 - span) % span

/-- The draws that are accepted and give an offset. -/
def drawsFor (span offset : UInt64) : Set UInt64 := {x | threshold span ≤ x ∧ x % span = offset}

/-- `sampleLoop` with the number of draws it makes. -/
def countedLoop (span threshold : UInt64) (draw : UInt32 → UInt64) : Nat → UInt32 → UInt64 × Nat
  | 0, _ => (span / 2, 0)
  | left + 1, counter =>
    let x := draw counter
    if threshold ≤ x then (x % span, 1)
    else
      let rest := countedLoop span threshold draw left (counter + 1)
      (rest.1, rest.2 + 1)

section Span

variable {span : UInt64} (hspan : 1 ≤ span)

include hspan

lemma toNat_pos : 0 < span.toNat := UInt64.le_iff_toNat_le.mp hspan

lemma toNat_threshold : (threshold span).toNat = 2 ^ 64 % span.toNat := by
  have hpos := toNat_pos hspan
  have hle := span.toNat_lt.le
  have hneg : (0 - span).toNat = 2 ^ 64 - span.toNat := by
    rw [UInt64.toNat_sub, UInt64.toNat_zero, Nat.add_zero]
    exact Nat.mod_eq_of_lt (Nat.sub_lt (by decide) hpos)
  rw [threshold, UInt64.toNat_mod, hneg, ← Nat.mod_eq_sub_mod hle]

lemma toNat_image_drawsFor {offset : UInt64} (hoffset : offset < span) : UInt64.toNat '' drawsFor span offset =
      ((Ico (2 ^ 64 % span.toNat) (2 ^ 64)).filter (· ≡ offset.toNat [MOD span.toNat]) : Finset Nat) := by
  have hsmall : offset.toNat % span.toNat = offset.toNat := Nat.mod_eq_of_lt (UInt64.lt_iff_toNat_lt.mp hoffset)
  ext x
  simp only [Set.mem_image, drawsFor, Set.mem_ofPred_eq, coe_filter, mem_Ico, Nat.ModEq, hsmall]
  constructor
  · rintro ⟨u, ⟨hle, rfl⟩, rfl⟩
    rw [UInt64.le_iff_toNat_le, toNat_threshold hspan] at hle
    exact ⟨⟨hle, u.toNat_lt⟩, (UInt64.toNat_mod _ _).symm⟩
  · rintro ⟨⟨hle, hlt⟩, hmod⟩
    have hx : (UInt64.ofNat x).toNat = x := UInt64.toNat_ofNat_of_lt' hlt
    refine ⟨UInt64.ofNat x, ⟨?_, ?_⟩, hx⟩
    · rw [UInt64.le_iff_toNat_le, toNat_threshold hspan, hx]
      exact hle
    · rw [← UInt64.toNat_inj, UInt64.toNat_mod, hx, hmod]

/-- Every offset has as many accepted draws as whole spans fit into a word. -/
lemma ncard_drawsFor {offset : UInt64} (hoffset : offset < span) :
    (drawsFor span offset).ncard = 2 ^ 64 / span.toNat := by
  have hpos := toNat_pos hspan
  have hend : 2 ^ 64 = 2 ^ 64 % span.toNat + span.toNat * (2 ^ 64 / span.toNat) := (Nat.mod_add_div _ _).symm
  have hperiodic : Function.Periodic (· ≡ offset.toNat [MOD span.toNat]) (span.toNat * (2 ^ 64 / span.toNat)) := by
    intro x
    simp [Nat.ModEq]
  rw [← Set.ncard_image_of_injective _ fun _ _ h => UInt64.toNat_inj.mp h, toNat_image_drawsFor hspan hoffset,
    Set.ncard_coe_finset]
  nth_rewrite 2 [hend]
  rw [Nat.filter_Ico_card_eq_of_periodic _ _ _ hperiodic, Nat.count_modEq_card _ hpos, Nat.mul_mod_right,
    Nat.mul_div_cancel_left _ hpos]
  simp

end Span

/-- The counted loop gives the offset, and draws no more often than it may. -/
lemma countedLoop_eq (span threshold : UInt64) (draw : UInt32 → UInt64) (left : Nat) (counter : UInt32) :
    ∃ n ≤ left, countedLoop span threshold draw left counter = (sampleLoop span threshold draw left counter, n) := by
  induction left generalizing counter with
  | zero => exact ⟨0, Nat.le_refl 0, rfl⟩
  | succ left ih =>
    rw [countedLoop, sampleLoop]
    dsimp only
    split_ifs with haccepted
    · exact ⟨1, Nat.le_add_left 1 left, rfl⟩
    · obtain ⟨n, hn, heq⟩ := ih (counter + 1)
      refine ⟨n + 1, Nat.succ_le_succ hn, ?_⟩
      rw [heq]

/-- **The jitter is unbiased.**  The threshold is the number of words that do not fill a whole span, every offset below
the span is given by equally many accepted draws, and whatever the stream of draws is, the offset is below the span
and at most 64 draws are made. -/
theorem jitter_unbiased (span : UInt64) (hspan : 1 ≤ span) : (threshold span).toNat = 2 ^ 64 % span.toNat ∧
    (∀ offset < span, (drawsFor span offset).ncard = 2 ^ 64 / span.toNat) ∧
    ∀ draw, sampleOffset span draw < span ∧
      ∃ n ≤ 64, countedLoop span (threshold span) draw 64 0 = (sampleOffset span draw, n) := by
  refine ⟨toNat_threshold hspan, fun _ hoffset => ncard_drawsFor hspan hoffset, fun draw => ⟨?_, ?_⟩⟩
  · exact UInt64.lt_iff_toNat_lt.mpr (sampleLoop_lt (toNat_pos hspan) 64 0)
  · exact countedLoop_eq span (threshold span) draw 64 0

/-- A span that does not divide the number of draws. -/
theorem jitter_unbiased_three : (1 : UInt64) ≤ 3 ∧ (threshold 3).toNat = 1 ∧
    ∀ offset < 3, (drawsFor 3 offset).ncard = 6148914691236517205 := by
  obtain ⟨hthreshold, hcount, -⟩ := jitter_unbiased 3 (by decide)
  exact ⟨by decide, hthreshold, hcount⟩

end Math
end StowQ
