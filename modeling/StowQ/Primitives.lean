import StowQ.Data.Bytes

/-!
# Primitives the crates share

SHA-256 enters as a parameter: the development assumes nothing about the
function, so every result holds for the real one.  The 64-bit helpers are the
saturating and checked operations of the standard library, with their meaning on
natural numbers.
-/

namespace StowQ

open Data

/-- A digest. -/
abbrev Digest := ByteArr 32

/-- The hash function. -/
class Sha256 where
  digest : Bytes → Digest

/-- A hash function to exhibit runs with. -/
abbrev Sha256.zero : Sha256 := ⟨fun _ => List.Vector.replicate 32 0⟩

/-- `u64::MAX`. -/
def u64Max : UInt64 := 0xffffffffffffffff

/-- `u32::MAX as u64`. -/
def u32Max : UInt64 := 0xffffffff

/-- `u64::saturating_add`. -/
def satAdd (a b : UInt64) : UInt64 :=
  if a.toNat + b.toNat < 2 ^ 64 then a + b else u64Max

/-- `u64::saturating_sub`. -/
def satSub (a b : UInt64) : UInt64 :=
  if b ≤ a then a - b else 0

/-- `u64::saturating_mul`. -/
def satMul (a b : UInt64) : UInt64 :=
  if a.toNat * b.toNat < 2 ^ 64 then a * b else u64Max

/-- `u64::checked_add`. -/
def checkedAdd (a b : UInt64) : Option UInt64 :=
  if a.toNat + b.toNat < 2 ^ 64 then some (a + b) else none

/-- `u64::checked_mul`. -/
def checkedMul (a b : UInt64) : Option UInt64 :=
  if a.toNat * b.toNat < 2 ^ 64 then some (a * b) else none

lemma le_clock_left (a b : UInt64) : a ≤ max a b := by
  show a ≤ if a ≤ b then b else a
  split
  · assumption
  · exact UInt64.le_refl a

lemma clock_self (a : UInt64) : max a a = a := by
  show (if a ≤ a then a else a) = a
  split <;> rfl

lemma le_clock_right (a b : UInt64) : b ≤ max a b := by
  show b ≤ if a ≤ b then b else a
  split
  · exact UInt64.le_refl b
  · next h => exact UInt64.le_of_lt (UInt64.not_le.mp h)

lemma toNat_satAdd (a b : UInt64) : (satAdd a b).toNat = min (a.toNat + b.toNat) (2 ^ 64 - 1) := by
  unfold satAdd
  split_ifs with h
  · rw [UInt64.toNat_add, Nat.mod_eq_of_lt h]
    omega
  · have hmax : u64Max.toNat = 2 ^ 64 - 1 := by decide
    omega

lemma le_satAdd (a b : UInt64) : a ≤ satAdd a b := by
  rw [UInt64.le_iff_toNat_le, toNat_satAdd]
  have := a.toNat_lt
  omega

lemma toNat_checkedMul {a b c : UInt64} (h : checkedMul a b = some c) : c.toNat = a.toNat * b.toNat := by
  unfold checkedMul at h
  split_ifs at h with hlt
  cases h
  rw [UInt64.toNat_mul, Nat.mod_eq_of_lt hlt]

/-- The generation after `g`, as a key writes it. -/
lemma next_toUInt32 (g : UInt64) : (g + 1).toUInt32 = g.toUInt32 + 1 := by
  apply UInt32.toNat_inj.mp
  simp only [UInt64.toNat_toUInt32, UInt64.toNat_add, UInt32.toNat_add]
  simp

lemma next_lt {g : UInt64} (h : ¬ UInt64.ofNat u32Max.toNat ≤ g) :
    g.toNat + 1 < 2 ^ 32 ∧ (g + 1).toNat = g.toNat + 1 ∧ g.toUInt32.toNat = g.toNat := by
  have hlt := UInt64.lt_iff_toNat_lt.mp (UInt64.not_le.mp h)
  simp [u32Max] at hlt
  refine ⟨by omega, ?_, ?_⟩
  · simp only [UInt64.toNat_add]
    simp
    omega
  · simp
    omega

end StowQ
