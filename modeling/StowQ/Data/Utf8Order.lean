import Mathlib.Data.Char
import Mathlib.Data.List.Lex
import StowQ.Data.Bytes

/-!
# The order of texts

UTF-8 keeps the order of characters: comparing the bytes of two texts gives the same result
as comparing the texts character by character (`bytewise_eq_charwise`), which is the order of
the store's listings (`charwise_eq_lt`).  Texts of fixed width are compared field by field.
-/

namespace StowQ
namespace Data

/-- Compare by a number. -/
def byCode {α : Type} (code : α → Nat) (a b : α) : Ordering := compare (code a) (code b)

section ByCode

variable {α : Type} {code : α → Nat} {a b : α}

lemma byCode_self (a : α) : byCode code a a = .eq := Nat.compare_eq_eq.mpr rfl

lemma byCode_swap (a b : α) : (byCode code a b).swap = byCode code b a := Nat.compare_swap _ _

lemma byCode_lt : byCode code a b = .lt ↔ code a < code b := Nat.compare_eq_lt

lemma byCode_eq : byCode code a b = .eq ↔ code a = code b := Nat.compare_eq_eq

end ByCode

/-- Compare two texts byte by byte. -/
def bytewise (s t : Str) : Ordering :=
  (utf8 s).compareLex (byCode UInt8.toNat) (utf8 t)

/-- Compare two texts character by character. -/
def charwise (s t : Str) : Ordering :=
  s.compareLex (byCode Char.toNat) t

lemma toNat_byte {n : Nat} (h : n < 256) : (UInt8.ofNat n).toNat = n := by
  rw [UInt8.toNat_ofNat']
  exact Nat.mod_eq_of_lt h

/-- The bytes of the smaller character come first, whatever follows. -/
lemma encodeChar_lt {c d : Char} (h : c < d) (s t : Bytes) :
    (String.utf8EncodeChar c ++ s).compareLex (byCode UInt8.toNat)
      (String.utf8EncodeChar d ++ t) = .lt := by
  have hlt : c.val.toNat < d.val.toNat := h
  have hd : d.val.toNat < 0xd800 ∨ 0xdfff < d.val.toNat ∧ d.val.toNat < 0x110000 := d.valid
  unfold String.utf8EncodeChar
  dsimp only
  generalize c.val.toNat = m at hlt
  generalize d.val.toNat = n at hlt hd
  have hdiv : ∀ k : Nat, k / 4096 = k / 64 / 64 ∧ k / 262144 = k / 64 / 64 / 64 := by omega
  simp only [hdiv]
  -- one case for each pair of lengths; the longer encoding starts with the larger byte
  split_ifs <;>
    simp only [List.cons_append, List.nil_append, List.compareLex_cons_cons, Ordering.then_eq_lt,
      byCode_lt, byCode_eq] <;>
    repeat rw [toNat_byte (by omega)]
  all_goals omega

section Lex

variable {α : Type} {f : α → α → Ordering}

lemma compareLex_swap (hf : ∀ a b, (f a b).swap = f b a) (s t : List α) :
    (s.compareLex f t).swap = t.compareLex f s := by
  induction s generalizing t with
  | nil => cases t <;> rfl
  | cons a s ih =>
    cases t with
    | nil => rfl
    | cons b t => rw [List.compareLex_cons_cons, List.compareLex_cons_cons, Ordering.swap_then, hf, ih]

/-- Texts of one width are compared before what follows them. -/
lemma compareLex_append {x y : List α} (hlen : x.length = y.length) (s t : List α) :
    (x ++ s).compareLex f (y ++ t) = (x.compareLex f y).then (s.compareLex f t) := by
  induction x generalizing y with
  | nil =>
    obtain rfl := List.length_eq_zero_iff.mp hlen.symm
    rfl
  | cons a x ih =>
    cases y with
    | nil => cases hlen
    | cons b y =>
      rw [List.cons_append, List.cons_append, List.compareLex_cons_cons, List.compareLex_cons_cons,
        ih (Nat.succ.inj hlen), Ordering.then_assoc]

lemma compareLex_self (hf : ∀ a, f a a = .eq) (s : List α) : s.compareLex f s = .eq := by
  induction s with
  | nil => rfl
  | cons a s ih => rw [List.compareLex_cons_cons, hf, ih, Ordering.eq_then]

end Lex

lemma encodeChar_gt {c d : Char} (h : d < c) (s t : Bytes) :
    (String.utf8EncodeChar c ++ s).compareLex (byCode UInt8.toNat)
      (String.utf8EncodeChar d ++ t) = .gt := by
  rw [← compareLex_swap byCode_swap, encodeChar_lt h]
  rfl

/-- **Comparing bytes is comparing characters.** -/
theorem bytewise_eq_charwise (s t : Str) : bytewise s t = charwise s t := by
  have hnil : ∀ (c : Char) (s : Str), ∃ b rest, utf8 (c :: s) = b :: rest := by
    intro c s
    obtain ⟨b, rest, hb⟩ := List.exists_cons_of_ne_nil (String.utf8EncodeChar_ne_nil (c := c))
    exact ⟨b, rest ++ utf8 s, by rw [utf8, List.flatMap_cons, hb]; rfl⟩
  have hchar : ∀ {c d : Char}, c < d → byCode Char.toNat c d = .lt := fun h => byCode_lt.mpr h
  induction s generalizing t with
  | nil =>
    cases t with
    | nil => rfl
    | cons d t =>
      obtain ⟨b, rest, hb⟩ := hnil d t
      rw [bytewise, hb]
      rfl
  | cons c s ih =>
    cases t with
    | nil =>
      obtain ⟨b, rest, hb⟩ := hnil c s
      rw [bytewise, hb]
      rfl
    | cons d t =>
      rw [bytewise, utf8, utf8, List.flatMap_cons, List.flatMap_cons, charwise, List.compareLex_cons_cons]
      obtain hlt | rfl | hgt := lt_trichotomy c d
      · rw [encodeChar_lt hlt, hchar hlt]
        rfl
      · rw [compareLex_append rfl, compareLex_self byCode_self, byCode_self]
        exact ih t
      · rw [encodeChar_gt hgt, ← byCode_swap, hchar hgt]
        rfl

lemma charwise_eq_lt {s t : Str} : charwise s t = .lt ↔ s < t := by
  induction s generalizing t with
  | nil =>
    cases t with
    | nil => exact iff_of_false nofun (lt_irrefl _)
    | cons d t => exact iff_of_true rfl (List.nil_lt_cons d t)
  | cons c s ih =>
    cases t with
    | nil => exact iff_of_false nofun (List.not_lt_nil _)
    | cons d t =>
      rw [charwise, List.compareLex_cons_cons, Ordering.then_eq_lt, byCode_lt, byCode_eq, List.cons_lt_cons_iff,
        ← ih, Char.toNat_inj]
      rfl

/-- Hexadecimal texts of one width compare as the numbers. -/
lemma charwise_hex {a b : Bytes} (hlen : a.length = b.length) :
    charwise (hex a) (hex b) = compare (fromBe a) (fromBe b) := by
  obtain hlt | heq | hgt := Nat.lt_trichotomy (fromBe a) (fromBe b)
  · rw [charwise_eq_lt.mpr (hex_lt_hex hlen hlt), Nat.compare_eq_lt.mpr hlt]
  · obtain rfl : a = b := by rw [← beBytes_fromBe a, ← beBytes_fromBe b, hlen, heq]
    rw [Nat.compare_eq_eq.mpr rfl]
    exact compareLex_self byCode_self _
  · rw [Nat.compare_eq_gt.mpr hgt, charwise, ← compareLex_swap byCode_swap]
    show (charwise (hex b) (hex a)).swap = .gt
    rw [charwise_eq_lt.mpr (hex_lt_hex hlen.symm hgt)]
    rfl

end Data
end StowQ
