import StowQ.Primitives

/-!
# Canonical CBOR heads

The part of canonical CBOR every record is written with: item heads (a major type
and a minimal-length argument), byte strings and text strings.  `head` accepts
minimal arguments and definite lengths only; `head_pushHead` says that it reads
back exactly what `pushHead` wrote and leaves the rest of the input.

The reader is a list of the bytes not yet consumed.
-/

namespace StowQ
namespace Cbor

open Data

variable {v : UInt64} {n : Nat} {data rest : Bytes}

/-- Why the CBOR layer rejects an input. -/
inductive Error
  | trailingBytes
  | unexpectedEof
  | nonMinimalInteger
  | indefiniteLength
  | unsupportedMajorType (major : UInt8)
  | unsupportedSimple (value : UInt8)
  | invalidUtf8
  | unsortedMapKeys
  | duplicateMapKey
  | lengthOverflow
  | maxDepth
  deriving DecidableEq

/-! ## Encoding -/

/-- An item head in the shortest form. -/
def pushHead (major : UInt8) (value : UInt64) : Bytes :=
  let m := major <<< 5
  if value ≤ 23 then [m ||| value.toUInt8]
  else if value ≤ 0xff then [m ||| 24, value.toUInt8]
  else if value ≤ 0xffff then (m ||| 25) :: beBytes 2 value.toNat
  else if value ≤ 0xffffffff then (m ||| 26) :: beBytes 4 value.toNat
  else (m ||| 27) :: beBytes 8 value.toNat

/-- A byte string. -/
def putBytes (b : Bytes) : Bytes :=
  pushHead 2 (UInt64.ofNat b.length) ++ b

/-- A text string. -/
def putText (t : Str) : Bytes :=
  pushHead 3 (UInt64.ofNat (utf8 t).length) ++ utf8 t

/-! ## Decoding -/

/-- `len as usize` where that type has `bits` bits. -/
def asUsize (bits : Nat) (len : UInt64) : Nat :=
  len.toNat % 2 ^ bits

/-- Consume `n` bytes. -/
def take (n : Nat) (data : Bytes) : Except Error (Bytes × Bytes) :=
  if data.length < n then .error .unexpectedEof else .ok (data.take n, data.drop n)

/-- A big-endian argument of `n` bytes that must not fit a shorter form. -/
def longArgument (n least : Nat) (data : Bytes) : Except Error (UInt64 × Bytes) :=
  match take n data with
  | .error e => .error e
  | .ok (b, rest) =>
    if fromBe b < least then .error .nonMinimalInteger
    else .ok (UInt64.ofNat (fromBe b), rest)

/-- Consume an item head: major type and argument. -/
def head (data : Bytes) : Except Error ((UInt8 × UInt64) × Bytes) :=
  match data with
  | [] => .error .unexpectedEof
  | b :: rest =>
    let major := b >>> 5
    let info := b &&& 0x1f
    let argument : Except Error (UInt64 × Bytes) :=
      if info ≤ 23 then .ok (info.toUInt64, rest)
      else if info = 24 then longArgument 1 24 rest
      else if info = 25 then longArgument 2 0x100 rest
      else if info = 26 then longArgument 4 0x10000 rest
      else if info = 27 then longArgument 8 0x100000000 rest
      else .error .indefiniteLength
    match argument with
    | .error e => .error e
    | .ok (value, rest') => .ok ((major, value), rest')

/-! ## Heads read back -/

lemma asUsize_ofNat (h : n < 2 ^ 64) : asUsize 64 (UInt64.ofNat n) = n := by
  unfold asUsize
  rw [UInt64.toNat_ofNat', Nat.mod_mod, Nat.mod_eq_of_lt h]

lemma asUsize_eq (len : UInt64) : asUsize 64 len = len.toNat := Nat.mod_eq_of_lt len.toNat_lt

lemma take_append (b rest : Bytes) : take b.length (b ++ rest) = .ok (b, rest) := by
  simp [take]

lemma longArgument_beBytes (n least : Nat) (hlt : v.toNat < 256 ^ n) (hleast : least ≤ v.toNat) (rest : Bytes) :
    longArgument n least (beBytes n v.toNat ++ rest) = .ok (v, rest) := by
  have htake := take_append (beBytes n v.toNat) rest
  rw [beBytes_length] at htake
  have hnot : ¬v.toNat < least := by omega
  simp only [longArgument, htake, fromBe_beBytes_of_lt hlt, if_neg hnot, UInt64.ofNat_toNat]

/-- The first byte of a head carries the major type and the five info bits. -/
lemma initial_byte (major info : UInt8) (hm : major < 8) (hi : info < 32) :
    (major <<< 5 ||| info) >>> 5 = major ∧ (major <<< 5 ||| info) &&& 0x1f = info := by
  have hall : ∀ m : Fin 8, ∀ i : Fin 32, (UInt8.ofNat m <<< 5 ||| UInt8.ofNat i) >>> 5 = UInt8.ofNat m ∧
        (UInt8.ofNat m <<< 5 ||| UInt8.ofNat i) &&& 0x1f = UInt8.ofNat i := by
    decide +kernel
  have h := hall ⟨major.toNat, hm⟩ ⟨info.toNat, hi⟩
  simpa using h

/-- **A head reads back.** -/
theorem head_pushHead (major : UInt8) (hm : major < 8) (v : UInt64) (rest : Bytes) :
    head (pushHead major v ++ rest) = .ok ((major, v), rest) := by
  have h24 := initial_byte major 24 hm (by decide)
  have h25 := initial_byte major 25 hm (by decide)
  have h26 := initial_byte major 26 hm (by decide)
  have h27 := initial_byte major 27 hm (by decide)
  unfold pushHead
  simp only [UInt64.le_iff_toNat_le]
  split_ifs with h1 h2 h3 h4
  · -- the argument sits in the info bits
    have hv : v.toNat ≤ 23 := h1
    have hinfo : v.toUInt8.toNat = v.toNat := by
      rw [UInt64.toNat_toUInt8]
      omega
    have hlt : v.toUInt8 < 32 := by
      rw [UInt8.lt_iff_toNat_lt, hinfo]
      show v.toNat < 32
      omega
    have hle : v.toUInt8 ≤ 23 := by
      rw [UInt8.le_iff_toNat_le, hinfo]
      exact hv
    have hback : v.toUInt8.toUInt64 = v := by
      apply UInt64.toNat_inj.mp
      rw [UInt8.toNat_toUInt64, hinfo]
    obtain ⟨hmajor, hbits⟩ := initial_byte major v.toUInt8 hm hlt
    simp only [List.cons_append, List.nil_append, head, hmajor, hbits, if_pos hle, hback]
  · have hv : v.toNat ≤ 255 := h2
    have hlow : ¬v.toNat ≤ 23 := h1
    have hone : [v.toUInt8] = beBytes 1 v.toNat := by
      simp [beBytes]
    have harg := longArgument_beBytes 1 24 (v := v) (by omega) (by omega) rest
    rw [← hone] at harg
    simp only [List.cons_append, List.nil_append] at harg
    simp [head, h24, harg]
  · have hlow : ¬v.toNat ≤ 255 := h2
    have hv : v.toNat ≤ 65535 := h3
    have harg := longArgument_beBytes 2 0x100 (v := v) (by omega) (by omega) rest
    simp [head, h25, harg]
  · have hlow : ¬v.toNat ≤ 65535 := h3
    have hv : v.toNat ≤ 4294967295 := h4
    have harg := longArgument_beBytes 4 0x10000 (v := v) (by omega) (by omega) rest
    simp [head, h26, harg]
  · have hlow : ¬v.toNat ≤ 4294967295 := h4
    have hv := v.toNat_lt
    have harg := longArgument_beBytes 8 0x100000000 (v := v) (by omega) (by omega) rest
    simp [head, h27, harg]

/-! ## Accepted heads -/

lemma take_eq_ok {b : Bytes} (h : take n data = .ok (b, rest)) : data = b ++ rest ∧ b.length = n := by
  unfold take at h
  split at h
  · cases h
  · next hle =>
      cases h
      exact ⟨(List.take_append_drop n data).symm, List.length_take_of_le (Nat.not_lt.mp hle)⟩

/-- The first byte of a head is put together from its two parts. -/
lemma initial_byte_parts (b : UInt8) : b >>> 5 < 8 ∧ (b >>> 5) <<< 5 ||| (b &&& 0x1f) = b := by
  revert b
  exact forall_byte (by decide +kernel)

lemma longArgument_eq_ok {least : Nat} (hn : n ≤ 8) (h : longArgument n least data = .ok (v, rest)) :
    data = beBytes n v.toNat ++ rest ∧ least ≤ v.toNat ∧ v.toNat < 256 ^ n := by
  unfold longArgument at h
  split at h
  · cases h
  · next b rest' htake =>
      split at h
      · cases h
      · next hleast =>
          obtain ⟨rfl, hlen⟩ := take_eq_ok htake
          cases h
          have hlt : fromBe b < 256 ^ n := hlen ▸ fromBe_lt b
          have hwide : 256 ^ n ≤ 2 ^ 64 := Nat.pow_le_pow_right (by decide : 0 < 256) hn
          have hback : (UInt64.ofNat (fromBe b)).toNat = fromBe b := by
            rw [UInt64.toNat_ofNat', Nat.mod_eq_of_lt (Nat.lt_of_lt_of_le hlt hwide)]
          rw [hback, ← hlen, beBytes_fromBe]
          exact ⟨rfl, Nat.not_lt.mp hleast, hlen ▸ hlt⟩

/-- A long argument in the width that `pushHead` chooses for it. -/
lemma pushHead_long (major : UInt8) :
    (24 ≤ v.toNat → v.toNat < 256 → pushHead major v = (major <<< 5 ||| 24) :: beBytes 1 v.toNat) ∧
    (256 ≤ v.toNat → v.toNat < 65536 → pushHead major v = (major <<< 5 ||| 25) :: beBytes 2 v.toNat) ∧
    (65536 ≤ v.toNat → v.toNat < 4294967296 → pushHead major v = (major <<< 5 ||| 26) :: beBytes 4 v.toNat) ∧
    (4294967296 ≤ v.toNat → pushHead major v = (major <<< 5 ||| 27) :: beBytes 8 v.toNat) := by
  have h₁ : v ≤ 23 ↔ v.toNat ≤ 23 := UInt64.le_iff_toNat_le
  have h₂ : v ≤ 0xff ↔ v.toNat ≤ 255 := UInt64.le_iff_toNat_le
  have h₃ : v ≤ 0xffff ↔ v.toNat ≤ 65535 := UInt64.le_iff_toNat_le
  have h₄ : v ≤ 0xffffffff ↔ v.toNat ≤ 4294967295 := UInt64.le_iff_toNat_le
  unfold pushHead
  simp only [h₁, h₂, h₃, h₄]
  refine ⟨fun hlow hhigh => ?_, fun hlow hhigh => ?_, fun hlow hhigh => ?_, fun hlow => ?_⟩
  · rw [if_neg (by omega), if_pos (by omega)]
    simp [beBytes]
  · rw [if_neg (by omega), if_neg (by omega), if_pos (by omega)]
  · rw [if_neg (by omega), if_neg (by omega), if_neg (by omega), if_pos (by omega)]
  · rw [if_neg (by omega), if_neg (by omega), if_neg (by omega), if_neg (by omega)]

/-- **Only shortest heads are accepted.** -/
theorem head_eq_ok {major : UInt8} (h : head data = .ok ((major, v), rest)) :
    major < 8 ∧ data = pushHead major v ++ rest := by
  cases data with
  | nil => cases h
  | cons b data =>
    obtain ⟨hmajor, hparts⟩ := initial_byte_parts b
    unfold head at h
    dsimp only at h
    split at h
    · cases h
    · next v' rest' harg =>
        cases h
        refine ⟨hmajor, ?_⟩
        obtain ⟨h₁, h₂, h₄, h8⟩ := pushHead_long (b >>> 5) (v := v)
        split_ifs at harg with hinfo h24 h25 h26 h27
        · -- the argument sits in the info bits
          cases harg
          have hsmall : (b &&& 0x1f).toUInt64 ≤ 23 := by
            rw [UInt64.le_iff_toNat_le, UInt8.toNat_toUInt64]
            exact UInt8.le_iff_toNat_le.mp hinfo
          have hback : (b &&& 0x1f).toUInt64.toUInt8 = b &&& 0x1f := by simp
          simp only [pushHead, if_pos hsmall, hback, hparts, List.cons_append, List.nil_append]
        · obtain ⟨rfl, hlow, hhigh⟩ := longArgument_eq_ok (by decide) harg
          rw [h₁ hlow hhigh, ← h24, hparts, List.cons_append]
        · obtain ⟨rfl, hlow, hhigh⟩ := longArgument_eq_ok (by decide) harg
          rw [h₂ hlow hhigh, ← h25, hparts, List.cons_append]
        · obtain ⟨rfl, hlow, hhigh⟩ := longArgument_eq_ok (by decide) harg
          rw [h₄ hlow hhigh, ← h26, hparts, List.cons_append]
        · obtain ⟨rfl, hlow, hhigh⟩ := longArgument_eq_ok (by decide) harg
          rw [h8 hlow, ← h27, hparts, List.cons_append]

end Cbor
end StowQ
