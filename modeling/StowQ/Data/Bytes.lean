import Mathlib.Data.Vector.Basic
import Mathlib.Tactic.Ring

/-!
# Bytes, text and hexadecimal

Byte strings, fixed-width byte arrays, text as a list of characters with its UTF-8 encoding, big-endian numbers
and hexadecimal.  Keys are text and records are bytes, so both the key grammar and the codecs rest on this file.

* `fromBe_beBytes` and `beBytes_fromBe`: big-endian bytes and numbers below `256 ^ n` are in bijection.
* `hexDecode_hex` and `eq_hex_of_hexDecode`: the strict reader of lowercase hexadecimal accepts what the writer
  writes and nothing else.
* `hex_lt_hex`: hexadecimal text of one length sorts like the numbers it stands for.
* `fromStrRadix_hex`: the lenient reader of the standard library, which also takes capitals and a plus sign, agrees
  on what the writer writes.
* `fromUtf8_utf8`: UTF-8 text reads back.
-/

namespace StowQ
namespace Data

/-- A byte string. -/
abbrev Bytes := List UInt8

/-- A byte array of fixed width. -/
abbrev ByteArr (n : Nat) := List.Vector UInt8 n

/-- Text, as the list of its characters. -/
abbrev Str := List Char

/-! ## UTF-8 -/

/-- The UTF-8 bytes of a text. -/
def utf8 (s : Str) : Bytes :=
  s.flatMap String.utf8EncodeChar

/-- Strict UTF-8 decoding. -/
def fromUtf8 (b : Bytes) : Option Str :=
  b.toByteArray.utf8Decode?.map Array.toList

@[simp] lemma fromUtf8_utf8 (s : Str) : fromUtf8 (utf8 s) = some s := by
  have h : (utf8 s).toByteArray.utf8Decode? = some s.toArray := List.utf8Decode?_utf8Encode
  simp [fromUtf8, h]

/-- Whatever decodes is the encoding of what it decodes to. -/
lemma utf8_of_fromUtf8 {b : Bytes} {s : Str} (h : fromUtf8 b = some s) : utf8 s = b := by
  unfold fromUtf8 at h
  obtain ⟨chars, hdec, rfl⟩ := Option.map_eq_some_iff.mp h
  have hsome : b.toByteArray.utf8Decode?.isSome := by
    rw [hdec]
    rfl
  have hback : (b.toByteArray.utf8Decode?.get hsome).toList.utf8Encode = b.toByteArray :=
    ByteArray.utf8Encode_get_utf8Decode?
  simp only [hdec, Option.get_some] at hback
  exact List.toByteArray_inj.mp hback

lemma utf8_injective : Function.Injective utf8 := by
  intro s t h
  have hs := fromUtf8_utf8 s
  rw [h, fromUtf8_utf8 t] at hs
  exact (Option.some.inj hs).symm

@[simp] lemma utf8_nil : utf8 [] = [] := rfl

lemma utf8_append (s t : Str) : utf8 (s ++ t) = utf8 s ++ utf8 t := by
  simp [utf8]

lemma utf8_length_le (s : Str) : (utf8 s).length ≤ 4 * s.length := by
  induction s with
  | nil => simp
  | cons c s ih =>
    have hc := c.utf8Size_le_four
    simp only [utf8, List.flatMap_cons, List.length_append, List.length_cons, String.length_utf8EncodeChar] at ih ⊢
    omega

/-! ## Big-endian numbers -/

/-- The `n` big-endian bytes of `v`. -/
def beBytes : Nat → Nat → Bytes
  | 0, _ => []
  | n + 1, v => UInt8.ofNat (v / 256 ^ n) :: beBytes n v

/-- The number a big-endian byte string stands for. -/
def fromBe (b : Bytes) : Nat :=
  b.foldl (fun acc x => acc * 256 + x.toNat) 0

@[simp] lemma beBytes_length (n v : Nat) : (beBytes n v).length = n := by
  induction n with
  | zero => rfl
  | succ n ih => simp [beBytes, ih]

lemma foldl_be (b : Bytes) (acc : Nat) :
    b.foldl (fun acc x => acc * 256 + x.toNat) acc = acc * 256 ^ b.length + fromBe b := by
  induction b generalizing acc with
  | nil => simp [fromBe]
  | cons x b ih =>
    have hhead : fromBe (x :: b) = (0 * 256 + x.toNat) * 256 ^ b.length + fromBe b := ih (0 * 256 + x.toNat)
    rw [List.foldl_cons, ih, hhead, List.length_cons]
    ring

lemma fromBe_cons (x : UInt8) (b : Bytes) : fromBe (x :: b) = x.toNat * 256 ^ b.length + fromBe b := by
  have h := foldl_be b (0 * 256 + x.toNat)
  simpa [fromBe] using h

lemma fromBe_lt (b : Bytes) : fromBe b < 256 ^ b.length := by
  induction b with
  | nil => simp [fromBe]
  | cons x b ih =>
    rw [fromBe_cons, List.length_cons, pow_succ]
    have hx : x.toNat + 1 ≤ 256 := x.toNat_lt
    have hmul := Nat.mul_le_mul_right (256 ^ b.length) hx
    rw [Nat.add_mul, one_mul, Nat.mul_comm 256] at hmul
    omega

lemma fromBe_beBytes (n v : Nat) : fromBe (beBytes n v) = v % 256 ^ n := by
  induction n with
  | zero => simp [beBytes, fromBe, Nat.mod_one]
  | succ n ih =>
    have hbyte : (UInt8.ofNat (v / 256 ^ n)).toNat = v / 256 ^ n % 256 := rfl
    rw [beBytes, fromBe_cons, beBytes_length, ih, hbyte, pow_succ, Nat.mod_mul, Nat.mul_comm, Nat.add_comm]

lemma fromBe_beBytes_of_lt {n v : Nat} (h : v < 256 ^ n) : fromBe (beBytes n v) = v := by
  rw [fromBe_beBytes, Nat.mod_eq_of_lt h]

lemma beBytes_add_mul (n v k : Nat) : beBytes n (k * 256 ^ n + v) = beBytes n v := by
  induction n generalizing k with
  | zero => rfl
  | succ n ih =>
    have hsplit : k * 256 ^ (n + 1) + v = v + 256 ^ n * (k * 256) := by ring
    have hdiv : (k * 256 ^ (n + 1) + v) / 256 ^ n = v / 256 ^ n + k * 256 := by
      rw [hsplit, Nat.add_mul_div_left _ _ (Nat.pow_pos (by decide))]
    have hbyte : UInt8.ofNat (v / 256 ^ n + k * 256) = UInt8.ofNat (v / 256 ^ n) := by
      apply UInt8.toNat_inj.mp
      show (v / 256 ^ n + k * 256) % 256 = v / 256 ^ n % 256
      omega
    have hrest : k * 256 ^ (n + 1) + v = (k * 256) * 256 ^ n + v := by ring
    rw [beBytes, beBytes, hdiv, hbyte, hrest, ih]

lemma beBytes_fromBe (b : Bytes) : beBytes b.length (fromBe b) = b := by
  induction b with
  | nil => rfl
  | cons x b ih =>
    have hlt := fromBe_lt b
    have hdiv : (x.toNat * 256 ^ b.length + fromBe b) / 256 ^ b.length = x.toNat := by
      rw [Nat.mul_comm, Nat.mul_add_div (Nat.pow_pos (by decide)), Nat.div_eq_of_lt hlt, Nat.add_zero]
    rw [List.length_cons, beBytes, fromBe_cons, hdiv, beBytes_add_mul, ih, UInt8.ofNat_toNat]

/-! ## Hexadecimal -/

/-- The sixteen lowercase digits. -/
def hexDigits : List Char :=
  ['0', '1', '2', '3', '4', '5', '6', '7', '8', '9', 'a', 'b', 'c', 'd', 'e', 'f']

/-- The digit of a value below sixteen. -/
def hexDigit (n : UInt8) : Char :=
  hexDigits.getD n.toNat '0'

/-- Lowercase hexadecimal, two digits a byte. -/
def hex (b : Bytes) : Str :=
  b.flatMap fun (x : UInt8) => [hexDigit (x >>> 4), hexDigit (x &&& 0xf)]

lemma hexDigit_lt {m n : UInt8} (hn : n.toNat < 16) (h : m.toNat < n.toNat) : hexDigit m < hexDigit n := by
  have hall : ∀ i j : Fin 16, i < j → hexDigits.getD i.1 '0' < hexDigits.getD j.1 '0' := by decide
  exact hall ⟨m.toNat, h.trans hn⟩ ⟨n.toNat, hn⟩ h

/-- Hexadecimal text sorts like the numbers it stands for. -/
lemma hex_lt_hex {a b : Bytes} (hlen : a.length = b.length) (h : fromBe a < fromBe b) : hex a < hex b := by
  induction a generalizing b with
  | nil =>
    rw [List.length_nil, eq_comm, List.length_eq_zero_iff] at hlen
    subst hlen
    exact absurd h (lt_irrefl _)
  | cons x a ih =>
    cases b with
    | nil => cases hlen
    | cons y b =>
      rw [List.length_cons, List.length_cons, Nat.add_right_cancel_iff] at hlen
      rw [fromBe_cons, fromBe_cons, hlen] at h
      have ha := fromBe_lt a
      have hb := fromBe_lt b
      rw [hlen] at ha
      show hexDigit (x >>> 4) :: hexDigit (x &&& 0xf) :: hex a < hexDigit (y >>> 4) :: hexDigit (y &&& 0xf) :: hex b
      have hhigh : ∀ z : UInt8, (z >>> 4).toNat = z.toNat / 16 := fun z => by
        rw [UInt8.toNat_shiftRight]
        simp [Nat.shiftRight_eq_div_pow]
      have hlow : ∀ z : UInt8, (z &&& 0xf).toNat = z.toNat % 16 := fun z => by
        rw [UInt8.toNat_and]
        exact Nat.and_two_pow_sub_one_eq_mod _ 4
      have hy := y.toNat_lt
      rw [List.cons_lt_cons_iff, List.cons_lt_cons_iff]
      rcases Nat.lt_trichotomy x.toNat y.toNat with hlt | heq | hgt
      · by_cases hdiv : x.toNat / 16 = y.toNat / 16
        · refine .inr ⟨?_, .inl (hexDigit_lt (by rw [hlow]; omega) (by rw [hlow, hlow]; omega))⟩
          rw [show x >>> 4 = y >>> 4 from UInt8.toNat_inj.mp (by rw [hhigh, hhigh, hdiv])]
        · exact .inl (hexDigit_lt (by rw [hhigh]; omega) (by rw [hhigh, hhigh]; omega))
      · obtain rfl := UInt8.toNat_inj.mp heq
        exact .inr ⟨rfl, .inr ⟨rfl, ih hlen (by omega)⟩⟩
      · have hle : (y.toNat + 1) * 256 ^ b.length ≤ x.toNat * 256 ^ b.length := Nat.mul_le_mul_right _ hgt
        rw [Nat.add_mul] at hle
        omega

/-- The value of a lowercase digit. -/
def fromHexDigitLower (b : UInt8) : Option UInt8 :=
  if 48 ≤ b ∧ b ≤ 57 then some (b - 48)
  else if 97 ≤ b ∧ b ≤ 102 then some (b - 97 + 10)
  else none

/-- Read lowercase digits in pairs. -/
def hexPairs : Bytes → Option Bytes
  | [] => some []
  | [_] => none
  | a :: b :: rest => do
    let hi ← fromHexDigitLower a
    let lo ← fromHexDigitLower b
    let tail ← hexPairs rest
    some ((hi <<< 4 ||| lo) :: tail)

/-- Strict fixed-width reader: exactly `2 * n` lowercase digits. -/
def hexDecode (n : Nat) (s : Str) : Option (ByteArr n) := do
  let out ← hexPairs (utf8 s)
  if h : out.length = n then some ⟨out, h⟩ else none

/-- The value of a digit of either case. -/
def hexValue (c : Char) : Option Nat :=
  if '0' ≤ c ∧ c ≤ '9' then some (c.toNat - 48)
  else if 'a' ≤ c ∧ c ≤ 'f' then some (c.toNat - 87)
  else if 'A' ≤ c ∧ c ≤ 'F' then some (c.toNat - 55)
  else none

/-- One digit of `fromStrRadix`. -/
def pushDigit (bound acc : Nat) (c : Char) : Option Nat := do
  let d ← hexValue c
  if acc * 16 + d < bound then some (acc * 16 + d) else none

/-- Drop one leading plus sign. -/
def stripPlus : Str → Str
  | [] => []
  | c :: rest => if c = '+' then rest else c :: rest

/-- `from_str_radix(s, 16)` of an unsigned type with values below `bound`: digits of
either case, with an optional plus sign. -/
def fromStrRadix (bound : Nat) (s : Str) : Option Nat :=
  if (stripPlus s).isEmpty then none else (stripPlus s).foldlM (pushDigit bound) 0

lemma forall_byte {P : UInt8 → Prop} (h : ∀ n : Fin 256, P (UInt8.ofFin n)) (b : UInt8) : P b := by
  have hb := h b.toFin
  rwa [UInt8.ofFin_toFin] at hb

/-- The two digits of one byte are two ASCII bytes that read back as it. -/
lemma hexPair_byte : ∀ b : UInt8, (utf8 [hexDigit (b >>> 4), hexDigit (b &&& 0xf)]).length = 2 ∧
    hexPairs (utf8 [hexDigit (b >>> 4), hexDigit (b &&& 0xf)]) = some [b] := by
  apply forall_byte
  decide +kernel

lemma hexPairs_append {x y c : UInt8} (h : hexPairs [x, y] = some [c]) (rest : Bytes) :
    hexPairs (x :: y :: rest) = (hexPairs rest).map (c :: ·) := by
  cases hx : fromHexDigitLower x with
  | none => simp [hexPairs, hx] at h
  | some hi =>
    cases hy : fromHexDigitLower y with
    | none => simp [hexPairs, hx, hy] at h
    | some lo =>
      simp only [hexPairs, hx, hy, Option.bind_eq_bind, Option.bind_some, Option.some.injEq,
        List.cons.injEq, and_true] at h
      subst h
      cases hr : hexPairs rest <;> simp [hexPairs, hx, hy, hr]

lemma hexPairs_hex (b : Bytes) : hexPairs (utf8 (hex b)) = some b := by
  induction b with
  | nil => rfl
  | cons x b ih =>
    obtain ⟨hlen, hpair⟩ := hexPair_byte x
    obtain ⟨u, v, huv⟩ := List.length_eq_two.mp hlen
    have hsplit : utf8 (hex (x :: b)) = u :: v :: utf8 (hex b) := by
      show utf8 ([hexDigit (x >>> 4), hexDigit (x &&& 0xf)] ++ hex b) = _
      rw [utf8_append, huv]
      rfl
    rw [huv] at hpair
    rw [hsplit, hexPairs_append hpair, ih]
    rfl

@[simp] lemma hexDecode_hex {n : Nat} (b : ByteArr n) : hexDecode n (hex b.toList) = some b := by
  have hlen : b.toList.length = n := b.toList_length
  simp only [hexDecode, hexPairs_hex, Option.bind_eq_bind, Option.bind_some, hlen, dif_pos]
  rfl

/-- A digit the strict reader accepts is the one the writer would have written. -/
lemma fromHexDigitLower_eq_some {b v : UInt8} (h : fromHexDigitLower b = some v) :
    [b] = utf8 [hexDigit v] ∧ v < 16 := by
  have hall : ∀ b : UInt8, (fromHexDigitLower b).all (fun v => [b] = utf8 [hexDigit v] ∧ v < 16) = true := by
    apply forall_byte
    decide +kernel
  exact of_decide_eq_true ((Option.all_eq_true _ _).mp (hall b) v h)

lemma nibbles {hi lo : UInt8} (hhi : hi < 16) (hlo : lo < 16) :
    (hi <<< 4 ||| lo) >>> 4 = hi ∧ (hi <<< 4 ||| lo) &&& 0xf = lo := by
  have hall : ∀ a b : Fin 16, (UInt8.ofNat a <<< 4 ||| UInt8.ofNat b) >>> 4 = UInt8.ofNat a ∧
      (UInt8.ofNat a <<< 4 ||| UInt8.ofNat b) &&& 0xf = UInt8.ofNat b := by decide +kernel
  have h := hall ⟨hi.toNat, hhi⟩ ⟨lo.toNat, hlo⟩
  simpa using h

lemma eq_utf8_hex_of_hexPairs {bs out : Bytes} (h : hexPairs bs = some out) : bs = utf8 (hex out) := by
  induction bs using hexPairs.induct generalizing out with
  | case1 =>
    cases h
    rfl
  | case2 x => cases h
  | case3 x y rest ih =>
    simp only [hexPairs, Option.bind_eq_bind, Option.bind_eq_some_iff] at h
    obtain ⟨hi, hhi, lo, hlo, tail, htail, hout⟩ := h
    cases hout
    obtain ⟨hx, hhi16⟩ := fromHexDigitLower_eq_some hhi
    obtain ⟨hy, hlo16⟩ := fromHexDigitLower_eq_some hlo
    obtain ⟨h4, hf⟩ := nibbles hhi16 hlo16
    show x :: y :: rest = utf8 ([hexDigit ((hi <<< 4 ||| lo) >>> 4)] ++
      ([hexDigit ((hi <<< 4 ||| lo) &&& 0xf)] ++ hex tail))
    rw [h4, hf, utf8_append, utf8_append, ← hx, ← hy, ← ih htail]
    rfl

/-- The strict reader accepts what the writer writes and nothing else. -/
lemma eq_hex_of_hexDecode {n : Nat} {t : Str} {b : ByteArr n} (h : hexDecode n t = some b) :
    t = hex b.toList := by
  simp only [hexDecode, Option.bind_eq_bind, Option.bind_eq_some_iff] at h
  obtain ⟨out, hout, hb⟩ := h
  split at hb
  · cases hb
    exact utf8_injective (eq_utf8_hex_of_hexPairs hout)
  · cases hb

@[simp] lemma hex_length (b : Bytes) : (hex b).length = 2 * b.length := by
  induction b with
  | nil => rfl
  | cons x b ih =>
    show ([hexDigit (x >>> 4), hexDigit (x &&& 0xf)] ++ hex b).length = _
    rw [List.length_append, ih]
    simp only [List.length_cons, List.length_nil]
    omega

lemma hexDigit_mem (n : UInt8) : hexDigit n ∈ hexDigits := by
  unfold hexDigit
  rw [List.getD_eq_getElem?_getD]
  cases h : hexDigits[n.toNat]? with
  | none => decide
  | some c => exact List.mem_of_getElem? h

lemma mem_hexDigits_of_mem_hex {c : Char} {b : Bytes} (h : c ∈ hex b) : c ∈ hexDigits := by
  obtain ⟨x, -, hx⟩ := List.mem_flatMap.mp h
  rcases List.mem_cons.mp hx with rfl | hx
  · exact hexDigit_mem _
  · rw [List.mem_singleton.mp hx]
    exact hexDigit_mem _

lemma not_mem_hex {c : Char} (hc : c ∉ hexDigits) (b : Bytes) : c ∉ hex b :=
  fun h => hc (mem_hexDigits_of_mem_hex h)

/-- The two digits of one byte, pushed onto an accumulator. -/
lemma pushDigit_byte (bound acc : Nat) (x : UInt8) (h : acc * 256 + x.toNat < bound) :
    (pushDigit bound acc (hexDigit (x >>> 4))).bind
      (fun a => pushDigit bound a (hexDigit (x &&& 0xf))) = some (acc * 256 + x.toNat) := by
  have hdigits : ∀ x : UInt8, hexValue (hexDigit (x >>> 4)) = some (x.toNat / 16) ∧
      hexValue (hexDigit (x &&& 0xf)) = some (x.toNat % 16) := by
    apply forall_byte
    decide +kernel
  have hhi : acc * 16 + x.toNat / 16 < bound := by omega
  have hlo : (acc * 16 + x.toNat / 16) * 16 + x.toNat % 16 = acc * 256 + x.toNat := by omega
  simp [pushDigit, hdigits x, hhi, hlo, h]

lemma foldlM_pushDigit_hex (bound : Nat) (b : Bytes) (acc : Nat)
    (h : acc * 256 ^ b.length + fromBe b < bound) :
    (hex b).foldlM (pushDigit bound) acc = some (acc * 256 ^ b.length + fromBe b) := by
  induction b generalizing acc with
  | nil => simp [hex, fromBe]
  | cons x b ih =>
    rw [List.length_cons, fromBe_cons] at h ⊢
    have hpow : 256 ^ (b.length + 1) = 256 * 256 ^ b.length := by rw [Nat.pow_succ, Nat.mul_comm]
    have hval : acc * 256 ^ (b.length + 1) + (x.toNat * 256 ^ b.length + fromBe b) =
        (acc * 256 + x.toNat) * 256 ^ b.length + fromBe b := by
      rw [hpow]
      ring
    rw [hval] at h ⊢
    have hbyte : acc * 256 + x.toNat < bound := by
      have hle : acc * 256 + x.toNat ≤ (acc * 256 + x.toNat) * 256 ^ b.length :=
        Nat.le_mul_of_pos_right _ (Nat.pow_pos (by decide))
      omega
    show List.foldlM (pushDigit bound) acc
      (hexDigit (x >>> 4) :: hexDigit (x &&& 0xf) :: hex b) = _
    rw [List.foldlM_cons, Option.bind_eq_bind]
    have hpush := pushDigit_byte bound acc x hbyte
    cases hfirst : pushDigit bound acc (hexDigit (x >>> 4)) with
    | none => simp [hfirst] at hpush
    | some a =>
      rw [hfirst, Option.bind_some] at hpush
      rw [Option.bind_some, List.foldlM_cons, hpush]
      exact ih _ h

lemma fromStrRadix_hex {bound : Nat} {b : Bytes} (hne : b ≠ []) (h : fromBe b < bound) :
    fromStrRadix bound (hex b) = some (fromBe b) := by
  have hfold := foldlM_pushDigit_hex bound b 0 (by simpa using h)
  cases hhex : hex b with
  | nil =>
    have hlen := hex_length b
    rw [hhex] at hlen
    simp only [List.length_nil] at hlen
    exact absurd (List.length_eq_zero_iff.mp (by omega)) hne
  | cons c rest =>
    have hplus : c ≠ '+' := by
      rintro rfl
      exact not_mem_hex (by decide) b (hhex ▸ List.mem_cons_self)
    rw [hhex] at hfold
    simpa [fromStrRadix, stripPlus, hplus] using hfold

lemma hex_injective : Function.Injective hex := by
  intro a b h
  have ha := hexPairs_hex a
  rw [h, hexPairs_hex b] at ha
  exact (Option.some.inj ha).symm

end Data
end StowQ
