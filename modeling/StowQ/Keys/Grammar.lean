import Mathlib.Computability.Language
import StowQ.Keys

/-!
# The key grammar

The rules of `spec/keys.abnf` as languages: alternatives are sums, concatenations are
products, and a repetition is a power.  Quoted literals stand for the exact text shown.

`mem_key` compares the grammar with the writer: its words are the texts of keys.  With the
two halves of the round trip this gives `grammar_exact`: `parse` accepts the language of the
grammar and nothing else.
-/

namespace StowQ
namespace Keys
namespace Grammar

open Data

variable {s : Str} {n : Nat}

/-! ## Forms of rules -/

/-- A quoted literal. -/
def literal (text : String) : Language Char := {text.toList}

/-- A range of code points, `%xLO-HI`. -/
def codes (lo hi : Nat) : Language Char := {s | ∃ c : Char, s = [c] ∧ lo ≤ c.toNat ∧ c.toNat ≤ hi}

lemma mem_literal {text : String} : s ∈ literal text ↔ text.toList = s := eq_comm

lemma mem_literal_mul {text : String} {L : Language Char} :
    s ∈ literal text * L ↔ ∃ t ∈ L, text.toList ++ t = s := by
  rw [Language.mem_mul]
  constructor
  · rintro ⟨t, rfl, h⟩
    exact h
  · exact fun h => ⟨_, rfl, h⟩

/-! ## The rules -/

def hex : Language Char := codes 0x30 0x39 + codes 0x61 0x66
def jobId : Language Char := hex ^ 32
def generation : Language Char := hex ^ 8
def digest : Language Char := hex ^ 64
def shard : Language Char := hex ^ 4
def bucket : Language Char := hex ^ 16
def nonce : Language Char := hex ^ 32
def qid : Language Char := hex ^ 32
def kind : Language Char := codes 0x72 0x72 + codes 0x64 0x64

def jobKey : Language Char := literal "jobs/" * shard * literal "/" * jobId
def payloadKey : Language Char := literal "payloads/" * jobId * literal "/" * digest
def claimKey : Language Char := literal "claims/" * shard * literal "/" * jobId * literal "/" * generation
def failKey : Language Char := literal "fails/" * shard * literal "/" * jobId * literal "/" * generation
def leaseIndex : Language Char :=
  literal "leases/" * bucket * literal "/" * shard * literal "/" * jobId * literal "." * generation
def delayIndex : Language Char := literal "delayed/" * bucket * literal "/" * shard * literal "/" * jobId
def receiptKey : Language Char := literal "receipts/" * shard * literal "/" * jobId
def deadKey : Language Char := literal "dead/" * shard * literal "/" * jobId
def termidxKey : Language Char :=
  literal "termidx/" * bucket * literal "/" * kind * literal "/" * shard * literal "/" * jobId
def tailKey : Language Char := literal "tails/" * shard * literal "/" * jobId
def qkey : Language Char := literal "quarantine/" * bucket * literal "/" * qid
def beaconKey : Language Char := literal "meta/clock/" * nonce
def formatKey : Language Char := literal "meta/FORMAT"
def watermarkKey : Language Char := literal "meta/watermark"

/-- The keys of the grammar. -/
def key : Language Char :=
  jobKey + payloadKey + claimKey + failKey + leaseIndex + delayIndex + receiptKey + deadKey +
    termidxKey + tailKey + qkey + beaconKey + formatKey + watermarkKey

/-! ## Fields -/

lemma mem_hex : s ∈ hex ↔ ∃ c ∈ hexDigits, s = [c] := by
  have hcodes : ∀ n : Fin 128, (0x30 ≤ n.1 ∧ n.1 ≤ 0x39) ∨ (0x61 ≤ n.1 ∧ n.1 ≤ 0x66) →
      Char.ofNat n ∈ hexDigits := by decide +kernel
  have hdigits : ∀ c ∈ hexDigits, (0x30 ≤ c.toNat ∧ c.toNat ≤ 0x39) ∨ (0x61 ≤ c.toNat ∧ c.toNat ≤ 0x66) := by
    simp [hexDigits]
  constructor
  · rintro (⟨c, rfl, hlo, hhi⟩ | ⟨c, rfl, hlo, hhi⟩)
    · have hmem := hcodes ⟨c.toNat, by omega⟩ (.inl ⟨hlo, hhi⟩)
      rw [Char.ofNat_toNat] at hmem
      exact ⟨c, hmem, rfl⟩
    · have hmem := hcodes ⟨c.toNat, by omega⟩ (.inr ⟨hlo, hhi⟩)
      rw [Char.ofNat_toNat] at hmem
      exact ⟨c, hmem, rfl⟩
  · rintro ⟨c, hc, rfl⟩
    obtain h | h := hdigits c hc
    · exact .inl ⟨c, rfl, h⟩
    · exact .inr ⟨c, rfl, h⟩

lemma mem_hex_pow : s ∈ hex ^ n ↔ s.length = n ∧ ∀ c ∈ s, c ∈ hexDigits := by
  induction n generalizing s with
  | zero =>
    rw [pow_zero, Language.mem_one, List.length_eq_zero_iff]
    constructor
    · rintro rfl
      simp
    · exact fun h => h.1
  | succ n ih =>
    rw [pow_succ', Language.mem_mul]
    constructor
    · rintro ⟨t, ht, rest, hrest, rfl⟩
      obtain ⟨c, hc, rfl⟩ := mem_hex.mp ht
      obtain ⟨hlen, hall⟩ := ih.mp hrest
      simpa [hlen, hc] using hall
    · rintro ⟨hlen, hall⟩
      obtain ⟨c, rest, rfl⟩ := List.exists_cons_of_length_eq_add_one hlen
      refine ⟨[c], mem_hex.mpr ⟨c, hall c List.mem_cons_self, rfl⟩, rest, ih.mpr ⟨Nat.succ.inj hlen, ?_⟩, rfl⟩
      exact fun d hd => hall d (List.mem_cons_of_mem c hd)

lemma exists_hex (hlen : s.length = 2 * n) (hall : ∀ c ∈ s, c ∈ hexDigits) :
    ∃ b : ByteArr n, Data.hex b.toList = s := by
  have hdigit : ∀ c ∈ hexDigits, ∃ v : Fin 16, hexDigit (UInt8.ofNat v) = c := by
    simp only [hexDigits, List.forall_mem_cons, List.not_mem_nil, IsEmpty.forall_iff, implies_true, and_true]
    decide
  induction n generalizing s with
  | zero =>
    obtain rfl := List.length_eq_zero_iff.mp hlen
    exact ⟨List.Vector.nil, rfl⟩
  | succ n ih =>
    obtain ⟨c, s, rfl⟩ := List.exists_cons_of_length_eq_add_one hlen
    obtain ⟨d, s, rfl⟩ := List.exists_cons_of_length_eq_add_one (Nat.succ.inj hlen)
    obtain ⟨hi, hc⟩ := hdigit c (hall c (by simp))
    obtain ⟨lo, hd⟩ := hdigit d (hall d (by simp))
    obtain ⟨b, hb⟩ := ih (s := s) (by simp at hlen; omega) fun e he => hall e (by simp [he])
    have hnibble : ∀ v : Fin 16, UInt8.ofNat v < 16 := by decide
    obtain ⟨hhigh, hlow⟩ := nibbles (hnibble hi) (hnibble lo)
    refine ⟨(UInt8.ofNat hi <<< 4 ||| UInt8.ofNat lo) ::ᵥ b, ?_⟩
    rw [List.Vector.toList_cons]
    show hexDigit _ :: hexDigit _ :: Data.hex b.toList = c :: d :: s
    rw [hhigh, hlow, hc, hd, hb]

lemma mem_bytes : s ∈ hex ^ (2 * n) ↔ ∃ b : ByteArr n, Data.hex b.toList = s := by
  rw [mem_hex_pow]
  constructor
  · exact fun h => exists_hex h.1 h.2
  · rintro ⟨b, rfl⟩
    exact ⟨by simp, fun c hc => mem_hexDigits_of_mem_hex hc⟩

lemma mem_jobId : s ∈ jobId ↔ ∃ b : ByteArr 16, Data.hex b.toList = s := mem_bytes (n := 16)

lemma mem_digest : s ∈ digest ↔ ∃ b : ByteArr 32, Data.hex b.toList = s := mem_bytes (n := 32)

lemma mem_nonce : s ∈ nonce ↔ ∃ b : ByteArr 16, Data.hex b.toList = s := mem_jobId

lemma mem_qid : s ∈ qid ↔ ∃ b : ByteArr 16, Data.hex b.toList = s := mem_jobId

/-- The text of a number is that of its bytes, and the other way round. -/
lemma mem_number {α : Type} {write : α → Str} {read : Str → Option α}
    (hread : ∀ b : ByteArr n, ∃ v, read (Data.hex b.toList) = some v)
    (hback : ∀ t v, read t = some v → t = write v) (hwrite : ∀ v, ∃ b : ByteArr n, write v = Data.hex b.toList) :
    s ∈ hex ^ (2 * n) ↔ ∃ v, write v = s := by
  rw [mem_bytes]
  constructor
  · rintro ⟨b, rfl⟩
    obtain ⟨v, hv⟩ := hread b
    exact ⟨v, (hback _ v hv).symm⟩
  · rintro ⟨v, rfl⟩
    obtain ⟨b, hb⟩ := hwrite v
    exact ⟨b, hb.symm⟩

lemma mem_shard : s ∈ shard ↔ ∃ v : UInt16, hex16 v = s :=
  mem_number (n := 2) (fun b => ⟨_, congrArg (Option.map _) (hexDecode_hex b)⟩) (fun _ _ => eq_hex16)
    fun v => ⟨⟨beBytes 2 v.toNat, beBytes_length _ _⟩, rfl⟩

lemma mem_generation : s ∈ generation ↔ ∃ v : UInt32, hex32 v = s :=
  mem_number (n := 4) (fun b => ⟨_, congrArg (Option.map _) (hexDecode_hex b)⟩) (fun _ _ => eq_hex32)
    fun v => ⟨⟨beBytes 4 v.toNat, beBytes_length _ _⟩, rfl⟩

lemma mem_bucket : s ∈ bucket ↔ ∃ v : UInt64, hex64 v = s :=
  mem_number (n := 8) (fun b => ⟨_, congrArg (Option.map _) (hexDecode_hex b)⟩) (fun _ _ => eq_hex64)
    fun v => ⟨⟨beBytes 8 v.toNat, beBytes_length _ _⟩, rfl⟩

lemma mem_kind : s ∈ kind ↔ ∃ k : TermKind, [k.asChar] = s := by
  constructor
  · rintro (⟨c, rfl, hlo, hhi⟩ | ⟨c, rfl, hlo, hhi⟩)
    · exact ⟨.receipt, by rw [← Char.ofNat_toNat c, Nat.le_antisymm hhi hlo]; rfl⟩
    · exact ⟨.dead, by rw [← Char.ofNat_toNat c, Nat.le_antisymm hhi hlo]; rfl⟩
  · rintro ⟨k, rfl⟩
    cases k with
    | receipt => exact .inl ⟨'r', rfl, by decide⟩
    | dead => exact .inr ⟨'d', rfl, by decide⟩

/-! ## Keys -/

lemma mem_field_mul {α : Type} {L M : Language Char} {write : α → Str}
    (hL : ∀ {t : Str}, t ∈ L ↔ ∃ v, write v = t) : s ∈ L * M ↔ ∃ v, ∃ t ∈ M, write v ++ t = s := by
  rw [Language.mem_mul]
  constructor
  · rintro ⟨t, ht, h⟩
    obtain ⟨v, rfl⟩ := hL.mp ht
    exact ⟨v, h⟩
  · rintro ⟨v, h⟩
    exact ⟨_, hL.mpr ⟨v, rfl⟩, h⟩

/-- **The words of the grammar are the texts of keys.** -/
theorem mem_key : s ∈ key ↔ ∃ k : Key, k.fmt = s := by
  -- every rule becomes: there are values of its fields whose texts, put together, are `s`
  simp only [key, jobKey, payloadKey, claimKey, failKey, leaseIndex, delayIndex, receiptKey, deadKey, termidxKey,
    tailKey, qkey, beaconKey, formatKey, watermarkKey, Language.mem_add, or_assoc, mul_assoc, mem_literal,
    mem_literal_mul, mem_field_mul mem_shard, mem_field_mul mem_jobId, mem_field_mul mem_bucket,
    mem_field_mul mem_kind, mem_jobId, mem_generation, mem_digest, mem_nonce, mem_qid, ↓existsAndEq, true_and]
  constructor
  · rintro (⟨shard, jobId, rfl⟩ | ⟨jobId, digest, rfl⟩ | ⟨shard, jobId, generation, rfl⟩ |
      ⟨shard, jobId, generation, rfl⟩ | ⟨bucket, shard, jobId, generation, rfl⟩ | ⟨bucket, shard, jobId, rfl⟩ |
      ⟨shard, jobId, rfl⟩ | ⟨shard, jobId, rfl⟩ | ⟨bucket, kind, shard, jobId, rfl⟩ | ⟨shard, jobId, rfl⟩ |
      ⟨bucket, qid, rfl⟩ | ⟨nonce, rfl⟩ | rfl | rfl)
    · exact ⟨.job shard jobId, rfl⟩
    · exact ⟨.payload jobId digest, rfl⟩
    · exact ⟨.claim shard jobId generation, rfl⟩
    · exact ⟨.fail shard jobId generation, rfl⟩
    · exact ⟨.leaseIndex bucket shard jobId generation, rfl⟩
    · exact ⟨.delayIndex bucket shard jobId, rfl⟩
    · exact ⟨.receipt shard jobId, rfl⟩
    · exact ⟨.dead shard jobId, rfl⟩
    · exact ⟨.termIndex bucket kind shard jobId, rfl⟩
    · exact ⟨.tail shard jobId, rfl⟩
    · exact ⟨.quarantine bucket qid, rfl⟩
    · exact ⟨.beacon nonce, rfl⟩
    · exact ⟨.format, rfl⟩
    · exact ⟨.watermark, rfl⟩
  · rintro ⟨k, rfl⟩
    -- the disjuncts are in the order of the rules
    cases k with
    | job shard jobId => exact .inl ⟨shard, jobId, rfl⟩
    | payload jobId digest => exact .inr (.inl ⟨jobId, digest, rfl⟩)
    | claim shard jobId generation => exact .inr (.inr (.inl ⟨shard, jobId, generation, rfl⟩))
    | fail shard jobId generation => exact .inr (.inr (.inr (.inl ⟨shard, jobId, generation, rfl⟩)))
    | leaseIndex bucket shard jobId generation =>
      exact .inr (.inr (.inr (.inr (.inl ⟨bucket, shard, jobId, generation, rfl⟩))))
    | delayIndex bucket shard jobId =>
      exact .inr (.inr (.inr (.inr (.inr (.inl ⟨bucket, shard, jobId, rfl⟩)))))
    | receipt shard jobId => exact .inr (.inr (.inr (.inr (.inr (.inr (.inl ⟨shard, jobId, rfl⟩))))))
    | dead shard jobId => exact .inr (.inr (.inr (.inr (.inr (.inr (.inr (.inl ⟨shard, jobId, rfl⟩)))))))
    | termIndex bucket kind shard jobId =>
      exact .inr (.inr (.inr (.inr (.inr (.inr (.inr (.inr (.inl ⟨bucket, kind, shard, jobId, rfl⟩))))))))
    | tail shard jobId =>
      exact .inr (.inr (.inr (.inr (.inr (.inr (.inr (.inr (.inr (.inl ⟨shard, jobId, rfl⟩)))))))))
    | quarantine bucket qid =>
      exact .inr (.inr (.inr (.inr (.inr (.inr (.inr (.inr (.inr (.inr (.inl ⟨bucket, qid, rfl⟩))))))))))
    | beacon nonce =>
      exact .inr (.inr (.inr (.inr (.inr (.inr (.inr (.inr (.inr (.inr (.inr (.inl ⟨nonce, rfl⟩)))))))))))
    | format =>
      exact .inr (.inr (.inr (.inr (.inr (.inr (.inr (.inr (.inr (.inr (.inr (.inr (.inl rfl))))))))))))
    | watermark =>
      exact .inr (.inr (.inr (.inr (.inr (.inr (.inr (.inr (.inr (.inr (.inr (.inr (.inr (rfl)))))))))))))

/-- **The key grammar is unambiguous and exact**: every key reads back, only the text of a key reads as
it, and the texts that are read are the words of the grammar. -/
theorem grammar_exact : (∀ k : Key, parse k.fmt = .ok k) ∧ (∀ s k, parse s = .ok k → k.fmt = s) ∧
    ∀ s : Str, (∃ k, parse s = .ok k) ↔ s ∈ key := by
  refine ⟨parse_fmt, fun s k => fmt_of_parse, fun s => ?_⟩
  rw [mem_key]
  constructor
  · rintro ⟨k, hk⟩
    exact ⟨k, fmt_of_parse hk⟩
  · rintro ⟨k, rfl⟩
    exact ⟨k, parse_fmt k⟩

end Grammar
end Keys
end StowQ
