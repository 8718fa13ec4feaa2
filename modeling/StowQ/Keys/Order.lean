import StowQ.Data.Utf8Order
import StowQ.Keys

/-!
# The order of keys

A store lists keys by their bytes.  Fields have fixed widths and are written big-endian, so the texts of two
keys of one kind compare as their fields do (`bytewise_fmt`); characters compare like their UTF-8 bytes, which
is why the order of texts can be used throughout.  Listings of claims therefore end with the highest generation,
and listings of index entries ascend by bucket, which the tail discovery and the sweeps rely on:
`key_order_numeric`.
-/

namespace StowQ
namespace Keys

open Data

/-- Dead entries come before receipts. -/
def TermKind.rank : TermKind → Nat
  | dead => 0
  | receipt => 1

/-- The fields of a key as numbers, in key order. -/
def Key.fields : Key → List Nat
  | .job shard jobId | .receipt shard jobId | .dead shard jobId | .tail shard jobId =>
    [shard.toNat, fromBe jobId.toList]
  | .payload jobId digest => [fromBe jobId.toList, fromBe digest.toList]
  | .claim shard jobId generation | .fail shard jobId generation =>
    [shard.toNat, fromBe jobId.toList, generation.toNat]
  | .leaseIndex bucket shard jobId generation =>
    [bucket.toNat, shard.toNat, fromBe jobId.toList, generation.toNat]
  | .delayIndex bucket shard jobId => [bucket.toNat, shard.toNat, fromBe jobId.toList]
  | .termIndex bucket kind shard jobId => [bucket.toNat, kind.rank, shard.toNat, fromBe jobId.toList]
  | .quarantine bucket qid => [bucket.toNat, fromBe qid.toList]
  | .beacon nonce => [fromBe nonce.toList]
  | .format | .watermark => []

/-- The bucket an index entry starts with. -/
def Key.bucket? : Key → Option UInt64
  | .leaseIndex bucket .. | .delayIndex bucket .. | .termIndex bucket .. | .quarantine bucket _ => some bucket
  | _ => none

/-! ## Fields -/

lemma charwise_literal (p s t : Str) : charwise (p ++ s) (p ++ t) = charwise s t := by
  rw [charwise, compareLex_append rfl, compareLex_self byCode_self, Ordering.eq_then]
  rfl

lemma charwise_cons (c : Char) (s t : Str) : charwise (c :: s) (c :: t) = charwise s t := charwise_literal [c] s t

lemma charwise_bytes {n : Nat} (a b : ByteArr n) :
    charwise (hex a.toList) (hex b.toList) = compare (fromBe a.toList) (fromBe b.toList) :=
  charwise_hex (by rw [a.toList_length, b.toList_length])

lemma charwise_bytes_append {n : Nat} (a b : ByteArr n) (s t : Str) : charwise (hex a.toList ++ s) (hex b.toList ++ t) =
    (compare (fromBe a.toList) (fromBe b.toList)).then (charwise s t) := by
  rw [charwise, compareLex_append (by simp), ← charwise_bytes]
  rfl

lemma charwise_number {n v w : Nat} (hv : v < 256 ^ n) (hw : w < 256 ^ n) :
    charwise (hex (beBytes n v)) (hex (beBytes n w)) = compare v w := by
  rw [charwise_hex (by simp), fromBe_beBytes_of_lt hv, fromBe_beBytes_of_lt hw]

lemma charwise_number_append {n v w : Nat} (hv : v < 256 ^ n) (hw : w < 256 ^ n) (s t : Str) :
    charwise (hex (beBytes n v) ++ s) (hex (beBytes n w) ++ t) = (compare v w).then (charwise s t) := by
  rw [charwise, compareLex_append (by simp), ← charwise_number hv hw]
  rfl

lemma charwise_hex32 (v w : UInt32) : charwise (hex32 v) (hex32 w) = compare v.toNat w.toNat :=
  charwise_number v.toNat_lt w.toNat_lt

lemma charwise_hex16_append (v w : UInt16) (s t : Str) :
    charwise (hex16 v ++ s) (hex16 w ++ t) = (compare v.toNat w.toNat).then (charwise s t) :=
  charwise_number_append v.toNat_lt w.toNat_lt s t

lemma charwise_hex64_append (v w : UInt64) (s t : Str) :
    charwise (hex64 v ++ s) (hex64 w ++ t) = (compare v.toNat w.toNat).then (charwise s t) :=
  charwise_number_append v.toNat_lt w.toNat_lt s t

lemma charwise_kind_append (k l : TermKind) (s t : Str) :
    charwise ([k.asChar] ++ s) ([l.asChar] ++ t) = (compare k.rank l.rank).then (charwise s t) := by
  cases k <;> cases l <;> rfl

/-! ## Keys -/

/-- Keys of one kind compare as their fields do. -/
lemma bytewise_fmt (k k' : Key) (hkind : k.ctorIdx = k'.ctorIdx) :
    bytewise k.fmt k'.fmt = k.fields.compareLex compare k'.fields := by
  rw [bytewise_eq_charwise]
  cases k with
  | format | watermark => cases k' <;> first
      | (cases hkind; done)
      | exact compareLex_self byCode_self _
  | _ => cases k' <;> first
      | (cases hkind; done)
      | simp only [Key.fmt, Key.fields, charwise_literal, charwise_cons, charwise_bytes, charwise_bytes_append,
          charwise_hex32, charwise_hex16_append, charwise_hex64_append, charwise_kind_append,
          List.compareLex_cons_cons, List.compareLex_nil_nil, Ordering.then_eq]

/-- The claims of one job compare as their generations do. -/
lemma bytewise_claim (shard : UInt16) (jobId : ByteArr 16) (g g' : UInt32) :
    bytewise (Key.claim shard jobId g).fmt (Key.claim shard jobId g').fmt = compare g.toNat g'.toNat := by
  have hself : ∀ n : Nat, compare n n = .eq := fun n => Nat.compare_eq_eq.mpr rfl
  rw [bytewise_fmt (.claim shard jobId g) (.claim shard jobId g') rfl]
  simp only [Key.fields, List.compareLex_cons_cons, List.compareLex_nil_nil, hself, Ordering.eq_then,
    Ordering.then_eq]

lemma bytewise_of_bucket_lt {k k' : Key} {b b' : UInt64} (hkind : k.ctorIdx = k'.ctorIdx) (hb : k.bucket? = some b)
    (hb' : k'.bucket? = some b') (hlt : b' < b) : bytewise k.fmt k'.fmt = .gt := by
  have hcompare : compare b.toNat b'.toNat = .gt := Nat.compare_eq_gt.mpr hlt
  have hfields : ∀ {k : Key} {b : UInt64}, k.bucket? = some b → ∃ rest, k.fields = b.toNat :: rest := by
    intro k b hb
    cases k with
    | leaseIndex _ _ _ _ | delayIndex _ _ _ | termIndex _ _ _ _ | quarantine _ _ =>
      cases hb
      exact ⟨_, rfl⟩
    | _ => cases hb
  obtain ⟨rest, hk⟩ := hfields hb
  obtain ⟨rest', hk'⟩ := hfields hb'
  rw [bytewise_fmt k k' hkind, hk, hk', List.compareLex_cons_cons, hcompare]
  rfl

/-- **Key order is numeric order**: keys of one kind compare bytewise as their fields do.  So the
greatest claim key of a job is the one with the highest generation, and index entries ascend by bucket. -/
theorem key_order_numeric :
    (∀ k k' : Key, k.ctorIdx = k'.ctorIdx → bytewise k.fmt k'.fmt = k.fields.compareLex compare k'.fields) ∧
    (∀ (shard : UInt16) (jobId : ByteArr 16) (gens : Set UInt32), ∀ g ∈ gens,
      (∀ g' ∈ gens, bytewise (Key.claim shard jobId g').fmt (Key.claim shard jobId g).fmt ≠ .gt) ↔
        ∀ g' ∈ gens, g' ≤ g) ∧
    ∀ (k k' : Key) (b b' : UInt64), k.ctorIdx = k'.ctorIdx → k.bucket? = some b → k'.bucket? = some b' →
      bytewise k.fmt k'.fmt ≠ .gt → b ≤ b' := by
  refine ⟨bytewise_fmt, fun shard jobId gens g _ => ?_, fun k k' b b' hkind hb hb' hle => ?_⟩
  · simp only [bytewise_claim, ne_eq, Nat.compare_eq_gt, Nat.not_lt, UInt32.le_iff_toNat_le]
  · apply UInt64.not_lt.mp
    exact fun hlt => hle (bytewise_of_bucket_lt hkind hb hb' hlt)

/-- Generation 9 comes before generation 16. -/
theorem key_order_numeric_claim : bytewise (Key.claim 0 (List.Vector.replicate 16 0) 9).fmt
    (Key.claim 0 (List.Vector.replicate 16 0) 16).fmt = .lt :=
  (key_order_numeric.1 (.claim 0 _ 9) (.claim 0 _ 16) rfl).trans (by decide)

end Keys
end StowQ
