import StowQ.Core.Sweep
import StowQ.Data.Slices
import StowQ.Keys.Grammar
import StowQ.Scenario.Basic

/-!
# Index entries by byte offsets

The sweeps and the garbage collector read the keys of the indexes with parsers of their own,
which slice the job text by byte offsets.  Here they are with the panics that slicing can
end in.  `parseLeaseEntry_accepted` and its siblings say that what they accept is what the
sweeps act on, and `entries_agree_iff` on which keys they agree with the grammar of keys and
do not panic.
-/

namespace StowQ
namespace Core
namespace Entries

open Data Store Format Keys

variable {jobStr rest bucketStr shardStr bucketStr' shardStr' jobStr' : Str} {v : Nat} {c : Char}

/-! ## The job text -/

/-- One round of the loop over the job text: the byte of two digits at an offset. -/
def radixPair (jobStr : Str) (i : Nat) : Verdict UInt8 := do
  let pair ← Verdict.orPanic (slice jobStr (2 * i) (2 * i + 2))
  let b ← Verdict.ofOption (fromStrRadix 256 pair)
  pure (UInt8.ofNat b)

/-- The loop over the job text. -/
def radixJob (jobStr : Str) : Verdict (ByteArr 16) :=
  List.Vector.mOfFn fun i => radixPair jobStr i

/-- After some pairs of digits no character ends two bytes further on. -/
def Straddles (jobStr : Str) : Prop :=
  ∃ front bytes rest, jobStr = front ++ rest ∧ radixBytes front = some bytes ∧ rest ≠ [] ∧
    ∀ a b, rest = a ++ b → (utf8 a).length ≠ 2

lemma radixBytes_pair (a b : Char) (rest : Str) :
    radixBytes (a :: b :: rest) = (radixByte a b).bind fun x => (radixBytes rest).map (x :: ·) := by
  rw [radixBytes]
  cases radixByte a b with
  | none => rfl
  | some x => cases radixBytes rest <;> rfl

lemma radixByte_ascii {a b : Char} {x : UInt8} (h : radixByte a b = some x) :
    a.utf8Size = 1 ∧ b.utf8Size = 1 := by
  obtain ⟨v, hv, -⟩ := Option.map_eq_some_iff.mp h
  have hsize := utf8Size_of_fromStrRadix hv
  exact ⟨hsize a (by simp), hsize b (by simp)⟩

lemma straddles_pair {a b : Char} {x : UInt8} (h : radixByte a b = some x) (rest : Str) :
    Straddles (a :: b :: rest) ↔ Straddles rest := by
  obtain ⟨ha, hb⟩ := radixByte_ascii h
  constructor
  · rintro ⟨front, bytes, back, heq, hread, hne, hback⟩
    obtain _ | ⟨c, _ | ⟨d, front⟩⟩ := front
    · refine absurd ?_ (hback [a, b] rest heq.symm)
      rw [utf8_cons_length, utf8_cons_length, ha, hb]
      rfl
    · cases hread
    · obtain ⟨rfl, rfl, rfl⟩ : a = c ∧ b = d ∧ rest = front ++ back := by simpa using heq
      rw [radixBytes_pair, h, Option.bind_some] at hread
      obtain ⟨bytes', hread', -⟩ := Option.map_eq_some_iff.mp hread
      exact ⟨front, bytes', back, rfl, hread', hne, hback⟩
  · rintro ⟨front, bytes, back, rfl, hread, hne, hback⟩
    refine ⟨a :: b :: front, x :: bytes, back, rfl, ?_, hne, hback⟩
    rw [radixBytes_pair, h, hread]
    rfl

lemma eq_pair {pair : Str} (hlen : (utf8 pair).length = 2) (h : fromStrRadix 256 pair = some v) :
    ∃ a b, pair = [a, b] := by
  rw [utf8_length_of_ascii (utf8Size_of_fromStrRadix h)] at hlen
  exact List.length_eq_two.mp hlen

/-- A text that begins with two digits has them in its first two bytes. -/
lemma radixBytes_eq_none {pair : Str} (rest : Str) (hlen : (utf8 pair).length = 2) (h : fromStrRadix 256 pair = none) :
    radixBytes (pair ++ rest) = none ∧ ¬ Straddles (pair ++ rest) := by
  have hfirst : ∀ a b rest' x, pair ++ rest = a :: b :: rest' → radixByte a b ≠ some x := by
    intro a b rest' x heq hread
    obtain ⟨ha, hb⟩ := radixByte_ascii hread
    have hsplit : splitAtByte 2 (pair ++ rest) = some ([a, b], rest') := by
      refine splitAtByte_eq_some.mpr ⟨heq, ?_⟩
      rw [utf8_cons_length, utf8_cons_length, ha, hb]
      rfl
    rw [splitAtByte_eq_some.mpr ⟨rfl, hlen⟩] at hsplit
    cases hsplit
    rw [radixByte, h] at hread
    cases hread
  constructor
  · generalize htext : pair ++ rest = text
    obtain _ | ⟨a, _ | ⟨b, rest'⟩⟩ := text
    · obtain ⟨rfl, -⟩ := List.append_eq_nil_iff.mp htext
      cases hlen
    · rfl
    · rw [radixBytes_pair]
      cases hread : radixByte a b with
      | none => rfl
      | some x => exact absurd hread (hfirst a b rest' x htext)
  · rintro ⟨front, bytes, back, heq, hread, -, hback⟩
    obtain _ | ⟨a, _ | ⟨b, front⟩⟩ := front
    · exact hback pair rest heq.symm hlen
    · cases hread
    · rw [radixBytes_pair] at hread
      obtain ⟨x, hx, -⟩ := Option.bind_eq_some_iff.mp hread
      exact hfirst a b (front ++ back) x heq hx

lemma radixPair_append {front : Str} {k : Nat} (hfront : (utf8 front).length = 2 * k) (rest : Str) :
    radixPair (front ++ rest) k = Verdict.orPanic ((splitAtByte 2 rest).map Prod.fst) >>= fun pair =>
      Verdict.ofOption (fromStrRadix 256 pair) >>= fun b => pure (UInt8.ofNat b) := by
  rw [radixPair, ← hfront, slice_append]

/-- The loop from a round on: it accepts what reads as pairs, and panics at a character across the edge. -/
lemma radixRounds {n k : Nat} (front : Str) (hfront : (utf8 front).length = 2 * k)
    (hrest : (utf8 rest).length = 2 * n) :
    (∀ v, (List.Vector.mOfFn fun i : Fin n => radixPair (front ++ rest) (k + i)) = .accepted v ↔
      radixBytes rest = some v.toList) ∧
    ((List.Vector.mOfFn fun i : Fin n => radixPair (front ++ rest) (k + i)) = .panicked ↔ Straddles rest) := by
  induction n generalizing k front rest with
  | zero =>
    obtain rfl := utf8_length_eq_zero.mp hrest
    constructor
    · intro v
      rw [v.eq_nil]
      exact ⟨fun _ => rfl, fun _ => rfl⟩
    · constructor
      · exact nofun
      · rintro ⟨_, _, back, heq, -, hne, -⟩
        exact absurd (List.append_eq_nil_iff.mp heq.symm).2 hne
  | succ n ih =>
    have hround : (List.Vector.mOfFn fun i : Fin (n + 1) => radixPair (front ++ rest) (k + i)) =
        radixPair (front ++ rest) k >>= fun x =>
          (List.Vector.mOfFn fun i : Fin n => radixPair (front ++ rest) (k + 1 + i)) >>= fun v => pure (x ::ᵥ v) := by
      rw [List.Vector.mOfFn]
      simp only [Fin.val_zero, Nat.add_zero, Fin.val_succ, Nat.add_assoc, Nat.add_comm 1]
    rw [hround, radixPair_append hfront]
    cases hsplit : splitAtByte 2 rest with
    | none =>
      have hback : ∀ a b, rest = a ++ b → (utf8 a).length ≠ 2 := by
        intro a b heq hlen
        rw [splitAtByte_eq_some.mpr ⟨heq, hlen⟩] at hsplit
        cases hsplit
      have hne : rest ≠ [] := by
        rintro rfl
        cases hrest
      simp only [Option.map_none, Verdict.orPanic_none, Verdict.panicked_bind, reduceCtorEq, false_iff, true_iff]
      refine ⟨fun v hread => ?_, [], [], rest, rfl, rfl, hne, hback⟩
      -- pairs that are read end at every even offset
      obtain _ | ⟨a, _ | ⟨b, rest⟩⟩ := rest
      · exact hne rfl
      · cases hread
      · rw [radixBytes_pair] at hread
        obtain ⟨x, hx, -⟩ := Option.bind_eq_some_iff.mp hread
        obtain ⟨ha, hb⟩ := radixByte_ascii hx
        refine hback [a, b] rest rfl ?_
        rw [utf8_cons_length, utf8_cons_length, ha, hb]
        rfl
    | some p =>
      obtain ⟨pair, back⟩ := p
      obtain ⟨rfl, hlen⟩ := splitAtByte_eq_some.mp hsplit
      simp only [Option.map_some, Verdict.orPanic_some, Verdict.accepted_bind]
      cases hread : fromStrRadix 256 pair with
      | none =>
        obtain ⟨hnone, hno⟩ := radixBytes_eq_none back hlen hread
        simp only [Verdict.ofOption_none, Verdict.rejected_bind, hnone, reduceCtorEq, hno, implies_true, and_self]
      | some x =>
        obtain ⟨a, b, rfl⟩ := eq_pair hlen hread
        have hbyte : radixByte a b = some (UInt8.ofNat x) := by rw [radixByte, hread]; rfl
        have hfront' : (utf8 (front ++ [a, b])).length = 2 * (k + 1) := by
          rw [utf8_append_length, hfront, hlen]
          omega
        rw [utf8_append_length, hlen] at hrest
        obtain ⟨haccepted, hpanicked⟩ := ih _ hfront' (by omega : (utf8 back).length = 2 * n)
        rw [List.append_assoc] at haccepted hpanicked
        simp only [Verdict.ofOption_some, Verdict.accepted_bind, Verdict.pure_eq, Verdict.bind_eq_accepted,
          Verdict.bind_eq_panicked, reduceCtorEq, and_false, exists_false, or_false]
        constructor
        · intro v
          rw [List.cons_append, List.cons_append, List.nil_append, radixBytes_pair, hbyte, Option.bind_some,
            Option.map_eq_some_iff]
          constructor
          · rintro ⟨w, hw, heq⟩
            cases heq
            exact ⟨w.toList, (haccepted w).mp hw, (List.Vector.toList_cons _ w).symm⟩
          · rintro ⟨bytes, hbytes, heq⟩
            refine ⟨v.tail, (haccepted v.tail).mpr ?_, congrArg _ ?_⟩
            · rw [hbytes, List.Vector.toList_tail, ← heq]
              rfl
            · apply List.Vector.eq
              rw [List.Vector.toList_cons, List.Vector.toList_tail, ← heq]
              rfl
        · exact hpanicked.trans (straddles_pair hbyte back).symm

lemma radixJob_accepted (hlen : (utf8 jobStr).length = 32) (v : ByteArr 16) :
    radixJob jobStr = .accepted v ↔ radixBytes jobStr = some v.toList := by
  have hrounds := (radixRounds [] (k := 0) (n := 16) rfl hlen).1 v
  simpa only [List.nil_append, Nat.zero_add, radixJob] using hrounds

lemma radixJob_panicked (hlen : (utf8 jobStr).length = 32) : radixJob jobStr = .panicked ↔ Straddles jobStr := by
  have hrounds := (radixRounds [] (k := 0) (n := 16) rfl hlen).2
  simpa only [List.nil_append, Nat.zero_add, radixJob] using hrounds

/-- Pairs that are read are two bytes and two characters each. -/
lemma radixBytes_length {t : Str} {bytes : Bytes} (h : radixBytes t = some bytes) :
    (utf8 t).length = 2 * bytes.length ∧ t.length = 2 * bytes.length := by
  induction t using radixBytes.induct generalizing bytes with
  | case1 =>
    cases h
    exact ⟨rfl, rfl⟩
  | case2 c => cases h
  | case3 a b rest ih =>
    rw [radixBytes_pair] at h
    obtain ⟨x, hx, hrest⟩ := Option.bind_eq_some_iff.mp h
    obtain ⟨tail, htail, rfl⟩ := Option.map_eq_some_iff.mp hrest
    obtain ⟨ha, hb⟩ := radixByte_ascii hx
    obtain ⟨hbytes, hchars⟩ := ih htail
    rw [utf8_cons_length, utf8_cons_length, ha, hb, hbytes]
    simp only [List.length_cons, hchars]
    omega

lemma radixBytes_hex (b : Bytes) : radixBytes (hex b) = some b := by
  induction b with
  | nil => rfl
  | cons x b ih =>
    have hread : fromStrRadix 256 (hex [x]) = some (fromBe [x]) :=
      fromStrRadix_hex (by simp) (by simpa [fromBe] using x.toNat_lt)
    have hbyte : radixByte (hexDigit (x >>> 4)) (hexDigit (x &&& 0xf)) = some x := by
      rw [radixByte, show [hexDigit (x >>> 4), hexDigit (x &&& 0xf)] = hex [x] from rfl, hread]
      simp [fromBe]
    show radixBytes (hexDigit (x >>> 4) :: hexDigit (x &&& 0xf) :: hex b) = _
    rw [radixBytes_pair, hbyte, ih]
    rfl

/-! ## The parsers -/

/-- `parse_lease_entry`. -/
def parseLeaseEntry (rest : Str) : Verdict (UInt16 × ByteArr 16 × UInt32) := do
  let (shardStr, tail) ← Verdict.ofOption (splitOnce '/' rest)
  let (jobStr, genStr) ← Verdict.ofOption (rsplitOnce '.' tail)
  let shard ← Verdict.ofOption (fromStrRadix (2 ^ 16) shardStr)
  if (utf8 shardStr).length ≠ 4 ∨ (utf8 jobStr).length ≠ 32 ∨ (utf8 genStr).length ≠ 8 then .rejected
  else do
    let jobId ← radixJob jobStr
    let generation ← Verdict.ofOption (fromStrRadix (2 ^ 32) genStr)
    pure (UInt16.ofNat shard, jobId, UInt32.ofNat generation)

/-- `parse_delay_entry`. -/
def parseDelayEntry (rest : Str) : Verdict (UInt16 × ByteArr 16) := do
  let (shardStr, jobStr) ← Verdict.ofOption (splitOnce '/' rest)
  if (utf8 shardStr).length ≠ 4 ∨ (utf8 jobStr).length ≠ 32 then .rejected
  else do
    let shard ← Verdict.ofOption (fromStrRadix (2 ^ 16) shardStr)
    let jobId ← radixJob jobStr
    pure (UInt16.ofNat shard, jobId)

/-- The kind of a terminal entry, which is read off the first character. -/
def termKind (kindStr : Str) : Option TermKind :=
  kindStr.head?.bind fun kind => if kind = 'r' then some .receipt else if kind = 'd' then some .dead else none

/-- `parse_term_entry`. -/
def parseTermEntry (rel : Str) : Verdict (TermKind × UInt16 × ByteArr 16) := do
  let (seg, rest) ← Verdict.ofOption (splitOnce '/' rel)
  if seg ≠ termidxSeg then .rejected
  else do
    let (_, rest) ← Verdict.ofOption (splitOnce '/' rest)
    let (kindStr, rest) ← Verdict.ofOption (splitOnce '/' rest)
    let (shardStr, jobStr) ← Verdict.ofOption (splitOnce '/' rest)
    if (utf8 shardStr).length ≠ 4 ∨ (utf8 jobStr).length ≠ 32 then .rejected
    else do
      let kind ← Verdict.ofOption (termKind kindStr)
      let shard ← Verdict.ofOption (fromStrRadix (2 ^ 16) shardStr)
      let jobId ← radixJob jobStr
      pure (kind, UInt16.ofNat shard, jobId)

/-- A key of the lease index, as the sweep reads it: the bucket and the entry. -/
def leaseEntry (q : Queue) (key : Str) : Verdict (UInt64 × UInt16 × ByteArr 16 × UInt32) := do
  let bucket ← Verdict.ofOption (fromStrRadix (2 ^ 64) (q.indexEntry leasesSeg key).1)
  let entry ← parseLeaseEntry (q.indexEntry leasesSeg key).2
  pure (UInt64.ofNat bucket, entry)

/-- A key of the delay index, as the sweep reads it. -/
def delayEntry (q : Queue) (key : Str) : Verdict (UInt64 × UInt16 × ByteArr 16) := do
  let bucket ← Verdict.ofOption (fromStrRadix (2 ^ 64) (q.indexEntry delayedSeg key).1)
  let entry ← parseDelayEntry (q.indexEntry delayedSeg key).2
  pure (UInt64.ofNat bucket, entry)

/-- A key of the terminal index, as the garbage collector reads it. -/
def termEntry (q : Queue) (key : Str) : Verdict (TermKind × UInt16 × ByteArr 16) :=
  parseTermEntry (if q.root.isPrefixOf key then key.drop q.root.length else [])

/-! ## The parsers of the sweeps

The sweeps and the garbage collector of the model skip an entry that is rejected, and one at which the source
panics.  What they accept is the same.
-/

section Skipping

lemma utf8_length_of_fromStrRadix {bound : Nat} {t : Str} (h : fromStrRadix bound t = some v) :
    (utf8 t).length = t.length :=
  utf8_length_of_ascii (utf8Size_of_fromStrRadix h)

/-- A job text that the loop accepts, and one whose pairs are read. -/
lemma job_iff {P : ByteArr 16 → Prop} : ((utf8 jobStr).length = 32 ∧ ∃ v, radixJob jobStr = .accepted v ∧ P v) ↔
      (jobStr.length = 32 ∧ ∃ bytes, radixBytes jobStr = some bytes ∧ ∃ h : bytes.length = 16, P ⟨bytes, h⟩) := by
  constructor
  · rintro ⟨hlen, v, hv, hP⟩
    have hread := (radixJob_accepted hlen v).mp hv
    refine ⟨?_, v.toList, hread, v.toList_length, hP⟩
    rw [(radixBytes_length hread).2, v.toList_length]
  · rintro ⟨-, bytes, hread, h16, hP⟩
    have hlen : (utf8 jobStr).length = 32 := by rw [(radixBytes_length hread).1, h16]
    exact ⟨hlen, ⟨bytes, h16⟩, (radixJob_accepted hlen ⟨bytes, h16⟩).mpr hread, hP⟩

/-- The fields that a delay and a terminal entry end with. -/
lemma fields_iff {P : Nat → ByteArr 16 → Prop} :
    (¬ ((utf8 shardStr).length ≠ 4 ∨ (utf8 jobStr).length ≠ 32) ∧ ∃ shard, fromStrRadix (2 ^ 16) shardStr = some shard ∧
      ∃ v, radixJob jobStr = .accepted v ∧ P shard v) ↔
    (¬ (shardStr.length ≠ 4 ∨ jobStr.length ≠ 32) ∧ ∃ shard, fromStrRadix (2 ^ 16) shardStr = some shard ∧
      ∃ bytes, radixBytes jobStr = some bytes ∧ ∃ h : bytes.length = 16, P shard ⟨bytes, h⟩) := by
  simp only [not_or, not_not]
  constructor
  · rintro ⟨⟨hshard, hjob⟩, shard, hread, hrest⟩
    obtain ⟨hjob', hrest'⟩ := job_iff.mp ⟨hjob, hrest⟩
    exact ⟨⟨utf8_length_of_fromStrRadix hread ▸ hshard, hjob'⟩, shard, hread, hrest'⟩
  · rintro ⟨⟨hshard, hjob⟩, shard, hread, hrest⟩
    obtain ⟨hjob', hrest'⟩ := job_iff.mpr ⟨hjob, hrest⟩
    exact ⟨⟨(utf8_length_of_fromStrRadix hread).trans hshard, hjob'⟩, shard, hread, hrest'⟩

lemma parseDelayEntry_accepted {e : UInt16 × ByteArr 16} :
    parseDelayEntry rest = .accepted e ↔ Core.parseDelayEntry rest = some e := by
  simp only [parseDelayEntry, Core.parseDelayEntry, Verdict.bind_eq_accepted, Verdict.ofOption_eq_accepted,
    Verdict.ite_eq_accepted, Verdict.pure_eq, Verdict.accepted.injEq, Option.bind_eq_bind, Option.bind_eq_some_iff,
    Option.ite_none_left_eq_some, Option.dite_none_right_eq_some, Option.some.injEq]
  exact exists_congr fun p => and_congr_right fun _ => fields_iff

lemma parseLeaseEntry_accepted {e : UInt16 × ByteArr 16 × UInt32} :
    parseLeaseEntry rest = .accepted e ↔ Core.parseLeaseEntry rest = some e := by
  simp only [parseLeaseEntry, Core.parseLeaseEntry, Verdict.bind_eq_accepted, Verdict.ofOption_eq_accepted,
    Verdict.ite_eq_accepted, Verdict.pure_eq, Verdict.accepted.injEq, Option.bind_eq_bind, Option.bind_eq_some_iff,
    Option.ite_none_left_eq_some, Option.dite_none_right_eq_some, Option.some.injEq]
  refine exists_congr fun p => and_congr_right fun _ => exists_congr fun t => and_congr_right fun _ =>
    exists_congr fun shard => and_congr_right fun hshard => ?_
  rw [utf8_length_of_fromStrRadix hshard]
  simp only [not_or, not_not]
  constructor
  · rintro ⟨⟨hlen, hjob, hgen⟩, v, hv, g, hg, rfl⟩
    obtain ⟨hjob', bytes, hread, h16, heq⟩ := job_iff.mp ⟨hjob, v, hv, rfl⟩
    exact ⟨⟨hlen, hjob', utf8_length_of_fromStrRadix hg ▸ hgen⟩, bytes, hread, g, hg, h16, by rw [heq]⟩
  · rintro ⟨⟨hlen, hjob, hgen⟩, bytes, hread, g, hg, h16, rfl⟩
    obtain ⟨hjob', v, hv, heq⟩ := job_iff.mpr ⟨hjob, bytes, hread, h16, rfl⟩
    exact ⟨⟨hlen, hjob', (utf8_length_of_fromStrRadix hg).trans hgen⟩, v, hv, g, hg, by rw [heq]⟩

lemma parseTermEntry_skipping {rel : Str} {e : TermKind × UInt16 × ByteArr 16} :
    parseTermEntry rel = .accepted e ↔ Core.parseTermEntry rel = some e := by
  simp only [parseTermEntry, Core.parseTermEntry, Verdict.bind_eq_accepted, Verdict.ofOption_eq_accepted,
    Verdict.ite_eq_accepted, Verdict.pure_eq, Verdict.accepted.injEq, Option.bind_eq_bind, Option.bind_eq_some_iff,
    Option.ite_none_left_eq_some, termKind]
  refine exists_congr fun p => and_congr_right fun _ => and_congr_right fun _ => exists_congr fun p1 =>
    and_congr_right fun _ => exists_congr fun p2 => and_congr_right fun _ => exists_congr fun p3 =>
      and_congr_right fun _ => ?_
  cases p2.1.head? with
  | none => simp
  | some c =>
    simp only [Option.some.injEq, exists_eq_left']
    by_cases hr : c = 'r'
    · simpa only [hr, if_true, Option.some.injEq, exists_eq_left', Option.bind_some, Option.bind_eq_some_iff,
        Option.dite_none_right_eq_some] using fields_iff
    by_cases hd : c = 'd'
    · simpa only [hd, Char.reduceEq, if_false, if_true, Option.some.injEq, exists_eq_left', Option.bind_some,
        Option.bind_eq_some_iff, Option.dite_none_right_eq_some] using fields_iff
    · simp [hr, hd]

end Skipping

/-! ## Texts and fields -/

/-- A numeral as `from_str_radix` reads it: digits of either case behind an optional plus sign. -/
def Numeral (bound : Nat) (t : Str) : Prop := fromStrRadix bound t ≠ none

/-- Pairs of digits as the loop over the job text reads them. -/
def Pairs (t : Str) : Prop := radixBytes t ≠ none

/-- Exactly `n` lower-case digits. -/
def Lower (n : Nat) (t : Str) : Prop := t.length = n ∧ ∀ c ∈ t, c ∈ hexDigits

/-- A key of the lease index whose bucket and shard are numerals and whose fields have their widths in bytes. -/
structure LeaseText (s bucketStr shardStr jobStr genStr : Str) : Prop where
  text : s = leasesSeg ++ '/' :: (bucketStr ++ '/' :: (shardStr ++ '/' :: (jobStr ++ '.' :: genStr)))
  bucket : Numeral (2 ^ 64) bucketStr
  shard : Numeral (2 ^ 16) shardStr ∧ (utf8 shardStr).length = 4
  job : (utf8 jobStr).length = 32
  generation : '.' ∉ genStr ∧ (utf8 genStr).length = 8

/-- A key of the delay index with such fields. -/
structure DelayText (s bucketStr shardStr jobStr : Str) : Prop where
  text : s = delayedSeg ++ '/' :: (bucketStr ++ '/' :: (shardStr ++ '/' :: jobStr))
  bucket : Numeral (2 ^ 64) bucketStr
  shard : Numeral (2 ^ 16) shardStr ∧ (utf8 shardStr).length = 4
  job : (utf8 jobStr).length = 32

/-- A key of the terminal index with such fields, and any bucket. -/
structure TermText (s bucketStr kindStr shardStr jobStr : Str) : Prop where
  text : s = termidxSeg ++ '/' :: (bucketStr ++ '/' :: (kindStr ++ '/' :: (shardStr ++ '/' :: jobStr)))
  bucket : '/' ∉ bucketStr
  kind : '/' ∉ kindStr ∧ termKind kindStr ≠ none
  shard : Numeral (2 ^ 16) shardStr ∧ (utf8 shardStr).length = 4
  job : (utf8 jobStr).length = 32

section Fields

variable {bound n : Nat} {t : Str}

lemma Numeral.exists (h : Numeral bound t) : ∃ v, fromStrRadix bound t = some v := Option.ne_none_iff_exists'.mp h

lemma numeral_of_eq (h : fromStrRadix bound t = some v) : Numeral bound t := by
  rw [Numeral, h]
  exact Option.some_ne_none v

lemma Numeral.slash (h : Numeral bound t) : '/' ∉ t := by
  obtain ⟨v, hv⟩ := h.exists
  exact not_mem_of_fromStrRadix (by decide) (by decide) hv

lemma lower_hex (b : Bytes) : Lower (2 * b.length) (hex b) := ⟨hex_length b, fun _ => mem_hexDigits_of_mem_hex⟩

lemma lower_beBytes (n v : Nat) : Lower (2 * n) (hex (beBytes n v)) := by
  simpa using lower_hex (beBytes n v)

lemma Lower.utf8_length (h : Lower n t) : (utf8 t).length = n := by
  rw [utf8_length_of_ascii, h.1]
  have hsize : ∀ c ∈ hexDigits, c.utf8Size = 1 := by
    simp only [hexDigits, List.forall_mem_cons, List.not_mem_nil, IsEmpty.forall_iff, implies_true, and_true]
    decide
  exact fun c hc => hsize c (h.2 c hc)

lemma fromStrRadix_beBytes {n : Nat} (hn : n ≠ 0) (h : v < 256 ^ n) :
    fromStrRadix (256 ^ n) (hex (beBytes n v)) = some v := by
  have hne : beBytes n v ≠ [] := fun hnil => hn (by simpa using congrArg List.length hnil)
  have hval : fromBe (beBytes n v) = v := fromBe_beBytes_of_lt h
  have hread : fromStrRadix (256 ^ n) (hex (beBytes n v)) = some (fromBe (beBytes n v)) :=
    fromStrRadix_hex hne (by rwa [hval])
  rwa [hval] at hread

lemma fromStrRadix_hex16 (v : UInt16) : fromStrRadix (2 ^ 16) (hex16 v) = some v.toNat :=
  fromStrRadix_beBytes (n := 2) (by decide) v.toNat_lt

lemma fromStrRadix_hex32 (v : UInt32) : fromStrRadix (2 ^ 32) (hex32 v) = some v.toNat :=
  fromStrRadix_beBytes (n := 4) (by decide) v.toNat_lt

lemma fromStrRadix_hex64 (v : UInt64) : fromStrRadix (2 ^ 64) (hex64 v) = some v.toNat :=
  fromStrRadix_beBytes (n := 8) (by decide) v.toNat_lt

lemma rsplitOnce_eq_some {s a b : Str} : rsplitOnce c s = some (a, b) ↔ s = a ++ c :: b ∧ c ∉ b := by
  simp only [rsplitOnce, Option.map_eq_some_iff, Prod.mk.injEq, Prod.exists]
  constructor
  · rintro ⟨x, y, hsplit, rfl, rfl⟩
    obtain ⟨hs, hx⟩ := splitOnce_eq_some.mp hsplit
    refine ⟨?_, fun hmem => hx (List.mem_reverse.mp hmem)⟩
    rw [← List.reverse_reverse s, hs]
    simp
  · rintro ⟨rfl, hb⟩
    exact ⟨b.reverse, a.reverse, splitOnce_eq_some.mpr ⟨by simp, by simpa using hb⟩, by simp, by simp⟩

/-- Two texts that are split at their last separator. -/
lemma rsplit_unique {a a' b b' : Str} (hb : c ∉ b) (hb' : c ∉ b') (h : a ++ c :: b = a' ++ c :: b') :
    a = a' ∧ b = b' := by
  have hsplit := rsplitOnce_eq_some.mpr ⟨h, hb'⟩
  rw [rsplitOnce_eq_some.mpr ⟨rfl, hb⟩] at hsplit
  exact Prod.mk.inj (Option.some.inj hsplit)

end Fields

/-! ## What the parsers make of a text -/

section Reading

variable {q : Queue} {s : Str}

lemma indexEntry_root (seg : Str) : q.indexEntry seg (q.root ++ s) =
    let entry := if (seg ++ ['/']).isPrefixOf s then s.drop (seg.length + 1) else []
    (splitOnce '/' entry).getD (entry, []) := by
  have hroot : q.root.isPrefixOf (q.root ++ s) = true := List.isPrefixOf_iff_prefix.mpr (List.prefix_append _ _)
  rw [Queue.indexEntry, if_pos hroot, List.drop_left]

lemma indexEntry_text {seg : Str} (hslash : '/' ∉ bucketStr) :
    q.indexEntry seg (q.root ++ (seg ++ '/' :: (bucketStr ++ '/' :: rest))) = (bucketStr, rest) := by
  have hpre : (seg ++ ['/']).isPrefixOf (seg ++ '/' :: (bucketStr ++ '/' :: rest)) = true :=
    List.isPrefixOf_iff_prefix.mpr ⟨bucketStr ++ '/' :: rest, by simp⟩
  have hdrop : (seg ++ '/' :: (bucketStr ++ '/' :: rest)).drop (seg.length + 1) = bucketStr ++ '/' :: rest := by
    rw [List.append_cons, List.drop_left' (by simp)]
  rw [indexEntry_root]
  simp only [hpre, if_true, hdrop, splitOnce_eq_some.mpr ⟨rfl, hslash⟩, Option.getD_some]

/-- An entry behind the bucket is there only if the text has one. -/
lemma text_of_indexEntry {seg : Str} (h : q.indexEntry seg (q.root ++ s) = (bucketStr, rest))
    (hrest : rest ≠ []) : s = seg ++ '/' :: (bucketStr ++ '/' :: rest) ∧ '/' ∉ bucketStr := by
  rw [indexEntry_root] at h
  by_cases hpre : (seg ++ ['/']).isPrefixOf s = true
  · obtain ⟨entry, rfl⟩ := List.isPrefixOf_iff_prefix.mp hpre
    simp only [hpre, if_true, List.drop_left' (show (seg ++ ['/']).length = seg.length + 1 by simp)] at h
    cases hsplit : splitOnce '/' entry with
    | none =>
      rw [hsplit] at h
      exact absurd (congrArg Prod.snd h).symm hrest
    | some p =>
      rw [hsplit] at h
      obtain rfl : p = (bucketStr, rest) := h
      obtain ⟨rfl, hslash⟩ := splitOnce_eq_some.mp hsplit
      exact ⟨by simp, hslash⟩
  · simp only [hpre, Bool.false_eq_true, if_false] at h
    exact absurd (congrArg Prod.snd h).symm hrest

/-- What is left to read of a lease entry once its shape is known. -/
lemma leaseEntry_text {genStr : Str} {bucket shard : Nat} (ht : LeaseText s bucketStr shardStr jobStr genStr)
    (hbucket : fromStrRadix (2 ^ 64) bucketStr = some bucket)
    (hshard : fromStrRadix (2 ^ 16) shardStr = some shard) :
    leaseEntry q (q.root ++ s) = radixJob jobStr >>= fun jobId =>
      Verdict.ofOption (fromStrRadix (2 ^ 32) genStr) >>= fun generation =>
        .accepted (UInt64.ofNat bucket, UInt16.ofNat shard, jobId, UInt32.ofNat generation) := by
  rw [ht.text, leaseEntry, indexEntry_text ht.bucket.slash, parseLeaseEntry,
    splitOnce_eq_some.mpr ⟨rfl, ht.shard.1.slash⟩, hbucket]
  simp only [Verdict.ofOption_some, Verdict.accepted_bind, rsplitOnce_eq_some.mpr ⟨rfl, ht.generation.1⟩, hshard,
    ht.shard.2, ht.job, ht.generation.2]
  cases radixJob jobStr with
  | accepted jobId => cases fromStrRadix (2 ^ 32) genStr <;> rfl
  | rejected => rfl
  | panicked => rfl

lemma leaseEntry_rejected (h : ∀ bucketStr shardStr jobStr genStr, ¬ LeaseText s bucketStr shardStr jobStr genStr) :
    leaseEntry q (q.root ++ s) = .rejected := by
  rcases hentry : q.indexEntry leasesSeg (q.root ++ s) with ⟨bucketStr, rest⟩
  rw [leaseEntry, hentry]
  by_contra hne
  obtain ⟨bucket, hbucket, hne⟩ := Verdict.some_of_bind hne
  have hparse : parseLeaseEntry rest ≠ .rejected := by
    intro hrejected
    rw [hrejected] at hne
    exact hne rfl
  obtain ⟨⟨shardStr, tail⟩, hsplit, hne⟩ := Verdict.some_of_bind hparse
  obtain ⟨⟨jobStr, genStr⟩, hdot, hne⟩ := Verdict.some_of_bind hne
  obtain ⟨shard, hshard, hne⟩ := Verdict.some_of_bind hne
  have hlen := (Verdict.of_ite hne).1
  push Not at hlen
  obtain ⟨rfl, hgen⟩ := rsplitOnce_eq_some.mp hdot
  obtain ⟨rfl, -⟩ := splitOnce_eq_some.mp hsplit
  exact h _ _ _ _ ⟨(text_of_indexEntry hentry (by simp)).1, numeral_of_eq hbucket, ⟨numeral_of_eq hshard, hlen.1⟩,
    hlen.2.1, hgen, hlen.2.2⟩

lemma delayEntry_text {bucket shard : Nat} (ht : DelayText s bucketStr shardStr jobStr)
    (hbucket : fromStrRadix (2 ^ 64) bucketStr = some bucket)
    (hshard : fromStrRadix (2 ^ 16) shardStr = some shard) :
    delayEntry q (q.root ++ s) = radixJob jobStr >>= fun jobId =>
      .accepted (UInt64.ofNat bucket, UInt16.ofNat shard, jobId) := by
  rw [ht.text, delayEntry, indexEntry_text ht.bucket.slash, parseDelayEntry,
    splitOnce_eq_some.mpr ⟨rfl, ht.shard.1.slash⟩, hbucket]
  simp only [Verdict.ofOption_some, Verdict.accepted_bind, hshard, ht.shard.2, ht.job]
  cases radixJob jobStr <;> rfl

lemma delayEntry_rejected (h : ∀ bucketStr shardStr jobStr, ¬ DelayText s bucketStr shardStr jobStr) :
    delayEntry q (q.root ++ s) = .rejected := by
  rcases hentry : q.indexEntry delayedSeg (q.root ++ s) with ⟨bucketStr, rest⟩
  rw [delayEntry, hentry]
  by_contra hne
  obtain ⟨bucket, hbucket, hne⟩ := Verdict.some_of_bind hne
  have hparse : parseDelayEntry rest ≠ .rejected := by
    intro hrejected
    rw [hrejected] at hne
    exact hne rfl
  obtain ⟨⟨shardStr, jobStr⟩, hsplit, hne⟩ := Verdict.some_of_bind hparse
  obtain ⟨hlen, hne⟩ := Verdict.of_ite hne
  push Not at hlen
  obtain ⟨shard, hshard, -⟩ := Verdict.some_of_bind hne
  obtain ⟨rfl, -⟩ := splitOnce_eq_some.mp hsplit
  exact h _ _ _ ⟨(text_of_indexEntry hentry (by simp)).1, numeral_of_eq hbucket, ⟨numeral_of_eq hshard, hlen.1⟩, hlen.2⟩

lemma termEntry_root : termEntry q (q.root ++ s) = parseTermEntry s := by
  have hroot : q.root.isPrefixOf (q.root ++ s) = true := List.isPrefixOf_iff_prefix.mpr (List.prefix_append _ _)
  rw [termEntry, if_pos hroot, List.drop_left]

lemma slash_not_mem_termidxSeg : '/' ∉ termidxSeg := by decide

lemma parseTermEntry_text {kindStr : Str} {kind : TermKind} {shard : Nat}
    (ht : TermText s bucketStr kindStr shardStr jobStr) (hkind : termKind kindStr = some kind)
    (hshard : fromStrRadix (2 ^ 16) shardStr = some shard) :
    parseTermEntry s = radixJob jobStr >>= fun jobId => .accepted (kind, UInt16.ofNat shard, jobId) := by
  rw [ht.text, parseTermEntry, splitOnce_eq_some.mpr ⟨rfl, slash_not_mem_termidxSeg⟩]
  simp only [Verdict.ofOption_some, Verdict.accepted_bind, ne_eq, not_true_eq_false, if_false,
    splitOnce_eq_some.mpr ⟨rfl, ht.bucket⟩, splitOnce_eq_some.mpr ⟨rfl, ht.kind.1⟩,
    splitOnce_eq_some.mpr ⟨rfl, ht.shard.1.slash⟩, ht.shard.2, ht.job, or_self, hkind, hshard]
  rfl

lemma parseTermEntry_rejected
    (h : ∀ bucketStr kindStr shardStr jobStr, ¬ TermText s bucketStr kindStr shardStr jobStr) :
    parseTermEntry s = .rejected := by
  by_contra hne
  obtain ⟨⟨seg, rest⟩, hseg, hne⟩ := Verdict.some_of_bind hne
  obtain ⟨htermidx, hne⟩ := Verdict.of_ite hne
  obtain ⟨⟨bucketStr, rest⟩, hbucket, hne⟩ := Verdict.some_of_bind hne
  obtain ⟨⟨kindStr, rest⟩, hkind, hne⟩ := Verdict.some_of_bind hne
  obtain ⟨⟨shardStr, jobStr⟩, hsplit, hne⟩ := Verdict.some_of_bind hne
  obtain ⟨hlen, hne⟩ := Verdict.of_ite hne
  obtain ⟨kind, hread, hne⟩ := Verdict.some_of_bind hne
  obtain ⟨shard, hshard, -⟩ := Verdict.some_of_bind hne
  push Not at htermidx hlen
  subst htermidx
  obtain ⟨rfl, -⟩ := splitOnce_eq_some.mp hsplit
  obtain ⟨rfl, hkindSlash⟩ := splitOnce_eq_some.mp hkind
  obtain ⟨rfl, hbucketSlash⟩ := splitOnce_eq_some.mp hbucket
  obtain ⟨rfl, -⟩ := splitOnce_eq_some.mp hseg
  exact h _ _ _ _ ⟨rfl, hbucketSlash, ⟨hkindSlash, by simp [hread]⟩, ⟨numeral_of_eq hshard, hlen.1⟩, hlen.2⟩

end Reading

/-! ## Agreement with the grammar -/

/-- The reader does not panic, and accepts exactly what the grammar names. -/
def Agrees {α : Type} (read : Verdict α) (names : α → Prop) : Prop :=
  read ≠ .panicked ∧ ∀ e, read = .accepted e ↔ names e

/-- Where a reader goes by the shape of a text, reads everything that is named, and accepts the readable, it agrees
if no character straddles an offset and readable texts are named. -/
lemma agrees_iff {α ι : Type} {read : Verdict α} {names : α → Prop} (texts readable named : ι → Prop) (job : ι → Str)
    (hnone : (∀ t, ¬ texts t) → read = .rejected)
    (hpanic : ∀ t, texts t → (read = .panicked ↔ Straddles (job t)))
    (haccept : ∀ t, texts t → ((∃ e, read = .accepted e) ↔ readable t))
    (hread : ∀ e, names e → read = .accepted e)
    (hnamed : ∀ t, texts t → (named t ↔ ∃ e, names e)) :
    Agrees read names ↔ ∀ t, texts t → ¬ Straddles (job t) ∧ (readable t → named t) := by
  constructor
  · rintro ⟨hnot, hagree⟩ t ht
    refine ⟨fun h => hnot ((hpanic t ht).mpr h), fun h => ?_⟩
    obtain ⟨e, he⟩ := (haccept t ht).mpr h
    exact (hnamed t ht).mpr ⟨e, (hagree e).mp he⟩
  · intro h
    by_cases htexts : ∃ t, texts t
    · obtain ⟨t, ht⟩ := htexts
      obtain ⟨hno, hlower⟩ := h t ht
      refine ⟨fun hp => hno ((hpanic t ht).mp hp), fun e => ⟨fun he => ?_, hread e⟩⟩
      obtain ⟨e', he'⟩ := (hnamed t ht).mp (hlower ((haccept t ht).mp ⟨e, he⟩))
      cases he.symm.trans (hread e' he')
      exact he'
    · have hrejected := hnone (not_exists.mp htexts)
      rw [Agrees, hrejected]
      refine ⟨nofun, fun e => ⟨nofun, fun he => ?_⟩⟩
      rw [← hrejected, hread e he]

lemma parse_eq_ok {s : Str} {k : Key} : Keys.parse s = .ok k ↔ s = k.fmt :=
  ⟨fun h => (Keys.fmt_of_parse h).symm, fun h => h ▸ Keys.parse_fmt k⟩

lemma pairs_iff (hlen : (utf8 jobStr).length = 32) : (∃ v, radixJob jobStr = .accepted v) ↔ Pairs jobStr := by
  rw [Pairs, Option.ne_none_iff_exists']
  constructor
  · rintro ⟨v, hv⟩
    exact ⟨v.toList, (radixJob_accepted hlen v).mp hv⟩
  · rintro ⟨bytes, hbytes⟩
    have hwidth := (radixBytes_length hbytes).1
    exact ⟨⟨bytes, by omega⟩, (radixJob_accepted hlen _).mpr hbytes⟩

section Lower

variable {t : Str}

lemma Lower.bucket (h : Lower 16 t) : ∃ v, hex64 v = t :=
  Keys.Grammar.mem_bucket.mp (Keys.Grammar.mem_hex_pow.mpr h)

lemma Lower.shard (h : Lower 4 t) : ∃ v, hex16 v = t := Keys.Grammar.mem_shard.mp (Keys.Grammar.mem_hex_pow.mpr h)

lemma Lower.job (h : Lower 32 t) : ∃ v : ByteArr 16, hex v.toList = t :=
  Keys.Grammar.mem_jobId.mp (Keys.Grammar.mem_hex_pow.mpr h)

lemma Lower.generation (h : Lower 8 t) : ∃ v, hex32 v = t :=
  Keys.Grammar.mem_generation.mp (Keys.Grammar.mem_hex_pow.mpr h)

lemma lower_jobId (jobId : ByteArr 16) : Lower 32 (hex jobId.toList) := by
  simpa using lower_hex jobId.toList

end Lower

/-! ### Leases -/

section Lease

variable {q : Queue} {s bucketStr shardStr jobStr genStr : Str}

lemma leaseText_fmt (bucket : UInt64) (shard : UInt16) (jobId : ByteArr 16) (generation : UInt32) :
    LeaseText (Key.leaseIndex bucket shard jobId generation).fmt (hex64 bucket) (hex16 shard)
      (hex jobId.toList) (hex32 generation) where
  text := rfl
  bucket := numeral_of_eq (fromStrRadix_hex64 bucket)
  shard := ⟨numeral_of_eq (fromStrRadix_hex16 shard), (lower_beBytes 2 _).utf8_length⟩
  job := (lower_jobId jobId).utf8_length
  generation := ⟨not_mem_hex (by decide) _, (lower_beBytes 4 _).utf8_length⟩

lemma LeaseText.unique {genStr' : Str} (h : LeaseText s bucketStr shardStr jobStr genStr)
    (h' : LeaseText s bucketStr' shardStr' jobStr' genStr') :
    bucketStr = bucketStr' ∧ shardStr = shardStr' ∧ jobStr = jobStr' ∧ genStr = genStr' := by
  have htext := h.text.symm.trans h'.text
  rw [List.append_cancel_left_eq, List.cons.injEq] at htext
  obtain ⟨rfl, hrest⟩ := split_unique h.bucket.slash h'.bucket.slash htext.2
  obtain ⟨rfl, htail⟩ := split_unique h.shard.1.slash h'.shard.1.slash hrest
  obtain ⟨rfl, rfl⟩ := rsplit_unique h.generation.1 h'.generation.1 htail
  exact ⟨rfl, rfl, rfl, rfl⟩

lemma leaseEntry_fmt (bucket : UInt64) (shard : UInt16) (jobId : ByteArr 16) (generation : UInt32) :
    leaseEntry q (q.root ++ (Key.leaseIndex bucket shard jobId generation).fmt) =
      .accepted (bucket, shard, jobId, generation) := by
  have hjob := (radixJob_accepted (lower_jobId jobId).utf8_length jobId).mpr (radixBytes_hex _)
  rw [leaseEntry_text (leaseText_fmt _ _ _ _) (fromStrRadix_hex64 _) (fromStrRadix_hex16 _), hjob, fromStrRadix_hex32]
  simp

lemma leaseEntry_panicked (ht : LeaseText s bucketStr shardStr jobStr genStr) :
    leaseEntry q (q.root ++ s) = .panicked ↔ Straddles jobStr := by
  obtain ⟨bucket, hbucket⟩ := ht.bucket.exists
  obtain ⟨shard, hshard⟩ := ht.shard.1.exists
  rw [leaseEntry_text ht hbucket hshard, ← radixJob_panicked ht.job]
  cases radixJob jobStr with
  | accepted jobId => cases fromStrRadix (2 ^ 32) genStr <;> simp
  | rejected => simp
  | panicked => simp

lemma leaseEntry_accepted (ht : LeaseText s bucketStr shardStr jobStr genStr) :
    (∃ e, leaseEntry q (q.root ++ s) = .accepted e) ↔ Pairs jobStr ∧ Numeral (2 ^ 32) genStr := by
  obtain ⟨bucket, hbucket⟩ := ht.bucket.exists
  obtain ⟨shard, hshard⟩ := ht.shard.1.exists
  rw [leaseEntry_text ht hbucket hshard, ← pairs_iff ht.job, Numeral]
  cases radixJob jobStr with
  | accepted jobId => cases fromStrRadix (2 ^ 32) genStr <;> simp
  | rejected => simp
  | panicked => simp

/-- A text names an entry if and only if its fields are in lower case and the bucket has its width. -/
lemma leaseText_named (ht : LeaseText s bucketStr shardStr jobStr genStr) :
    Lower 16 bucketStr ∧ Lower 4 shardStr ∧ Lower 32 jobStr ∧ Lower 8 genStr ↔
      ∃ e : UInt64 × UInt16 × ByteArr 16 × UInt32, Keys.parse s = .ok (.leaseIndex e.1 e.2.1 e.2.2.1 e.2.2.2) := by
  simp only [parse_eq_ok]
  constructor
  · rintro ⟨hbucket, hshard, hjob, hgen⟩
    obtain ⟨bucket, rfl⟩ := hbucket.bucket
    obtain ⟨shard, rfl⟩ := hshard.shard
    obtain ⟨jobId, rfl⟩ := hjob.job
    obtain ⟨generation, rfl⟩ := hgen.generation
    exact ⟨(bucket, shard, jobId, generation), ht.text⟩
  · rintro ⟨⟨bucket, shard, jobId, generation⟩, rfl⟩
    obtain ⟨rfl, rfl, rfl, rfl⟩ := ht.unique (leaseText_fmt bucket shard jobId generation)
    exact ⟨lower_beBytes 8 _, lower_beBytes 2 _, lower_jobId _, lower_beBytes 4 _⟩

end Lease

/-! ### Delays -/

section Delay

variable {q : Queue} {s bucketStr shardStr jobStr : Str}

lemma delayText_fmt (bucket : UInt64) (shard : UInt16) (jobId : ByteArr 16) :
    DelayText (Key.delayIndex bucket shard jobId).fmt (hex64 bucket) (hex16 shard)
      (hex jobId.toList) where
  text := rfl
  bucket := numeral_of_eq (fromStrRadix_hex64 bucket)
  shard := ⟨numeral_of_eq (fromStrRadix_hex16 shard), (lower_beBytes 2 _).utf8_length⟩
  job := (lower_jobId jobId).utf8_length

lemma DelayText.unique (h : DelayText s bucketStr shardStr jobStr)
    (h' : DelayText s bucketStr' shardStr' jobStr') :
    bucketStr = bucketStr' ∧ shardStr = shardStr' ∧ jobStr = jobStr' := by
  have htext := h.text.symm.trans h'.text
  rw [List.append_cancel_left_eq, List.cons.injEq] at htext
  obtain ⟨rfl, hrest⟩ := split_unique h.bucket.slash h'.bucket.slash htext.2
  obtain ⟨rfl, rfl⟩ := split_unique h.shard.1.slash h'.shard.1.slash hrest
  exact ⟨rfl, rfl, rfl⟩

lemma delayEntry_fmt (bucket : UInt64) (shard : UInt16) (jobId : ByteArr 16) :
    delayEntry q (q.root ++ (Key.delayIndex bucket shard jobId).fmt) = .accepted (bucket, shard, jobId) := by
  have hjob := (radixJob_accepted (lower_jobId jobId).utf8_length jobId).mpr (radixBytes_hex _)
  rw [delayEntry_text (delayText_fmt _ _ _) (fromStrRadix_hex64 _) (fromStrRadix_hex16 _), hjob]
  simp

lemma delayEntry_panicked (ht : DelayText s bucketStr shardStr jobStr) :
    delayEntry q (q.root ++ s) = .panicked ↔ Straddles jobStr := by
  obtain ⟨bucket, hbucket⟩ := ht.bucket.exists
  obtain ⟨shard, hshard⟩ := ht.shard.1.exists
  rw [delayEntry_text ht hbucket hshard, ← radixJob_panicked ht.job]
  cases radixJob jobStr <;> simp

lemma delayEntry_accepted (ht : DelayText s bucketStr shardStr jobStr) :
    (∃ e, delayEntry q (q.root ++ s) = .accepted e) ↔ Pairs jobStr := by
  obtain ⟨bucket, hbucket⟩ := ht.bucket.exists
  obtain ⟨shard, hshard⟩ := ht.shard.1.exists
  rw [delayEntry_text ht hbucket hshard, ← pairs_iff ht.job]
  cases radixJob jobStr <;> simp

lemma delayText_named (ht : DelayText s bucketStr shardStr jobStr) :
    Lower 16 bucketStr ∧ Lower 4 shardStr ∧ Lower 32 jobStr ↔
      ∃ e : UInt64 × UInt16 × ByteArr 16, Keys.parse s = .ok (.delayIndex e.1 e.2.1 e.2.2) := by
  simp only [parse_eq_ok]
  constructor
  · rintro ⟨hbucket, hshard, hjob⟩
    obtain ⟨bucket, rfl⟩ := hbucket.bucket
    obtain ⟨shard, rfl⟩ := hshard.shard
    obtain ⟨jobId, rfl⟩ := hjob.job
    exact ⟨(bucket, shard, jobId), ht.text⟩
  · rintro ⟨⟨bucket, shard, jobId⟩, rfl⟩
    obtain ⟨rfl, rfl, rfl⟩ := ht.unique (delayText_fmt bucket shard jobId)
    exact ⟨lower_beBytes 8 _, lower_beBytes 2 _, lower_jobId _⟩

end Delay

/-! ### Terminal entries -/

section Term

variable {q : Queue} {s bucketStr kindStr shardStr jobStr : Str}

lemma termKind_asChar (kind : TermKind) : termKind [kind.asChar] = some kind := by
  cases kind <;> rfl

lemma termText_fmt (bucket : UInt64) (kind : TermKind) (shard : UInt16) (jobId : ByteArr 16) :
    TermText (Key.termIndex bucket kind shard jobId).fmt (hex64 bucket) [kind.asChar] (hex16 shard)
      (hex jobId.toList) where
  text := rfl
  bucket := not_mem_hex (by decide) _
  kind := by
    rw [termKind_asChar]
    refine ⟨?_, Option.some_ne_none kind⟩
    cases kind <;> decide
  shard := ⟨numeral_of_eq (fromStrRadix_hex16 shard), (lower_beBytes 2 _).utf8_length⟩
  job := (lower_jobId jobId).utf8_length

lemma TermText.unique {kindStr' : Str} (h : TermText s bucketStr kindStr shardStr jobStr)
    (h' : TermText s bucketStr' kindStr' shardStr' jobStr') :
    bucketStr = bucketStr' ∧ kindStr = kindStr' ∧ shardStr = shardStr' ∧ jobStr = jobStr' := by
  have htext := h.text.symm.trans h'.text
  rw [List.append_cancel_left_eq, List.cons.injEq] at htext
  obtain ⟨rfl, hrest⟩ := split_unique h.bucket h'.bucket htext.2
  obtain ⟨rfl, htail⟩ := split_unique h.kind.1 h'.kind.1 hrest
  obtain ⟨rfl, rfl⟩ := split_unique h.shard.1.slash h'.shard.1.slash htail
  exact ⟨rfl, rfl, rfl, rfl⟩

lemma parseTermEntry_fmt (bucket : UInt64) (kind : TermKind) (shard : UInt16) (jobId : ByteArr 16) :
    parseTermEntry (Key.termIndex bucket kind shard jobId).fmt = .accepted (kind, shard, jobId) := by
  have hjob := (radixJob_accepted (lower_jobId jobId).utf8_length jobId).mpr (radixBytes_hex _)
  rw [parseTermEntry_text (termText_fmt _ _ _ _) (termKind_asChar _) (fromStrRadix_hex16 _), hjob]
  simp

lemma parseTermEntry_panicked (ht : TermText s bucketStr kindStr shardStr jobStr) :
    parseTermEntry s = .panicked ↔ Straddles jobStr := by
  obtain ⟨kind, hkind⟩ := Option.ne_none_iff_exists'.mp ht.kind.2
  obtain ⟨shard, hshard⟩ := ht.shard.1.exists
  rw [parseTermEntry_text ht hkind hshard, ← radixJob_panicked ht.job]
  cases radixJob jobStr <;> simp

lemma parseTermEntry_accepted (ht : TermText s bucketStr kindStr shardStr jobStr) :
    (∃ e, parseTermEntry s = .accepted e) ↔ Pairs jobStr := by
  obtain ⟨kind, hkind⟩ := Option.ne_none_iff_exists'.mp ht.kind.2
  obtain ⟨shard, hshard⟩ := ht.shard.1.exists
  rw [parseTermEntry_text ht hkind hshard, ← pairs_iff ht.job]
  cases radixJob jobStr <;> simp

lemma eq_asChar {kind : TermKind} (h : termKind [c] = some kind) : [kind.asChar] = [c] := by
  unfold termKind at h
  simp only [List.head?_cons, Option.bind_some] at h
  split_ifs at h with hr hd
  · cases h
    rw [hr]
    rfl
  · cases h
    rw [hd]
    rfl

lemma termText_named (ht : TermText s bucketStr kindStr shardStr jobStr) :
    Lower 16 bucketStr ∧ kindStr.length = 1 ∧ Lower 4 shardStr ∧ Lower 32 jobStr ↔
      ∃ e : TermKind × UInt16 × ByteArr 16, ∃ bucket, Keys.parse s = .ok (.termIndex bucket e.1 e.2.1 e.2.2) := by
  simp only [parse_eq_ok]
  constructor
  · rintro ⟨hbucket, hkind, hshard, hjob⟩
    obtain ⟨bucket, rfl⟩ := hbucket.bucket
    obtain ⟨c, rfl⟩ := List.length_eq_one_iff.mp hkind
    obtain ⟨kind, hread⟩ := Option.ne_none_iff_exists'.mp ht.kind.2
    obtain ⟨shard, rfl⟩ := hshard.shard
    obtain ⟨jobId, rfl⟩ := hjob.job
    refine ⟨(kind, shard, jobId), bucket, ?_⟩
    rw [ht.text, ← eq_asChar hread]
    rfl
  · rintro ⟨⟨kind, shard, jobId⟩, bucket, rfl⟩
    obtain ⟨rfl, rfl, rfl, rfl⟩ := ht.unique (termText_fmt bucket kind shard jobId)
    exact ⟨lower_beBytes 8 _, rfl, lower_beBytes 2 _, lower_jobId _⟩

end Term

/-! ### The three indexes -/

/-- A lease entry with nothing but lower-case digits, if it is readable, and no character across an offset. -/
def LeaseStrict (s : Str) : Prop :=
  ∀ bucketStr shardStr jobStr genStr, LeaseText s bucketStr shardStr jobStr genStr →
    ¬ Straddles jobStr ∧ (Pairs jobStr ∧ Numeral (2 ^ 32) genStr →
      Lower 16 bucketStr ∧ Lower 4 shardStr ∧ Lower 32 jobStr ∧ Lower 8 genStr)

def DelayStrict (s : Str) : Prop :=
  ∀ bucketStr shardStr jobStr, DelayText s bucketStr shardStr jobStr →
    ¬ Straddles jobStr ∧ (Pairs jobStr → Lower 16 bucketStr ∧ Lower 4 shardStr ∧ Lower 32 jobStr)

def TermStrict (s : Str) : Prop :=
  ∀ bucketStr kindStr shardStr jobStr, TermText s bucketStr kindStr shardStr jobStr → ¬ Straddles jobStr ∧
      (Pairs jobStr → Lower 16 bucketStr ∧ kindStr.length = 1 ∧ Lower 4 shardStr ∧ Lower 32 jobStr)

/-- **Index entries and the grammar.**  The readers of the lease, delay and terminal indexes slice keys by hand.
Each agrees with the grammar of keys on a key, accepting the same fields and not panicking, if and only if the key
is strict: where it has the shape of an entry no character lies across an offset, and if it is readable its numbers
are in lowercase at full width. -/
theorem entries_agree_iff (q : Queue) (s : Str) : (Agrees (leaseEntry q (q.root ++ s))
      (fun e => Keys.parse s = .ok (.leaseIndex e.1 e.2.1 e.2.2.1 e.2.2.2)) ↔ LeaseStrict s) ∧
    (Agrees (delayEntry q (q.root ++ s))
      (fun e => Keys.parse s = .ok (.delayIndex e.1 e.2.1 e.2.2)) ↔ DelayStrict s) ∧
    (Agrees (termEntry q (q.root ++ s))
      (fun e => ∃ bucket, Keys.parse s = .ok (.termIndex bucket e.1 e.2.1 e.2.2)) ↔ TermStrict s) := by
  refine ⟨?_, ?_, ?_⟩
  · rw [agrees_iff (fun t : Str × Str × Str × Str => LeaseText s t.1 t.2.1 t.2.2.1 t.2.2.2)
      (fun t => Pairs t.2.2.1 ∧ Numeral (2 ^ 32) t.2.2.2)
      (fun t => Lower 16 t.1 ∧ Lower 4 t.2.1 ∧ Lower 32 t.2.2.1 ∧ Lower 8 t.2.2.2) (fun t => t.2.2.1)
      (fun h => leaseEntry_rejected fun b sh j g => h (b, sh, j, g)) (fun _ => leaseEntry_panicked)
      (fun _ => leaseEntry_accepted) (fun e he => parse_eq_ok.mp he ▸ leaseEntry_fmt _ _ _ _)
      (fun _ => leaseText_named)]
    simp only [Prod.forall, LeaseStrict]
  · rw [agrees_iff (fun t : Str × Str × Str => DelayText s t.1 t.2.1 t.2.2) (fun t => Pairs t.2.2)
      (fun t => Lower 16 t.1 ∧ Lower 4 t.2.1 ∧ Lower 32 t.2.2) (fun t => t.2.2)
      (fun h => delayEntry_rejected fun b sh j => h (b, sh, j)) (fun _ => delayEntry_panicked)
      (fun _ => delayEntry_accepted) (fun e he => parse_eq_ok.mp he ▸ delayEntry_fmt _ _ _)
      (fun _ => delayText_named)]
    simp only [Prod.forall, DelayStrict]
  · rw [termEntry_root, agrees_iff (fun t : Str × Str × Str × Str => TermText s t.1 t.2.1 t.2.2.1 t.2.2.2)
      (fun t => Pairs t.2.2.2)
      (fun t => Lower 16 t.1 ∧ t.2.1.length = 1 ∧ Lower 4 t.2.2.1 ∧ Lower 32 t.2.2.2) (fun t => t.2.2.2)
      (fun h => parseTermEntry_rejected fun b k sh j => h (b, k, sh, j)) (fun _ => parseTermEntry_panicked)
      (fun _ => parseTermEntry_accepted)
      (fun e ⟨_, he⟩ => parse_eq_ok.mp he ▸ parseTermEntry_fmt _ _ _ _) (fun _ => termText_named)]
    simp only [Prod.forall, TermStrict]

/-! ## Keys that are read otherwise -/

open Scenario (demo jobZero)

/-- A delay key whose job text has a character of two bytes across the second offset. -/
def straddlingKey : Str :=
  "delayed/0000000000000000/0000/0".toList ++ 'é' :: List.replicate 29 '0'

/-- A lease key whose bucket is one digit in upper case. -/
def narrowKey : Str := "leases/A/0000/".toList ++ List.replicate 32 '0' ++ ".00000001".toList

/-- The first key stops the sweep, and the second is read as the entry of bucket ten and is no key. -/
theorem entries_disagree : delayEntry demo (demo.root ++ straddlingKey) = .panicked ∧
    leaseEntry demo (demo.root ++ narrowKey) = .accepted (10, 0, jobZero, 1) ∧
    Keys.parse narrowKey = .error (.field "bucket") := by
  refine ⟨?_, ?_, ?_⟩
  · decide +kernel
  · decide +kernel
  · rfl

end Entries
end Core
end StowQ
