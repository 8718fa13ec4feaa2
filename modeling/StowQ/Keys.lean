import StowQ.Primitives

/-!
# Canonical keys

Keys are lowercase, `/`-delimited, with fixed-width hexadecimal fields.  `Key.fmt`
writes a key and `parse` reads one strictly; `parse_fmt` says that every key reads
back, from which keys are equal exactly when their texts are.  The shard of a job
and the tag that binds a record to its key are derived here too.
-/

namespace StowQ
namespace Keys

open Data

variable {α : Type} {t s : Str} {n : Nat}

/-! ## Shard derivation and key tag -/

/-- `u32::trailing_zeros`. -/
def trailingZeros (n : UInt32) : Nat :=
  ((List.range 32).find? fun i => n.toNat.testBit i).getD 32

/-- `StowQ-1-shard\0`. -/
def shardDomain : Bytes :=
  utf8 ['S', 't', 'o', 'w', 'Q', '-', '1', '-', 's', 'h', 'a', 'r', 'd', '\x00']

/-- `StowQ-1-key\0`. -/
def keyDomain : Bytes :=
  utf8 ['S', 't', 'o', 'w', 'Q', '-', '1', '-', 'k', 'e', 'y', '\x00']

/-- The shard of a job: the low bits of the first two hash bytes.  The shard count
is a power of two up to 65536. -/
def computeShard [Sha256] (queueId jobId : ByteArr 16) (shardCount : UInt32) : UInt16 :=
  let k := trailingZeros shardCount
  let result := Sha256.digest (shardDomain ++ queueId.toList ++ jobId.toList)
  let val := UInt16.ofNat (fromBe (result.toList.take 2))
  if 16 ≤ k then val else val &&& (((1 : UInt16) <<< UInt16.ofNat k) - 1)

/-- The first eight bytes of a hash over queue and key: binds a record to both. -/
def keyTag [Sha256] (queueId : ByteArr 16) (key : Str) : ByteArr 8 :=
  ⟨(Sha256.digest (keyDomain ++ queueId.toList ++ utf8 key)).toList.take 8, by simp⟩

/-! ## Keys -/

/-- Terminal record kind encoded in `termidx/` keys. -/
inductive TermKind
  | receipt
  | dead
  deriving DecidableEq

namespace TermKind

def asChar : TermKind → Char
  | receipt => 'r'
  | dead => 'd'

def fromChar (s : Str) : Option TermKind :=
  if s = ['r'] then some receipt
  else if s = ['d'] then some dead
  else none

end TermKind

/-- A canonical key, relative to the queue's root. -/
inductive Key
  | job (shard : UInt16) (jobId : ByteArr 16)
  | payload (jobId : ByteArr 16) (digest : ByteArr 32)
  | claim (shard : UInt16) (jobId : ByteArr 16) (generation : UInt32)
  | fail (shard : UInt16) (jobId : ByteArr 16) (generation : UInt32)
  | leaseIndex (bucket : UInt64) (shard : UInt16) (jobId : ByteArr 16) (generation : UInt32)
  | delayIndex (bucket : UInt64) (shard : UInt16) (jobId : ByteArr 16)
  | receipt (shard : UInt16) (jobId : ByteArr 16)
  | dead (shard : UInt16) (jobId : ByteArr 16)
  | termIndex (bucket : UInt64) (kind : TermKind) (shard : UInt16) (jobId : ByteArr 16)
  | quarantine (bucket : UInt64) (qid : ByteArr 16)
  | tail (shard : UInt16) (jobId : ByteArr 16)
  | beacon (nonce : ByteArr 16)
  | format
  | watermark
  deriving DecidableEq

/-! ## Segment names -/

def jobsSeg : Str := ['j', 'o', 'b', 's']
def payloadsSeg : Str := ['p', 'a', 'y', 'l', 'o', 'a', 'd', 's']
def claimsSeg : Str := ['c', 'l', 'a', 'i', 'm', 's']
def failsSeg : Str := ['f', 'a', 'i', 'l', 's']
def leasesSeg : Str := ['l', 'e', 'a', 's', 'e', 's']
def delayedSeg : Str := ['d', 'e', 'l', 'a', 'y', 'e', 'd']
def receiptsSeg : Str := ['r', 'e', 'c', 'e', 'i', 'p', 't', 's']
def deadSeg : Str := ['d', 'e', 'a', 'd']
def termidxSeg : Str := ['t', 'e', 'r', 'm', 'i', 'd', 'x']
def quarantineSeg : Str := ['q', 'u', 'a', 'r', 'a', 'n', 't', 'i', 'n', 'e']
def tailsSeg : Str := ['t', 'a', 'i', 'l', 's']
def metaSeg : Str := ['m', 'e', 't', 'a']
def clockSeg : Str := ['c', 'l', 'o', 'c', 'k']
def formatSeg : Str := ['F', 'O', 'R', 'M', 'A', 'T']
def watermarkSeg : Str := ['w', 'a', 't', 'e', 'r', 'm', 'a', 'r', 'k']

/-- Four digits of a shard. -/
def hex16 (v : UInt16) : Str := hex (beBytes 2 v.toNat)

/-- Eight digits of a generation. -/
def hex32 (v : UInt32) : Str := hex (beBytes 4 v.toNat)

/-- Sixteen digits of a bucket. -/
def hex64 (v : UInt64) : Str := hex (beBytes 8 v.toNat)

/-- The text of a key. -/
def Key.fmt : Key → Str
  | .job shard jobId => jobsSeg ++ '/' :: (hex16 shard ++ '/' :: hex jobId.toList)
  | .payload jobId digest => payloadsSeg ++ '/' :: (hex jobId.toList ++ '/' :: hex digest.toList)
  | .claim shard jobId generation =>
    claimsSeg ++ '/' :: (hex16 shard ++ '/' :: (hex jobId.toList ++ '/' :: hex32 generation))
  | .fail shard jobId generation =>
    failsSeg ++ '/' :: (hex16 shard ++ '/' :: (hex jobId.toList ++ '/' :: hex32 generation))
  | .leaseIndex bucket shard jobId generation =>
    leasesSeg ++ '/' :: (hex64 bucket ++ '/' :: (hex16 shard ++ '/' ::
      (hex jobId.toList ++ '.' :: hex32 generation)))
  | .delayIndex bucket shard jobId =>
    delayedSeg ++ '/' :: (hex64 bucket ++ '/' :: (hex16 shard ++ '/' :: hex jobId.toList))
  | .receipt shard jobId => receiptsSeg ++ '/' :: (hex16 shard ++ '/' :: hex jobId.toList)
  | .dead shard jobId => deadSeg ++ '/' :: (hex16 shard ++ '/' :: hex jobId.toList)
  | .termIndex bucket kind shard jobId =>
    termidxSeg ++ '/' :: (hex64 bucket ++ '/' :: ([kind.asChar] ++ '/' :: (hex16 shard ++ '/' :: hex jobId.toList)))
  | .quarantine bucket qid => quarantineSeg ++ '/' :: (hex64 bucket ++ '/' :: hex qid.toList)
  | .tail shard jobId => tailsSeg ++ '/' :: (hex16 shard ++ '/' :: hex jobId.toList)
  | .beacon nonce => metaSeg ++ '/' :: (clockSeg ++ '/' :: hex nonce.toList)
  | .format => metaSeg ++ '/' :: formatSeg
  | .watermark => metaSeg ++ '/' :: watermarkSeg

/-! ## Parsing -/

/-- Why a text is not a key. -/
inductive ParseError
  | unknownPrefix
  | segmentCount
  | field (name : String)
  | kind
  deriving DecidableEq

/-- `str::split_once`. -/
def splitOnce (c : Char) (s : Str) : Option (Str × Str) :=
  match s.dropWhile (· != c) with
  | [] => none
  | _ :: rest => some (s.takeWhile (· != c), rest)

def hexDecodeU16 (s : Str) : Option UInt16 :=
  (hexDecode 2 s).map fun b => UInt16.ofNat (fromBe b.toList)

def hexDecodeU32 (s : Str) : Option UInt32 :=
  (hexDecode 4 s).map fun b => UInt32.ofNat (fromBe b.toList)

def hexDecodeU64 (s : Str) : Option UInt64 :=
  (hexDecode 8 s).map fun b => UInt64.ofNat (fromBe b.toList)

def field {α : Type} (name : String) (v : Option α) : Except ParseError α :=
  match v with
  | some a => .ok a
  | none => .error (.field name)

/-- The segment-count check. -/
def seg (parts : List Str) (n : Nat) : Except ParseError Unit :=
  if parts.length = n then .ok () else .error .segmentCount

/-- Parses a canonical key: exact widths, lowercase digits, exact segment counts. -/
def parse (s : Str) : Except ParseError Key :=
  let parts := s.splitOn '/'
  let part := fun i => parts.getD i []
  if part 0 = jobsSeg then do
    seg parts 3
    let shard ← field "shard" (hexDecodeU16 (part 1))
    let jobId ← field "job-id" (hexDecode 16 (part 2))
    .ok (.job shard jobId)
  else if part 0 = payloadsSeg then do
    seg parts 3
    let jobId ← field "job-id" (hexDecode 16 (part 1))
    let digest ← field "digest" (hexDecode 32 (part 2))
    .ok (.payload jobId digest)
  else if part 0 = claimsSeg ∨ part 0 = failsSeg then do
    seg parts 4
    let shard ← field "shard" (hexDecodeU16 (part 1))
    let jobId ← field "job-id" (hexDecode 16 (part 2))
    let generation ← field "generation" (hexDecodeU32 (part 3))
    .ok (if part 0 = claimsSeg then .claim shard jobId generation
      else .fail shard jobId generation)
  else if part 0 = leasesSeg then do
    seg parts 4
    let (jobS, genS) ← field "lease suffix" (splitOnce '.' (part 3))
    let bucket ← field "bucket" (hexDecodeU64 (part 1))
    let shard ← field "shard" (hexDecodeU16 (part 2))
    let jobId ← field "job-id" (hexDecode 16 jobS)
    let generation ← field "generation" (hexDecodeU32 genS)
    .ok (.leaseIndex bucket shard jobId generation)
  else if part 0 = delayedSeg then do
    seg parts 4
    let bucket ← field "bucket" (hexDecodeU64 (part 1))
    let shard ← field "shard" (hexDecodeU16 (part 2))
    let jobId ← field "job-id" (hexDecode 16 (part 3))
    .ok (.delayIndex bucket shard jobId)
  else if part 0 = receiptsSeg ∨ part 0 = deadSeg then do
    seg parts 3
    let shard ← field "shard" (hexDecodeU16 (part 1))
    let jobId ← field "job-id" (hexDecode 16 (part 2))
    .ok (if part 0 = receiptsSeg then .receipt shard jobId else .dead shard jobId)
  else if part 0 = termidxSeg then do
    seg parts 5
    let bucket ← field "bucket" (hexDecodeU64 (part 1))
    let kind ← match TermKind.fromChar (part 2) with
      | some k => .ok k
      | none => .error .kind
    let shard ← field "shard" (hexDecodeU16 (part 3))
    let jobId ← field "job-id" (hexDecode 16 (part 4))
    .ok (.termIndex bucket kind shard jobId)
  else if part 0 = quarantineSeg then do
    seg parts 3
    let bucket ← field "bucket" (hexDecodeU64 (part 1))
    let qid ← field "qid" (hexDecode 16 (part 2))
    .ok (.quarantine bucket qid)
  else if part 0 = tailsSeg then do
    seg parts 3
    let shard ← field "shard" (hexDecodeU16 (part 1))
    let jobId ← field "job-id" (hexDecode 16 (part 2))
    .ok (.tail shard jobId)
  else if part 0 = metaSeg then
    if part 1 = formatSeg ∧ parts.length = 2 then .ok .format
    else if part 1 = watermarkSeg ∧ parts.length = 2 then .ok .watermark
    else if part 1 = clockSeg then do
      seg parts 3
      let nonce ← field "nonce" (hexDecode 16 (part 2))
      .ok (.beacon nonce)
    else .error .unknownPrefix
  else .error .unknownPrefix

/-! ## Keys read back -/

lemma slash_not_mem_hex (b : Bytes) : '/' ∉ hex b := not_mem_hex (by decide) b

/-- A big-endian number written in hexadecimal reads back through any cast. -/
lemma hexDecode_beBytes (f : Nat → α) {v : Nat} (h : v < 256 ^ n) :
    ((hexDecode n (hex (beBytes n v))).map fun b => f (fromBe b.toList)) = some (f v) := by
  have hread : hexDecode n (hex (beBytes n v)) = some ⟨beBytes n v, beBytes_length n v⟩ :=
    hexDecode_hex (⟨beBytes n v, beBytes_length n v⟩ : ByteArr n)
  rw [hread]
  show some (f (fromBe (beBytes n v))) = _
  rw [fromBe_beBytes_of_lt h]

@[simp] lemma hexDecodeU16_hex16 (v : UInt16) : hexDecodeU16 (hex16 v) = some v := by
  have hread := hexDecode_beBytes UInt16.ofNat (n := 2) (v := v.toNat) v.toNat_lt
  rwa [UInt16.ofNat_toNat] at hread

@[simp] lemma hexDecodeU32_hex32 (v : UInt32) : hexDecodeU32 (hex32 v) = some v := by
  have hread := hexDecode_beBytes UInt32.ofNat (n := 4) (v := v.toNat) v.toNat_lt
  rwa [UInt32.ofNat_toNat] at hread

@[simp] lemma hexDecodeU64_hex64 (v : UInt64) : hexDecodeU64 (hex64 v) = some v := by
  have hread := hexDecode_beBytes UInt64.ofNat (n := 8) (v := v.toNat) v.toNat_lt
  rwa [UInt64.ofNat_toNat] at hread

lemma splitOnce_eq_some {c : Char} {a b : Str} : splitOnce c s = some (a, b) ↔ s = a ++ c :: b ∧ c ∉ a := by
  induction s generalizing a with
  | nil => simp [splitOnce]
  | cons d s ih =>
    by_cases hd : d = c
    · subst hd
      have hsplit : splitOnce d (d :: s) = some ([], s) := by simp [splitOnce]
      rw [hsplit]
      cases a with
      | nil => simp
      | cons e a =>
        simp only [Option.some.injEq, Prod.mk.injEq, reduceCtorEq, false_and, List.cons_append,
          List.cons.injEq, List.mem_cons, not_or, false_iff]
        rintro ⟨⟨rfl, -⟩, hne, -⟩
        exact hne rfl
    · have hsplit : splitOnce c (d :: s) = (splitOnce c s).map fun p => (d :: p.1, p.2) := by
        simp only [splitOnce, List.dropWhile_cons, List.takeWhile_cons, bne_iff_ne, ne_eq, hd, not_false_eq_true,
          if_true]
        split <;> rfl
      rw [hsplit]
      cases a with
      | nil => simp [hd]
      | cons e a =>
        simp only [Option.map_eq_some_iff, Prod.mk.injEq, List.cons.injEq, List.cons_append, List.mem_cons, not_or,
          Prod.exists]
        constructor
        · rintro ⟨x, y, hxy, ⟨rfl, rfl⟩, rfl⟩
          obtain ⟨rfl, hx⟩ := ih.mp hxy
          exact ⟨⟨rfl, rfl⟩, Ne.symm hd, hx⟩
        · rintro ⟨⟨rfl, rfl⟩, -, ha⟩
          exact ⟨a, b, ih.mpr ⟨rfl, ha⟩, ⟨rfl, rfl⟩, rfl⟩

@[simp] lemma fromChar_asChar (k : TermKind) : TermKind.fromChar [k.asChar] = some k := by
  cases k <;> rfl

/-- The segments of a key's text. -/
def Key.segments : Key → List Str
  | .job shard jobId => [jobsSeg, hex16 shard, hex jobId.toList]
  | .payload jobId digest => [payloadsSeg, hex jobId.toList, hex digest.toList]
  | .claim shard jobId generation => [claimsSeg, hex16 shard, hex jobId.toList, hex32 generation]
  | .fail shard jobId generation => [failsSeg, hex16 shard, hex jobId.toList, hex32 generation]
  | .leaseIndex bucket shard jobId generation =>
    [leasesSeg, hex64 bucket, hex16 shard, hex jobId.toList ++ '.' :: hex32 generation]
  | .delayIndex bucket shard jobId => [delayedSeg, hex64 bucket, hex16 shard, hex jobId.toList]
  | .receipt shard jobId => [receiptsSeg, hex16 shard, hex jobId.toList]
  | .dead shard jobId => [deadSeg, hex16 shard, hex jobId.toList]
  | .termIndex bucket kind shard jobId =>
    [termidxSeg, hex64 bucket, [kind.asChar], hex16 shard, hex jobId.toList]
  | .quarantine bucket qid => [quarantineSeg, hex64 bucket, hex qid.toList]
  | .tail shard jobId => [tailsSeg, hex16 shard, hex jobId.toList]
  | .beacon nonce => [metaSeg, clockSeg, hex nonce.toList]
  | .format => [metaSeg, formatSeg]
  | .watermark => [metaSeg, watermarkSeg]

lemma slash_not_mem_segments (k : Key) : ∀ seg ∈ k.segments, '/' ∉ seg := by
  have hx := slash_not_mem_hex
  cases k <;>
    simp [Key.segments, jobsSeg, payloadsSeg, claimsSeg, failsSeg, leasesSeg, delayedSeg,
      receiptsSeg, deadSeg, termidxSeg, quarantineSeg, tailsSeg, metaSeg, clockSeg, formatSeg,
      watermarkSeg, hex16, hex32, hex64, hx]
  rename_i kind _ _
  cases kind <;> decide

lemma fmt_eq_intercalate (k : Key) : k.fmt = ['/'].intercalate k.segments := by
  cases k <;> simp [Key.fmt, Key.segments, List.intercalate]

lemma splitOn_fmt (k : Key) : k.fmt.splitOn '/' = k.segments := by
  rw [fmt_eq_intercalate]
  refine List.splitOn_intercalate '/' (slash_not_mem_segments k) ?_
  cases k <;> simp [Key.segments]

@[simp] lemma field_some (name : String) (a : α) : field name (some a) = .ok a := rfl

/-- **Every key reads back.** -/
theorem parse_fmt (k : Key) : parse k.fmt = .ok k := by
  unfold parse
  rw [splitOn_fmt]
  cases k with
  | leaseIndex bucket shard jobId generation =>
    have hlast : splitOnce '.' (hex jobId.toList ++ '.' :: hex32 generation) =
        some (hex jobId.toList, hex32 generation) :=
      splitOnce_eq_some.mpr ⟨rfl, not_mem_hex (by decide) _⟩
    simp [Key.segments, leasesSeg, jobsSeg, payloadsSeg, claimsSeg, failsSeg, seg, hlast, bind, Except.bind]
  | _ =>
    simp [Key.segments, jobsSeg, payloadsSeg, claimsSeg, failsSeg, leasesSeg, delayedSeg,
      receiptsSeg, deadSeg, termidxSeg, quarantineSeg, tailsSeg, metaSeg, clockSeg, formatSeg,
      watermarkSeg, seg, bind, Except.bind]

lemma fmt_injective : Function.Injective Key.fmt := by
  intro a b h
  have ha := parse_fmt a
  rw [h, parse_fmt b] at ha
  exact (Except.ok.inj ha).symm

/-! ## Only keys are read -/

lemma bind_eq_ok {β : Type} {x : Except ParseError α} {f : α → Except ParseError β} {b : β} :
    (x >>= f) = .ok b ↔ ∃ a, x = .ok a ∧ f a = .ok b := by
  cases x <;> simp [bind, Except.bind]

lemma seg_eq_ok {parts : List Str} {u : Unit} : seg parts n = .ok u ↔ parts.length = n := by
  unfold seg
  split <;> simp_all

lemma field_eq_ok {name : String} {v : Option α} {a : α} : field name v = .ok a ↔ v = some a := by
  cases v <;> simp [field]

/-- A fixed-width number the strict reader accepts is written as the writer would. -/
lemma eq_hex_beBytes {b : ByteArr n} (h : hexDecode n t = some b) : t = hex (beBytes n (fromBe b.toList)) := by
  have hlen : b.toList.length = n := b.toList_length
  have hbe := beBytes_fromBe b.toList
  rw [hlen] at hbe
  rw [hbe]
  exact eq_hex_of_hexDecode h

lemma fromBe_vector_lt (b : ByteArr n) : fromBe b.toList < 256 ^ n := by
  have hlt := fromBe_lt b.toList
  rwa [b.toList_length] at hlt

lemma eq_hex16 {v : UInt16} (h : hexDecodeU16 t = some v) : t = hex16 v := by
  obtain ⟨b, hb, rfl⟩ := Option.map_eq_some_iff.mp h
  have hlt : fromBe b.toList < 2 ^ 16 := fromBe_vector_lt b
  rw [hex16, UInt16.toNat_ofNat', Nat.mod_eq_of_lt hlt]
  exact eq_hex_beBytes hb

lemma eq_hex32 {v : UInt32} (h : hexDecodeU32 t = some v) : t = hex32 v := by
  obtain ⟨b, hb, rfl⟩ := Option.map_eq_some_iff.mp h
  have hlt : fromBe b.toList < 2 ^ 32 := fromBe_vector_lt b
  rw [hex32, UInt32.toNat_ofNat', Nat.mod_eq_of_lt hlt]
  exact eq_hex_beBytes hb

lemma eq_hex64 {v : UInt64} (h : hexDecodeU64 t = some v) : t = hex64 v := by
  obtain ⟨b, hb, rfl⟩ := Option.map_eq_some_iff.mp h
  have hlt : fromBe b.toList < 2 ^ 64 := fromBe_vector_lt b
  rw [hex64, UInt64.toNat_ofNat', Nat.mod_eq_of_lt hlt]
  exact eq_hex_beBytes hb

lemma eq_of_fromChar {k : TermKind} (h : TermKind.fromChar t = some k) : t = [k.asChar] := by
  unfold TermKind.fromChar at h
  split at h
  · cases h
    assumption
  · split at h
    · cases h
      assumption
    · cases h

lemma kind_bind_eq_ok {β : Type} {x : Option TermKind} {f : TermKind → Except ParseError β} {b : β} :
    (match x with
      | some k => Except.ok k >>= f
      | none => Except.error .kind >>= f) = .ok b ↔ ∃ k, x = some k ∧ f k = .ok b := by
  cases x <;> simp [bind, Except.bind]

/-- A list of a given length, by its elements. -/
lemma eq_map_getD {l : List α} (h : l.length = n) (d : α) : l = (List.range n).map (l.getD · d) := by
  subst h
  refine List.ext_getElem (by simp) fun i hi _ => ?_
  simp [hi]

/-- The segments of a text that parses are those of the key. -/
lemma splitOn_of_parse {k : Key} (h : parse s = .ok k) : s.splitOn '/' = k.segments := by
  unfold parse at h
  generalize s.splitOn '/' = parts at h
  have h2 : parts.length = 2 → parts = [parts.getD 0 [], parts.getD 1 []] := fun h => eq_map_getD h []
  have h3 : parts.length = 3 → parts = [parts.getD 0 [], parts.getD 1 [], parts.getD 2 []] :=
    fun h => eq_map_getD h []
  have h4 : parts.length = 4 → parts = [parts.getD 0 [], parts.getD 1 [], parts.getD 2 [], parts.getD 3 []] :=
    fun h => eq_map_getD h []
  have h5 : parts.length = 5 → parts =
      [parts.getD 0 [], parts.getD 1 [], parts.getD 2 [], parts.getD 3 [], parts.getD 4 []] :=
    fun h => eq_map_getD h []
  -- a branch for each first segment, which checks the number of the others and reads them
  simp only [ite_eq_iff, bind_eq_ok, seg_eq_ok, field_eq_ok, kind_bind_eq_ok, Except.ok.injEq, reduceCtorEq,
    and_false, or_false, Prod.exists, splitOnce_eq_some] at h
  rcases h with h | ⟨-, h | ⟨-, h | ⟨-, h | ⟨-, h | ⟨-, h | ⟨-, h | ⟨-, h | ⟨-, h | ⟨-, h⟩⟩⟩⟩⟩⟩⟩⟩⟩
  all_goals grind [Key.segments, eq_hex16, eq_hex32, eq_hex64, eq_hex_of_hexDecode, eq_of_fromChar]

/-- **Only the text of a key reads as it.** -/
theorem fmt_of_parse {k : Key} (h : parse s = .ok k) : k.fmt = s := by
  rw [fmt_eq_intercalate, ← splitOn_of_parse h]
  exact List.intercalate_splitOn '/'

end Keys
end StowQ
