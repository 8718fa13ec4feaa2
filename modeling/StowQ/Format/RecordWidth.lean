import StowQ.Format.Codec
import StowQ.Format.Width

/-!
# Records and the width of `usize`

The direct decoder casts the lengths of strings to `usize`; counts stay in 64 bits.  Every one of its readers on
a 32-bit target accepts what it accepts on a 64-bit target once the lengths of strings are reduced
(`narrows_envelope`).  A length that exceeds 32 bits is then read as a smaller one, and input that a 64-bit
target refuses may be taken.  `decoding_width_iff` says for which inputs decoding does not depend on the width,
for values and for records; `width_matters` is one for which it does.
-/

namespace StowQ
namespace Format

open Data Cbor

/-! ## Readers of items -/

lemma heads_readHead : Heads readHead where
  reads hmajor arg := reads_liftCbor (Value.reads_head hmajor arg)
  inverts h := head_eq_ok (liftCbor_eq_ok.mp h)

lemma takes_liftCbor : Takes fun n => liftCbor (take n) where
  reads _ := reads_liftCbor (Value.reads_take rfl)
  inverts h := take_eq_ok (liftCbor_eq_ok.mp h)

/-- Where strings are refused, nothing depends on the width. -/
lemma after_same {α : Type} {f : UInt8 → UInt64 → Parser α}
    (hstring : ∀ major, isString major = true → ∃ e, ∀ arg, f major arg = throw e)
    (hplain : ∀ major arg, Narrows isString (f major arg) (f major arg)) (major : UInt8) :
    After isString major (f major) (f major) := by
  by_cases h : isString major = true
  · obtain ⟨e, he⟩ := hstring major h
    rw [show f major = fun _ => throw e from funext he]
    exact .throw fun _ => e
  · have hfalse : isString major = false := by simpa using h
    exact .plain hfalse hfalse (hplain major)

lemma narrows_uintItem (e : RecordError) : Narrows isString (uintItem e) (uintItem e) := by
  have hafter := after_same (f := fun major v => if major ≠ 0 then throw e else pure v) (fun major h => ⟨e, fun arg => ?_⟩)
    fun major arg => ?_
  · exact .headed heads_readHead hafter
  · rw [if_pos (by rintro rfl; cases h)]
  · split_ifs
    · exact .throw _ _
    · exact .pure _

lemma narrows_bytesItem (e : RecordError) : Narrows isString (bytesItem 32 e) (bytesItem 64 e) := by
  refine .headed (f := fun major len => if major ≠ 2 then throw e else liftCbor (take (asUsize 32 len)))
    (g := fun major len => if major ≠ 2 then throw e else liftCbor (take (asUsize 64 len))) heads_readHead fun major => ?_
  by_cases h : major = 2
  · simp only [ne_eq, h, not_true_eq_false, if_false]
    exact .bytes takes_liftCbor rfl rfl
  · simp only [ne_eq, h, not_false_eq_true, if_true]
    exact .throw fun _ => e

lemma narrows_readUint : Narrows isString readUint readUint := narrows_uintItem _

lemma narrows_readBool : Narrows isString readBool readBool := by
  have hafter := after_same (f := fun major v => if major = 7 ∧ v = 20 then pure false
    else if major = 7 ∧ v = 21 then pure true else throw (.field "bool")) (fun major h => ⟨.field "bool", fun arg => ?_⟩)
    fun major arg => ?_
  · exact .headed heads_readHead hafter
  · have hne : major ≠ 7 := by
      rintro rfl
      cases h
    rw [if_neg (fun hm => hne hm.1), if_neg (fun hm => hne hm.1)]
  · split_ifs
    · exact .pure _
    · exact .pure _
    · exact .throw _ _

/-- The text of bytes that were read. -/
def textOf (b : Bytes) : Parser Str :=
  match fromUtf8 b with
  | some t => pure t
  | none => throw (.cbor .invalidUtf8)

lemma narrows_textOf (b : Bytes) : Narrows isString (textOf b) (textOf b) := by
  unfold textOf
  cases fromUtf8 b with
  | some t => exact .pure t
  | none => exact .throw _ _

lemma narrows_readText : Narrows isString (readBorrowedText 32) (readBorrowedText 64) := by
  refine .headed
    (f := fun major len => if major ≠ 3 then throw (.field "text") else liftCbor (take (asUsize 32 len)) >>= textOf)
    (g := fun major len => if major ≠ 3 then throw (.field "text") else liftCbor (take (asUsize 64 len)) >>= textOf)
    heads_readHead fun major => ?_
  by_cases h : major = 3
  · simp only [ne_eq, h, not_true_eq_false, if_false]
    exact .string takes_liftCbor rfl rfl narrows_textOf
  · simp only [ne_eq, h, not_false_eq_true, if_true]
    exact .throw fun _ => _

lemma narrows_readFixed (n : Nat) : Narrows isString (readFixed 32 n) (readFixed 64 n) := by
  refine (narrows_bytesItem _).bind fun b => ?_
  unfold fixed
  split_ifs
  · exact .pure _
  · exact .throw _ _

lemma narrows_require {α β : Type} {name : Str} {v : Option α} {f g : α → Parser β}
    (h : ∀ a, Narrows isString (f a) (g a)) : Narrows isString (require name v >>= f) (require name v >>= g) := by
  cases v with
  | some a => exact (Narrows.pure a).bind h
  | none => exact (Narrows.throw _ _).bind h

/-! ## Field maps -/

/-- Two tables with the same names, whose readers correspond. -/
def Tables {σ : Type} (t1 t2 : Table σ) : Prop :=
  List.Forall₂ (fun e1 e2 => e1.1 = e2.1 ∧ ∀ s, Narrows isString (e1.2 s) (e2.2 s)) t1 t2

section Maps

variable {σ : Type} {t1 t2 : Table σ}

lemma Tables.nil : Tables ([] : Table σ) [] := List.Forall₂.nil

lemma Tables.cons {name : Str} {r1 r2 : σ → Parser σ} (h : ∀ s, Narrows isString (r1 s) (r2 s))
    (htail : Tables t1 t2) : Tables ((name, r1) :: t1) ((name, r2) :: t2) := List.Forall₂.cons ⟨rfl, h⟩ htail

lemma Tables.read {α : Type} {p q : Parser α} {name : Str} {upd : σ → α → σ} (h : Narrows isString p q)
    (htail : Tables t1 t2) : Tables ((name, fun s => do pure (upd s (← p))) :: t1)
      ((name, fun s => do pure (upd s (← q))) :: t2) := .cons (fun _ => h.map) htail

lemma Tables.tablePos (h : Tables t1 t2) (key : Str) :
    (tablePos t1 key = none ∧ tablePos t2 key = none) ∨ ∃ pos r1 r2, tablePos t1 key = some (pos, r1) ∧
      tablePos t2 key = some (pos, r2) ∧ ∀ s, Narrows isString (r1 s) (r2 s) := by
  induction h with
  | nil => exact .inl ⟨rfl, rfl⟩
  | @cons e1 e2 t1 t2 he htail ih =>
    obtain ⟨k1, r1⟩ := e1
    obtain ⟨k2, r2⟩ := e2
    obtain ⟨rfl, hr⟩ := he
    simp only [Format.tablePos]
    by_cases hk : k1 = key
    · simp only [if_pos hk]
      exact .inr ⟨0, r1, r2, rfl, rfl, hr⟩
    · simp only [if_neg hk]
      obtain ⟨h1, h2⟩ | ⟨pos, s1, s2, h1, h2, hs⟩ := ih
      · exact .inl ⟨by rw [h1]; rfl, by rw [h2]; rfl⟩
      · exact .inr ⟨pos + 1, s1, s2, by rw [h1]; rfl, by rw [h2]; rfl, hs⟩

lemma narrows_readPairs (h : Tables t1 t2) (n : Nat) (prev : Option Nat) (s : σ) :
    Narrows isString (readPairs 32 t1 n prev s) (readPairs 64 t2 n prev s) := by
  induction n generalizing prev s with
  | zero => exact .pure s
  | succ n ih =>
    refine narrows_readText.bind fun key => ?_
    obtain ⟨h1, h2⟩ | ⟨pos, r1, r2, h1, h2, hr⟩ := h.tablePos key
    · rw [h1, h2]
      exact .throw _ _
    · rw [h1, h2]
      exact (Narrows.lift _).bind fun _ => (hr s).bind fun s' => ih (some pos) s'

lemma narrows_readMap (h : Tables t1 t2) (e : RecordError) (s : σ) :
    Narrows isString (readMap 32 t1 e s) (readMap 64 t2 e s) := by
  refine .headed (f := fun major n => if major ≠ 5 then throw e else readPairs 32 t1 n.toNat none s)
    (g := fun major n => if major ≠ 5 then throw e else readPairs 64 t2 n.toNat none s) heads_readHead fun major => ?_
  by_cases hm : major = 5
  · simp only [ne_eq, hm, not_true_eq_false, if_false]
    exact .plain rfl rfl fun n => narrows_readPairs h _ _ _
  · simp only [ne_eq, hm, not_false_eq_true, if_true]
    exact .throw fun _ => e

end Maps

/-! ## Record types -/

lemma narrows_readFormat : Narrows isString (readFormat 32) (readFormat 64) := by
  have htables : Tables formatKeys formatKeys := by
    refine .cons (fun d => narrows_readUint.bind fun v => ?_) <| .read narrows_readUint <|
      .read narrows_readUint <| .read narrows_readUint <| .read narrows_readUint <| .read narrows_readUint .nil
    split_ifs
    · exact .throw _ _
    · exact .pure _
  exact (narrows_readMap htables _ _).bind fun d => narrows_require fun _ => narrows_require fun _ =>
    narrows_require fun _ => narrows_require fun _ => narrows_require fun _ => narrows_require fun _ => .pure _

lemma narrows_readJob : Narrows isString (readJob 32) (readJob 64) := by
  have htables : Tables (jobKeys 32) (jobKeys 64) := .read (narrows_readFixed 16) <| .read narrows_readText <|
    .read narrows_readText <| .read narrows_readUint <| .read (narrows_readFixed 32) <| .read (narrows_bytesItem _) <|
    .read narrows_readUint <| .read narrows_readUint <| .read narrows_readUint .nil
  refine (narrows_readMap htables _ _).bind fun d => ?_
  split_ifs
  · exact .throw _ _
  · exact narrows_require fun _ => narrows_require fun _ => narrows_require fun _ => narrows_require fun _ =>
      narrows_require fun _ => narrows_require fun _ => .pure _

lemma narrows_readBasis : Narrows isString (readBasis 32) (readBasis 64) := by
  have htables : Tables basisKeys basisKeys :=
    .read narrows_readUint <| .read narrows_readUint <| .read narrows_readUint .nil
  exact (narrows_readMap htables _ _).bind fun d => narrows_require fun _ => narrows_require fun _ =>
    narrows_require fun _ => .pure _

lemma narrows_readClaim : Narrows isString (readClaim 32) (readClaim 64) := by
  have htables : Tables (claimKeys 32) (claimKeys 64) := .read narrows_readBasis <| .read (narrows_readFixed 16) <|
    .read narrows_readUint <| .read narrows_readText <| .read narrows_readUint <| .read (narrows_readFixed 16) <|
    .read narrows_readBool <| .read (narrows_readFixed 16) <| .read narrows_readUint .nil
  refine (narrows_readMap htables _ _).bind fun d => narrows_require fun continuation => ?_
  split_ifs
  · exact .throw _ _
  · exact narrows_require fun _ => narrows_require fun _ => narrows_require fun _ => narrows_require fun _ =>
      narrows_require fun _ => narrows_require fun _ => .pure _

lemma narrows_readFail : Narrows isString (readFail 32) (readFail 64) := by
  have htables : Tables (failKeys 32) (failKeys 64) := .read (narrows_readFixed 16) <| .read narrows_readUint <|
    .read narrows_readUint <| .read narrows_readUint <| .read narrows_readUint .nil
  exact (narrows_readMap htables _ _).bind fun d => narrows_require fun _ => narrows_require fun _ =>
    narrows_require fun _ => narrows_require fun _ => narrows_require fun _ => .pure _

lemma narrows_readDigests (n : Nat) : Narrows isString (readDigests 32 n) (readDigests 64 n) := by
  induction n with
  | zero => exact .pure []
  | succ n ih => exact (narrows_readFixed 32).bind fun d => ih.bind fun rest => .pure (d :: rest)

lemma narrows_readOutputDigests : Narrows isString (readOutputDigests 32) (readOutputDigests 64) := by
  refine .headed
    (f := fun major n => if major ≠ 4 then throw (.field "output_digests")
      else if n = 0 then throw (.field "output_digests") else readDigests 32 n.toNat)
    (g := fun major n => if major ≠ 4 then throw (.field "output_digests")
      else if n = 0 then throw (.field "output_digests") else readDigests 64 n.toNat) heads_readHead fun major => ?_
  by_cases hm : major = 4
  · simp only [ne_eq, hm, not_true_eq_false, if_false]
    refine .plain rfl rfl fun n => ?_
    split_ifs
    · exact .throw _ _
    · exact narrows_readDigests _
  · simp only [ne_eq, hm, not_false_eq_true, if_true]
    exact .throw fun _ => _

lemma narrows_readReceipt : Narrows isString (readReceipt 32) (readReceipt 64) := by
  have htables : Tables (receiptKeys 32) (receiptKeys 64) := .read (narrows_readFixed 16) <| .read narrows_readUint <|
    .read narrows_readText <| .read narrows_readUint <| .read (narrows_readFixed 16) <|
    .read narrows_readOutputDigests <| .read (narrows_readFixed 32) .nil
  exact (narrows_readMap htables _ _).bind fun d => narrows_require fun _ => narrows_require fun _ =>
    narrows_require fun _ => narrows_require fun _ => narrows_require fun _ => narrows_require fun _ => .pure _

lemma narrows_readDead : Narrows isString (readDead 32) (readDead 64) := by
  have htables : Tables (deadKeys 32) (deadKeys 64) := .read (narrows_readFixed 16) <| .read narrows_readUint <|
    .read narrows_readUint <| .read narrows_readUint .nil
  exact (narrows_readMap htables _ _).bind fun d => narrows_require fun _ => narrows_require fun _ =>
    narrows_require fun _ => narrows_require fun _ => .pure _

lemma narrows_readWatermark : Narrows isString (readWatermark 32) (readWatermark 64) := by
  have htables : Tables watermarkKeys watermarkKeys := .read narrows_readUint <| .read narrows_readUint .nil
  exact (narrows_readMap htables _ _).bind fun d => narrows_require fun _ => narrows_require fun _ => .pure _

lemma narrows_readQuarantine : Narrows isString (readQuarantine 32) (readQuarantine 64) := by
  have htables : Tables (quarantineKeys 32) (quarantineKeys 64) := .read (narrows_readFixed 16) <|
    .read narrows_readUint <| .read narrows_readUint <| .read narrows_readText <| .read narrows_readUint .nil
  exact (narrows_readMap htables _ _).bind fun d => narrows_require fun _ => narrows_require fun _ =>
    narrows_require fun _ => narrows_require fun _ => .pure _

lemma narrows_parseFields (t : UInt64) : Narrows isString (parseFields 32 t) (parseFields 64 t) := by
  unfold parseFields
  split_ifs
  · exact narrows_readFormat.map
  · exact narrows_readJob.map
  · exact narrows_readClaim.map
  · exact narrows_readFail.map
  · exact narrows_readReceipt.map
  · exact narrows_readDead.map
  · exact narrows_readWatermark.map
  · exact narrows_readQuarantine.map
  · exact .throw _ _

/-! ## The envelope -/

section Envelope

variable [Sha256] (bits : Nat) (body found : Bytes) (queueId : ByteArr 16) (keyTag : ByteArr 8)

/-- The checks of the envelope, and the fields. -/
def checkedFields (magicItem verMajor verMinor : UInt64) (qid tag : Bytes) (rtype : UInt64) : Parser Record :=
  if magicItem ≠ magic then throw .magic
  else if verMajor ≠ major ∨ verMinor ≠ minor then throw (.version verMajor verMinor)
  else
    match typeName rtype with
    | none => throw .type
    | some typeStr =>
      if (recordDigest typeStr body).toList ≠ found.drop 2 then throw .digest
      else if qid ≠ queueId.toList ∨ tag ≠ keyTag.toList then throw (.field "queue binding")
      else parseFields bits rtype

/-- The items of the array behind its head. -/
def envelopeItems : Parser Record :=
  envUint >>= fun magicItem => envUint >>= fun verMajor => envUint >>= fun verMinor =>
    envBytes bits >>= fun qid => envBytes bits >>= fun tag => envUint >>= fun rtype =>
      checkedFields bits body found queueId keyTag magicItem verMajor verMinor qid tag rtype

lemma decodeEnvelope_eq : decodeEnvelope bits body found queueId keyTag =
    readHead >>= fun x => if x.1 ≠ 4 ∨ x.2 ≠ 7 then throw .envelope
      else envelopeItems bits body found queueId keyTag := rfl

lemma narrows_envelopeItems : Narrows isString (envelopeItems 32 body found queueId keyTag)
    (envelopeItems 64 body found queueId keyTag) := by
  refine (narrows_uintItem _).bind fun magicItem => (narrows_uintItem _).bind fun verMajor =>
    (narrows_uintItem _).bind fun verMinor => (narrows_bytesItem _).bind fun qid => (narrows_bytesItem _).bind fun tag =>
    (narrows_uintItem _).bind fun rtype => ?_
  unfold checkedFields
  cases typeName rtype with
  | none =>
    dsimp only
    split_ifs
    · exact .throw _ _
    · exact .throw _ _
    · exact .throw _ _
  | some typeStr =>
    dsimp only
    split_ifs
    · exact .throw _ _
    · exact .throw _ _
    · exact .throw _ _
    · exact .throw _ _
    · exact narrows_parseFields rtype

/-- **The direct decoder on both targets.** -/
theorem narrows_envelope : Narrows isString (decodeEnvelope 32 body found queueId keyTag)
    (decodeEnvelope 64 body found queueId keyTag) := by
  rw [decodeEnvelope_eq, decodeEnvelope_eq]
  refine .headed
    (f := fun m n => if m ≠ 4 ∨ n ≠ 7 then throw .envelope else envelopeItems 32 body found queueId keyTag)
    (g := fun m n => if m ≠ 4 ∨ n ≠ 7 then throw .envelope else envelopeItems 64 body found queueId keyTag)
    heads_readHead fun m => ?_
  by_cases hm : m = 4
  · subst hm
    refine .plain rfl rfl fun n => ?_
    split_ifs
    · exact .throw _ _
    · exact narrows_envelopeItems body found queueId keyTag
  · simp only [ne_eq, hm, not_false_eq_true, true_or, if_true]
    exact .throw fun _ => _

end Envelope

/-! ## Records -/

section Records

variable [Sha256] {bits : Nat} {data : Bytes} {queueId : ByteArr 16} {keyTag : ByteArr 8} {r : Record}

/-- **What a 32-bit target accepts** is a record with some lengths of strings overstated. -/
theorem decodeRecord_narrow (hlen : data.length < 2 ^ 32) : decodeRecord 32 data queueId keyTag = .ok r ↔
    ∃ ts, (∀ t ∈ ts, t.Fitting) ∧ data = write ts ++ trailer r (write ts) ∧
      write (lower isString ts) = encodeBody r queueId keyTag ∧ r.WellFormed := by
  rw [decodeRecord_eq_ok]
  constructor
  · rintro ⟨body, found, rfl, -, hmark, henvelope⟩
    obtain ⟨ts, hts, hbody, hread⟩ := (narrows_envelope body found queueId keyTag).lowers henvelope
    obtain ⟨hwrite, hwell, hdigest⟩ := decodeEnvelope_eq_ok.mp (hread [])
    rw [List.append_nil] at hbody
    rw [List.append_nil, List.append_nil] at hwrite
    refine ⟨ts, hts, ?_, hwrite, hwell⟩
    rw [← hbody, ← eq_trailer hmark hdigest]
  · rintro ⟨ts, hts, rfl, hwrite, hwell⟩
    refine ⟨write ts, trailer r (write ts), rfl, trailer_length r _, rfl, ?_⟩
    have hwide : decodeEnvelope 64 (write ts) (trailer r (write ts)) queueId keyTag (encodeBody r queueId keyTag) =
      .ok (r, []) := decodeEnvelope_eq_ok.mpr ⟨(List.append_nil _).symm, hwell, rfl⟩
    rw [← hwrite] at hwide
    have hshort : (write (lower isString ts)).length < 2 ^ 32 := by
      have hle := length_lower_le isString ts
      rw [List.length_append] at hlen
      omega
    obtain ⟨us, hus, heq, -, hread⟩ := (narrows_envelope _ _ queueId keyTag).raises hshort hwide
    rw [List.append_nil] at heq
    obtain rfl := write_inj (fitting_lower (fun _ hm => hm) hts) hus heq
    have hwhole := hread ts hts rfl []
    rwa [List.append_nil] at hwhole

lemma decodeRecord_of_wide (hlen : data.length < 2 ^ 32) (h : decodeRecord 64 data queueId keyTag = .ok r) :
    decodeRecord 32 data queueId keyTag = .ok r := by
  obtain ⟨body, found, rfl, hfound, hmark, henvelope⟩ := decodeRecord_eq_ok.mp h
  rw [List.length_append] at hlen
  obtain ⟨ts, hts, hbody, hsame, hread⟩ := (narrows_envelope body found queueId keyTag).raises (by omega) henvelope
  refine decodeRecord_eq_ok.mpr ⟨body, found, rfl, hfound, hmark, ?_⟩
  have hwhole := hread ts hts hsame []
  rwa [← hbody] at hwhole

/-- A canonical record in which a string length of `2 ^ 32` or more stands for its remainder, with the digest of
the bytes as they stand. -/
def Overstated (data : Bytes) (queueId : ByteArr 16) (keyTag : ByteArr 8) : Prop :=
  ∃ ts r, (∀ t ∈ ts, t.Fitting) ∧ data = write ts ++ trailer r (write ts) ∧ lower isString ts ≠ ts ∧
    write (lower isString ts) = encodeBody r queueId keyTag ∧ r.WellFormed

lemma decodeRecord_width_iff (hlen : data.length < 2 ^ 32) :
    (∀ r, decodeRecord 32 data queueId keyTag = .ok r ↔ decodeRecord 64 data queueId keyTag = .ok r) ↔
      ¬ Overstated data queueId keyTag := by
  constructor
  · rintro hagree ⟨ts, r, hts, hdata, hne, hwrite, hwell⟩
    have hnarrow := (decodeRecord_narrow hlen).mpr ⟨ts, hts, hdata, hwrite, hwell⟩
    obtain ⟨heq, -⟩ := eq_encode_of_decode ((hagree r).mp hnarrow)
    -- both trailers are 34 bytes long
    rw [hdata, encode_eq_trailer] at heq
    obtain ⟨hbody, -⟩ := List.append_inj' heq (by rw [trailer_length, trailer_length])
    exact hne (write_inj (fitting_lower (fun _ hm => hm) hts) hts (hwrite.trans hbody.symm))
  · intro hnot r
    refine ⟨fun h => ?_, decodeRecord_of_wide hlen⟩
    obtain ⟨ts, hts, hdata, hwrite, hwell⟩ := (decodeRecord_narrow hlen).mp h
    by_cases hsame : lower isString ts = ts
    · rw [hsame] at hwrite
      rw [hdata, hwrite, ← encode_eq_trailer]
      exact decode_encode r hwell queueId keyTag
    · exact absurd ⟨ts, r, hts, hdata, hsame, hwrite, hwell⟩ hnot

/-- **Decoding and the width of `usize`**: a value and a record decode alike on a 32-bit and on a 64-bit target if
and only if the input is not a canonical one with an overstated length. -/
theorem decoding_width_iff (data : Bytes) (hlen : data.length < 2 ^ 32) :
    ((∀ v, Value.decode 32 data = .ok v ↔ Value.decode 64 data = .ok v) ↔ ¬ Value.Overstated data) ∧
    ∀ queueId keyTag,
      (∀ r, decodeRecord 32 data queueId keyTag = .ok r ↔ decodeRecord 64 data queueId keyTag = .ok r) ↔
        ¬ Overstated data queueId keyTag :=
  ⟨Value.decode_width_iff hlen, fun _ _ => decodeRecord_width_iff hlen⟩

end Records

/-! ## A length beyond 32 bits -/

/-- The head of an array of `2 ^ 32` items, and no item. -/
def wideArray : Bytes := pushHead 4 0x100000000

/-- A watermark record whose queue id announces `2 ^ 32` bytes more than it has. -/
def wideRecord (queueId : ByteArr 16) (keyTag : ByteArr 8) : Bytes :=
  pushHead 4 7 ++ pushHead 0 magic ++ pushHead 0 major ++ pushHead 0 minor ++
  (pushHead 2 0x100000010 ++ queueId.toList) ++ putBytes keyTag.toList ++ pushHead 0 7 ++
  (pushHead 5 2 ++ putKey Field.sequence 1 ++ putKey Field.highestObservedWallBucket 7) ++
  [0x58, 32] ++ List.replicate 32 0

/-- The array is empty on a 32-bit target, and the record is accepted there; a 64-bit target refuses both. -/
theorem width_matters : ∃ (_ : Sha256) (queueId : ByteArr 16) (keyTag : ByteArr 8),
    Value.decode 32 wideArray = .ok (.array []) ∧ Value.decode 64 wideArray = .error .unexpectedEof ∧
    decodeRecord 32 (wideRecord queueId keyTag) queueId keyTag = .ok (.watermark ⟨7, 1⟩) ∧
    decodeRecord 64 (wideRecord queueId keyTag) queueId keyTag = .error (.cbor .unexpectedEof) := by
  let hash := Sha256.zero
  let queueId : ByteArr 16 := List.Vector.replicate 16 1
  let keyTag : ByteArr 8 := List.Vector.replicate 8 2
  exact ⟨hash, queueId, keyTag, rfl, rfl, by decide +kernel, by decide +kernel⟩

/-- That record overstates a length, and the record as it is written does not. -/
theorem decoding_width_record : ∃ (_ : Sha256) (queueId : ByteArr 16) (keyTag : ByteArr 8),
    Overstated (wideRecord queueId keyTag) queueId keyTag ∧
      ¬ Overstated (encode (.watermark ⟨7, 1⟩) queueId keyTag) queueId keyTag := by
  let hash := Sha256.zero
  let queueId : ByteArr 16 := List.Vector.replicate 16 1
  let keyTag : ByteArr 8 := List.Vector.replicate 8 2
  refine ⟨hash, queueId, keyTag, ?_, ?_⟩
  · by_contra hnot
    have hnarrow : decodeRecord 32 (wideRecord queueId keyTag) queueId keyTag = .ok (.watermark ⟨7, 1⟩) := by decide +kernel
    have hwide : decodeRecord 64 (wideRecord queueId keyTag) queueId keyTag = .error (.cbor .unexpectedEof) := by
      decide +kernel
    have hsame := (((decoding_width_iff _ (by decide +kernel)).2 queueId keyTag).mpr hnot _).mp hnarrow
    cases hwide.symm.trans hsame
  · refine ((decoding_width_iff _ (by decide +kernel)).2 queueId keyTag).mp fun r => ?_
    have hsame : decodeRecord 32 (encode (.watermark ⟨7, 1⟩) queueId keyTag) queueId keyTag =
        decodeRecord 64 (encode (.watermark ⟨7, 1⟩) queueId keyTag) queueId keyTag := by decide +kernel
    rw [hsame]

end Format
end StowQ
