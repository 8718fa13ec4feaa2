import StowQ.Format.FieldMaps

/-!
# The two codecs agree

The repository has each codec twice: the direct one, which streams bytes, and the
value path, which builds a tree and sorts its maps, and which the tests compare it
with.  The direct encoder writes what the value path writes (`encode_eq_valueEncode`):
the value path lists the fields of a record in another order, and sorting by the
encoded key brings them into the order of the tables.  The direct decoder accepts
what the value path accepts, with the same record (`decoders_agree`): each accepts
exactly the encodings of the records that have one.  Lengths are read as on a 64-bit
target; on a narrower one the value path would lose their high half
(`overstated_differs`).
-/

namespace StowQ
namespace Format

open Data Cbor Value

variable {n : Nat} {r : Record} {v : Value}

/-! ## The two encoders -/

lemma sorted_entries (r : Record) : (keys (pairsOf r.entries)).Pairwise (· < ·) :=
  keys_pairsOf (ascending_entries r)

lemma encode_basis (b : ClaimBasis) : Value.encode (.map (pairsOf (basisEntries b))) =
    pushHead 5 3 ++ putKey Field.prevDurationNs b.prevDurationNs ++
      putKey Field.prevStoreTimeNs b.prevStoreTimeNs ++ putKey Field.observedWatermarkNs b.observedWatermarkNs := by
  rw [encode_map, ordered_eq_self (keys_pairsOf (ascending_basis b))]
  simp [basisEntries, putKey]

/-- The fields in table order are what the direct encoder writes. -/
lemma encode_entries (r : Record) : Value.encode (.map (pairsOf r.entries)) = writeFields r := by
  rw [encode_map, ordered_eq_self (sorted_entries r)]
  cases r with
  | format r => simp [Record.entries, writeFields, putKey]
  | job r =>
    obtain ⟨_, _, _, _, delay, _, _, inline, key⟩ := r
    cases delay <;> cases inline <;> cases key <;>
      simp [Record.entries, writeFields, putKey, putKeyBytes, putKeyText, putOpt, countSome]
  | claim r =>
    obtain ⟨_, _, _, _, _, _, _, basis, token⟩ := r
    cases basis <;> cases token <;>
      simp [Record.entries, writeFields, putKey, putKeyBytes, putKeyText, putKeyBool, putOpt, countSome, encode_basis]
  | fail r => simp [Record.entries, writeFields, putKey, putKeyBytes]
  | receipt r =>
    obtain ⟨_, _, _, _, _, _, outputs⟩ := r
    cases outputs <;>
      simp [Record.entries, writeFields, putKey, putKeyBytes, putKeyText, encode_array, List.flatMap_map]
  | dead r => simp [Record.entries, writeFields, putKey, putKeyBytes]
  | watermark r => simp [Record.entries, writeFields, putKey]
  | quarantine r =>
    obtain ⟨_, _, _, _, detail⟩ := r
    cases detail <;>
      simp [Record.entries, writeFields, putKey, putKeyBytes, putKeyText, putOpt, countSome]

lemma encode_basis_fields (b : ClaimBasis) :
    Value.encode (.map [kvU64 Field.prevStoreTimeNs b.prevStoreTimeNs, kvU64 Field.prevDurationNs b.prevDurationNs,
      kvU64 Field.observedWatermarkNs b.observedWatermarkNs]) =
    Value.encode (.map (pairsOf (basisEntries b))) :=
  encode_map_of_perm (.swap _ _ _) (keys_pairsOf (ascending_basis b))

/-- The value path lists the fields in another order. -/
lemma decorate_fields (r : Record) : (decorate r.fields).Perm (decorate (pairsOf r.entries)) := by
  rw [decorate_eq, decorate_eq, List.perm_iff_count]
  intro p
  cases r with
  | claim r =>
    obtain ⟨_, _, _, _, _, _, _, basis, token⟩ := r
    cases basis <;> cases token <;>
      simp only [Record.fields, Record.entries, pairsOf_cons_some, pairsOf_cons_none, pairsOf_nil, kvOpt, kvBytes,
        kvText, kvBool, Option.map_some, Option.map_none, Option.toList_some, Option.toList_none, List.cons_append,
        List.nil_append, List.append_nil, List.map_cons, List.map_nil, List.count_cons, List.count_nil,
        encode_basis_fields] <;>
      simp only [kvU64] <;>
      ac_rfl
  | receipt r =>
    obtain ⟨_, _, _, _, _, _, outputs⟩ := r
    cases outputs <;>
      simp only [Record.fields, Record.entries, pairsOf_cons_some, pairsOf_cons_none, pairsOf_nil, kvU64, kvBytes,
        kvText, List.isEmpty_nil, List.isEmpty_cons, if_true, Bool.false_eq_true, if_false, List.cons_append,
        List.nil_append, List.append_nil, List.map_cons, List.map_nil, List.count_cons, List.count_nil] <;>
      ac_rfl
  | format r | job r | fail r | dead r | watermark r | quarantine r =>
    simp only [Record.fields, Record.entries, pairsOf_cons, pairsOf_nil, kvU64, kvBytes, kvText, kvOpt,
      Option.map_map, Function.comp_def, Option.map_some, Option.toList_some, List.map_append, List.count_append,
      List.map_cons, List.map_nil, List.count_cons, List.count_nil]
    ac_rfl

lemma encode_fields (r : Record) : Value.encode (.map r.fields) = writeFields r :=
  (encode_map_of_perm (decorate_fields r) (sorted_entries r)).trans (encode_entries r)

/-- The array of either encoder, with the fields in any order that writes the same. -/
lemma encode_envelope {fields : List (Value × Value)} (h : Value.encode (.map fields) = writeFields r)
    (queueId : ByteArr 16) (keyTag : ByteArr 8) :
    Value.encode (envelope r queueId keyTag fields) = encodeBody r queueId keyTag := by
  simp [envelope, encode_array, encodeBody, h]

/-- **The direct encoder writes the canonical bytes** of the value path, whatever the record: streaming the fields
in table order gives what building the tree, sorting its maps and encoding it gives. -/
theorem encode_eq_valueEncode [Sha256] (r : Record) (queueId : ByteArr 16) (keyTag : ByteArr 8) :
    encode r queueId keyTag = valueEncode r queueId keyTag := by
  unfold valueEncode
  rw [encode_envelope (encode_fields r)]
  rfl

/-! ## The two decoders -/

/-- What the value path requires of the decoded array. -/
lemma openEnvelope_eq_ok [Sha256] {body found : Bytes} {queueId : ByteArr 16} {keyTag : ByteArr 8} :
    openEnvelope body found queueId keyTag v = .ok r ↔ ∃ m rtype typeStr,
      v = .array [.uint magic, .uint major, .uint minor, .bytes queueId.toList, .bytes keyTag.toList, .uint rtype,
        .map m] ∧ typeName rtype = some typeStr ∧ (recordDigest typeStr body).toList = found.drop 2 ∧
      fromFields rtype m = .ok r := by
  constructor
  · intro h
    unfold openEnvelope at h
    split at h
    · next magicItem verMajor verMinor qid tag rtype m =>
        cases htype : typeName rtype with
        | none =>
          rw [htype] at h
          simp only [except_check_eq_ok] at h
          cases h.2.2
        | some typeStr =>
          rw [htype] at h
          simp only [except_check_eq_ok, not_or, not_not, ne_eq] at h
          obtain ⟨rfl, ⟨rfl, rfl⟩, hdigest, ⟨rfl, rfl⟩, hfields⟩ := h
          exact ⟨m, rtype, typeStr, rfl, htype, hdigest, hfields⟩
    · cases h
  · rintro ⟨m, rtype, typeStr, rfl, htype, hdigest, hfields⟩
    unfold openEnvelope
    simp only [ne_eq, not_true_eq_false, or_self, if_false, htype, hdigest, hfields]

lemma accepted_of_array {items : List Value} (h : Accepted (n + 1) (.array items)) (hv : v ∈ items) :
    Accepted n v :=
  ⟨h.nests v hv, (all_array.mp h.fits).2 v hv, (all_array.mp h.sorted).2 v hv⟩

lemma accepted_of_map {pairs : List (Value × Value)} (h : Accepted (n + 1) (.map pairs)) {p : Value × Value}
    (hp : p ∈ pairs) : Accepted n p.2 :=
  ⟨(h.nests p hp).2, ((all_map.mp h.fits).2 p hp).2, ((all_map.mp h.sorted).2 p hp).2⟩

lemma accepted_scalar_iff (hscalar : Scalar v) : Accepted (n + 1) v ↔ Short v :=
  ⟨fun h => (all_scalar hscalar).mp h.fits, accepted_scalar hscalar⟩

/-- A few fields with short names are acceptable exactly if each one present is. -/
lemma accepted_pairsOf {entries : List (Str × Option Value)} (hentries : Ascending (entries.map Prod.fst))
    (hcount : entries.length < 2 ^ 64) (hnames : ∀ name ∈ entries.map Prod.fst, (utf8 name).length < 2 ^ 64) :
    Accepted (n + 2) (.map (pairsOf entries)) ↔ ∀ e ∈ entries, ∀ v, e.2 = some v → Accepted (n + 1) v := by
  constructor
  · intro h e he v hv
    refine accepted_of_map h (p := (.text e.1, v)) (List.mem_filterMap.mpr ⟨e, he, ?_⟩)
    rw [hv]
    rfl
  · intro h
    refine accepted_map (lt_of_le_of_lt (List.length_filterMap_le _ _) hcount) (keys_pairsOf hentries) fun p hp => ?_
    obtain ⟨e, he, heq⟩ := List.mem_filterMap.mp hp
    obtain ⟨v, hv, rfl⟩ := Option.map_eq_some_iff.mp heq
    exact ⟨accepted_scalar trivial (hnames e.1 (List.mem_map_of_mem he)), h e he v hv⟩

lemma accepted_basis (b : ClaimBasis) : Accepted (n + 2) (.map (pairsOf (basisEntries b))) := by
  have hnames : ∀ name ∈ basisKeys.map Prod.fst, (utf8 name).length < 2 ^ 64 := by decide
  have huint : ∀ x : UInt64, Accepted (n + 1) (.uint x) := fun x => accepted_scalar trivial trivial
  refine (accepted_pairsOf (ascending_basis b) (show 3 < 2 ^ 64 by decide) hnames).mpr ?_
  simp [basisEntries, huint]

lemma short_names (r : Record) : ∀ name ∈ r.names, (utf8 name).length < 2 ^ 64 := by
  cases r with
  | format => exact (by decide : ∀ name ∈ formatKeys.map Prod.fst, (utf8 name).length < 2 ^ 64)
  | job => exact (by decide : ∀ name ∈ (jobKeys 64).map Prod.fst, (utf8 name).length < 2 ^ 64)
  | claim => exact (by decide : ∀ name ∈ (claimKeys 64).map Prod.fst, (utf8 name).length < 2 ^ 64)
  | fail => exact (by decide : ∀ name ∈ (failKeys 64).map Prod.fst, (utf8 name).length < 2 ^ 64)
  | receipt => exact (by decide : ∀ name ∈ (receiptKeys 64).map Prod.fst, (utf8 name).length < 2 ^ 64)
  | dead => exact (by decide : ∀ name ∈ (deadKeys 64).map Prod.fst, (utf8 name).length < 2 ^ 64)
  | watermark => exact (by decide : ∀ name ∈ watermarkKeys.map Prod.fst, (utf8 name).length < 2 ^ 64)
  | quarantine => exact (by decide : ∀ name ∈ (quarantineKeys 64).map Prod.fst, (utf8 name).length < 2 ^ 64)

lemma accepted_entries : Accepted (n + 2) (.map (pairsOf r.entries)) ↔
    ∀ e ∈ r.entries, ∀ v, e.2 = some v → Accepted (n + 1) v := by
  have hcount : r.entries.length < 2 ^ 64 := by cases r <;> simp [Record.entries]
  exact accepted_pairsOf (ascending_entries r) hcount (map_fst_entries r ▸ short_names r)

/-- The lengths in a record fit the wire exactly if the value path accepts its fields. -/
lemma wellFormed_iff : r.WellFormed ↔ r.Shaped ∧ Accepted (n + 3) (.map (pairsOf r.entries)) := by
  have huint : ∀ x : UInt64, Accepted (n + 2) (.uint x) := fun x => accepted_scalar trivial trivial
  have hbool : ∀ x : Bool, Accepted (n + 2) (.bool x) := fun x => accepted_scalar trivial trivial
  have hid : ∀ x : ByteArr 16, Accepted (n + 2) (.bytes x.toList) := fun x =>
    accepted_scalar trivial (show x.toList.length < 2 ^ 64 by rw [x.toList_length]; decide)
  have hdigest : ∀ x : Digest, Accepted (n + 2) (.bytes x.toList) := fun x =>
    accepted_scalar trivial (show x.toList.length < 2 ^ 64 by rw [x.toList_length]; decide)
  have htext : ∀ x : Str, Accepted (n + 2) (.text x) ↔ (utf8 x).length < 2 ^ 64 := fun x =>
    accepted_scalar_iff trivial
  have hbytes : ∀ x : Bytes, Accepted (n + 2) (.bytes x) ↔ x.length < 2 ^ 64 := fun x =>
    accepted_scalar_iff trivial
  rw [accepted_entries]
  cases r with
  | format r => simp [Record.WellFormed, Record.Shaped, Record.entries, huint]
  | job r =>
    have hfields : (∀ e ∈ Record.entries (.job r), ∀ v, e.2 = some v → Accepted (n + 2) v) ↔
        (∀ k, r.payloadKey = some k → (utf8 k).length < 2 ^ 64) ∧ (utf8 r.contentType).length < 2 ^ 64 ∧
          ∀ b, r.payloadInline = some b → b.length < 2 ^ 64 := by
      simp [Record.entries, huint, hid, hdigest, htext, hbytes]
    rw [hfields]
    constructor
    · exact fun h => ⟨h.exclusive, h.payloadKey, h.contentType, h.payloadInline⟩
    · rintro ⟨hexclusive, hkey, hcontent, hinline⟩
      exact ⟨hexclusive, hcontent, hinline, hkey⟩
  | claim r =>
    have hfields : (∀ e ∈ Record.entries (.claim r), ∀ v, e.2 = some v → Accepted (n + 2) v) ↔
        (utf8 r.workerId).length < 2 ^ 64 := by
      simp [Record.entries, huint, hbool, hid, htext, accepted_basis]
    rw [hfields]
    constructor
    · exact fun h => ⟨⟨h.basis, h.prevToken⟩, h.workerId⟩
    · rintro ⟨⟨hbasis, htoken⟩, hworker⟩
      exact ⟨hbasis, htoken, hworker⟩
  | fail r => simp [Record.WellFormed, Record.Shaped, Record.entries, huint, hid]
  | receipt r =>
    have houtputs : Accepted (n + 2) (.array (r.outputDigests.map fun d => .bytes d.toList)) ↔
        r.outputDigests.length < 2 ^ 64 := by
      constructor
      · intro h
        have hlen : (r.outputDigests.map fun d => Value.bytes d.toList).length < 2 ^ 64 := (all_array.mp h.fits).1
        rwa [List.length_map] at hlen
      · intro h
        refine accepted_array (by rwa [List.length_map]) fun v hv => ?_
        obtain ⟨d, -, rfl⟩ := List.mem_map.mp hv
        exact accepted_scalar trivial (show d.toList.length < 2 ^ 64 by rw [d.toList_length]; decide)
    have hfields : (∀ e ∈ Record.entries (.receipt r), ∀ v, e.2 = some v → Accepted (n + 2) v) ↔
        (utf8 r.workerId).length < 2 ^ 64 ∧ (r.outputDigests ≠ [] → r.outputDigests.length < 2 ^ 64) := by
      simp [Record.entries, huint, hid, hdigest, htext, houtputs]
    rw [hfields]
    constructor
    · exact fun h => ⟨trivial, h.workerId, fun _ => h.outputDigests⟩
    · rintro ⟨-, hworker, houts⟩
      refine ⟨hworker, ?_⟩
      cases hds : r.outputDigests with
      | nil => exact (by decide : 0 < 2 ^ 64)
      | cons d ds => exact hds ▸ houts (by rw [hds]; exact List.cons_ne_nil d ds)
  | dead r => simp [Record.WellFormed, Record.Shaped, Record.entries, huint, hid]
  | watermark r => simp [Record.WellFormed, Record.Shaped, Record.entries, huint]
  | quarantine r => simp [Record.WellFormed, Record.Shaped, Record.entries, huint, hid, htext]

/-- The array of a well-formed record nests within the depth limit. -/
lemma accepted_envelope (queueId : ByteArr 16) (keyTag : ByteArr 8)
    (hmap : Accepted 63 (.map (pairsOf r.entries))) :
    Accepted maxDepth (envelope r queueId keyTag (pairsOf r.entries)) := by
  have hshort : ∀ {n : Nat} (x : ByteArr n), n < 2 ^ 64 → Accepted 63 (.bytes x.toList) := fun x hn =>
    accepted_scalar trivial (show x.toList.length < 2 ^ 64 by rwa [x.toList_length])
  have huint : ∀ x : UInt64, Accepted 63 (.uint x) := fun x => accepted_scalar trivial trivial
  refine accepted_array (show 7 < 2 ^ 64 by decide) ?_
  simp only [List.forall_mem_cons]
  exact ⟨huint _, huint _, huint _, hshort queueId (by decide), hshort keyTag (by decide), huint _, hmap,
    nofun⟩

/-- **The value path accepts the encodings of well-formed records.** -/
theorem valueDecode_eq_ok [Sha256] {data : Bytes} {queueId : ByteArr 16} {keyTag : ByteArr 8} :
    valueDecode 64 data queueId keyTag = .ok r ↔ data = encode r queueId keyTag ∧ r.WellFormed := by
  refine (framed_eq_ok (P := fun body found => ∃ v, Value.decode 64 body = .ok v ∧
    openEnvelope body found queueId keyTag v = .ok r) ?_).trans ⟨?_, ?_⟩
  · split <;> simp_all
  · rintro ⟨body, found, rfl, -, hmark, v, hbody, h⟩
    obtain ⟨m, rtype, typeStr, rfl, htype, hdigest, hfields⟩ := openEnvelope_eq_ok.mp h
    obtain ⟨hwritten, haccepted⟩ := Value.decode_eq_ok hbody
    have hmap : Accepted 63 (.map m) := accepted_of_array haccepted (by simp)
    obtain ⟨rfl, hshape, rfl⟩ := (fromFields_eq_ok hmap.sorted).mp hfields
    obtain rfl : body = encodeBody r queueId keyTag :=
      hwritten.trans (encode_envelope (encode_entries r) queueId keyTag)
    obtain rfl : (typeName r.typeNumber).getD [] = typeStr := by rw [htype]; rfl
    rw [encode_eq_trailer, eq_trailer hmark hdigest]
    exact ⟨rfl, wellFormed_iff.mpr ⟨hshape, hmap⟩⟩
  · rintro ⟨rfl, hwell⟩
    obtain ⟨hshape, hmap⟩ := (wellFormed_iff (n := 60)).mp hwell
    have hdecoded := decode_of_accepted (accepted_envelope queueId keyTag hmap)
    rw [encode_envelope (encode_entries r)] at hdecoded
    exact ⟨_, _, encode_eq_trailer r queueId keyTag, trailer_length r _, rfl, _, hdecoded, openEnvelope_eq_ok.mpr
      ⟨_, _, _, rfl, typeName_isSome r, rfl, (fromFields_eq_ok hmap.sorted).mpr ⟨rfl, hshape, rfl⟩⟩⟩

/-! ## The two decoders -/

/-- **The direct decoder accepts what the value path accepts**, with the same record: for every byte string, queue
and key tag the streaming decoder and the decoder over a built value return `Ok r` together.  Both accept exactly the
encoding of `r`, when `r` is a record that has one. -/
theorem decoders_agree [Sha256] (b : Bytes) (queueId : ByteArr 16) (keyTag : ByteArr 8) (r : Record) :
    decodeRecord 64 b queueId keyTag = .ok r ↔ valueDecode 64 b queueId keyTag = .ok r := by
  calc decodeRecord 64 b queueId keyTag = .ok r
      ↔ b = encode r queueId keyTag ∧ r.WellFormed := decode_iff_encode
    _ ↔ valueDecode 64 b queueId keyTag = .ok r := valueDecode_eq_ok.symm

/-- A watermark whose map announces 2³² pairs more than it has. -/
def overstated (queueId : ByteArr 16) (keyTag : ByteArr 8) : Bytes :=
  pushHead 4 7 ++ pushHead 0 magic ++ pushHead 0 major ++ pushHead 0 minor ++ putBytes queueId.toList ++
  putBytes keyTag.toList ++ pushHead 0 7 ++
  (pushHead 5 0x100000002 ++ putKey Field.sequence 1 ++ putKey Field.highestObservedWallBucket 7) ++
  [0x58, 32] ++ List.replicate 32 0

/-- A narrow `usize` would drop the excess in the value path, where the direct decoder counts in 64 bits.  The value
path is compiled for the tests only, which run on a 64-bit host. -/
lemma overstated_differs {bits : Nat} (hbits : bits = 16 ∨ bits = 32) :
    ∃ (_ : Sha256) (b : Bytes) (queueId : ByteArr 16) (keyTag : ByteArr 8),
      valueDecode bits b queueId keyTag = .ok (.watermark ⟨7, 1⟩) ∧
      decodeRecord bits b queueId keyTag = .error (.cbor .unexpectedEof) := by
  let hash := Sha256.zero
  let queueId : ByteArr 16 := List.Vector.replicate 16 1
  let keyTag : ByteArr 8 := List.Vector.replicate 8 2
  refine ⟨hash, overstated queueId keyTag, queueId, keyTag, ?_⟩
  rcases hbits with rfl | rfl
  · exact ⟨by decide +kernel, by decide +kernel⟩
  · exact ⟨by decide +kernel, by decide +kernel⟩

end Format
end StowQ
