import StowQ.Format.Value

/-!
# The canonical round trip

The encoder sorts the pairs of a map by their encoded keys, and the decoder accepts shortest heads and ascending
keys only.  What the decoder accepts is therefore the encoding of what it returns (`decode_eq_ok`), and the
encoding of a value decodes to the value with every map in the order of its encoded keys, exactly if the value
does not nest too deeply and no map of it has a key twice (`canonical_round_trip`).  `Accepted` is the class of
values that read back as they are; both directions go by the structure of the value.
-/

namespace StowQ
namespace Cbor
namespace Value

open Data

variable {n : Nat} {v : Value} {pairs : List (Value × Value)} {items : List Value} {data : Bytes}

/-! ## Values and their parts -/

/-- `x` is `v` or occurs in it, as an item, a key or a value of a map. -/
inductive Part : Value → Value → Prop
  | self (v : Value) : Part v v
  | item {x v : Value} {items : List Value} (hv : v ∈ items) (h : Part x v) : Part x (.array items)
  | key {x : Value} {p : Value × Value} {pairs : List (Value × Value)} (hp : p ∈ pairs) (h : Part x p.1) :
      Part x (.map pairs)
  | val {x : Value} {p : Value × Value} {pairs : List (Value × Value)} (hp : p ∈ pairs) (h : Part x p.2) :
      Part x (.map pairs)

/-- Every part has property `P`. -/
def All (P : Value → Prop) (v : Value) : Prop :=
  ∀ x, Part x v → P x

variable {P : Value → Prop}

lemma all_array : All P (.array items) ↔ P (.array items) ∧ ∀ v ∈ items, All P v := by
  constructor
  · exact fun h => ⟨h _ (.self _), fun v hv x hx => h x (.item hv hx)⟩
  · rintro ⟨hself, hitems⟩ x hx
    cases hx with
    | self => exact hself
    | item hv hx => exact hitems _ hv x hx

lemma all_map : All P (.map pairs) ↔ P (.map pairs) ∧ ∀ p ∈ pairs, All P p.1 ∧ All P p.2 := by
  constructor
  · exact fun h => ⟨h _ (.self _), fun p hp => ⟨fun x hx => h x (.key hp hx), fun x hx => h x (.val hp hx)⟩⟩
  · rintro ⟨hself, hpairs⟩ x hx
    cases hx with
    | self => exact hself
    | key hp hx => exact (hpairs _ hp).1 x hx
    | val hp hx => exact (hpairs _ hp).2 x hx

/-- A value without proper parts. -/
def Scalar : Value → Prop
  | .array _ | .map _ => False
  | .uint _ | .bool _ | .bytes _ | .text _ => True

lemma all_scalar (hscalar : Scalar v) : All P v ↔ P v := by
  refine ⟨fun h => h _ (.self v), fun hself x hx => ?_⟩
  cases hx with
  | self => exact hself
  | item | key | val => exact hscalar.elim

/-- The number of bytes, items or pairs fits a 64-bit `usize`. -/
def Short : Value → Prop
  | .bytes b => b.length < 2 ^ 64
  | .text t => (utf8 t).length < 2 ^ 64
  | .array items => items.length < 2 ^ 64
  | .map pairs => pairs.length < 2 ^ 64
  | .uint _ | .bool _ => True

/-- A value that a 64-bit machine can hold. -/
def Fits : Value → Prop := All Short

/-- The encoded keys of a map. -/
def keys (pairs : List (Value × Value)) : List Bytes :=
  pairs.map fun p => encode p.1

/-- No two keys of the map have equal encodings. -/
def UniqueKeys : Value → Prop
  | .map pairs => (keys pairs).Nodup
  | .uint _ | .bool _ | .bytes _ | .text _ | .array _ => True

/-- No map in the value has two keys with equal encodings. -/
def Distinct : Value → Prop := All UniqueKeys

/-- The map is in the order of its encoded keys. -/
def AscendingKeys : Value → Prop
  | .map pairs => (keys pairs).Pairwise (· < ·)
  | .uint _ | .bool _ | .bytes _ | .text _ | .array _ => True

/-- Every map in the value is in the order of its encoded keys. -/
def Sorted : Value → Prop := All AscendingKeys

/-- `v` nests at most `n` levels; a scalar is one level. -/
def Nests : Nat → Value → Prop
  | 0, _ => False
  | n + 1, .array items => ∀ v ∈ items, Nests n v
  | n + 1, .map pairs => ∀ p ∈ pairs, Nests n p.1 ∧ Nests n p.2
  | _ + 1, _ => True

/-! ## The order of the keys -/

lemma keyLe_trans (a b c : Value × Value) : keyLe a b = true → keyLe b c = true → keyLe a c = true := by
  simp only [keyLe, decide_eq_true_eq]
  exact List.le_trans

lemma keyLe_total (a b : Value × Value) : (keyLe a b || keyLe b a) = true := by
  simp only [keyLe, Bool.or_eq_true, decide_eq_true_eq]
  exact List.le_total _ _

lemma ordered_pairwise (pairs : List (Value × Value)) : (ordered pairs).Pairwise fun a b => keyLe a b = true :=
  List.pairwise_mergeSort keyLe_trans keyLe_total pairs

/-- Pairs whose keys ascend are written as they are. -/
lemma ordered_eq_self (h : (keys pairs).Pairwise (· < ·)) : ordered pairs = pairs := by
  refine List.mergeSort_of_pairwise ((List.pairwise_map.mp h).imp fun hlt => ?_)
  simp only [keyLe, decide_eq_true_eq]
  exact List.le_of_lt hlt

lemma nodup_of_ascending {l : List Bytes} (h : l.Pairwise (· < ·)) : l.Nodup := by
  refine List.Pairwise.imp (fun {a b} hlt heq => ?_) h
  subst heq
  exact List.lt_irrefl a hlt

/-- A map is written by its encoded pairs, whatever their order. -/
lemma encode_map_of_perm {pairs' : List (Value × Value)} (hperm : (decorate pairs).Perm (decorate pairs'))
    (h : (keys pairs').Pairwise (· < ·)) : encode (.map pairs) = encode (.map pairs') := by
  have hkeys : (decorate pairs').map Prod.fst = keys pairs' := by
    rw [decorate_eq, List.map_map]
    rfl
  have hascending : (decorate pairs').Pairwise fun a b => a.1 < b.1 := List.pairwise_map.mp (hkeys ▸ h)
  have hsorted : sortKeys (decorate pairs) = decorate pairs' := by
    have hmerged : (sortKeys (decorate pairs)).Pairwise fun a b => a.1 ≤ b.1 := by
      refine (List.pairwise_mergeSort (fun a b c => ?_) (fun a b => ?_) _).imp fun hle => of_decide_eq_true hle
      · simp only [decide_eq_true_eq]
        exact List.le_trans
      · simp only [Bool.or_eq_true, decide_eq_true_eq]
        exact List.le_total _ _
    have hsame : (sortKeys (decorate pairs)).Perm (decorate pairs') := (List.mergeSort_perm _ _).trans hperm
    refine List.Perm.eq_of_pairwise (fun a b ha hb hab hba => ?_) hmerged (hascending.imp List.le_of_lt) hsame
    -- equal keys are the same pair
    have hnodup : ((decorate pairs').map Prod.fst).Nodup := nodup_of_ascending (hkeys ▸ h)
    exact List.inj_on_of_nodup_map hnodup (hsame.mem_iff.mp ha) hb (List.le_antisymm hab hba)
  have hself : sortKeys (decorate pairs') = decorate pairs' :=
    List.mergeSort_of_pairwise (hascending.imp fun hlt => decide_eq_true (List.le_of_lt hlt))
  rw [encode, encode, hsorted, hself]

/-- The keys of a written map ascend strictly exactly if no two are equal. -/
lemma keys_ordered_iff : (keys (ordered pairs)).Pairwise (· < ·) ↔ (keys pairs).Nodup := by
  have hperm : (keys (ordered pairs)).Perm (keys pairs) := (ordered_perm pairs).map _
  rw [← hperm.nodup_iff]
  have hle : (keys (ordered pairs)).Pairwise (· ≤ ·) := by
    refine List.pairwise_map.mpr ((ordered_pairwise pairs).imp fun h => ?_)
    simpa only [keyLe, decide_eq_true_eq] using h
  constructor
  · exact nodup_of_ascending
  · intro hnodup
    refine (hle.and hnodup).imp fun {a b} h => ?_
    by_contra hnot
    exact h.2 (List.le_antisymm h.1 (List.not_lt.mp hnot))

lemma checkKeys_iff_chain {prev : Option Bytes} :
    checkKeys prev pairs = .ok () ↔ (prev.toList ++ keys pairs).IsChain (· < ·) := by
  induction pairs generalizing prev with
  | nil =>
    cases prev with
    | none => simp [checkKeys, keys]
    | some p => simp [checkKeys, keys]
  | cons pair rest ih =>
    obtain ⟨k, v⟩ := pair
    cases prev with
    | none =>
      rw [checkKeys, ih]
      rfl
    | some p =>
      show checkKeys (some p) ((k, v) :: rest) = .ok () ↔ (p :: encode k :: keys rest).IsChain (· < ·)
      rw [checkKeys, List.isChain_cons_cons]
      have hrest : checkKeys (some (encode k)) rest = .ok () ↔ (encode k :: keys rest).IsChain (· < ·) := ih
      split_ifs with heq hlt
      · refine ⟨nofun, fun h => absurd h.1 ?_⟩
        rw [heq]
        exact List.lt_irrefl p
      · refine ⟨nofun, fun h => absurd h.1 ?_⟩
        exact List.lt_asymm hlt
      · rw [hrest]
        refine ⟨fun h => ⟨?_, h⟩, fun h => h.2⟩
        by_contra hnot
        exact heq (List.le_antisymm (List.not_lt.mp hnot) (List.not_lt.mp hlt))

/-- The decoder wants the keys of a map strictly ascending. -/
lemma checkKeys_iff : checkKeys none pairs = .ok () ↔ (keys pairs).Pairwise (· < ·) := by
  have : Trans (α := Bytes) (· < ·) (· < ·) (· < ·) := ⟨List.lt_trans⟩
  rw [checkKeys_iff_chain, ← List.isChain_iff_pairwise]
  rfl

/-! ## Accepted inputs -/

/-- What the decoder promises of a value that it read with `n` levels left. -/
structure Accepted (n : Nat) (v : Value) : Prop where
  nests : Nests n v
  fits : Fits v
  sorted : Sorted v

lemma nests_scalar (hscalar : Scalar v) : Nests (n + 1) v := by
  cases v with
  | array | map => exact hscalar.elim
  | _ => trivial

lemma accepted_scalar (hscalar : Scalar v) (hshort : Short v) : Accepted (n + 1) v := by
  refine ⟨nests_scalar hscalar, (all_scalar hscalar).mpr hshort, (all_scalar hscalar).mpr ?_⟩
  cases v with
  | array | map => exact hscalar.elim
  | _ => trivial

lemma accepted_array (hlen : items.length < 2 ^ 64) (h : ∀ v ∈ items, Accepted n v) :
    Accepted (n + 1) (.array items) :=
  ⟨fun v hv => (h v hv).nests, all_array.mpr ⟨hlen, fun v hv => (h v hv).fits⟩,
    all_array.mpr ⟨trivial, fun v hv => (h v hv).sorted⟩⟩

lemma accepted_map (hlen : pairs.length < 2 ^ 64) (hkeys : (keys pairs).Pairwise (· < ·))
    (h : ∀ p ∈ pairs, Accepted n p.1 ∧ Accepted n p.2) : Accepted (n + 1) (.map pairs) :=
  ⟨fun p hp => ⟨(h p hp).1.nests, (h p hp).2.nests⟩,
    all_map.mpr ⟨hlen, fun p hp => ⟨(h p hp).1.fits, (h p hp).2.fits⟩⟩,
    all_map.mpr ⟨hkeys, fun p hp => ⟨(h p hp).1.sorted, (h p hp).2.sorted⟩⟩⟩

lemma readPair_eq_ok
    (hp : ∀ data v rest, value 64 n data = .ok (v, rest) → data = encode v ++ rest ∧ Accepted n v)
    {rest : Bytes} {p : Value × Value} (h : readPair (value 64 n) data = .ok (p, rest)) :
    data = (encode p.1 ++ encode p.2) ++ rest ∧ Accepted n p.1 ∧ Accepted n p.2 := by
  obtain ⟨k, mid, hk, hrest⟩ := bind_eq_ok.mp h
  obtain ⟨v, mid', hv, hpure⟩ := bind_eq_ok.mp hrest
  obtain ⟨rfl, rfl⟩ := pure_eq_ok.mp hpure
  obtain ⟨rfl, hk'⟩ := hp _ _ _ hk
  obtain ⟨rfl, hv'⟩ := hp _ _ _ hv
  exact ⟨by rw [List.append_assoc], hk', hv'⟩

lemma ofNat_asUsize {arg : UInt64} (h : n = asUsize 64 arg) : UInt64.ofNat n = arg ∧ n < 2 ^ 64 := by
  rw [asUsize_eq] at h
  rw [h, UInt64.ofNat_toNat]
  exact ⟨rfl, arg.toNat_lt⟩

/-- **A value is read from its encoding**, and from nothing else. -/
theorem value_eq_ok {rest : Bytes} (h : value 64 n data = .ok (v, rest)) :
    data = encode v ++ rest ∧ Accepted n v := by
  induction n generalizing data v rest with
  | zero => exact absurd h throw_eq_ok
  | succ n ih =>
    obtain ⟨⟨major, arg⟩, mid, hhead, hbody⟩ := bind_eq_ok.mp h
    obtain ⟨hmajor, rfl⟩ := head_eq_ok hhead
    dsimp only at hbody
    unfold valueBody at hbody
    split_ifs at hbody with h0 h2 h3 h4 h5 h7 h20 h21
    · -- unsigned integers
      obtain ⟨rfl, rfl⟩ := pure_eq_ok.mp hbody
      exact ⟨by rw [h0, encode], accepted_scalar trivial trivial⟩
    · -- byte strings
      obtain ⟨b, mid', htake, hpure⟩ := bind_eq_ok.mp hbody
      obtain ⟨rfl, rfl⟩ := pure_eq_ok.mp hpure
      obtain ⟨rfl, hlen⟩ := take_eq_ok htake
      obtain ⟨hback, hshort⟩ := ofNat_asUsize hlen
      refine ⟨?_, accepted_scalar trivial hshort⟩
      rw [h2, encode, putBytes, hback, List.append_assoc]
    · -- text strings
      obtain ⟨b, mid', htake, htext⟩ := bind_eq_ok.mp hbody
      obtain ⟨rfl, hlen⟩ := take_eq_ok htake
      obtain ⟨hback, hshort⟩ := ofNat_asUsize hlen
      cases ht : fromUtf8 b with
      | none =>
        rw [ht] at htext
        exact absurd htext throw_eq_ok
      | some t =>
        rw [ht] at htext
        obtain ⟨rfl, rfl⟩ := pure_eq_ok.mp htext
        obtain rfl := utf8_of_fromUtf8 ht
        refine ⟨?_, accepted_scalar trivial hshort⟩
        rw [h3, encode, putText, hback, List.append_assoc]
    · -- arrays
      obtain ⟨items, mid', hmany, hpure⟩ := bind_eq_ok.mp hbody
      obtain ⟨rfl, rfl⟩ := pure_eq_ok.mp hpure
      obtain ⟨rfl, hlen, hitems⟩ := many_eq_ok (fun _ _ _ => ih) hmany
      obtain ⟨hback, hshort⟩ := ofNat_asUsize hlen
      refine ⟨?_, accepted_array hshort hitems⟩
      rw [h4, encode_array, hback, List.append_assoc]
    · -- maps
      obtain ⟨pairs, mid', hmany, hrest⟩ := bind_eq_ok.mp hbody
      obtain ⟨_, mid'', hcheck, hpure⟩ := bind_eq_ok.mp hrest
      obtain ⟨hascending, rfl⟩ := lift_eq_ok.mp hcheck
      obtain ⟨rfl, rfl⟩ := pure_eq_ok.mp hpure
      obtain ⟨rfl, hlen, hpairs⟩ := many_eq_ok (fun _ _ _ => readPair_eq_ok fun _ _ _ => ih) hmany
      obtain ⟨hback, hshort⟩ := ofNat_asUsize hlen
      have hkeys := checkKeys_iff.mp hascending
      refine ⟨?_, accepted_map hshort hkeys hpairs⟩
      rw [h5, encode_map, ordered_eq_self hkeys, hback, List.append_assoc]
    · obtain ⟨rfl, rfl⟩ := pure_eq_ok.mp hbody
      exact ⟨by rw [h7, h20]; rfl, accepted_scalar trivial trivial⟩
    · obtain ⟨rfl, rfl⟩ := pure_eq_ok.mp hbody
      exact ⟨by rw [h7, h21]; rfl, accepted_scalar trivial trivial⟩
    · exact absurd hbody throw_eq_ok
    · exact absurd hbody throw_eq_ok

/-- **Whatever decodes is the encoding of what it decodes to.** -/
theorem decode_eq_ok (h : decode 64 data = .ok v) : data = encode v ∧ Accepted maxDepth v := by
  unfold decode at h
  split at h
  · cases h
  · next v' rest hvalue =>
      split at h
      · next hrest =>
          cases h
          subst hrest
          obtain ⟨hdata, haccepted⟩ := value_eq_ok hvalue
          exact ⟨hdata.trans (List.append_nil _), haccepted⟩
      · cases h

/-! ## Encodings read back -/

mutual

/-- `v` with every map in the order of its encoded keys. -/
def canonical : Value → Value
  | .uint n => .uint n
  | .bool b => .bool b
  | .bytes b => .bytes b
  | .text t => .text t
  | .array items => .array (canonicalItems items)
  | .map pairs => .map (ordered (canonicalPairs pairs))

def canonicalItems : List Value → List Value
  | [] => []
  | v :: rest => canonical v :: canonicalItems rest

def canonicalPairs : List (Value × Value) → List (Value × Value)
  | [] => []
  | (k, v) :: rest => (canonical k, canonical v) :: canonicalPairs rest

end

lemma canonical_array (items : List Value) : canonical (.array items) = .array (items.map canonical) := by
  have hitems : canonicalItems items = items.map canonical := by
    induction items with
    | nil => rfl
    | cons v rest ih => rw [canonicalItems, ih, List.map_cons]
  rw [canonical, hitems]

lemma canonicalPairs_eq (pairs : List (Value × Value)) :
    canonicalPairs pairs = pairs.map fun p => (canonical p.1, canonical p.2) := by
  induction pairs with
  | nil => rfl
  | cons p rest ih => rw [canonicalPairs, ih, List.map_cons]

lemma ordered_canonicalPairs (h : ∀ p ∈ pairs, encode (canonical p.1) = encode p.1) :
    ordered (canonicalPairs pairs) = (ordered pairs).map fun p => (canonical p.1, canonical p.2) := by
  have hmap := List.map_mergeSort (r := keyLe) (s := keyLe)
    (f := fun p : Value × Value => (canonical p.1, canonical p.2)) (l := pairs) fun a ha b hb => by
      unfold keyLe
      rw [h a ha, h b hb]
  rw [canonicalPairs_eq]
  exact hmap.symm

lemma encode_canonical (v : Value) : encode (canonical v) = encode v := by
  induction v using nested with
  | huint | hbool | hbytes | htext => rw [canonical]
  | harray items ih =>
    rw [canonical_array, encode_array, encode_array, List.length_map, List.flatMap_map]
    congr 1
    exact List.flatMap_congr fun v hv => ih v hv
  | hmap pairs ih =>
    have hsort := ordered_canonicalPairs fun p hp => (ih p hp).1
    have hlen : (ordered (canonicalPairs pairs)).length = pairs.length := by
      rw [hsort, List.length_map, (ordered_perm pairs).length_eq]
    have htwice : ordered (ordered (canonicalPairs pairs)) = ordered (canonicalPairs pairs) :=
      List.mergeSort_of_pairwise (ordered_pairwise _)
    rw [canonical, encode_map, encode_map, hlen, htwice, hsort, List.flatMap_map]
    congr 1
    refine List.flatMap_congr fun p hp => ?_
    have hp' := ih p (mem_ordered.mp hp)
    rw [hp'.1, hp'.2]

/-- The pairs of a map are reordered as they are written. -/
lemma canonical_map (pairs : List (Value × Value)) :
    canonical (.map pairs) = .map ((ordered pairs).map fun p => (canonical p.1, canonical p.2)) := by
  rw [canonical, ordered_canonicalPairs fun p _ => encode_canonical p.1]

/-- A value with every map in order is its own canonical form. -/
lemma canonical_eq_self (h : Sorted v) : canonical v = v := by
  induction v using nested with
  | huint | hbool | hbytes | htext => rw [canonical]
  | harray items ih =>
    have hitems := (all_array.mp h).2
    rw [canonical_array, List.map_congr_left fun v hv => ih v hv (hitems v hv), List.map_id']
  | hmap pairs ih =>
    obtain ⟨hkeys, hpairs⟩ := all_map.mp h
    have hself : ∀ p ∈ pairs, (canonical p.1, canonical p.2) = p := fun p hp =>
      Prod.ext ((ih p hp).1 (hpairs p hp).1) ((ih p hp).2 (hpairs p hp).2)
    rw [canonical_map, ordered_eq_self hkeys, List.map_congr_left hself, List.map_id']

lemma distinct_of_sorted (h : Sorted v) : Distinct v := by
  intro x hx
  have hx' := h x hx
  cases x with
  | map pairs => exact nodup_of_ascending hx'
  | uint | bool | bytes | text | array => trivial

lemma reads_head {major : UInt8} (hm : major < 8) (arg : UInt64) :
    Reads (head : Reader UInt8 Error (UInt8 × UInt64)) (pushHead major arg) (major, arg) :=
  fun rest => head_pushHead major hm arg rest

lemma reads_take {b : Bytes} (h : b.length = n) : Reads (take n : Reader UInt8 Error Bytes) b b := by
  subst h
  exact fun rest => take_append b rest

/-- A value that the decoder reads back: not too deep, and without a repeated key. -/
structure Regular (n : Nat) (v : Value) : Prop where
  nests : Nests n v
  distinct : Distinct v

lemma regular_scalar (hscalar : Scalar v) : Regular (n + 1) v := by
  refine ⟨nests_scalar hscalar, (all_scalar hscalar).mpr ?_⟩
  cases v with
  | array | map => exact hscalar.elim
  | _ => trivial

lemma regular_array : Regular (n + 1) (.array items) ↔ ∀ v ∈ items, Regular n v := by
  constructor
  · exact fun h v hv => ⟨h.nests v hv, (all_array.mp h.distinct).2 v hv⟩
  · exact fun h => ⟨fun v hv => (h v hv).nests, all_array.mpr ⟨trivial, fun v hv => (h v hv).distinct⟩⟩

lemma regular_map : Regular (n + 1) (.map pairs) ↔
    (keys pairs).Nodup ∧ ∀ p ∈ pairs, Regular n p.1 ∧ Regular n p.2 := by
  constructor
  · intro h
    obtain ⟨hkeys, hpairs⟩ := all_map.mp h.distinct
    exact ⟨hkeys, fun p hp => ⟨⟨(h.nests p hp).1, (hpairs p hp).1⟩, ⟨(h.nests p hp).2, (hpairs p hp).2⟩⟩⟩
  · rintro ⟨hkeys, hpairs⟩
    exact ⟨fun p hp => ⟨(hpairs p hp).1.nests, (hpairs p hp).2.nests⟩,
      all_map.mpr ⟨hkeys, fun p hp => ⟨(hpairs p hp).1.distinct, (hpairs p hp).2.distinct⟩⟩⟩

/-- How the decoder treats the encoding of a value. -/
structure Answers (n : Nat) (v : Value) : Prop where
  reads : Regular n v → Reads (value 64 n) (encode v) (canonical v)
  fails : ¬ Regular n v → Fails (value 64 n) (encode v)

lemma answers_scalar (hscalar : Scalar v) (h : Reads (value 64 (n + 1)) (encode v) (canonical v)) :
    Answers (n + 1) v :=
  ⟨fun _ => h, fun hnot => absurd (regular_scalar hscalar) hnot⟩

lemma answers_array (hlen : items.length < 2 ^ 64) (h : ∀ v ∈ items, Answers n v) :
    Answers (n + 1) (.array items) := by
  have hcount : asUsize 64 (UInt64.ofNat items.length) = items.length := asUsize_ofNat hlen
  have hhead := reads_head (by decide : (4 : UInt8) < 8) (UInt64.ofNat items.length)
  constructor
  · intro hregular
    have hitems := Reads.many items fun v hv => (h v hv).reads (regular_array.mp hregular v hv)
    rw [← hcount] at hitems
    rw [canonical_array, encode_array]
    exact hhead.bind (hitems.checked (Reads.pure _))
  · intro hnot
    have hbad : ∃ v ∈ items, ¬ Regular n v := by
      by_contra hall
      exact hnot (regular_array.mpr fun v hv => by_contra fun hbad => hall ⟨v, hv, hbad⟩)
    obtain ⟨v, hv, hbad⟩ := hbad
    have hanswer : ∀ v ∈ items, Reads (value 64 n) (encode v) (canonical v) ∨ Fails (value 64 n) (encode v) :=
      fun v hv => (em (Regular n v)).imp (h v hv).reads (h v hv).fails
    have hitems := Fails.many items hanswer ⟨v, hv, (h v hv).fails hbad⟩
    rw [← hcount] at hitems
    rw [encode_array]
    exact hhead.fails ((hitems.bind _ []).of_eq (List.append_nil _))

/-- A pair is read back if both halves are, and not at all otherwise. -/
lemma answers_pair {p : Value × Value} (hk : Answers n p.1) (hv : Answers n p.2) :
    (Regular n p.1 ∧ Regular n p.2 →
      Reads (readPair (value 64 n)) (encode p.1 ++ encode p.2) (canonical p.1, canonical p.2)) ∧
    (¬ (Regular n p.1 ∧ Regular n p.2) → Fails (readPair (value 64 n)) (encode p.1 ++ encode p.2)) := by
  constructor
  · rintro ⟨hrk, hrv⟩
    exact (hk.reads hrk).bind ((hv.reads hrv).checked (Reads.pure _))
  · intro hnot
    by_cases hrk : Regular n p.1
    · have hrv : ¬ Regular n p.2 := fun hrv => hnot ⟨hrk, hrv⟩
      exact (hk.reads hrk).fails (((hv.fails hrv).bind _ []).of_eq (List.append_nil _))
    · exact (hk.fails hrk).bind _ _

lemma keys_canonical (pairs : List (Value × Value)) :
    keys (pairs.map fun p => (canonical p.1, canonical p.2)) = keys pairs := by
  simp only [keys, List.map_map]
  exact List.map_congr_left fun p _ => encode_canonical p.1

lemma answers_map (hlen : pairs.length < 2 ^ 64) (h : ∀ p ∈ pairs, Answers n p.1 ∧ Answers n p.2) :
    Answers (n + 1) (.map pairs) := by
  have hcount : asUsize 64 (UInt64.ofNat pairs.length) = (ordered pairs).length := by
    rw [asUsize_ofNat hlen, (ordered_perm pairs).length_eq]
  have hhead := reads_head (by decide : (5 : UInt8) < 8) (UInt64.ofNat pairs.length)
  have hpair : ∀ p ∈ ordered pairs, _ := fun p hp =>
    answers_pair (h p (mem_ordered.mp hp)).1 (h p (mem_ordered.mp hp)).2
  by_cases hall : ∀ p ∈ pairs, Regular n p.1 ∧ Regular n p.2
  · -- the pairs are read; the keys decide
    have hpairs := Reads.many (ordered pairs) fun p hp => (hpair p hp).1 (hall p (mem_ordered.mp hp))
    rw [← hcount] at hpairs
    have hcheck : checkKeys none ((ordered pairs).map fun p => (canonical p.1, canonical p.2)) = .ok () ↔
        (keys pairs).Nodup := by
      rw [checkKeys_iff, keys_canonical, keys_ordered_iff]
    constructor
    · intro hregular
      rw [canonical_map, encode_map]
      refine hhead.bind (hpairs.checked ?_)
      rw [hcheck.mpr (regular_map.mp hregular).1]
      exact (Reads.pure ()).checked (Reads.pure _)
    · intro hnot
      rw [encode_map]
      refine hhead.fails ((hpairs.fails (c := []) ?_).of_eq (List.append_nil _))
      cases hkeys : checkKeys none ((ordered pairs).map fun p => (canonical p.1, canonical p.2)) with
      | ok => exact absurd (regular_map.mpr ⟨hcheck.mp hkeys, hall⟩) hnot
      | error e => exact (Fails.throw e []).bind _ []
  · have hnot : ¬ Regular (n + 1) (.map pairs) := fun hregular => hall (regular_map.mp hregular).2
    have hbad : ∃ p ∈ ordered pairs, ¬ (Regular n p.1 ∧ Regular n p.2) := by
      by_contra hnone
      exact hall fun p hp => by_contra fun hbad => hnone ⟨p, mem_ordered.mpr hp, hbad⟩
    obtain ⟨p, hp, hbad⟩ := hbad
    have hpairs := Fails.many (ordered pairs) (fun p hp => (em _).imp (hpair p hp).1 (hpair p hp).2)
      ⟨p, hp, (hpair p hp).2 hbad⟩
    rw [← hcount] at hpairs
    refine ⟨fun hregular => absurd hregular hnot, fun _ => ?_⟩
    rw [encode_map]
    exact hhead.fails ((hpairs.bind _ []).of_eq (List.append_nil _))

/-- **The decoder on an encoding.** -/
theorem answers (hfits : Fits v) : Answers n v := by
  induction n generalizing v with
  | zero => exact ⟨fun h => h.nests.elim, fun _ => Fails.throw _ _⟩
  | succ n ih =>
    cases v with
    | uint arg =>
      refine answers_scalar trivial ?_
      rw [encode, canonical]
      exact (reads_head (by decide : (0 : UInt8) < 8) arg).checked (Reads.pure _)
    | bool b =>
      refine answers_scalar trivial fun rest => ?_
      cases b <;> rfl
    | bytes b =>
      have hshort : b.length < 2 ^ 64 := (all_scalar (v := .bytes b) trivial).mp hfits
      refine answers_scalar trivial ?_
      rw [encode, canonical]
      refine (reads_head (by decide : (2 : UInt8) < 8) (UInt64.ofNat b.length)).bind ?_
      exact (reads_take (asUsize_ofNat hshort).symm).checked (Reads.pure _)
    | text t =>
      have hshort : (utf8 t).length < 2 ^ 64 := (all_scalar (v := .text t) trivial).mp hfits
      refine answers_scalar trivial ?_
      rw [encode, canonical]
      refine (reads_head (by decide : (3 : UInt8) < 8) (UInt64.ofNat (utf8 t).length)).bind ?_
      refine (reads_take (asUsize_ofNat hshort).symm).checked ?_
      rw [fromUtf8_utf8]
      exact Reads.pure _
    | array items =>
      obtain ⟨hlen, hitems⟩ := all_array.mp hfits
      exact answers_array hlen fun v hv => ih (hitems v hv)
    | map pairs =>
      obtain ⟨hlen, hpairs⟩ := all_map.mp hfits
      exact answers_map hlen fun p hp => ⟨ih (hpairs p hp).1, ih (hpairs p hp).2⟩

/-- An acceptable value is read back as it is. -/
lemma decode_of_accepted (h : Accepted maxDepth v) : decode 64 (encode v) = .ok v := by
  have hread := (answers h.fits).reads ⟨h.nests, distinct_of_sorted h.sorted⟩ []
  rw [List.append_nil, canonical_eq_self h.sorted] at hread
  unfold decode
  rw [hread]
  rfl

/-- **Canonical CBOR.**  What decodes is the encoding of what it decodes to; the encoding of a
value decodes to its canonical form if the value nests at most 64 levels and has no map with a
repeated key, and does not decode otherwise. -/
theorem canonical_round_trip : (∀ data v, decode 64 data = .ok v → encode v = data) ∧ ∀ v, Fits v →
      (Nests 64 v ∧ Distinct v → decode 64 (encode v) = .ok (canonical v)) ∧
      (¬ (Nests 64 v ∧ Distinct v) → ∃ e, decode 64 (encode v) = .error e) := by
  refine ⟨fun data v h => (decode_eq_ok h).1.symm, fun v hfits => ⟨?_, fun hnot => ?_⟩⟩
  · rintro ⟨hnests, hdistinct⟩
    have hread := (answers hfits).reads ⟨hnests, hdistinct⟩ []
    rw [List.append_nil] at hread
    unfold decode
    rw [show maxDepth = 64 from rfl, hread]
    rfl
  · have hregular : ¬ Regular 64 v := fun h => hnot ⟨h.nests, h.distinct⟩
    obtain ⟨e, he⟩ := (answers hfits).fails hregular []
    rw [List.append_nil] at he
    refine ⟨e, ?_⟩
    unfold decode
    rw [show maxDepth = 64 from rfl, he]

lemma fits_pair {k1 k2 v1 v2 : UInt64} : Fits (.map [(.uint k1, .uint v1), (.uint k2, .uint v2)]) := by
  have hscalar : ∀ n, All Short (.uint n) := fun n => (all_scalar (v := .uint n) trivial).mpr trivial
  refine all_map.mpr ⟨show 2 < 2 ^ 64 by decide, fun p hp => ?_⟩
  simp only [List.mem_cons, List.not_mem_nil, or_false] at hp
  rcases hp with rfl | rfl
  all_goals exact ⟨hscalar _, hscalar _⟩

/-- A map with its keys out of order comes back in order; one with a repeated key does not. -/
theorem canonical_round_trip_map : decode 64 (encode (.map [(.uint 1, .uint 5), (.uint 0, .uint 6)])) =
      .ok (canonical (.map [(.uint 1, .uint 5), (.uint 0, .uint 6)])) ∧
    ∃ e, decode 64 (encode (.map [(.uint 1, .uint 5), (.uint 1, .uint 6)])) = .error e := by
  constructor
  · refine (canonical_round_trip.2 _ fits_pair).1 ?_
    have hregular : Regular 64 (.map [(.uint 1, .uint 5), (.uint 0, .uint 6)]) := by
      refine regular_map.mpr ⟨by decide, fun p hp => ?_⟩
      simp only [List.mem_cons, List.not_mem_nil, or_false] at hp
      rcases hp with rfl | rfl
      all_goals exact ⟨regular_scalar trivial, regular_scalar trivial⟩
    exact ⟨hregular.nests, hregular.distinct⟩
  · refine (canonical_round_trip.2 _ fits_pair).2 fun h => ?_
    have hunique : (keys [(.uint 1, .uint 5), (.uint 1, .uint 6)]).Nodup := (all_map.mp h.2).1
    exact absurd hunique (by decide)

end Value
end Cbor
end StowQ
