import StowQ.Data.Reading
import StowQ.Format.Cbor

/-!
# Canonical CBOR values

The value tree of the CBOR layer, its canonical encoding, and the decoder that
accepts canonical form only.  A map is written with its keys in the bytewise
order of their encodings; the decoder wants them strictly ascending.

The reader counts nesting from the outside; `value` takes the number of levels
that are left.
-/

namespace StowQ
namespace Cbor

open Data

/-- The values records are made of. -/
inductive Value
  | uint (n : UInt64)
  | bool (b : Bool)
  | bytes (b : Bytes)
  | text (t : Str)
  | array (items : List Value)
  | map (pairs : List (Value × Value))

namespace Value

/-! ## Encoding -/

/-- `sort_by` on the encoded keys. -/
def sortKeys (decorated : List (Bytes × Bytes)) : List (Bytes × Bytes) :=
  decorated.mergeSort fun a b => decide (a.1 ≤ b.1)

mutual

/-- The canonical encoding of a value. -/
def encode : Value → Bytes
  | .uint n => pushHead 0 n
  | .bool b => [if b then 0xf5 else 0xf4]
  | .bytes b => putBytes b
  | .text t => putText t
  | .array items => pushHead 4 (UInt64.ofNat items.length) ++ encodeItems items
  | .map pairs =>
    -- the sort looks at the keys only, so the values may be encoded before it
    let decorated := sortKeys (decorate pairs)
    pushHead 5 (UInt64.ofNat decorated.length) ++ decorated.flatMap fun p => p.1 ++ p.2

def encodeItems : List Value → Bytes
  | [] => []
  | v :: rest => encode v ++ encodeItems rest

/-- Each pair with its key encoded once. -/
def decorate : List (Value × Value) → List (Bytes × Bytes)
  | [] => []
  | (k, v) :: rest => (encode k, encode v) :: decorate rest

end

/-! ## Decoding -/

/-- `MAX_DEPTH`. -/
def maxDepth : Nat := 64

/-- The keys of a map, strictly ascending. -/
def checkKeys : Option Bytes → List (Value × Value) → Except Error Unit
  | _, [] => .ok ()
  | none, (k, _) :: rest => checkKeys (some (encode k)) rest
  | some p, (k, _) :: rest =>
    if encode k = p then .error .duplicateMapKey
    else if encode k < p then .error .unsortedMapKeys
    else checkKeys (some (encode k)) rest

/-- A key and its value. -/
def readPair {τ ε α : Type} (read : Reader τ ε α) : Reader τ ε (α × α) := do
  let k ← read
  let v ← read
  pure (k, v)

/-- What follows a head; `nested` reads the values in it. -/
def valueBody (bits : Nat) (nested : Reader UInt8 Error Value) (major : UInt8) (arg : UInt64) :
    Reader UInt8 Error Value :=
  if major = 0 then pure (.uint arg)
  else if major = 2 then do
    let b ← (take (asUsize bits arg) : Reader UInt8 Error Bytes)
    pure (.bytes b)
  else if major = 3 then do
    let b ← (take (asUsize bits arg) : Reader UInt8 Error Bytes)
    match fromUtf8 b with
    | some t => pure (.text t)
    | none => throw .invalidUtf8
  else if major = 4 then do
    let items ← many nested (asUsize bits arg)
    pure (.array items)
  else if major = 5 then do
    let pairs ← many (readPair nested) (asUsize bits arg)
    let _ ← (liftM (checkKeys none pairs) : Reader UInt8 Error Unit)
    pure (.map pairs)
  else if major = 7 then
    if arg = 20 then pure (.bool false)
    else if arg = 21 then pure (.bool true)
    else throw (.unsupportedSimple arg.toUInt8)
  else throw (.unsupportedMajorType major)

/-- One value, with so many levels left. -/
def value (bits : Nat) : Nat → Reader UInt8 Error Value
  | 0 => throw .maxDepth
  | levels + 1 => do
    let (major, arg) ← (head : Reader UInt8 Error (UInt8 × UInt64))
    valueBody bits (value bits levels) major arg

/-- Exactly one canonical value over the whole input. -/
def decode (bits : Nat) (data : Bytes) : Except Error Value :=
  match value bits maxDepth data with
  | .error e => .error e
  | .ok (v, rest) => if rest = [] then .ok v else .error .trailingBytes

/-! ## Scalars -/

@[simp] lemma encode_uint (n : UInt64) : encode (.uint n) = pushHead 0 n := by rw [encode]

@[simp] lemma encode_bool (b : Bool) : encode (.bool b) = [if b then 0xf5 else 0xf4] := by rw [encode]

@[simp] lemma encode_bytes (b : Bytes) : encode (.bytes b) = putBytes b := by rw [encode]

@[simp] lemma encode_text (t : Str) : encode (.text t) = putText t := by rw [encode]

/-! ## Lists of values -/

lemma encodeItems_eq (items : List Value) : encodeItems items = items.flatMap encode := by
  induction items with
  | nil => rfl
  | cons v rest ih => rw [encodeItems, ih, List.flatMap_cons]

lemma decorate_eq (pairs : List (Value × Value)) :
    decorate pairs = pairs.map fun p => (encode p.1, encode p.2) := by
  induction pairs with
  | nil => rfl
  | cons p rest ih => rw [decorate, ih, List.map_cons]

/-- The order in which a map is written. -/
def keyLe (a b : Value × Value) : Bool :=
  decide (encode a.1 ≤ encode b.1)

/-- The pairs of a map as they are written. -/
def ordered (pairs : List (Value × Value)) : List (Value × Value) :=
  pairs.mergeSort keyLe

lemma ordered_perm (pairs : List (Value × Value)) : (ordered pairs).Perm pairs := List.mergeSort_perm pairs keyLe

lemma mem_ordered {pairs : List (Value × Value)} {p : Value × Value} : p ∈ ordered pairs ↔ p ∈ pairs :=
  (ordered_perm pairs).mem_iff

lemma encode_array (items : List Value) :
    encode (.array items) = pushHead 4 (UInt64.ofNat items.length) ++ items.flatMap encode := by
  rw [encode, encodeItems_eq]

lemma encode_map (pairs : List (Value × Value)) : encode (.map pairs) =
    pushHead 5 (UInt64.ofNat pairs.length) ++ (ordered pairs).flatMap fun p => encode p.1 ++ encode p.2 := by
  have hsort : sortKeys (decorate pairs) = (ordered pairs).map fun p => (encode p.1, encode p.2) := by
    have hmap := List.map_mergeSort (r := keyLe) (s := fun a b => decide (a.1 ≤ b.1))
      (f := fun p : Value × Value => (encode p.1, encode p.2)) (l := pairs) fun _ _ _ _ => rfl
    rw [decorate_eq]
    exact hmap.symm
  have hlen : (sortKeys (decorate pairs)).length = pairs.length := by
    rw [hsort, List.length_map, (ordered_perm pairs).length_eq]
  rw [encode, hlen, hsort, List.flatMap_map]

lemma nested {P : Value → Prop} (huint : ∀ n, P (.uint n)) (hbool : ∀ b, P (.bool b))
    (hbytes : ∀ b, P (.bytes b)) (htext : ∀ t, P (.text t))
    (harray : ∀ items, (∀ v ∈ items, P v) → P (.array items))
    (hmap : ∀ pairs, (∀ p ∈ pairs, P p.1 ∧ P p.2) → P (.map pairs)) (v : Value) : P v := by
  refine @Value.rec P (fun items => ∀ v ∈ items, P v) (fun pairs => ∀ p ∈ pairs, P p.1 ∧ P p.2)
    (fun p => P p.1 ∧ P p.2) huint hbool hbytes htext harray hmap ?_ ?_ ?_ ?_ ?_ v
  · exact nofun
  · intro head tail hhead htail v hv
    rcases List.mem_cons.mp hv with rfl | hv
    · exact hhead
    · exact htail v hv
  · exact nofun
  · intro head tail hhead htail p hp
    rcases List.mem_cons.mp hp with rfl | hp
    · exact hhead
    · exact htail p hp
  · exact fun k v hk hv => ⟨hk, hv⟩

end Value
end Cbor
end StowQ
