import Mathlib.Order.Lattice
import Mathlib.Data.List.Basic

/-!
# Finite maps kept as strictly ascending entry lists

`OrderedMap K V` is an entry list together with the proof that its keys ascend
strictly, so a key occurs at most once and the entries are already in listing
order.  The lookup lemmas say how `insert` and `erase` act on `get?`; membership
in `entries` and lookup are the same thing (`mem_entries_iff`).
-/

namespace StowQ
namespace Data

/-- A finite map whose entries ascend strictly by key. -/
structure OrderedMap (K V : Type) [LinearOrder K] where
  entries : List (K × V)
  ascending : entries.Pairwise fun a b => a.1 < b.1

namespace OrderedMap

variable {K V : Type} [LinearOrder K] {k : K} {v : V} {l : List (K × V)}

/-! ## Entry lists -/

/-- First value stored under `k`. -/
def lookup (k : K) : List (K × V) → Option V
  | [] => none
  | (k', v) :: rest => if k = k' then some v else lookup k rest

/-- Put `v` under `k`, replacing an entry with the same key. -/
def insertEntry (k : K) (v : V) : List (K × V) → List (K × V)
  | [] => [(k, v)]
  | (k', v') :: rest =>
    if k < k' then (k, v) :: (k', v') :: rest
    else if k = k' then (k, v) :: rest
    else (k', v') :: insertEntry k v rest

lemma lookup_insertEntry (k k' : K) (v : V) (l : List (K × V)) :
    lookup k' (insertEntry k v l) = if k' = k then some v else lookup k' l := by
  induction l with
  | nil => rfl
  | cons head rest ih =>
    obtain ⟨k0, v0⟩ := head
    by_cases hlt : k < k0
    · simp only [insertEntry, hlt, if_true, lookup]
    · by_cases heq : k = k0
      · subst heq
        by_cases h : k' = k <;> simp [insertEntry, lookup, h]
      · simp only [insertEntry, hlt, heq, if_false, lookup, ih]
        by_cases h : k' = k0
        · have hne : k' ≠ k := fun hk => heq (hk.symm.trans h)
          simp [h, Ne.symm heq]
        · simp [h]

lemma mem_insertEntry {e : K × V} (h : e ∈ insertEntry k v l) : e = (k, v) ∨ e ∈ l := by
  induction l with
  | nil => simpa [insertEntry] using h
  | cons head rest ih =>
    obtain ⟨k0, v0⟩ := head
    unfold insertEntry at h
    split_ifs at h with hlt heq
    · exact List.mem_cons.mp h
    · rcases List.mem_cons.mp h with h | h
      · exact Or.inl h
      · exact Or.inr (List.mem_cons_of_mem _ h)
    · rcases List.mem_cons.mp h with h | h
      · exact Or.inr (h ▸ List.mem_cons_self)
      · exact (ih h).imp_right (List.mem_cons_of_mem _)

lemma ascending_insertEntry (k : K) (v : V) (h : l.Pairwise fun a b => a.1 < b.1) :
    (insertEntry k v l).Pairwise fun a b => a.1 < b.1 := by
  induction l with
  | nil => simp [insertEntry]
  | cons head rest ih =>
    obtain ⟨k0, v0⟩ := head
    obtain ⟨hhead, hrest⟩ := List.pairwise_cons.mp h
    unfold insertEntry
    split_ifs with hlt heq
    · refine List.pairwise_cons.mpr ⟨fun e he => ?_, h⟩
      rcases List.mem_cons.mp he with rfl | he
      · exact hlt
      · exact lt_trans hlt (hhead e he)
    · subst heq
      exact List.pairwise_cons.mpr ⟨hhead, hrest⟩
    · refine List.pairwise_cons.mpr ⟨fun e he => ?_, ih hrest⟩
      rcases mem_insertEntry he with rfl | he
      · exact lt_of_le_of_ne (not_lt.mp hlt) (Ne.symm heq)
      · exact hhead e he

lemma lookup_eq_some_iff (h : l.Pairwise fun a b => a.1 < b.1) : lookup k l = some v ↔ (k, v) ∈ l := by
  induction l with
  | nil => simp [lookup]
  | cons head rest ih =>
    obtain ⟨k0, v0⟩ := head
    obtain ⟨hhead, hrest⟩ := List.pairwise_cons.mp h
    by_cases hk : k = k0
    · subst hk
      have hnot : (k, v) ∉ rest := fun hmem => lt_irrefl k (hhead _ hmem)
      simp [lookup, hnot, eq_comm]
    · simp [lookup, hk, ih hrest]

lemma lookup_filter (p : K → Bool) (k : K) (l : List (K × V)) :
    lookup k (l.filter fun e => p e.1) = if p k then lookup k l else none := by
  induction l with
  | nil => simp [lookup]
  | cons head rest ih =>
    obtain ⟨k0, v0⟩ := head
    by_cases hp : p k0 <;> by_cases hk : k = k0
    · subst hk
      simp [lookup, hp]
    · simp [lookup, hp, hk, ih]
    · subst hk
      simp [hp, ih]
    · simp [lookup, hp, hk, ih]

/-! ## Maps -/

/-- The map without entries. -/
def empty : OrderedMap K V where
  entries := []
  ascending := List.Pairwise.nil

/-- The value under `k`. -/
def get? (m : OrderedMap K V) (k : K) : Option V :=
  lookup k m.entries

/-- Put `v` under `k`. -/
def insert (m : OrderedMap K V) (k : K) (v : V) : OrderedMap K V where
  entries := insertEntry k v m.entries
  ascending := ascending_insertEntry k v m.ascending

/-- Remove the entry under `k`, if there is one. -/
def erase (m : OrderedMap K V) (k : K) : OrderedMap K V where
  entries := m.entries.filter fun e => decide (e.1 ≠ k)
  ascending := m.ascending.filter _

lemma entries_erase (m : OrderedMap K V) (k : K) :
    (m.erase k).entries = m.entries.filter fun e => decide (e.1 ≠ k) := rfl

@[simp] lemma get?_empty (k : K) : (empty : OrderedMap K V).get? k = none := rfl

lemma get?_insert (m : OrderedMap K V) (k k' : K) (v : V) :
    (m.insert k v).get? k' = if k' = k then some v else m.get? k' :=
  lookup_insertEntry k k' v m.entries

@[simp] lemma get?_insert_self (m : OrderedMap K V) (k : K) (v : V) : (m.insert k v).get? k = some v := by
  simp [get?_insert]

lemma get?_insert_of_ne (m : OrderedMap K V) {k' : K} (v : V) (h : k' ≠ k) :
    (m.insert k v).get? k' = m.get? k' := by
  simp [get?_insert, h]

lemma get?_erase (m : OrderedMap K V) (k k' : K) : (m.erase k).get? k' = if k' = k then none else m.get? k' := by
  show lookup k' (m.entries.filter fun e => decide (e.1 ≠ k)) = _
  rw [lookup_filter (fun x => decide (x ≠ k)) k' m.entries]
  by_cases h : k' = k <;> simp [h, get?]

@[simp] lemma get?_erase_self (m : OrderedMap K V) (k : K) : (m.erase k).get? k = none := by
  simp [get?_erase]

lemma get?_erase_of_ne (m : OrderedMap K V) {k' : K} (h : k' ≠ k) : (m.erase k).get? k' = m.get? k' := by
  simp [get?_erase, h]

/-- An entry is in the list exactly when lookup finds it. -/
lemma mem_entries_iff (m : OrderedMap K V) : (k, v) ∈ m.entries ↔ m.get? k = some v :=
  (lookup_eq_some_iff m.ascending).symm

end OrderedMap

end Data
end StowQ
