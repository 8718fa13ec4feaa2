import StowQ.Listing

/-!
# Listing a store that grows

A listing is read page by page, and the store may gain objects in between.  What such a
listing still shows: objects that are there, in key order, and all that was there when it
began.  Of objects that are added meanwhile it may show some and miss others.  If one object
is there whenever another is, and nothing sorts in between, then the listing does not show
the second without the first.
-/

namespace StowQ
namespace Store

open Data

/-- What a listing guarantees that was read while the store grew from `objs0` to `objs`: its
items are objects in key order, and it misses nothing that was there from the start.  `closed`
is about keys that are there whenever another one is. -/
structure Traced (pre : Str) (follows : Str → Str → Prop) (objs0 objs : Objects)
    (items : List Listing) : Prop where
  present : ∀ x ∈ items, pre <+: x.key ∧ ∃ stored, objs.get? x.key = some stored ∧ x.info = stored.info
  ascending : items.Pairwise fun a b => a.key < b.key
  closed : ∀ x ∈ items, ∀ key, follows key x.key → ∃ y ∈ items, y.key = key
  complete : ∀ key, pre <+: key → objs0.get? key ≠ none → ∃ x ∈ items, x.key = key

namespace Traced

variable {pre : Str} {follows : Str → Str → Prop} {objs0 objs : Objects} {items : List Listing}

/-- In a store that did not grow the listing shows all there is. -/
lemma eq_remaining (h : Traced pre follows objs0 objs items)
    (hsame : ∀ key, pre <+: key → objs.get? key = objs0.get? key) : items = remaining objs0 pre none := by
  refine (remaining_eq h.ascending fun x => ?_).symm
  constructor
  · intro hx
    obtain ⟨hpre, stored, hget, hinfo⟩ := h.present x hx
    exact ⟨stored, (hsame _ hpre).symm.trans hget, hinfo, by simpa [selects] using hpre⟩
  · rintro ⟨stored, hget, hinfo, hsel⟩
    have hpre := selects_pre hsel
    obtain ⟨y, hy, hkey⟩ := h.complete x.key hpre (by rw [hget]; simp)
    obtain ⟨-, stored', hget', hinfo'⟩ := h.present y hy
    rw [hkey, hsame _ hpre, hget] at hget'
    cases hget'
    obtain rfl : y = x := by
      cases x
      cases y
      simp_all
    exact hy

lemma later {objs' : Objects} (h : Traced pre follows objs0 objs items)
    (hgrown : ∀ key stored, pre <+: key → objs.get? key = some stored → objs'.get? key = some stored) :
    Traced pre follows objs0 objs' items where
  present x hx := by
    obtain ⟨hpre, stored, hget, hinfo⟩ := h.present x hx
    exact ⟨hpre, stored, hgrown _ _ hpre hget, hinfo⟩
  ascending := h.ascending
  closed := h.closed
  complete := h.complete

end Traced

/-! ## Walking through a growing store -/

/-- The listing as far as it has been read. -/
structure Walking (pre : Str) (follows : Str → Str → Prop) (objs0 objs : Objects)
    (items : List Listing) (after : Option Str) : Prop where
  present : ∀ x ∈ items, pre <+: x.key ∧ ∃ stored, objs.get? x.key = some stored ∧ x.info = stored.info
  ascending : items.Pairwise fun a b => a.key < b.key
  closed : ∀ x ∈ items, ∀ key, follows key x.key → ∃ y ∈ items, y.key = key
  last : after = items.getLast?.map Listing.key
  complete : ∀ key, pre <+: key → objs0.get? key ≠ none → selects pre after key = false → ∃ x ∈ items, x.key = key

/-- The relation `follows` names the key right before another one. -/
def Adjoins (pre : Str) (follows : Str → Str → Prop) (objs : Objects) : Prop :=
  ∀ key key', objs.get? key' ≠ none → pre <+: key' → follows key key' →
    pre <+: key ∧ key < key' ∧ objs.get? key ≠ none ∧ ∀ z, objs.get? z ≠ none → pre <+: z → z < key' → z ≤ key

/-- What sorts before an item of a page is on the page. -/
lemma mem_take_of_le {l : List Listing} (hasc : l.Pairwise fun a b => a.key < b.key) {n : Nat}
    {x y : Listing} (hx : x ∈ l.take n) (hy : y ∈ l) (hle : y.key ≤ x.key) : y ∈ l.take n := by
  rw [← List.take_append_drop n l] at hasc hy
  rcases List.mem_append.mp hy with hy | hy
  · exact hy
  · exact absurd ((List.pairwise_append.mp hasc).2.2 x hx y hy) (not_lt_of_ge hle)

lemma le_of_selects_eq_false {pre key k : Str} (hpre : pre <+: key)
    (h : selects pre (some k) key = false) : key ≤ k := by
  by_contra hlt
  have hsel : selects pre (some k) key = true := by
    simpa [selects, hpre] using lt_of_not_ge hlt
  rw [hsel] at h
  cases h

namespace Walking

variable {pre : Str} {follows : Str → Str → Prop} {objs0 objs objs1 : Objects} {items : List Listing}
  {after : Option Str}

lemma start : Walking pre follows objs0 objs [] none where
  present _ hx := by cases hx
  ascending := List.Pairwise.nil
  closed _ hx := by cases hx
  last := rfl
  complete key hpre _ hsel := by
    rw [selects, List.isPrefixOf_iff_prefix.mpr hpre] at hsel
    cases hsel

variable (h : Walking pre follows objs0 objs items after)
  (hgrown : ∀ key stored, pre <+: key → objs.get? key = some stored → objs1.get? key = some stored)
  (hprec : Adjoins pre follows objs1)

include h

lemma later
    (hgrown : ∀ key stored, pre <+: key → objs.get? key = some stored → objs1.get? key = some stored) :
    Walking pre follows objs0 objs1 items after where
  present x hx := by
    obtain ⟨hpre, stored, hget, hinfo⟩ := h.present x hx
    exact ⟨hpre, stored, hgrown _ _ hpre hget, hinfo⟩
  ascending := h.ascending
  closed := h.closed
  last := h.last
  complete := h.complete

lemma lt_page {n : Nat} {x y : Listing} (hx : x ∈ items) (hy : y ∈ (remaining objs1 pre after).take n) :
    x.key < y.key := by
  obtain ⟨-, -, -, hsel⟩ := mem_remaining.mp (List.mem_of_mem_take hy)
  obtain ⟨z, hz⟩ : ∃ z, items.getLast? = some z := by
    rw [← Option.isSome_iff_exists, List.getLast?_isSome]
    exact List.ne_nil_of_mem hx
  have hafter : after = some z.key := by rw [h.last, hz]; rfl
  rw [hafter] at hsel
  have hlt := selects_after hsel
  obtain ⟨first, hfirst⟩ := List.getLast?_eq_some_iff.mp hz
  have hasc := h.ascending
  rw [hfirst] at hx hasc
  rcases List.mem_append.mp hx with hx | hx
  · exact lt_trans ((List.pairwise_append.mp hasc).2.2 x hx z (List.mem_singleton_self z)) hlt
  · obtain rfl := List.mem_singleton.mp hx
    exact hlt

lemma ascending_page (n : Nat) :
    (items ++ (remaining objs1 pre after).take n).Pairwise fun a b => a.key < b.key :=
  List.pairwise_append.mpr ⟨h.ascending, (remaining_ascending objs1 pre after).sublist (List.take_sublist _ _),
    fun _ hx _ hy => h.lt_page hx hy⟩

include hgrown

lemma present_page (n : Nat) : ∀ x ∈ items ++ (remaining objs1 pre after).take n,
    pre <+: x.key ∧ ∃ stored, objs1.get? x.key = some stored ∧ x.info = stored.info := by
  intro x hx
  rcases List.mem_append.mp hx with hx | hx
  · obtain ⟨hpre, stored, hget, hinfo⟩ := h.present x hx
    exact ⟨hpre, stored, hgrown _ _ hpre hget, hinfo⟩
  · obtain ⟨stored, hget, hinfo, hsel⟩ := mem_remaining.mp (List.mem_of_mem_take hx)
    exact ⟨selects_pre hsel, stored, hget, hinfo⟩

include hprec

/-- The key right before an item is on the same page or was the last one read. -/
lemma closed_page (n : Nat) : ∀ x ∈ items ++ (remaining objs1 pre after).take n, ∀ key,
    follows key x.key → ∃ y ∈ items ++ (remaining objs1 pre after).take n, y.key = key := by
  intro x hx key hkey
  rcases List.mem_append.mp hx with hx | hx
  · obtain ⟨y, hy, hykey⟩ := h.closed x hx key hkey
    exact ⟨y, List.mem_append_left _ hy, hykey⟩
  · obtain ⟨stored, hget, -, hsel⟩ := mem_remaining.mp (List.mem_of_mem_take hx)
    obtain ⟨hpre, hlt, hthere, hnothing⟩ := hprec key x.key (by rw [hget]; simp) (selects_pre hsel) hkey
    obtain ⟨stored', hget'⟩ := Option.ne_none_iff_exists'.mp hthere
    by_cases hkeysel : selects pre after key = true
    · have hmem : ⟨key, stored'.info⟩ ∈ remaining objs1 pre after :=
        mem_remaining.mpr ⟨stored', hget', rfl, hkeysel⟩
      exact ⟨_, List.mem_append_right _ (mem_take_of_le (remaining_ascending objs1 pre after) hx hmem
        (le_of_lt hlt)), rfl⟩
    · cases hafter : after with
      | none =>
        rw [hafter] at hkeysel
        simp [selects, hpre] at hkeysel
      | some k =>
        rw [hafter] at hkeysel hsel
        have hlast := h.last
        rw [hafter] at hlast
        obtain ⟨z, hz, rfl⟩ := Option.map_eq_some_iff.mp hlast.symm
        have hzmem := List.mem_of_getLast? hz
        obtain ⟨hzpre, storedz, hzget, -⟩ := h.present z hzmem
        refine ⟨z, List.mem_append_left _ hzmem, le_antisymm ?_
          (le_of_selects_eq_false hpre (Bool.eq_false_iff.mpr hkeysel))⟩
        exact hnothing z.key (by rw [hgrown _ _ hzpre hzget]; simp) hzpre (selects_after hsel)

variable (hstart : ∀ key, pre <+: key → objs0.get? key ≠ none → objs1.get? key ≠ none)

include hstart

omit hprec hgrown in
lemma complete_page {n : Nat} {key : Str} (hpre : pre <+: key) (hkey : objs0.get? key ≠ none)
    (hpast : ∀ x, x.key = key → x ∈ remaining objs1 pre after → x ∈ (remaining objs1 pre after).take n) :
    ∃ x ∈ items ++ (remaining objs1 pre after).take n, x.key = key := by
  by_cases hsel : selects pre after key = true
  · obtain ⟨stored, hget⟩ := Option.ne_none_iff_exists'.mp (hstart key hpre hkey)
    have hmem : ⟨key, stored.info⟩ ∈ remaining objs1 pre after := mem_remaining.mpr ⟨stored, hget, rfl, hsel⟩
    exact ⟨_, List.mem_append_right _ (hpast _ rfl hmem), rfl⟩
  · obtain ⟨x, hx, hxkey⟩ := h.complete key hpre hkey (Bool.eq_false_iff.mpr hsel)
    exact ⟨x, List.mem_append_left _ hx, hxkey⟩

lemma next {limit : Nat} {k : Str} (hnext : (listPage objs1 pre after limit).nextAfter = some k) :
    Walking pre follows objs0 objs1 (items ++ (listPage objs1 pre after limit).items) (some k) := by
  rw [items_listPage]
  rw [nextAfter_listPage] at hnext
  split at hnext
  · obtain ⟨z, hz, rfl⟩ := Option.map_eq_some_iff.mp hnext
    refine ⟨h.present_page hgrown limit, h.ascending_page limit, h.closed_page hgrown hprec limit,
      ?_, fun key hpre hkey hsel => ?_⟩
    · rw [List.getLast?_append, hz]
      rfl
    · refine h.complete_page hstart hpre hkey fun x hxkey hx => ?_
      refine mem_take_of_le (remaining_ascending objs1 pre after) (List.mem_of_getLast? hz) hx ?_
      rw [hxkey]
      exact le_of_selects_eq_false hpre hsel
  · cases hnext

lemma finish {n : Nat} (hall : (remaining objs1 pre after).take n = remaining objs1 pre after) :
    Traced pre follows objs0 objs1 (items ++ (remaining objs1 pre after).take n) where
  present := h.present_page hgrown n
  ascending := h.ascending_page n
  closed := h.closed_page hgrown hprec n
  complete _ hpre hkey := h.complete_page hstart hpre hkey fun _ _ hx => hall.symm ▸ hx

end Walking

end Store
end StowQ
