import StowQ.Store

/-!
# Walking a listing to its end

A listing is answered page by page, each page continuing after the last key of the one
before.  `Walked answers items` says that a walk through pages that were answered came to the
end and saw `items`.  If all pages show one store, the walk has seen every object below the
prefix, in key order.
-/

namespace StowQ
namespace Store

open Data

/-- A walk that has seen `items` and continues after a key. -/
inductive Walk (answers : Option Str → Page → Prop) : Option Str → List Listing → Prop
  | start : Walk answers none []
  | next {after : Option Str} {items : List Listing} {page : Page} {k : Str}
      (hwalk : Walk answers after items) (hpage : answers after page)
      (hnext : page.nextAfter = some k) : Walk answers (some k) (items ++ page.items)

/-- A walk that came to the end. -/
def Walked (answers : Option Str → Page → Prop) (items : List Listing) : Prop :=
  ∃ after seen page, Walk answers after seen ∧ answers after page ∧ page.nextAfter = none ∧
    items = seen ++ page.items

section Walks

variable {answers answers' : Option Str → Page → Prop} {after : Option Str} {items : List Listing}

lemma Walk.mono (h : Walk answers after items) (hsub : ∀ a p, answers a p → answers' a p) :
    Walk answers' after items := by
  induction h with
  | start => exact .start
  | next _ hpage hnext ih => exact .next ih (hsub _ _ hpage) hnext

lemma Walked.mono (h : Walked answers items) (hsub : ∀ a p, answers a p → answers' a p) :
    Walked answers' items := by
  obtain ⟨after, seen, page, hwalk, hpage, hnext, heq⟩ := h
  exact ⟨after, seen, page, hwalk.mono hsub, hsub _ _ hpage, hnext, heq⟩

/-! ## The walk through one store -/

variable {objs objs' : Objects} {pre : Str} {limit : Nat}

/-- The objects that a listing still has to show, as it shows them. -/
def remaining (objs : Objects) (pre : Str) (after : Option Str) : List Listing :=
  (objs.entries.filter fun e => selects pre after e.1).map fun e => ⟨e.1, e.2.info⟩

lemma items_listPage (objs : Objects) (pre : Str) (after : Option Str) (limit : Nat) :
    (listPage objs pre after limit).items = (remaining objs pre after).take limit := by
  rw [remaining, ← List.map_take]
  rfl

lemma remaining_ascending (objs : Objects) (pre : Str) (after : Option Str) :
    (remaining objs pre after).Pairwise fun a b => a.key < b.key := by
  rw [remaining, List.pairwise_map]
  exact objs.ascending.filter _

lemma mem_remaining {x : Listing} : x ∈ remaining objs pre after ↔
    ∃ stored, objs.get? x.key = some stored ∧ x.info = stored.info ∧ selects pre after x.key = true := by
  simp only [remaining, List.mem_map, List.mem_filter, Prod.exists, objs.mem_entries_iff]
  constructor
  · rintro ⟨key, stored, ⟨hget, hsel⟩, rfl⟩
    exact ⟨stored, hget, rfl, hsel⟩
  · rintro ⟨stored, hget, hinfo, hsel⟩
    exact ⟨x.key, stored, ⟨hget, hsel⟩, by rw [← hinfo]⟩

lemma nextAfter_listPage (objs : Objects) (pre : Str) (after : Option Str) (limit : Nat) :
    (listPage objs pre after limit).nextAfter =
      if limit < (remaining objs pre after).length then
        ((remaining objs pre after).take limit).getLast?.map Listing.key else none := by
  simp [listPage, remaining, List.map_take]

lemma foldl_concat (items found : List Listing) : found.foldl (fun s x => s ++ [x]) items = items ++ found := by
  induction found generalizing items with
  | nil => simp
  | cons x found ih => rw [List.foldl_cons, ih, List.append_assoc, List.singleton_append]

/-- In an ascending list, what lies above the last of the first `n` is the rest. -/
lemma filter_above {α : Type} (key : α → Str) {l : List α} (hasc : l.Pairwise fun a b => key a < key b) {n : Nat}
    {x : α} (hx : (l.take n).getLast? = some x) :
    (l.filter fun y => key x < key y) = l.drop n := by
  obtain ⟨first, hfirst⟩ := List.getLast?_eq_some_iff.mp hx
  have hsplit : l = first ++ x :: l.drop n := by
    rw [← List.singleton_append, ← List.append_assoc, ← hfirst, List.take_append_drop]
  have hasc' := hasc
  rw [hsplit, List.pairwise_append, List.pairwise_cons] at hasc'
  obtain ⟨-, ⟨habove, -⟩, hbelow⟩ := hasc'
  have hlow : (first.filter fun y => key x < key y) = [] := by
    rw [List.filter_eq_nil_iff]
    intro y hy
    simpa using le_of_lt (hbelow y hy x List.mem_cons_self)
  have hhigh : ((l.drop n).filter fun y => key x < key y) = l.drop n := by
    rw [List.filter_eq_self]
    intro y hy
    simpa using habove y hy
  conv_lhs => rw [hsplit]
  rw [List.filter_append, List.filter_cons, hlow, hhigh]
  simp

/-- After a page that is not the last one, the rest is what the page cut off. -/
lemma remaining_next {k : Str} (hnext : (listPage objs pre after limit).nextAfter = some k) :
    remaining objs pre (some k) = (remaining objs pre after).drop limit := by
  rw [nextAfter_listPage] at hnext
  split at hnext
  · obtain ⟨x, hx, rfl⟩ := Option.map_eq_some_iff.mp hnext
    rw [← filter_above Listing.key (remaining_ascending objs pre after) hx]
    have hmem : x ∈ remaining objs pre after := List.mem_of_mem_take (List.mem_of_getLast? hx)
    obtain ⟨-, -, -, hsel⟩ := mem_remaining.mp hmem
    simp only [remaining, List.filter_map, List.filter_filter]
    congr 1
    refine List.filter_congr fun e _ => ?_
    cases after with
    | none => simp [selects, Bool.and_comm]
    | some a =>
      have ha : a < x.key := selects_after hsel
      by_cases hlt : x.key < e.1
      · simp [selects, hlt, ha.trans hlt]
      · simp [selects, hlt]
  · cases hnext

/-- A page that is the last one shows all that remains. -/
lemma items_last (hlimit : 0 < limit) (hnext : (listPage objs pre after limit).nextAfter = none) :
    (listPage objs pre after limit).items = remaining objs pre after := by
  rw [nextAfter_listPage] at hnext
  rw [items_listPage, List.take_of_length_le]
  by_contra hlong
  rw [if_pos (Nat.lt_of_not_le hlong), Option.map_eq_none_iff, List.getLast?_eq_none_iff,
    List.take_eq_nil_iff] at hnext
  rcases hnext with rfl | hnil
  · exact absurd hlimit (lt_irrefl 0)
  · rw [hnil] at hlong
    exact hlong (Nat.zero_le _)

/-- What a walk has seen and what remains make up the listing. -/
lemma Walk.append_remaining (h : Walk answers after items)
    (hanswers : ∀ a p, answers a p → p = listPage objs pre a limit) :
    items ++ remaining objs pre after = remaining objs pre none := by
  induction h with
  | start => rfl
  | @next after seen page k _ hpage hnext ih =>
    obtain rfl := hanswers _ _ hpage
    rw [List.append_assoc, items_listPage, remaining_next hnext, List.take_append_drop]
    exact ih

/-- **A walk that came to the end saw everything.** -/
theorem Walked.eq_remaining (h : Walked answers items) (hlimit : 0 < limit)
    (hanswers : ∀ a p, answers a p → p = listPage objs pre a limit) :
    items = remaining objs pre none := by
  obtain ⟨after, seen, page, hwalk, hpage, hnext, rfl⟩ := h
  obtain rfl := hanswers _ _ hpage
  rw [items_last hlimit hnext]
  exact hwalk.append_remaining hanswers

/-- The listing is the one ascending list of what there is to show. -/
lemma remaining_eq {l : List Listing} (hasc : l.Pairwise fun a b => a.key < b.key)
    (hmem : ∀ x, x ∈ l ↔ ∃ stored, objs.get? x.key = some stored ∧ x.info = stored.info ∧
      selects pre after x.key = true) : remaining objs pre after = l := by
  have hnodup : ∀ l : List Listing, (l.Pairwise fun a b => a.key < b.key) → l.Nodup := fun l hl =>
    hl.imp fun hlt heq => absurd (congrArg Listing.key heq) (ne_of_lt hlt)
  have hrest := remaining_ascending objs pre after
  refine ((List.perm_ext_iff_of_nodup (hnodup _ hrest) (hnodup _ hasc)).mpr fun x => ?_).eq_of_pairwise
    (fun a b _ _ hab hba => absurd hab (lt_asymm hba)) hrest hasc
  rw [mem_remaining, hmem]

lemma remaining_congr (h : ∀ key, pre <+: key → objs.get? key = objs'.get? key) (after : Option Str) :
    remaining objs pre after = remaining objs' pre after := by
  refine remaining_eq (remaining_ascending objs' pre after) fun x => ?_
  rw [mem_remaining]
  constructor
  · rintro ⟨stored, hget, hinfo, hsel⟩
    exact ⟨stored, (h _ (selects_pre hsel)).trans hget, hinfo, hsel⟩
  · rintro ⟨stored, hget, hinfo, hsel⟩
    exact ⟨stored, (h _ (selects_pre hsel)).symm.trans hget, hinfo, hsel⟩

/-- Listings depend on the objects below the prefix only. -/
lemma listPage_congr (h : ∀ key, pre <+: key → objs.get? key = objs'.get? key) (after : Option Str)
    (limit : Nat) : listPage objs pre after limit = listPage objs' pre after limit := by
  have hitems := congrArg (List.take limit) (remaining_congr h after)
  rw [← items_listPage, ← items_listPage] at hitems
  have hnext := nextAfter_listPage objs pre after limit
  rw [remaining_congr h after, ← nextAfter_listPage] at hnext
  have hext : ∀ p p' : Page, p.items = p'.items → p.nextAfter = p'.nextAfter → p = p' := by
    rintro ⟨_, _⟩ ⟨_, _⟩ rfl rfl
    rfl
  exact hext _ _ hitems hnext

end Walks

end Store
end StowQ
