import StowQ.Core.Evals
import StowQ.Core.Repair
import StowQ.Growing

/-!
# Listing a store that changes

A walk reads a directory page by page, each page after the last key of the one before.  Between two pages
objects may be inserted and deleted, also the one whose key the walk continues after.  `Reads` are the pages
such a walk reads; what they show follows from what each page shows of the store it was read from.  Every object
that is there all the time is listed once, nothing is listed that was never there, and the walk costs one
operation for every page: `walks_exact`.
-/

namespace StowQ
namespace Store

open Data

/-! ## The listing of the in-memory store -/

/-- The loop of the listing.  A page is known to be the last one when no object is left to look at. -/
def listLoop (pre : Str) (after : Option Str) (limit : Nat) :
    List (Str × Stored) → List Listing → Option Str → Page
  | [], items, _ => ⟨items, none⟩
  | (k, stored) :: rest, items, lastKey =>
    if after.any fun a => k ≤ a then listLoop pre after limit rest items lastKey
    else if !pre.isPrefixOf k then listLoop pre after limit rest items lastKey
    else if items.length = limit then ⟨items, lastKey⟩
    else listLoop pre after limit rest (items ++ [⟨k, stored.info⟩]) (some k)

/-- The listing ranges over the keys from `after` on. -/
def memoryList (objs : Objects) (pre : Str) (after : Option Str) (limit : Nat) : Page :=
  listLoop pre after limit (objs.entries.filter fun e => after.getD [] ≤ e.1) [] none

lemma selects_eq (pre : Str) (after : Option Str) (key : Str) :
    selects pre after key = (!after.any (fun a => key ≤ a) && pre.isPrefixOf key) := by
  cases after with
  | none => simp [selects]
  | some a => simp only [selects, Option.any_some, ← decide_not, not_le, Bool.and_comm]

lemma listLoop_eq (pre : Str) (after : Option Str) (limit : Nat) (l : List (Str × Stored))
    (items : List Listing) (hlen : items.length ≤ limit) :
    listLoop pre after limit l items (items.getLast?.map Listing.key) =
      let all := items ++ (l.filter fun e => selects pre after e.1).map fun e => ⟨e.1, e.2.info⟩
      ⟨all.take limit, if limit < all.length then (all.take limit).getLast?.map Listing.key else none⟩ := by
  induction l generalizing items with
  | nil => simp [listLoop, List.take_of_length_le hlen, Nat.not_lt.mpr hlen]
  | cons e rest ih =>
    obtain ⟨k, stored⟩ := e
    rw [listLoop, List.filter_cons, selects_eq]
    by_cases hbelow : after.any (fun a => k ≤ a) = true
    · rw [if_pos hbelow, ih items hlen]
      simp [hbelow]
    by_cases hpre : pre.isPrefixOf k = true
    · rw [if_neg hbelow, if_neg (by simp [hpre])]
      by_cases hfull : items.length = limit
      · subst hfull
        rw [if_pos rfl]
        simp [hbelow, hpre]
      · have hmore := ih (items ++ [⟨k, stored.info⟩]) (by rw [List.length_append]; exact Nat.lt_of_le_of_ne hlen hfull)
        rw [if_neg hfull, show some k = (items ++ [(⟨k, stored.info⟩ : Listing)]).getLast?.map Listing.key by simp,
          hmore]
        simp [hbelow, hpre]
    · rw [if_neg hbelow, if_pos (by simp [hpre]), ih items hlen]
      simp [hpre]

lemma memoryList_eq (objs : Objects) (pre : Str) (after : Option Str) (limit : Nat) :
    memoryList objs pre after limit = listPage objs pre after limit := by
  have hrange : ∀ e : Str × Stored, selects pre after e.1 = true → after.getD [] ≤ e.1 := by
    intro e hsel
    cases after with
    | none => exact not_lt.mp (List.not_lt_nil _)
    | some a => exact (selects_after hsel).le
  have hfilter : ((objs.entries.filter fun e => after.getD [] ≤ e.1).filter fun e => selects pre after e.1) =
      objs.entries.filter fun e => selects pre after e.1 := by
    rw [List.filter_filter]
    refine List.filter_congr fun e _ => ?_
    cases hsel : selects pre after e.1 with
    | false => rfl
    | true => simpa using hrange e hsel
  have hloop := listLoop_eq pre after limit
    (objs.entries.filter fun e => after.getD [] ≤ e.1) [] (Nat.zero_le _)
  rw [hfilter] at hloop
  refine hloop.trans ?_
  simp [listPage, List.map_take]

/-! ## The pages of a walk -/

/-- The pages that a walk after a key reads, with the stores they are read from. -/
inductive Reads (pre : Str) (limit : Nat) : Option Str → List (Objects × Page) → Prop
  | last {after : Option Str} {objs : Objects} (hend : (listPage objs pre after limit).nextAfter = none) :
      Reads pre limit after [(objs, listPage objs pre after limit)]
  | next {after : Option Str} {objs : Objects} {k : Str} {pages : List (Objects × Page)}
      (hnext : (listPage objs pre after limit).nextAfter = some k) (hrest : Reads pre limit (some k) pages) :
      Reads pre limit after ((objs, listPage objs pre after limit) :: pages)

/-- What the pages show. -/
def shown (pages : List (Objects × Page)) : List Listing := pages.flatMap fun p => p.2.items

section Reads

variable {pre k : Str} {limit : Nat} {after : Option Str} {objs : Objects} {pages : List (Objects × Page)}

/-- The key a page continues after is the last one it shows. -/
lemma getLast_of_nextAfter (hnext : (listPage objs pre after limit).nextAfter = some k) :
    ∃ x, (listPage objs pre after limit).items.getLast? = some x ∧ x.key = k := by
  rw [nextAfter_listPage] at hnext
  split at hnext
  · rw [items_listPage]
    exact Option.map_eq_some_iff.mp hnext
  · cases hnext

lemma le_of_nextAfter (hnext : (listPage objs pre after limit).nextAfter = some k) {x : Listing}
    (hx : x ∈ (listPage objs pre after limit).items) : x.key ≤ k := by
  obtain ⟨y, hlast, rfl⟩ := getLast_of_nextAfter hnext
  obtain ⟨first, hfirst⟩ := List.getLast?_eq_some_iff.mp hlast
  have hasc := listPage_ascending objs pre after limit
  rw [hfirst] at hasc hx
  rcases List.mem_append.mp hx with hx | hx
  · exact ((List.pairwise_append.mp hasc).2.2 x hx y List.mem_cons_self).le
  · rw [List.mem_singleton.mp hx]

lemma selects_next (hnext : (listPage objs pre after limit).nextAfter = some k) {key : Str}
    (hsel : selects pre (some k) key = true) : selects pre after key = true := by
  obtain ⟨x, hlast, rfl⟩ := getLast_of_nextAfter hnext
  obtain ⟨-, -, -, hx⟩ := mem_listPage (List.mem_of_getLast? hlast)
  cases after with
  | none => simpa [selects] using selects_pre hsel
  | some a => simpa [selects, selects_pre hsel] using (selects_after hx).trans (selects_after hsel)

lemma Reads.selects (h : Reads pre limit after pages) : ∀ x ∈ shown pages, Store.selects pre after x.key = true := by
  induction h with
  | last hend =>
    intro x hx
    obtain ⟨-, -, -, hsel⟩ := mem_listPage (show x ∈ (listPage _ _ _ _).items by simpa [shown] using hx)
    exact hsel
  | next hnext _ ih =>
    intro x hx
    rcases List.mem_append.mp hx with hx | hx
    · obtain ⟨-, -, -, hsel⟩ := mem_listPage hx
      exact hsel
    · exact selects_next hnext (ih x hx)

lemma Reads.ascending (h : Reads pre limit after pages) : (shown pages).Pairwise fun a b => a.key < b.key := by
  induction h with
  | last hend =>
    rw [shown, List.flatMap_singleton]
    exact listPage_ascending _ _ _ _
  | next hnext hrest ih =>
    refine List.pairwise_append.mpr ⟨listPage_ascending _ _ _ _, ih, fun x hx y hy => ?_⟩
    exact lt_of_le_of_lt (le_of_nextAfter hnext hx) (selects_after (hrest.selects y hy))

/-- What a page shows was in the store it was read from. -/
lemma Reads.existed (h : Reads pre limit after pages) : ∀ p ∈ pages, ∀ x ∈ p.2.items,
    pre <+: x.key ∧ ∃ stored, p.1.get? x.key = some stored ∧ x.info = stored.info := by
  have hpage : ∀ {objs : Objects} {after : Option Str} {x : Listing}, x ∈ (listPage objs pre after limit).items →
      pre <+: x.key ∧ ∃ stored, objs.get? x.key = some stored ∧ x.info = stored.info := by
    intro objs after x hx
    obtain ⟨stored, hget, hinfo, hsel⟩ := mem_listPage hx
    exact ⟨selects_pre hsel, stored, hget, hinfo⟩
  induction h with
  | last hend =>
    intro p hp x hx
    obtain rfl := List.mem_singleton.mp hp
    exact hpage hx
  | next hnext _ ih =>
    intro p hp x hx
    rcases List.mem_cons.mp hp with rfl | hp
    · exact hpage hx
    · exact ih p hp x hx

/-- A key is shown that is in every store a page is read from: on the first page that goes beyond it. -/
lemma Reads.complete (h : Reads pre limit after pages) (hlimit : 0 < limit) {key : Str}
    (hsel : Store.selects pre after key = true) (hthere : ∀ p ∈ pages, p.1.get? key ≠ none) :
    ∃ x ∈ shown pages, x.key = key := by
  induction h with
  | @last after objs hend =>
    obtain ⟨stored, hget⟩ := Option.ne_none_iff_exists'.mp (hthere _ List.mem_cons_self)
    refine ⟨⟨key, stored.info⟩, ?_, rfl⟩
    rw [shown, List.flatMap_singleton, items_last hlimit hend]
    exact mem_remaining.mpr ⟨stored, hget, rfl, hsel⟩
  | @next after objs k pages hnext _ ih =>
    by_cases hbeyond : Store.selects pre (some k) key = true
    · obtain ⟨x, hx, hkey⟩ := ih hbeyond fun p hp => hthere p (List.mem_cons_of_mem _ hp)
      exact ⟨x, List.mem_append_right _ hx, hkey⟩
    · obtain ⟨stored, hget⟩ := Option.ne_none_iff_exists'.mp (hthere _ List.mem_cons_self)
      obtain ⟨y, hlast, rfl⟩ := getLast_of_nextAfter hnext
      have hle := le_of_selects_eq_false (selects_pre hsel) (Bool.eq_false_iff.mpr hbeyond)
      have hmem : (⟨key, stored.info⟩ : Listing) ∈ remaining objs pre after :=
        mem_remaining.mpr ⟨stored, hget, rfl, hsel⟩
      have hy := List.mem_of_getLast? hlast
      rw [items_listPage] at hy
      refine ⟨⟨key, stored.info⟩, List.mem_append_left _ ?_, rfl⟩
      show _ ∈ (listPage objs pre after limit).items
      rw [items_listPage]
      exact mem_take_of_le (remaining_ascending objs pre after) hy hmem hle

end Reads

end Store

/-! ## The walk -/

namespace Core

open Data Concurrent Store
open Budgeted (Evals)

/-- What others do to the store between two requests. -/
inductive Edit
  | insert (key : Str) (stored : Stored)
  | delete (key : Str)

def Edit.apply (objs : Objects) : Edit → Objects
  | .insert key stored => objs.insert key stored
  | .delete key => objs.erase key

/-- An in-memory store with the changes that come after each of the next requests, and the pages
that were read so far. -/
structure Churn where
  objects : Objects
  ahead : List (List Edit)
  read : List (Objects × Page)

/-- The store after a page was read. -/
def Churn.after (s : Churn) (page : Page) : Churn where
  objects := (s.ahead.headD []).foldl Edit.apply s.objects
  ahead := s.ahead.tail
  read := s.read ++ [(s.objects, page)]

/-- Listings of such a store; a walk makes no other requests. -/
def churning : Handler Op Res Churn
  | .store (.list pre after limit), s =>
    let page := memoryList s.objects pre after limit
    (.ok page, s.after page)
  | .store _, s => (.error .transport, s)
  | .freshToken, s => (List.Vector.replicate 16 0, s)
  | .cachedFloor _, s => (none, s)
  | .cacheFloor _ _, s => ((), s)
  | .isMemoizedTerminal _ _ _ _, s => (false, s)
  | .memoizeTerminal _ _ _ _, s => ((), s)

/-- `listAuthoritative` with any page limit. -/
def walk (pre : Str) (limit : Nat) : Routine (List Listing) :=
  Routine.pages true pre limit (fun items item => pure (items ++ [item])) []

/-- One page of it. -/
def walkRound (pre : Str) (limit : Nat) (seen : List Listing × Option Str) :
    Routine ((List Listing × Option Str) ⊕ List Listing) := do
  Routine.spend
  let page ← Routine.ofStore (← Routine.list pre seen.2 limit)
  if true && page.items.isEmpty then pure (.inr seen.1)
  else do
    let items ← Budgeted.foldM (fun items item => pure (items ++ [item])) seen.1 page.items
    match page.nextAfter with
    | some k => pure (.inl (items, some k))
    | none => pure (.inr items)

section Walk

variable {pre : Str} {limit : Nat} {s : Churn} {seen : List Listing} {after : Option Str} {b : Nat}

lemma serves_list_churning : Serves churning s (.list pre after limit) (.ok (listPage s.objects pre after limit))
    (s.after (listPage s.objects pre after limit)) := by
  rw [← memoryList_eq]
  rfl

lemma evals_walkRound_next {k : Str} (hnext : (listPage s.objects pre after limit).nextAfter = some k) :
    Evals churning (walkRound pre limit (seen, after)) (b + 1) s
      (.ok (.inl (seen ++ (listPage s.objects pre after limit).items, some k))) b
      (s.after (listPage s.objects pre after limit)) := by
  obtain ⟨x, hlast, -⟩ := getLast_of_nextAfter hnext
  have hmore : (listPage s.objects pre after limit).items.isEmpty = false :=
    List.isEmpty_eq_false_iff.mpr (List.ne_nil_of_mem (List.mem_of_getLast? hlast))
  refine evals_spend (evals_store serves_list_churning ((Evals.pure _).bind ?_))
  rw [hmore, hnext, Budgeted.foldM_pure, foldl_concat]
  exact (Evals.pure _).bind (Evals.pure _)

lemma evals_walkRound_last (hend : (listPage s.objects pre after limit).nextAfter = none) :
    Evals churning (walkRound pre limit (seen, after)) (b + 1) s
      (.ok (.inr (seen ++ (listPage s.objects pre after limit).items))) b
      (s.after (listPage s.objects pre after limit)) := by
  refine evals_spend (evals_store serves_list_churning ((Evals.pure _).bind ?_))
  cases hitems : (listPage s.objects pre after limit).items with
  | nil =>
    rw [List.append_nil]
    exact Evals.pure _
  | cons x items =>
    rw [hend, Budgeted.foldM_pure, foldl_concat]
    exact (Evals.pure _).bind (Evals.pure _)

/-- A walk from a key on: the pages it reads, and how it ends with enough budget and without. -/
structure Walks (pre : Str) (limit : Nat) (s : Churn) (after : Option Str) (pages : List (Objects × Page))
    (s' : Churn) : Prop where
  reads : Reads pre limit after pages
  read : s'.read = s.read ++ pages
  still : (∀ edits ∈ s.ahead, edits = []) → ∀ p ∈ pages, p.1 = s.objects
  ends : ∀ seen fuel b, pages.length ≤ fuel →
    Evals churning (Budgeted.iterate .budgetExhausted (walkRound pre limit) fuel (seen, after))
      (pages.length + b) s (.ok (seen ++ shown pages)) b s'
  cut : ∀ seen fuel b, b < pages.length → b < fuel → ∃ s1,
    Evals churning (Budgeted.iterate .budgetExhausted (walkRound pre limit) fuel (seen, after)) b s
      (.error .budgetExhausted) 0 s1

lemma Walks.last (hend : (listPage s.objects pre after limit).nextAfter = none) :
    Walks pre limit s after [(s.objects, listPage s.objects pre after limit)]
      (s.after (listPage s.objects pre after limit)) where
  reads := .last hend
  read := rfl
  still _ p hp := by rw [List.mem_singleton.mp hp]
  ends seen fuel b hfuel := by
    obtain ⟨fuel, rfl⟩ := Nat.exists_eq_add_of_le' hfuel
    rw [shown, List.flatMap_singleton, List.length_singleton, Nat.add_comm 1 b]
    exact Evals.iterate_done (evals_walkRound_last hend)
  cut seen fuel b hb hfuel := by
    obtain rfl : b = 0 := Nat.lt_one_iff.mp hb
    obtain ⟨fuel, rfl⟩ := Nat.exists_eq_add_of_le' hfuel
    exact ⟨s, rfl⟩

lemma Walks.next {k : Str} {pages : List (Objects × Page)} {s' : Churn}
    (hnext : (listPage s.objects pre after limit).nextAfter = some k)
    (h : Walks pre limit (s.after (listPage s.objects pre after limit)) (some k) pages s') :
    Walks pre limit s after ((s.objects, listPage s.objects pre after limit) :: pages) s' where
  reads := .next hnext h.reads
  read := by
    rw [h.read, Churn.after, List.append_assoc]
    rfl
  still hquiet p hp := by
    have hsame : (s.after (listPage s.objects pre after limit)).objects = s.objects := by
      show (s.ahead.headD []).foldl Edit.apply s.objects = s.objects
      cases hahead : s.ahead with
      | nil => rfl
      | cons edits rest =>
        rw [List.headD_cons, hquiet edits (by rw [hahead]; exact List.mem_cons_self)]
        rfl
    rcases List.mem_cons.mp hp with rfl | hp
    · rfl
    · exact (h.still (fun edits hc => hquiet edits (List.mem_of_mem_tail hc)) p hp).trans hsame
  ends seen fuel b hfuel := by
    obtain ⟨fuel, rfl⟩ := Nat.exists_eq_add_of_le' (Nat.le_trans (Nat.le_add_left 1 pages.length) hfuel)
    rw [List.length_cons, Nat.add_right_comm]
    refine Evals.iterate_next (evals_walkRound_next hnext) ?_
    rw [shown, List.flatMap_cons, ← List.append_assoc]
    exact h.ends _ fuel b (Nat.le_of_succ_le_succ hfuel)
  cut seen fuel b hb hfuel := by
    obtain ⟨fuel, rfl⟩ := Nat.exists_eq_add_of_le' (Nat.lt_of_le_of_lt (Nat.zero_le b) hfuel)
    cases b with
    | zero => exact ⟨s, rfl⟩
    | succ b =>
      obtain ⟨s1, hcut⟩ := h.cut (seen ++ (listPage s.objects pre after limit).items) fuel b
        (Nat.lt_of_succ_lt_succ hb) (Nat.lt_of_succ_lt_succ hfuel)
      exact ⟨s1, Evals.iterate_next (evals_walkRound_next hnext) hcut⟩

/-- Every walk ends: the changes run out, and then every page leaves less to show. -/
lemma exists_walks (hlimit : 0 < limit) (s : Churn) (after : Option Str) :
    ∃ pages s', Walks pre limit s after pages s' := by
  cases hnext : (listPage s.objects pre after limit).nextAfter with
  | none => exact ⟨_, _, .last hnext⟩
  | some k =>
    obtain ⟨pages, s', hwalks⟩ := exists_walks hlimit (s.after (listPage s.objects pre after limit)) (some k)
    exact ⟨_, s', .next hnext hwalks⟩
termination_by (s.ahead.length, (remaining s.objects pre after).length)
decreasing_by
  cases hahead : s.ahead with
  | nil =>
    -- the store stays as it is
    have hlong : limit < (remaining s.objects pre after).length := by
      by_contra hshort
      rw [nextAfter_listPage, if_neg hshort] at hnext
      cases hnext
    simp only [Churn.after, hahead, List.headD_nil, List.foldl_nil, List.tail_nil, remaining_next hnext,
      List.length_drop]
    exact Prod.Lex.right _ (Nat.sub_lt (Nat.zero_lt_of_lt hlong) hlimit)
  | cons edits rest =>
    simp only [Churn.after, hahead, List.tail_cons, List.length_cons]
    exact Prod.Lex.left _ _ (Nat.lt_succ_self _)

end Walk

/-- What a walk from `s` to `s'` returns: the keys ascend, every key is there that was in the store
whenever a page was read, what a page shows was in the store then, and a store that nobody changes is
listed exactly. -/
structure Exact (pre : Str) (s s' : Churn) : Prop where
  ascending : (shown s'.read).Pairwise fun a b => a.key < b.key
  complete : ∀ key, pre <+: key → (∀ p ∈ s'.read, p.1.get? key ≠ none) → ∃ x ∈ shown s'.read, x.key = key
  existed : ∀ p ∈ s'.read, ∀ x ∈ p.2.items, pre <+: x.key ∧
    ∃ stored, p.1.get? x.key = some stored ∧ x.info = stored.info
  unchanged : (∀ edits ∈ s.ahead, edits = []) → ∀ key,
    (∃ x ∈ shown s'.read, x.key = key) ↔ pre <+: key ∧ s.objects.get? key ≠ none

/-- **A listing is exact while the store changes.**  With one operation for every page the walk returns
what its pages show, and with fewer it runs out of budget. -/
theorem walks_exact (pre : Str) (limit : Nat) (hlimit : 1 ≤ limit) (objs : Objects) (ahead : List (List Edit)) :
    Queue.listAuthoritative pre = walk pre 64 ∧ ∃ s' : Churn,
      (∀ b, Evals churning (walk pre limit) (s'.read.length + b) ⟨objs, ahead, []⟩ (.ok (shown s'.read)) b s') ∧
      (∀ b < s'.read.length, ∃ s1, Evals churning (walk pre limit) b ⟨objs, ahead, []⟩
        (.error .budgetExhausted) 0 s1) ∧
      Exact pre ⟨objs, ahead, []⟩ s' := by
  obtain ⟨pages, s', hwalks⟩ : ∃ pages s', Walks pre limit ⟨objs, ahead, []⟩ none pages s' := exists_walks hlimit _ none
  obtain rfl : s'.read = pages := hwalks.read
  have hcomplete : ∀ key, pre <+: key → (∀ p ∈ s'.read, p.1.get? key ≠ none) → ∃ x ∈ shown s'.read, x.key = key :=
    fun key hpre => hwalks.reads.complete hlimit (by simpa [selects] using hpre)
  refine ⟨rfl, s', fun b => hwalks.ends [] _ b (by omega), fun b hb => hwalks.cut [] _ b hb (by omega),
    hwalks.reads.ascending, hcomplete, hwalks.reads.existed, fun hquiet key => ⟨?_, ?_⟩⟩
  · rintro ⟨x, hx, rfl⟩
    obtain ⟨p, hp, hx⟩ := List.mem_flatMap.mp hx
    obtain ⟨hpre, stored, hget, -⟩ := hwalks.reads.existed p hp x hx
    rw [hwalks.still hquiet p hp] at hget
    exact ⟨hpre, by simp [hget]⟩
  · rintro ⟨hpre, hthere⟩
    exact hcomplete key hpre fun p hp => (hwalks.still hquiet p hp).symm ▸ hthere

/-- Two objects on two pages; the first one is deleted after its page was read. -/
theorem walks_exact_cursor : (1 : Nat) ≤ 1 ∧ ∃ s', Exact ['k']
    ⟨(OrderedMap.empty.insert ['k', 'a'] ⟨[], ⟨['1']⟩, 0⟩).insert ['k', 'b'] ⟨[], ⟨['2']⟩, 0⟩,
      [[.delete ['k', 'a']]], []⟩ s' := by
  obtain ⟨-, s', -, -, hexact⟩ := walks_exact ['k'] 1 (by decide)
    ((OrderedMap.empty.insert ['k', 'a'] ⟨[], ⟨['1']⟩, 0⟩).insert ['k', 'b'] ⟨[], ⟨['2']⟩, 0⟩)
    [[.delete ['k', 'a']]]
  exact ⟨by decide, s', hexact⟩

end Core
end StowQ
