import Mathlib.Data.List.Perm.Subperm
import StowQ.Concurrent.Affords
import StowQ.Core.Gc
import StowQ.Growing

/-!
# Emptying a directory

`gc` deletes the objects of a directory while it lists them: a page, the deletes of its keys,
the next page after the last key.  If only the call itself moves the objects and its deletes
take effect, the walk leaves nothing behind, for directories of any number of pages.
-/

namespace StowQ
namespace Core

open Data Concurrent Store Format

/-- Nothing is added or changed. -/
def Shrunk (objs objs' : Objects) : Prop :=
  ∀ key stored, objs'.get? key = some stored → objs.get? key = some stored

namespace Shrunk

variable {a b c : Objects}

lemma refl (objs : Objects) : Shrunk objs objs := fun _ _ h => h

lemma trans (h : Shrunk a b) (h' : Shrunk b c) : Shrunk a c :=
  fun key stored hget => h key stored (h' key stored hget)

lemma erase (objs : Objects) (key : Str) : Shrunk objs (objs.erase key) := by
  intro key' stored hget
  rw [OrderedMap.get?_erase] at hget
  split at hget
  · cases hget
  · exact hget

lemma absent (h : Shrunk a b) {key : Str} (habs : a.get? key = none) : b.get? key = none := by
  by_contra hne
  obtain ⟨stored, hget⟩ := Option.ne_none_iff_exists'.mp hne
  rw [h key stored hget] at habs
  cases habs

/-- What a listing still has to show was there before. -/
lemma mem_remaining (h : Shrunk a b) {pre : Str} {after : Option Str} {x : Listing}
    (hx : x ∈ remaining b pre after) : x ∈ remaining a pre after := by
  obtain ⟨stored, hget, hinfo, hsel⟩ := Store.mem_remaining.mp hx
  exact Store.mem_remaining.mpr ⟨stored, h _ _ hget, hinfo, hsel⟩

end Shrunk

lemma nodup_remaining (objs : Objects) (pre : Str) (after : Option Str) : (remaining objs pre after).Nodup :=
  (remaining_ascending objs pre after).imp fun hlt heq => absurd (congrArg Listing.key heq) (ne_of_lt hlt)

/-- A page and what comes after it were all to be listed. -/
lemma length_page_add_remaining {objs objs' : Objects} (h : Shrunk objs objs') {pre k : Str}
    {after : Option Str} {limit : Nat} (hnext : (listPage objs' pre after limit).nextAfter = some k) :
    (listPage objs' pre after limit).items.length + (remaining objs pre (some k)).length ≤
      (remaining objs pre after).length := by
  rw [items_listPage]
  rw [nextAfter_listPage] at hnext
  split at hnext
  · obtain ⟨last, hlast, rfl⟩ := Option.map_eq_some_iff.mp hnext
    have hmem := List.mem_of_getLast? hlast
    obtain ⟨-, -, -, hsel⟩ := Store.mem_remaining.mp (List.mem_of_mem_take hmem)
    -- the page ends at the key the rest begins after
    have hle : ∀ x ∈ (remaining objs' pre after).take limit, x.key ≤ last.key := by
      intro x hx
      obtain ⟨first, hfirst⟩ := List.getLast?_eq_some_iff.mp hlast
      have hasc := (remaining_ascending objs' pre after).sublist (List.take_sublist limit _)
      rw [hfirst] at hx hasc
      rcases List.mem_append.mp hx with hx | hx
      · exact le_of_lt ((List.pairwise_append.mp hasc).2.2 x hx last (List.mem_singleton_self last))
      · rw [List.mem_singleton.mp hx]
    have hnodup : ((remaining objs' pre after).take limit ++ remaining objs pre (some last.key)).Nodup := by
      refine List.nodup_append.mpr ⟨(nodup_remaining objs' pre after).sublist (List.take_sublist _ _),
        nodup_remaining objs pre _, fun x hx y hy heq => ?_⟩
      subst heq
      obtain ⟨-, -, -, hafter⟩ := Store.mem_remaining.mp hy
      exact absurd (selects_after hafter) (not_lt_of_ge (hle x hx))
    have hsub : (remaining objs' pre after).take limit ++ remaining objs pre (some last.key) ⊆
        remaining objs pre after := by
      intro x hx
      rcases List.mem_append.mp hx with hx | hx
      · exact h.mem_remaining (List.mem_of_mem_take hx)
      · obtain ⟨stored, hget, hinfo, hafter⟩ := Store.mem_remaining.mp hx
        refine Store.mem_remaining.mpr ⟨stored, hget, hinfo, ?_⟩
        cases after with
        | none => simpa [selects] using selects_pre hafter
        | some a =>
          have hlt := lt_trans (selects_after hsel) (selects_after hafter)
          simpa [selects, hlt] using selects_pre hafter
    have hlen := (List.subperm_of_subset hnodup hsub).length_le
    rwa [List.length_append] at hlen
  · cases hnext

/-- A call that deletes the chosen keys of a directory on its own.  Pages that are answered
show the store, and its deletes take effect; `K` is what the deletes keep. -/
structure Clears (D : Discipline Objects Op Res) (total : Prop) (pre : Str) (chosen : Str → Bool)
    (K : Objects → Prop) : Prop where
  still : ∀ objs objs', D.rely.rel objs objs' → objs' = objs
  page : ∀ objs after answer objs', D.service.inv objs → K objs →
    D.service.answers (.store (.list pre after 64)) objs answer objs' →
    objs' = objs ∧ D.guar objs objs ∧ (answer = .ok (listPage objs pre after 64) ∨ ¬ total ∧ ∃ e, answer = .error e)
  delete : ∀ objs key answer objs', D.service.inv objs → K objs → pre <+: key → chosen key = true →
    D.service.answers (.store (.delete key)) objs answer objs' →
    objs' = objs.erase key ∧ D.service.inv objs' ∧ D.guar objs objs' ∧ K objs'

namespace Clears

variable {D : Discipline Objects Op Res} {total : Prop} {pre : Str} {chosen : Str → Bool}
  {K : Objects → Prop} {objs objs' : Objects} {after : Option Str}

lemma stably (C : Clears D total pre chosen K) {P : Objects → Prop} (h : P objs) : Stably D P objs := by
  intro objs' hobjs' _
  rw [C.still _ _ hobjs']
  exact h

lemma affords_discard (C : Clears D total pre chosen K) (hK : K objs) {key : Str} (hpre : pre <+: key)
    (hchosen : chosen key = true) :
    Affords D total (Queue.discard key) 1 (fun _ objs' => objs' = objs.erase key ∧ K objs') objs := by
  refine Affords.spend (Affords.request fun objs1 hobjs1 hi1 answer objs2 hanswer => ?_)
  obtain rfl := C.still _ _ hobjs1
  obtain ⟨rfl, hi2, hguar, hK2⟩ := C.delete _ _ _ _ hi1 hK hpre hchosen hanswer
  exact ⟨hi2, hguar, Affords.pure (C.stably ⟨rfl, hK2⟩)⟩

/-- The chosen keys up to the cursor are gone. -/
structure Cleared (pre : Str) (chosen : Str → Bool) (objs : Objects) (after : Option Str)
    (objs' : Objects) : Prop where
  shrunk : Shrunk objs objs'
  gone : ∀ key, pre <+: key → chosen key = true → selects pre after key = false → objs'.get? key = none

lemma affords_items (C : Clears D total pre chosen K) (items : List Listing)
    (hitems : ∀ x ∈ items, pre <+: x.key) (hinv : D.service.inv objs) (hK : K objs) :
    Affords D total (Budgeted.foldM (fun _ (item : Listing) =>
        if chosen item.key then Queue.discard item.key else pure ()) () items) items.length
      (fun _ objs' => K objs' ∧ Shrunk objs objs' ∧
        ∀ x ∈ items, chosen x.key = true → objs'.get? x.key = none) objs := by
  let I : List Listing → Unit → Objects → Prop := fun done _ objs' => K objs' ∧ Shrunk objs objs' ∧
    ∀ x ∈ done, chosen x.key = true → objs'.get? x.key = none
  have hstep : ∀ done x s objs1, x ∈ items → D.service.inv objs1 → D.order.rel objs objs1 → I done s objs1 →
      Affords D total (if chosen x.key then Queue.discard x.key else pure ()) 1
        (fun s' objs2 => I (done ++ [x]) s' objs2) objs1 := by
    intro done x s objs1 hx hi1 _ ⟨hK1, hshrunk, hgone⟩
    split
    · next hchosen =>
        refine (C.affords_discard hK1 (hitems x hx) hchosen).mono (fun _ => Nat.le_refl 1)
          fun _ objs2 _ _ hdone => ?_
        obtain ⟨rfl, hK2⟩ := hdone
        refine ⟨hK2, hshrunk.trans (Shrunk.erase objs1 x.key), fun y hy hy' => ?_⟩
        rcases List.mem_append.mp hy with hy | hy
        · exact (Shrunk.erase objs1 x.key).absent (hgone y hy hy')
        · rw [List.mem_singleton.mp hy]
          exact OrderedMap.get?_erase_self _ _
    · next hchosen =>
        refine Affords.pure (C.stably ⟨hK1, hshrunk, fun y hy hy' => ?_⟩)
        rcases List.mem_append.mp hy with hy | hy
        · exact hgone y hy hy'
        · rw [List.mem_singleton.mp hy] at hy'
          exact absurd hy' hchosen
  have hstable : ∀ done s, Stable D (I done s) := fun _ _ objs1 objs2 hobjs2 _ h => by rwa [C.still _ _ hobjs2]
  have hinit : I [] () objs := ⟨hK, Shrunk.refl objs, nofun⟩
  refine (Affords.foldM (c := fun _ => 1) hstable items hstep hinit hinv).mono (fun _ => ?_) fun _ _ _ _ h => h
  simp

/-- A page whose chosen keys were deleted, and every chosen key before it. -/
lemma Cleared.page (h : Cleared pre chosen objs after objs') {objs'' : Objects} (hshrunk : Shrunk objs' objs'')
    (hgone : ∀ x ∈ (listPage objs' pre after 64).items, chosen x.key = true → objs''.get? x.key = none)
    {key : Str} (hpre : pre <+: key) (hchosen : chosen key = true)
    (hpage : ∀ x ∈ remaining objs' pre after, x.key = key → x ∈ (listPage objs' pre after 64).items) :
    objs''.get? key = none := by
  by_cases hsel : selects pre after key = true
  · cases hget : objs'.get? key with
    | none => exact hshrunk.absent hget
    | some stored =>
      have hmem : ⟨key, stored.info⟩ ∈ remaining objs' pre after :=
        Store.mem_remaining.mpr ⟨stored, hget, rfl, hsel⟩
      exact hgone _ (hpage _ hmem rfl) hchosen
  · exact hshrunk.absent (h.gone key hpre hchosen (Bool.eq_false_iff.mpr hsel))

/-- **Deleting the chosen keys of a directory** leaves none of them. -/
theorem affords_pages (C : Clears D total pre chosen K) (hinv : D.service.inv objs) (hK : K objs) :
    Affords D total (Routine.pages true pre 64 (fun _ item =>
        if chosen item.key then Queue.discard item.key else pure ()) ())
      (2 * (remaining objs pre none).length + 1)
      (fun _ objs' => K objs' ∧ Shrunk objs objs' ∧
        ∀ key, pre <+: key → chosen key = true → objs'.get? key = none) objs := by
  unfold Routine.pages
  refine Affords.loop (D := D) (I := fun (t : Unit × Option Str) objs' => K objs' ∧
      Cleared pre chosen objs t.2 objs') (c := fun t => 2 * (remaining objs pre t.2).length + 1)
    (fun ⟨_, after⟩ objs1 hi1 _ hI => ?_) (s := ((), none)) ⟨hK, Shrunk.refl objs, fun key hpre _ hsel => ?_⟩ hinv
  · obtain ⟨hK1, hcleared⟩ := hI
    -- the store only shrinks, so a page lists no more than was there at the start
    have hcount : (listPage objs1 pre after 64).items.length ≤ (remaining objs pre after).length := by
      have hsub : (listPage objs1 pre after 64).items ⊆ remaining objs pre after := by
        intro x hx
        rw [items_listPage] at hx
        exact hcleared.shrunk.mem_remaining (List.mem_of_mem_take hx)
      have hnodup : (listPage objs1 pre after 64).items.Nodup := by
        rw [items_listPage]
        exact (nodup_remaining objs1 pre after).sublist (List.take_sublist _ _)
      exact (List.subperm_of_subset hnodup hsub).length_le
    refine ⟨(listPage objs1 pre after 64).items.length + 1, fun _ => ⟨Nat.succ_pos _, by dsimp only; omega⟩, ?_⟩
    refine Affords.spend (Affords.request fun objs2 hobjs2 hi2 answer objs3 hanswer => ?_)
    have hstill := C.still _ _ hobjs2
    subst objs2
    obtain ⟨hsame, hguar, hpage⟩ := C.page _ _ _ _ hi2 hK1 hanswer
    subst objs3
    refine ⟨hi2, hguar, ?_⟩
    rcases hpage with rfl | ⟨hcut, e, rfl⟩
    · have hprefix : ∀ x ∈ (listPage objs1 pre after 64).items, pre <+: x.key := by
        intro x hx
        rw [items_listPage] at hx
        obtain ⟨-, -, -, hsel⟩ := Store.mem_remaining.mp (List.mem_of_mem_take hx)
        exact selects_pre hsel
      -- a page without a successor reaches the end of the prefix
      have hdone : ∀ objs'', Shrunk objs1 objs'' → K objs'' →
          (∀ x ∈ (listPage objs1 pre after 64).items, chosen x.key = true → objs''.get? x.key = none) →
          (listPage objs1 pre after 64).nextAfter = none → K objs'' ∧ Shrunk objs objs'' ∧
            ∀ key, pre <+: key → chosen key = true → objs''.get? key = none := by
        intro objs'' hshrunk hK'' hgone hnext
        refine ⟨hK'', hcleared.shrunk.trans hshrunk, fun key hpre hchosen =>
          hcleared.page hshrunk hgone hpre hchosen fun x hx _ => ?_⟩
        rwa [items_last (by decide) hnext]
      show Affords D total (if true && (listPage objs1 pre after 64).items.isEmpty then _ else _) _ _ objs1
      split
      · next hempty =>
          rw [Bool.true_and, List.isEmpty_iff] at hempty
          have hnext : (listPage objs1 pre after 64).nextAfter = none := by
            rw [items_listPage] at hempty
            rw [nextAfter_listPage, hempty]
            simp
          exact Affords.pure (C.stably (C.stably (hdone objs1 (Shrunk.refl _) hK1
            (fun x hx => by rw [hempty] at hx; cases hx) hnext)))
      · next hnonempty =>
          refine (C.affords_items _ hprefix hi2 hK1).bind (k := 0) fun _ objs4 _ _ hitems => ?_
          obtain ⟨hK4, hshrunk, hgone⟩ := hitems
          split
          · next k hnext =>
              refine Affords.pure (C.stably ⟨⟨hK4, hcleared.shrunk.trans hshrunk, fun key hpre hchosen hsel => ?_⟩,
                fun _ => ?_⟩)
              -- keys up to the last one of the page were on it; later ones are the next page's
              · refine hcleared.page hshrunk hgone hpre hchosen fun x hx hxkey => ?_
                rw [nextAfter_listPage] at hnext
                split at hnext
                · obtain ⟨last, hlast, rfl⟩ := Option.map_eq_some_iff.mp hnext
                  rw [items_listPage]
                  refine mem_take_of_le (remaining_ascending objs1 pre after) (List.mem_of_getLast? hlast) hx ?_
                  rw [hxkey]
                  exact le_of_selects_eq_false hpre hsel
                · cases hnext
              · have hrest := length_page_add_remaining hcleared.shrunk hnext
                have hpos : 0 < (listPage objs1 pre after 64).items.length :=
                  List.length_pos_of_ne_nil fun h => hnonempty (by rw [h]; rfl)
                show 2 * (remaining objs pre (some k)).length + 1 + _ ≤ 2 * (remaining objs pre after).length + 1
                omega
          · next hnext => exact Affords.pure (C.stably (C.stably (hdone objs4 hshrunk hK4 hgone hnext)))
    · exact fun _ => Ends.fail fun _ _ _ => ⟨nofun, fun ht => absurd ht hcut⟩
  · rw [selects, List.isPrefixOf_iff_prefix.mpr hpre] at hsel
    cases hsel

lemma affords_discardAll (C : Clears D total pre (fun _ => true) K) (hinv : D.service.inv objs) (hK : K objs) :
    Affords D total (Queue.discardAll pre) (2 * (remaining objs pre none).length + 1)
      (fun _ objs' => K objs' ∧ Shrunk objs objs' ∧ ∀ key, pre <+: key → objs'.get? key = none) objs :=
  (C.affords_pages hinv hK).mono (fun _ => Nat.le_refl _) fun _ _ _ _ h => ⟨h.1, h.2.1, fun key hkey => h.2.2 key hkey rfl⟩

end Clears

end Core
end StowQ
