import StowQ.Concurrent.Runs
import StowQ.Core.Evals
import StowQ.Listing

/-!
# A store at rest

What the operations do when nobody else uses the store and nothing fails.  `quiet` answers
every store request by performing it; `Runs (quiet stamp) m objs r objs'` says that `m`, with
a sufficient budget, ends with `r` and leaves `objs'`.
-/

namespace StowQ
namespace Quiescent

open Data Concurrent Store Format StowQ.Core
open Budgeted (Runs Iterates)

variable {pre : Str} {limit : Nat} {τ : Type}

variable [Sha256]

/-- Every request is performed.  The version and the time of what is written come from the
stamp; the caches of the handle are empty. -/
def quiet (stamp : Stamp) : Handler Op Res Objects
  | .store r, objs => perform objs stamp r
  | .freshToken, objs => (List.Vector.replicate 16 0, objs)
  | .cachedFloor _, objs => (none, objs)
  | .cacheFloor .., objs => ((), objs)
  | .isMemoizedTerminal .., objs => (false, objs)
  | .memoizeTerminal .., objs => ((), objs)

variable {stamp : Stamp} {objs objs' : Objects} {key : Str} {α β : Type} {r : Except Error β}

lemma runs_spend {f : Unit → Routine β} (h : Runs (quiet stamp) (f ()) objs r objs') :
    Runs (quiet stamp) (Routine.spend >>= f) objs r objs' :=
  Runs.spend h

lemma runs_store {req : Request} {f : StoreResult req.Answer → Routine β}
    (h : Runs (quiet stamp) (f (perform objs stamp req).1) (perform objs stamp req).2 r objs') :
    Runs (quiet stamp) (Routine.store req >>= f) objs r objs' :=
  Runs.request rfl h

lemma runs_get {f : StoreResult Object → Routine β} (h : Runs (quiet stamp) (f (Store.get objs key)) objs r objs') :
    Runs (quiet stamp) (Routine.get key >>= f) objs r objs' :=
  runs_store h

lemma runs_list {after : Option Str} {f : StoreResult Page → Routine β}
    (h : Runs (quiet stamp) (f (.ok (listPage objs pre after limit))) objs r objs') :
    Runs (quiet stamp) (Routine.list pre after limit >>= f) objs r objs' :=
  runs_store h

/-! ## Walks -/

/-- One page of a walk. -/
def pageRound {τ : Type} (pre : Str) (limit : Nat) (item : τ → Listing → Routine τ) (walk : τ × Option Str) :
    Routine ((τ × Option Str) ⊕ τ) := do
  Routine.spend
  let page ← Routine.ofStore (← Routine.list pre walk.2 limit)
  let t ← Budgeted.foldM item walk.1 page.items
  match page.nextAfter with
  | some k => pure (.inl (t, some k))
  | none => pure (.inr t)

omit [Sha256] in
lemma pages_eq_loop (pre : Str) (limit : Nat) (item : τ → Listing → Routine τ) (t : τ) :
    Routine.pages false pre limit item t = Budgeted.loop .budgetExhausted (pageRound pre limit item) (t, none) :=
  rfl

/-- The key a walk that has seen `seen` continues after. -/
def lastKey (seen : List Listing) : Option Str := seen.getLast?.map Listing.key

omit [Sha256] in
/-- After a page that is not the last one the walk continues after what it has seen. -/
lemma lastKey_append {after : Option Str} {k : Str} (seen : List Listing)
    (hnext : (listPage objs pre after limit).nextAfter = some k) :
    lastKey (seen ++ (remaining objs pre after).take limit) = some k := by
  rw [nextAfter_listPage] at hnext
  split at hnext
  · obtain ⟨x, hx, rfl⟩ := Option.map_eq_some_iff.mp hnext
    rw [lastKey, List.getLast?_append_of_ne_nil _ (by rintro hnil; rw [hnil] at hx; cases hx), hx]
    rfl
  · cases hnext

/-- **A walk through a listing** sees what the listing shows at its start, if what is done for an
item leaves the items that are still to come.  `I` relates the items seen to the accumulator and
the objects. -/
theorem runs_pages (hlimit : 0 < limit) {item : τ → Listing → Routine τ} {I : List Listing → τ → Objects → Prop}
    (objs0 : Objects)
    (hkeeps : ∀ seen t objs, I seen t objs → remaining objs pre (lastKey seen) = remaining objs0 pre (lastKey seen))
    (hitem : ∀ seen x rest t objs, seen ++ x :: rest = remaining objs0 pre none → I seen t objs →
      ∃ t' objs', Runs (quiet stamp) (item t x) objs (.ok t') objs' ∧ I (seen ++ [x]) t' objs') {t : τ}
    (hinit : I [] t objs) :
    ∃ t' objs', Runs (quiet stamp) (Routine.pages false pre limit item t) objs (.ok t') objs' ∧
      I (remaining objs0 pre none) t' objs' := by
  -- induction on the number of items that are still to come
  have hrounds : ∀ n seen t objs, (remaining objs0 pre (lastKey seen)).length = n →
      seen ++ remaining objs0 pre (lastKey seen) = remaining objs0 pre none → I seen t objs →
      ∃ t' objs', Iterates (quiet stamp) Error.budgetExhausted (pageRound pre limit item) (t, lastKey seen)
        objs (.ok t') objs' ∧ I (remaining objs0 pre none) t' objs' := by
    intro n
    induction n using Nat.strong_induction_on with
    | _ n ih =>
      intro seen t objs hn hseen hI
      have hrest := hkeeps seen t objs hI
      have hitems := items_listPage objs pre (lastKey seen) limit
      rw [hrest] at hitems
      have hsteps : ∀ seen' x rest t objs, seen' ++ x :: rest =
          seen ++ (remaining objs0 pre (lastKey seen)).take limit → I seen' t objs →
          ∃ t' objs', Runs (quiet stamp) (item t x) objs (.ok t') objs' ∧ I (seen' ++ [x]) t' objs' := by
        intro seen' x rest t objs hsplit
        apply hitem seen' x (rest ++ (remaining objs0 pre (lastKey seen)).drop limit)
        rw [← List.cons_append, ← List.append_assoc, hsplit, List.append_assoc, List.take_append_drop, hseen]
      obtain ⟨t1, objs1, hfold, hI1⟩ := Runs.foldM seen _ hsteps hI
      cases hnext : (listPage objs pre (lastKey seen) limit).nextAfter with
      | none =>
        have hall : (remaining objs0 pre (lastKey seen)).take limit = remaining objs0 pre (lastKey seen) := by
          rw [← hitems, items_last hlimit hnext, hrest]
        rw [hall, hseen] at hI1
        refine ⟨t1, objs1, Iterates.done (runs_spend (runs_list ((Runs.pure _).bind ?_))), hI1⟩
        rw [hitems, hnext]
        exact hfold.bind (Runs.pure _)
      | some k =>
        have hnext0 : (listPage objs0 pre (lastKey seen) limit).nextAfter = some k := by
          rw [nextAfter_listPage, ← hrest, ← nextAfter_listPage, hnext]
        have hlast := lastKey_append seen hnext0
        have hdrop := remaining_next hnext0
        have hmore : limit < n := by
          rw [nextAfter_listPage, hn] at hnext0
          split at hnext0
          · assumption
          · cases hnext0
        rw [← hlast] at hdrop
        obtain ⟨t', objs', hiter, hI'⟩ := ih (n - limit) (by omega) _ t1 objs1
          (by rw [hdrop, List.length_drop, hn]) (by rw [hdrop, List.append_assoc, List.take_append_drop, hseen]) hI1
        refine ⟨t', objs', Iterates.next rfl (runs_list ((Runs.pure _).bind ?_)) hiter, hI'⟩
        rw [hitems, hnext, hlast]
        exact hfold.bind (Runs.pure _)
  obtain ⟨t', objs', hiter, hI⟩ := hrounds _ [] t objs rfl rfl hinit
  rw [pages_eq_loop]
  exact ⟨t', objs', hiter.loop, hI⟩

lemma runs_pages_pure (hlimit : 0 < limit) (f : τ → Listing → τ) (t : τ) :
    Runs (quiet stamp) (Routine.pages false pre limit (fun t x => pure (f t x)) t) objs
      (.ok ((remaining objs pre none).foldl f t)) objs := by
  have hwalk : ∃ t' objs', Runs (quiet stamp) (Routine.pages false pre limit (fun t x => pure (f t x)) t) objs
      (.ok t') objs' ∧ t' = (remaining objs pre none).foldl f t ∧ objs' = objs := by
    apply runs_pages (I := fun seen t' objs' => t' = seen.foldl f t ∧ objs' = objs) hlimit
    · rintro seen t' objs' ⟨-, rfl⟩
      rfl
    · rintro seen x - - objs' - ⟨rfl, rfl⟩
      exact ⟨_, _, Runs.pure _, by rw [List.foldl_append]; rfl, rfl⟩
    · exact ⟨rfl, rfl⟩
  obtain ⟨t', objs', hruns, rfl, rfl⟩ := hwalk
  exact hruns

end Quiescent
end StowQ
