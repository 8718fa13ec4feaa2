import Mathlib.Algebra.GroupWithZero.Nat
import StowQ.Concurrent.RelyGuarantee

/-!
# Fallible programs with an operation budget

`Budgeted Op Res ε α` is a program that may stop with an error `ε` and that
threads a budget; the budget that is left survives an error.  `loop` repeats a
body that pays in every round: the budget itself bounds the number of rounds.

`Holds D m Q w` is the safety judgment of such a program for every budget, in a
`Discipline`: a service, a rely, a guarantee, and a preorder of worlds that
contains both.  Facts that the preorder preserves need not be carried through the
postconditions; the rules hand every continuation the path from the world the
program started at.
-/

namespace StowQ
namespace Concurrent

/-- A program with a budget and an error exit. -/
def Budgeted (Op : Type) (Res : Op → Type) (ε α : Type) : Type :=
  Nat → Prog Op Res (Except ε α × Nat)

namespace Budgeted

variable {Op : Type} {Res : Op → Type} {ε α β σ ι : Type}

/-- Return or fail without a request. -/
def ofExcept (r : Except ε α) : Budgeted Op Res ε α := fun b => .ret (r, b)

/-- Continue with `f` on a value, stop on an error. -/
def bind (m : Budgeted Op Res ε α) (f : α → Budgeted Op Res ε β) : Budgeted Op Res ε β := fun b =>
  (m b).bind fun out =>
    match out.1 with
    | .ok a => f a out.2
    | .error e => .ret (.error e, out.2)

instance : Monad (Budgeted Op Res ε) where
  pure a := ofExcept (.ok a)
  bind := bind

/-- Stop with an error. -/
def fail (e : ε) : Budgeted Op Res ε α := ofExcept (.error e)

/-- Run `m` and return how it ended. -/
def attempt (m : Budgeted Op Res ε α) : Budgeted Op Res ε (Except ε α) := fun b =>
  (m b).map fun out => (.ok out.1, out.2)

/-- Pay for one operation. -/
def spend (exhausted : ε) : Budgeted Op Res ε Unit
  | 0 => .ret (.error exhausted, 0)
  | b + 1 => .ret (.ok (), b)

/-- A program that does not touch the budget. -/
def lift (p : Prog Op Res α) : Budgeted Op Res ε α := fun b => p.map fun a => (.ok a, b)

/-- One request. -/
def request (o : Op) : Budgeted Op Res ε (Res o) := lift (Prog.request o)

/-- Repeat `body` until it returns a value, at most `fuel` times. -/
def iterate (exhausted : ε) (body : σ → Budgeted Op Res ε (σ ⊕ α)) :
    Nat → σ → Budgeted Op Res ε α
  | 0, _ => fail exhausted
  | fuel + 1, s => do
    match ← body s with
    | .inl s' => iterate exhausted body fuel s'
    | .inr a => pure a

/-- Repeat `body` until it returns a value.  A body that spends in every round runs at
most once more than the budget allows, so the fuel is never what ends the loop. -/
def loop (exhausted : ε) (body : σ → Budgeted Op Res ε (σ ⊕ α)) (s : σ) :
    Budgeted Op Res ε α := fun b => iterate exhausted body (b + 1) s b

/-- Try `attempt` until it returns a value, at most `left + 1` times. -/
def retry (gaveUp : ε) (attempt : Budgeted Op Res ε (Option α)) : Nat → Budgeted Op Res ε α
  | 0 => do
    match ← attempt with
    | some a => pure a
    | none => fail gaveUp
  | left + 1 => do
    match ← attempt with
    | some a => pure a
    | none => retry gaveUp attempt left

/-- The budget that is left. -/
def remaining : Budgeted Op Res ε Nat := fun b => .ret (.ok b, b)

/-- Run `m` beside a program that does not touch the budget. -/
def beside (p : Prog Op Res β) (m : Budgeted Op Res ε α) : Budgeted Op Res ε (β × Except ε α) :=
  fun b => (Prog.join p (m b)).map fun out => (.ok (out.1, out.2.1), out.2.2)

/-- Run a list of programs concurrently on equal shares of the budget.  What the
division leaves over and what the children do not spend is kept. -/
def joinSplit (ms : List (Budgeted Op Res ε α)) : Budgeted Op Res ε (List (Except ε α)) := fun b =>
  let each := b / ms.length
  (Prog.joinAll (ms.map fun m => m each)).map fun outs =>
    (.ok (outs.map Prod.fst), b - each * ms.length + (outs.map Prod.snd).sum)

/-- Fold a list from the left. -/
def foldM (f : σ → ι → Budgeted Op Res ε σ) : σ → List ι → Budgeted Op Res ε σ
  | s, [] => pure s
  | s, x :: xs => do
    let s' ← f s x
    foldM f s' xs

/-- Fold a collection in any order. -/
def foldAny (f : σ → ι → Budgeted Op Res ε σ) (s : σ) (xs : List ι) : Budgeted Op Res ε σ := do
  let ys ← lift (Prog.shuffle xs)
  foldM f s ys

/-! ## Running a step at a budget -/

lemma bind_apply (m : Budgeted Op Res ε α) (f : α → Budgeted Op Res ε β) (b : Nat) :
    (m >>= f) b = (m b).bind fun out =>
      match out.1 with
      | .ok a => f a out.2
      | .error e => .ret (.error e, out.2) := rfl

lemma foldM_pure (f : σ → ι → σ) (s : σ) (xs : List ι) :
    foldM (fun s x => (pure (f s x) : Budgeted Op Res ε σ)) s xs = pure (xs.foldl f s) := by
  induction xs generalizing s with
  | nil => rfl
  | cons x xs ih => exact ih (f s x)

end Budgeted

/-- A rely-guarantee setting with a preorder of worlds that contains the moves of
both sides. -/
structure Discipline (W Op : Type) (Res : Op → Type) where
  service : Service W Op Res
  rely : Rely W
  guar : W → W → Prop
  order : Rely W
  rely_order : ∀ w w', service.inv w' → rely.rel w w' → order.rel w w'
  guar_order : ∀ w w', service.inv w → service.inv w' → guar w w' → order.rel w w'

variable {W Op : Type} {Res : Op → Type} {ε α β σ ι : Type}

/-- Safety of a budgeted program for every budget. -/
def Holds (D : Discipline W Op Res) (m : Budgeted Op Res ε α) (Q : Except ε α → W → Prop)
    (w : W) : Prop :=
  ∀ b, Safe D.service D.rely D.guar (m b) (fun out w' => Q out.1 w') w

/-- `P` holds now and at every world the rely allows. -/
def Stably (D : Discipline W Op Res) (P : W → Prop) (w : W) : Prop :=
  ∀ w', D.rely.rel w w' → D.service.inv w' → P w'

/-- A postcondition about values only. -/
def OnOk (Q : α → W → Prop) (r : Except ε α) (w : W) : Prop :=
  ∀ a, r = .ok a → Q a w

@[simp] lemma onOk_ok (Q : α → W → Prop) (a : α) (w : W) : OnOk (ε := ε) Q (.ok a) w ↔ Q a w := by
  simp [OnOk]

@[simp] lemma onOk_error (Q : α → W → Prop) (e : ε) (w : W) : OnOk Q (.error e) w := by
  simp [OnOk]

namespace Safe

variable {D : Discipline W Op Res} {p : Prog Op Res α} {Q : α → W → Prop} {w : W}

/-- The world at the end lies above the world at the start. -/
lemma above (h : Safe D.service D.rely D.guar p Q w) :
    Safe D.service D.rely D.guar p (fun a w' => Q a w' ∧ D.order.rel w w') w :=
  h.frame (D.order.refl w)
    (fun a b hab hb hK => D.order.trans hK (D.rely_order a b hb hab))
    (fun a b ha hb hab hK => D.order.trans hK (D.guar_order a b ha hb hab))

end Safe

namespace Holds

variable {D : Discipline W Op Res} {m : Budgeted Op Res ε α} {Q Q' : Except ε α → W → Prop}
  {w w' : W} {e : ε} {f : α → Budgeted Op Res ε β} {I : σ → W → Prop} {s : σ}

lemma mono (h : Holds D m Q w)
    (hQ : ∀ r w', D.service.inv w' → D.order.rel w w' → Q r w' → Q' r w') : Holds D m Q' w := by
  intro b
  exact (h b).above.mono fun out w' hi hq => hQ out.1 w' hi hq.2 hq.1

lemma and {P P' : α → W → Prop} (h : Holds D m (OnOk P) w) (h' : Holds D m (OnOk P') w) :
    Holds D m (OnOk fun a w' => P a w' ∧ P' a w') w :=
  fun b => ((h b).and (h' b)).mono fun _ _ _ hq a ha => ⟨hq.1 a ha, hq.2 a ha⟩

lemma ofExcept {r : Except ε α} (h : Stably D (Q r) w) : Holds D (Budgeted.ofExcept r) Q w :=
  fun _ w' hw hi => h w' hw hi

lemma pure {a : α} (h : Stably D (Q (.ok a)) w) : Holds D (Pure.pure a) Q w := ofExcept h

lemma fail (h : Stably D (Q (.error e)) w) : Holds D (Budgeted.fail e) Q w := ofExcept h

/-- Sequencing; the continuation knows the path from the start. -/
lemma bind {M : Except ε α → W → Prop} {Q : Except ε β → W → Prop} (h : Holds D m M w)
    (hok : ∀ a w', D.service.inv w' → D.order.rel w w' → Stably D (M (.ok a)) w' → Holds D (f a) Q w')
    (herr : ∀ e w', D.service.inv w' → D.order.rel w w' → M (.error e) w' → Q (.error e) w') :
    Holds D (m >>= f) Q w := by
  intro b
  refine (h b).stable.above.seq fun out w' hi hM => ?_
  obtain ⟨r, b'⟩ := out
  cases r with
  | ok a => exact hok a w' hi hM.2 hM.1 b'
  | error e =>
    intro w1 hw1 hi1
    exact herr e w1 hi1 (D.order.trans hM.2 (D.rely_order w' w1 hi1 hw1)) (hM.1 w1 hw1 hi1)

lemma andThen {M : α → W → Prop} {Q : β → W → Prop} (h : Holds D m (OnOk M) w)
    (hok : ∀ a w', D.service.inv w' → D.order.rel w w' → M a w' → Holds D (f a) (OnOk Q) w') :
    Holds D (m >>= f) (OnOk Q) w :=
  h.bind (fun a w' hi ho hM => hok a w' hi ho (hM w' (D.rely.refl w') hi a rfl))
    fun _ _ _ _ _ => by simp

lemma spend {f : Unit → Budgeted Op Res ε β} {Q : Except ε β → W → Prop} (hok : Holds D (f ()) Q w)
    (herr : Stably D (Q (.error e)) w) : Holds D (Budgeted.spend e >>= f) Q w := by
  intro b
  cases b with
  | zero => exact fun w' hw hi => herr w' hw hi
  | succ b => exact hok b

/-- One request, with the continuation's judgment at the world it leaves. -/
lemma request {o : Op} {f : Res o → Budgeted Op Res ε β} {Q : Except ε β → W → Prop}
    (h : ∀ w1, D.rely.rel w w1 → D.service.inv w1 → ∀ r w2, D.service.answers o w1 r w2 →
      D.service.inv w2 ∧ D.guar w1 w2 ∧ Holds D (f r) Q w2) :
    Holds D (Budgeted.request o >>= f) Q w := by
  intro b w1 hw1 hi r w2 hr
  obtain ⟨hi2, hg, hk⟩ := h w1 hw1 hi r w2 hr
  exact ⟨hi2, hg, hk b⟩

lemma lift {p : Prog Op Res α} {M : α → W → Prop} {Q : Except ε β → W → Prop}
    (h : Safe D.service D.rely D.guar p M w)
    (hok : ∀ a w', D.service.inv w' → D.order.rel w w' → M a w' → Holds D (f a) Q w') :
    Holds D (Budgeted.lift p >>= f) Q w := by
  intro b
  refine Safe.bind (Safe.map ?_)
  exact h.above.mono fun a w' hi hM => hok a w' hi hM.2 hM.1 b

lemma attempt (h : Holds D m Q w) : Holds D (Budgeted.attempt m) (OnOk Q) w := by
  intro b
  refine Safe.map ((h b).mono fun out w' _ hq => ?_)
  simpa using hq

lemma attempted (h : Holds D m Q w) :
    Holds D (Budgeted.attempt m) (fun r w' => ∃ r', r = .ok r' ∧ Q r' w') w := by
  intro b
  exact Safe.map ((h b).mono fun out w' _ hq => ⟨out.1, rfl, hq⟩)

lemma retryWhile {a : Budgeted Op Res ε (Option α)} {I : W → Prop} {Q : Except ε α → W → Prop}
    (hattempt : ∀ w', D.service.inv w' → I w' →
      Holds D a (fun r w'' => (r = .ok none → I w'') ∧ (∀ v, r = .ok (some v) → Q (.ok v) w'') ∧
        (∀ e', r = .error e' → Q (.error e') w'')) w') (hgave : ∀ w', D.service.inv w' → I w' → Q (.error e) w')
    (hinv : D.service.inv w) (hinit : I w) (left : Nat) : Holds D (Budgeted.retry e a left) Q w := by
  induction left generalizing w with
  | zero =>
    refine (hattempt w hinv hinit).bind (fun v w1 _ _ hM => ?_) fun e' w1 _ _ hM => hM.2.2 e' rfl
    cases v with
    | none => exact fail fun w2 hw2 hi2 => hgave w2 hi2 ((hM w2 hw2 hi2).1 rfl)
    | some v => exact pure fun w2 hw2 hi2 => (hM w2 hw2 hi2).2.1 v rfl
  | succ left ih =>
    refine (hattempt w hinv hinit).bind (fun v w1 hi1 _ hM => ?_) fun e' w1 _ _ hM => hM.2.2 e' rfl
    cases v with
    | none => exact ih hi1 ((hM w1 (D.rely.refl w1) hi1).1 rfl)
    | some v => exact pure fun w2 hw2 hi2 => (hM w2 hw2 hi2).2.1 v rfl

lemma retry {a : Budgeted Op Res ε (Option α)} {Q : Except ε α → W → Prop}
    (hattempt : ∀ w', D.service.inv w' → D.order.rel w w' →
      Holds D a (fun r w'' => (∀ v, r = .ok (some v) → Q (.ok v) w'') ∧
        (∀ e', r = .error e' → Q (.error e') w'')) w')
    (hgave : ∀ w', D.service.inv w' → D.order.rel w w' → Q (.error e) w') (hinv : D.service.inv w) (left : Nat) :
    Holds D (Budgeted.retry e a left) Q w := by
  refine retryWhile (I := D.order.rel w) (fun w' hi ho => ?_) hgave hinv (D.order.refl w) left
  exact (hattempt w' hi ho).mono fun r w'' _ ho' hq => ⟨fun _ => D.order.trans ho ho', hq⟩

lemma remaining {f : Nat → Budgeted Op Res ε β} {Q : Except ε β → W → Prop}
    (h : ∀ n, Holds D (f n) Q w) : Holds D (Budgeted.remaining >>= f) Q w :=
  fun b => h b b

/-- Two programs side by side, whose steps `G` lie inside the rely as well: each
tolerates the other. -/
lemma beside {p : Prog Op Res β} {P : β → W → Prop} {G : W → W → Prop}
    (hguar : ∀ w w', G w w' → D.guar w w')
    (hrely : ∀ w w', D.service.inv w → D.service.inv w' → G w w' → D.rely.rel w w')
    (hp : Safe D.service D.rely G p P w)
    (hm : ∀ b, Safe D.service D.rely G (m b) (fun out w' => Q out.1 w') w) :
    Holds D (Budgeted.beside p m) (OnOk fun out w' => P out.1 w' ∧ Q out.2 w') w := by
  intro b
  refine Safe.map ?_
  have hjoin := Safe.join hp (hm b) hrely hrely
  refine (hjoin.mono fun out w' _ hq => ?_).weaken (fun a c h => ⟨h, h⟩)
    fun a c h => hguar a c (h.elim id id)
  simpa using hq

/-- Branches over shares of the budget, each with its own rely and guarantee. -/
lemma joinSplit {f : ι → Budgeted Op Res ε α} {R : ι → Rely W} {G : ι → W → W → Prop}
    {Q : ι → Except ε α → W → Prop} (xs : List ι)
    (hbranch : ∀ x ∈ xs, ∀ b, Safe D.service (R x) (G x) (f x b) (fun out w' => Q x out.1 w') w)
    (hrely : ∀ x ∈ xs, ∀ w w', D.rely.rel w w' → (R x).rel w w')
    (hguar : ∀ x ∈ xs, ∀ w w', G x w w' → D.guar w w')
    (hpair : xs.Pairwise fun x y =>
      (∀ w w', D.service.inv w → D.service.inv w' → G x w w' → (R y).rel w w') ∧
      (∀ w w', D.service.inv w → D.service.inv w' → G y w w' → (R x).rel w w')) :
    Holds D (Budgeted.joinSplit (xs.map f))
      (OnOk fun outs w' => List.Forall₂ (fun x r => Q x r w') xs outs) w := by
  intro b
  refine Safe.map ?_
  have hall := Safe.joinAll (f := fun x => f x (b / (xs.map f).length)) xs
    (fun x hx => hbranch x hx _) hpair
  rw [List.map_map]
  refine (hall.mono fun outs w' _ hq => ?_).weaken
    (fun a c h x hx => hrely x hx a c h) fun a c h => ?_
  · rw [onOk_ok]
    exact List.forall₂_map_right_iff.mpr hq
  · obtain ⟨x, hx, hg⟩ := h
    exact hguar x hx a c hg

section Loop

variable {body : σ → Budgeted Op Res ε (σ ⊕ α)} {Q : Except ε α → W → Prop}
  (hbody : ∀ s w', D.service.inv w' → D.order.rel w w' → I s w' →
    Holds D (body s) (fun r w'' => (∀ s', r = .ok (.inl s') → I s' w'') ∧
      (∀ a, r = .ok (.inr a) → Q (.ok a) w'') ∧ (∀ e', r = .error e' → Q (.error e') w'')) w')
  (hout : ∀ s w', D.service.inv w' → D.order.rel w w' → I s w' → Stably D (Q (.error e)) w')

include hbody hout

/-- Iteration rule: `I` holds before every round, `Q` when the iteration ends. -/
lemma iterate (fuel : Nat) (hinit : I s w) (hinv : D.service.inv w) :
    Holds D (Budgeted.iterate e body fuel s) Q w := by
  have hfuel : ∀ fuel s w', D.service.inv w' → D.order.rel w w' → I s w' →
      Holds D (Budgeted.iterate e body fuel s) Q w' := by
    intro fuel
    induction fuel with
    | zero => exact fun s w' hi ho hI => fail (hout s w' hi ho hI)
    | succ fuel ih =>
      intro s w' hi ho hI
      refine (hbody s w' hi ho hI).bind (fun next w1 hi1 ho1 hM => ?_)
        fun e' w1 _ _ hM => hM.2.2 e' rfl
      cases next with
      | inl s' =>
        exact ih s' w1 hi1 (D.order.trans ho ho1) ((hM w1 (D.rely.refl w1) hi1).1 s' rfl)
      | inr a => exact pure fun w2 hw2 hi2 => (hM w2 hw2 hi2).2.1 a rfl
  exact hfuel fuel s w hinv (D.order.refl w) hinit

lemma loop (hinit : I s w) (hinv : D.service.inv w) : Holds D (Budgeted.loop e body s) Q w :=
  fun b => iterate hbody hout (b + 1) hinit hinv b

end Loop

lemma foldM {f : σ → ι → Budgeted Op Res ε σ} {Q : Except ε σ → W → Prop} (xs : List ι)
    (hbody : ∀ s x w', x ∈ xs → D.service.inv w' → D.order.rel w w' → I s w' →
      Holds D (f s x) (fun r w'' => (∀ s', r = .ok s' → I s' w'') ∧ (∀ e, r = .error e → Q (.error e) w'')) w')
    (hdone : ∀ s w', D.service.inv w' → D.order.rel w w' → I s w' → Stably D (Q (.ok s)) w') (hinit : I s w)
    (hinv : D.service.inv w) : Holds D (Budgeted.foldM f s xs) Q w := by
  have hmain : ∀ ys s w', (∀ y ∈ ys, y ∈ xs) → D.service.inv w' → D.order.rel w w' → I s w' →
      Holds D (Budgeted.foldM f s ys) Q w' := by
    intro ys
    induction ys with
    | nil => exact fun s w' _ hi ho hI => pure (hdone s w' hi ho hI)
    | cons y ys ih =>
      intro s w' hmem hi ho hI
      refine (hbody s y w' (hmem y List.mem_cons_self) hi ho hI).bind
        (fun s' w1 hi1 ho1 hM => ?_) fun e w1 _ _ hM => hM.2 e rfl
      exact ih s' w1 (fun z hz => hmem z (List.mem_cons_of_mem y hz)) hi1
        (D.order.trans ho ho1) ((hM w1 (D.rely.refl w1) hi1).1 s' rfl)
  exact hmain xs s w (fun _ h => h) hinv (D.order.refl w) hinit

end Holds

end Concurrent
end StowQ
