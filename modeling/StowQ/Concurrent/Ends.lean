import StowQ.Concurrent.Emits

/-!
# Programs at a given budget

`Holds` speaks about every budget and so never promises that a program gets anywhere.
`Ends D m b Q w` is the same judgment at the one budget `b`, with a postcondition that also
sees what is left of it; a program that is given enough is shown to reach its result.

`Returns P m` says that every result `m` can have satisfies `P`, whatever the answers.
-/

namespace StowQ
namespace Concurrent

variable {W Op : Type} {Res : Op → Type} {ε α β σ ι : Type}

/-! ## Results whatever the answers -/

namespace Prog

/-- Every value the program can return satisfies `P`. -/
def Returns (P : α → Prop) : Prog Op Res α → Prop
  | ret a => P a
  | op _ k => ∀ r, (k r).Returns P
  | amb k => ∀ b, (k b).Returns P

namespace Returns

variable {P P' : α → Prop} {p : Prog Op Res α}

lemma bind {f : α → Prog Op Res β} {Q : β → Prop} (h : p.Returns P)
    (hf : ∀ a, P a → (f a).Returns Q) : (p.bind f).Returns Q := by
  induction p with
  | ret a => exact hf a h
  | op o k ih => exact fun r => ih r (h r)
  | amb k ih => exact fun b => ih b (h b)

lemma any (p : Prog Op Res α) : p.Returns fun _ => True := by
  induction p with
  | ret a => trivial
  | op o k ih => exact ih
  | amb k ih => exact ih

end Returns
end Prog

namespace Budgeted

/-- Every result satisfies `P`, for every budget. -/
def Returns (P : Except ε α → Prop) (m : Budgeted Op Res ε α) : Prop :=
  ∀ b, (m b).Returns fun out => P out.1

/-- The program does not fail. -/
def Succeeds (m : Budgeted Op Res ε α) : Prop :=
  Returns (fun r => ∃ a, r = .ok a) m

namespace Returns

variable {P : Except ε α → Prop} {m : Budgeted Op Res ε α}

lemma pure {a : α} (h : P (.ok a)) : Returns P (Pure.pure a : Budgeted Op Res ε α) := fun _ => h

lemma bind {f : α → Budgeted Op Res ε β} {Q : Except ε β → Prop} (h : Returns P m)
    (hok : ∀ a, P (.ok a) → Returns Q (f a)) (herr : ∀ e, P (.error e) → Q (.error e)) :
    Returns Q (m >>= f) := by
  intro b
  refine (h b).bind fun out hP => ?_
  obtain ⟨r, b'⟩ := out
  cases r with
  | ok a => exact hok a hP b'
  | error e => exact herr e hP

end Returns

namespace Succeeds

variable {m : Budgeted Op Res ε α}

lemma pure (a : α) : Succeeds (Pure.pure a : Budgeted Op Res ε α) := Returns.pure ⟨a, rfl⟩

lemma attempt (m : Budgeted Op Res ε α) : Succeeds (Budgeted.attempt m) := fun b =>
  (Prog.Returns.any (m b)).bind fun out _ => ⟨out.1, rfl⟩

lemma request (o : Op) : Succeeds (Budgeted.request o : Budgeted Op Res ε (Res o)) :=
  fun _ r => ⟨r, rfl⟩

lemma bind {f : α → Budgeted Op Res ε β} (h : Succeeds m) (hf : ∀ a, Succeeds (f a)) : Succeeds (m >>= f) := by
  refine Returns.bind h (fun a _ => hf a) ?_
  rintro e ⟨a, ha⟩
  cases ha

end Succeeds
end Budgeted

/-! ## At one budget -/

/-- `Holds` at the budget `b`; the postcondition sees what is left. -/
def Ends (D : Discipline W Op Res) (m : Budgeted Op Res ε α) (b : Nat)
    (Q : Except ε α → Nat → W → Prop) (w : W) : Prop :=
  Safe D.service D.rely D.guar (m b) (fun out w' => Q out.1 out.2 w') w

namespace Ends

variable {D : Discipline W Op Res} {m : Budgeted Op Res ε α} {b : Nat}
  {Q Q' : Except ε α → Nat → W → Prop} {w w' : W} {e : ε} {f : α → Budgeted Op Res ε β}

lemma mono (h : Ends D m b Q w)
    (hQ : ∀ r left w', D.service.inv w' → D.order.rel w w' → Q r left w' → Q' r left w') :
    Ends D m b Q' w :=
  (Safe.above h).mono fun out w' hi hq => hQ out.1 out.2 w' hi hq.2 hq.1

lemma later (h : Ends D m b Q w) (hw : D.rely.rel w w') : Ends D m b Q w' := Safe.later h hw

lemma ofExcept {r : Except ε α} (h : Stably D (Q r b) w) : Ends D (Budgeted.ofExcept r) b Q w :=
  fun w' hw hi => h w' hw hi

lemma pure {a : α} (h : Stably D (Q (.ok a) b) w) : Ends D (Pure.pure a) b Q w := ofExcept h

lemma fail (h : Stably D (Q (.error e) b) w) : Ends D (Budgeted.fail e) b Q w := ofExcept h

lemma bind {M : Except ε α → Nat → W → Prop} {Q : Except ε β → Nat → W → Prop} (h : Ends D m b M w)
    (hok : ∀ a left w', D.service.inv w' → M (.ok a) left w' → Ends D (f a) left Q w')
    (herr : ∀ e left w', D.service.inv w' → M (.error e) left w' → Q (.error e) left w') :
    Ends D (m >>= f) b Q w := by
  refine (Safe.stable h).seq fun out w' hi hM => ?_
  obtain ⟨r, left⟩ := out
  cases r with
  | ok a => exact hok a left w' hi (hM w' (D.rely.refl w') hi)
  | error e => exact fun w1 hw1 hi1 => herr e left w1 hi1 (hM w1 hw1 hi1)

lemma ofOk {a : α} {Q : Except ε β → Nat → W → Prop} (h : Ends D (f a) b Q w) :
    Ends D (Budgeted.ofExcept (.ok a) >>= f) b Q w := h

lemma spend {f : Unit → Budgeted Op Res ε β} {Q : Except ε β → Nat → W → Prop} (h : Ends D (f ()) b Q w) :
    Ends D (Budgeted.spend e >>= f) (b + 1) Q w := h

lemma remaining {f : Nat → Budgeted Op Res ε β} {Q : Except ε β → Nat → W → Prop}
    (h : Ends D (f b) b Q w) : Ends D (Budgeted.remaining >>= f) b Q w := h

lemma request {o : Op} {f : Res o → Budgeted Op Res ε β} {Q : Except ε β → Nat → W → Prop}
    (h : ∀ w1, D.rely.rel w w1 → D.service.inv w1 → ∀ r w2, D.service.answers o w1 r w2 →
      D.service.inv w2 ∧ D.guar w1 w2 ∧ Ends D (f r) b Q w2) :
    Ends D (Budgeted.request o >>= f) b Q w :=
  fun w1 hw1 hi r w2 hr => h w1 hw1 hi r w2 hr

lemma attempt (h : Ends D m b Q w) :
    Ends D (Budgeted.attempt m) b (fun r left w' => ∃ r', r = .ok r' ∧ Q r' left w') w :=
  Safe.map (Safe.mono h fun out _ _ hq => ⟨out.1, rfl, hq⟩)

lemma lift {p : Prog Op Res α} {M : α → W → Prop} {Q : Except ε β → Nat → W → Prop}
    (h : Safe D.service D.rely D.guar p M w) (hok : ∀ a w', D.service.inv w' → M a w' → Ends D (f a) b Q w') :
    Ends D (Budgeted.lift p >>= f) b Q w :=
  Safe.bind (Safe.map (h.mono fun a w' hi hM => hok a w' hi hM))

lemma bind_some {a : Budgeted Op Res ε (Option α)} (again : Budgeted Op Res ε α)
    (h : Ends D a b (fun r left' w' => (∃ v, r = .ok (some v) ∧ Q (.ok v) left' w') ∨
      ∃ e', r = .error e' ∧ Q (.error e') left' w') w) :
    Ends D (a >>= fun r => match r with | some v => Pure.pure v | none => again) b Q w := by
  refine (show Ends D a b (fun r left' w' => Stably D (fun w'' =>
    (∃ v, r = .ok (some v) ∧ Q (.ok v) left' w'') ∨ ∃ e', r = .error e' ∧ Q (.error e') left' w'') w')
    w from Safe.stable h).bind (fun v left' w' hi hM => ?_) fun e' left' w' hi hM => ?_
  · cases v with
    | none =>
      rcases hM w' (D.rely.refl w') hi with ⟨v, hv, -⟩ | ⟨e', he', -⟩
      · cases hv
      · cases he'
    | some v =>
      refine pure fun w'' hw'' hi'' => ?_
      rcases hM w'' hw'' hi'' with ⟨v', hv', hQ⟩ | ⟨e', he', -⟩
      · cases hv'
        exact hQ
      · cases he'
  · rcases hM w' (D.rely.refl w') hi with ⟨v, hv, -⟩ | ⟨e'', he'', hQ⟩
    · cases hv
    · cases he''
      exact hQ

/-- An attempt that gives a value or fails is not repeated. -/
lemma retry {a : Budgeted Op Res ε (Option α)} {left : Nat}
    (h : Ends D a b (fun r left' w' => (∃ v, r = .ok (some v) ∧ Q (.ok v) left' w') ∨
      ∃ e', r = .error e' ∧ Q (.error e') left' w') w) : Ends D (Budgeted.retry e a left) b Q w := by
  cases left with
  | zero => exact bind_some (Budgeted.fail e) h
  | succ left => exact bind_some (Budgeted.retry e a left) h

/-- A program of harmless requests that does not fail. -/
lemma of_emits {A : Op → Prop} {P : Except ε α → Prop} (hemits : ∀ b, (m b).Emits A)
    (hreturns : Budgeted.Returns P m) {K : W → Prop}
    (hrely : ∀ w w', D.rely.rel w w' → K w → K w')
    (hA : ∀ o, A o → ∀ w r w', D.service.inv w → K w → D.service.answers o w r w' →
      D.service.inv w' ∧ D.guar w w' ∧ K w')
    (hK : K w) : Ends D m b (fun r _ w' => P r ∧ K w') w := by
  have hmain : ∀ (p : Prog Op Res (Except ε α × Nat)), p.Emits A → (p.Returns fun out => P out.1) →
      ∀ w, K w → Safe D.service D.rely D.guar p (fun out w' => P out.1 ∧ K w') w := by
    intro p
    induction p with
    | ret out => exact fun _ hP w hK w' hw' _ => ⟨hP, hrely w w' hw' hK⟩
    | op o k ih =>
      intro hp hP w hK w1 hw1 hi r w2 hr
      obtain ⟨hi2, hg, hK2⟩ := hA o hp.1 w1 r w2 hi (hrely w w1 hw1 hK) hr
      exact ⟨hi2, hg, ih r (hp.2 r) (hP r) w2 hK2⟩
    | amb k ih => exact fun hp hP w hK c => ih c (hp c) (hP c) w hK
  exact hmain (m b) (hemits b) (hreturns b) w hK

end Ends

end Concurrent
end StowQ
