import StowQ.Concurrent.Solo

/-!
# Runs with enough budget

`Runs h m s r s'` says what `m` does under the handler `h` when its budget is sufficient: with
every large budget it ends with `r` in state `s'`.  The rules follow the constructors of
routines; what a part spends is not visible.  `Runs.unique`: there is at most one end.

A loop is bounded by its budget, so its rounds have to pay: `Iterates` is the judgment for the
rounds that are left.
-/

namespace StowQ
namespace Concurrent
namespace Budgeted

variable {Op : Type} {Res : Op → Type} {ε α β σ τ ι : Type}

/-- With every large budget `m` ends with `r` in state `s'`. -/
def Runs (h : Handler Op Res σ) (m : Budgeted Op Res ε α) (s : σ) (r : Except ε α) (s' : σ) : Prop :=
  ∃ cost enough, ∀ b, enough ≤ b → Evals h m (b + cost) s r b s'

namespace Runs

variable {h : Handler Op Res σ} {s s1 s' : σ} {m : Budgeted Op Res ε α} {r : Except ε β}

lemma of_evals {r : Except ε α} (cost : Nat) (hm : ∀ b, Evals h m (b + cost) s r b s') : Runs h m s r s' :=
  ⟨cost, 0, fun b _ => hm b⟩

lemma unique {r r' : Except ε α} {s1 s2 : σ} (h1 : Runs h m s r s1) (h2 : Runs h m s r' s2) :
    r = r' ∧ s1 = s2 := by
  obtain ⟨c1, e1, h1⟩ := h1
  obtain ⟨c2, e2, h2⟩ := h2
  have hleft := h1 (e1 + e2 + c2) (by omega)
  have hright := h2 (e1 + e2 + c1) (by omega)
  rw [show e1 + e2 + c1 + c2 = e1 + e2 + c2 + c1 by omega] at hright
  have heq := hleft.symm.trans hright
  exact ⟨congrArg (fun out => out.1.1) heq, congrArg (fun out => out.2) heq⟩

lemma ofExcept (r : Except ε α) : Runs h (Budgeted.ofExcept r : Budgeted Op Res ε α) s r s :=
  of_evals 0 fun _ => Evals.ofExcept r

lemma pure (a : α) : Runs h (Pure.pure a : Budgeted Op Res ε α) s (.ok a) s := ofExcept (.ok a)

lemma fail (e : ε) : Runs h (Budgeted.fail e : Budgeted Op Res ε α) s (.error e) s := ofExcept (.error e)

lemma bind {f : α → Budgeted Op Res ε β} {a : α} (hm : Runs h m s (.ok a) s1) (hf : Runs h (f a) s1 r s') :
    Runs h (m >>= f) s r s' := by
  obtain ⟨c1, e1, hm⟩ := hm
  obtain ⟨c2, e2, hf⟩ := hf
  refine ⟨c2 + c1, e1 + e2, fun b hb => ?_⟩
  rw [← Nat.add_assoc]
  exact (hm (b + c2) (by omega)).bind (hf b (by omega))

lemma bind_error {f : α → Budgeted Op Res ε β} {e : ε} (hm : Runs h m s (.error e) s') :
    Runs h (m >>= f) s (.error e) s' := by
  obtain ⟨c, e1, hm⟩ := hm
  exact ⟨c, e1, fun b hb => (hm b hb).bind_error⟩

lemma spend {e : ε} {f : Unit → Budgeted Op Res ε β} (hf : Runs h (f ()) s r s') :
    Runs h (Budgeted.spend e >>= f) s r s' :=
  (of_evals 1 fun _ => Evals.spend e).bind hf

lemma request {o : Op} {a : Res o} {f : Res o → Budgeted Op Res ε β} (ho : h o s = (a, s1))
    (hf : Runs h (f a) s1 r s') : Runs h (Budgeted.request o >>= f) s r s' := by
  have hreq : Runs h (Budgeted.request o : Budgeted Op Res ε (Res o)) s (.ok (h o s).1) (h o s).2 :=
    of_evals 0 fun _ => Evals.request o
  rw [ho] at hreq
  exact hreq.bind hf

/-- Fold rule: `I` relates the part of the list that is done to the accumulator and the state. -/
lemma foldM {f : τ → ι → Budgeted Op Res ε τ} {I : List ι → τ → σ → Prop} (done xs : List ι)
    (hstep : ∀ seen x rest t s, seen ++ x :: rest = done ++ xs → I seen t s →
      ∃ t' s', Runs h (f t x) s (.ok t') s' ∧ I (seen ++ [x]) t' s')
    {t : τ} (hinit : I done t s) :
    ∃ t' s', Runs h (Budgeted.foldM f t xs) s (.ok t') s' ∧ I (done ++ xs) t' s' := by
  induction xs generalizing done t s with
  | nil => exact ⟨t, s, pure t, by rwa [List.append_nil]⟩
  | cons x xs ih =>
    obtain ⟨t1, s1, hx, hI⟩ := hstep done x xs t s rfl hinit
    have happend : (done ++ [x]) ++ xs = done ++ x :: xs := by simp
    obtain ⟨t', s', hxs, hI'⟩ := ih (done ++ [x]) (by rwa [happend]) hI
    exact ⟨t', s', hx.bind hxs, by rwa [happend] at hI'⟩

end Runs

/-- The rounds that are left, with fuel for as many rounds as there is budget. -/
def Iterates (h : Handler Op Res σ) (e : ε) (body : τ → Budgeted Op Res ε (τ ⊕ α)) (t : τ) (s : σ)
    (r : Except ε α) (s' : σ) : Prop :=
  ∃ cost enough, ∀ b fuel, enough ≤ b → cost < fuel → Evals h (Budgeted.iterate e body fuel t) (b + cost) s r b s'

namespace Iterates

variable {h : Handler Op Res σ} {e : ε} {body : τ → Budgeted Op Res ε (τ ⊕ α)} {t t' : τ} {s s1 s' : σ}

lemma loop {r : Except ε α} (hiter : Iterates h e body t s r s') : Runs h (Budgeted.loop e body t) s r s' := by
  obtain ⟨c, enough, hiter⟩ := hiter
  exact ⟨c, enough, fun b hb => hiter b (b + c + 1) hb (by omega)⟩

lemma done {a : α} (hbody : Runs h (body t) s (.ok (.inr a)) s') : Iterates h e body t s (.ok a) s' := by
  obtain ⟨c, enough, hbody⟩ := hbody
  refine ⟨c, enough, fun b fuel hb hfuel => ?_⟩
  obtain ⟨fuel, rfl⟩ := Nat.exists_eq_succ_of_ne_zero (Nat.ne_of_gt (Nat.zero_lt_of_lt hfuel))
  exact (hbody b hb).iterate_done

lemma next {e' : ε} {f : Unit → Budgeted Op Res ε (τ ⊕ α)} {r : Except ε α}
    (hpays : body t = Budgeted.spend e' >>= f) (hbody : Runs h (f ()) s (.ok (.inl t')) s1)
    (hrest : Iterates h e body t' s1 r s') : Iterates h e body t s r s' := by
  obtain ⟨c1, e1, hbody⟩ := hbody
  obtain ⟨c2, e2, hrest⟩ := hrest
  refine ⟨c2 + (c1 + 1), e1 + e2, fun b fuel hb hfuel => ?_⟩
  obtain ⟨fuel, rfl⟩ := Nat.exists_eq_succ_of_ne_zero (Nat.ne_of_gt (Nat.zero_lt_of_lt hfuel))
  have hround : Evals h (body t) (b + (c2 + (c1 + 1))) s (.ok (.inl t')) (b + c2) s1 := by
    rw [hpays, show b + (c2 + (c1 + 1)) = b + c2 + c1 + 1 by omega]
    exact (Evals.spend e').bind (hbody (b + c2) (by omega))
  exact hround.iterate_next (hrest b fuel (by omega) (by omega))

end Iterates
end Budgeted
end Concurrent
end StowQ
