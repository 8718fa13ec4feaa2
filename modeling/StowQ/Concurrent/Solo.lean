import StowQ.Concurrent.Emits
import StowQ.Concurrent.Machine

/-!
# Running a program alone

A handler answers every request and moves a state.  `Prog.run` runs a program to its end
with a handler, `Prog.advance` stops after a number of requests, and `interrupted` lets
something else happen at that point.  `Machine.run_solo` and `Machine.run_advance` turn such
evaluations into runs of a machine, so a schedule can be exhibited by evaluating its
segments.
-/

namespace StowQ
namespace Concurrent

variable {b' b'' : Nat}

variable {Op : Type} {Res : Op → Type} {α β σ ε ι : Type}

/-- Answers requests and moves a state. -/
abbrev Handler (Op : Type) (Res : Op → Type) (σ : Type) := (o : Op) → σ → Res o × σ

namespace Prog

variable (h : Handler Op Res σ)

/-- Run to the end.  Of two programs side by side the first one goes first. -/
def run : Prog Op Res α → σ → α × σ
  | ret a, s => (a, s)
  | op o k, s => (k (h o s).1).run (h o s).2
  | amb k, s => (k true).run s

/-- Run the first `n` requests. -/
def advance : Prog Op Res α → Nat → σ → Prog Op Res α × σ
  | p, 0, s => (p, s)
  | ret a, _ + 1, s => (ret a, s)
  | op o k, n + 1, s => (k (h o s).1).advance n (h o s).2
  | amb k, n + 1, s => (k true).advance (n + 1) s

variable {h}

lemma run_bind (p : Prog Op Res α) (f : α → Prog Op Res β) (s : σ) :
    (p.bind f).run h s = (f (p.run h s).1).run h (p.run h s).2 := by
  induction p generalizing s with
  | ret a => rfl
  | op o k ih => exact ih _ _
  | amb k ih => exact ih true s

lemma run_map (p : Prog Op Res α) (f : α → β) (s : σ) : (p.map f).run h s = (f (p.run h s).1, (p.run h s).2) :=
  run_bind p _ s

lemma run_shuffle (xs : List α) (s : σ) : (shuffle xs).run h s = (xs, s) := by
  induction xs with
  | nil => rfl
  | cons x xs ih =>
    rw [shuffle, run_bind, ih]
    cases xs <;> rfl

/-- Side by side is one after the other here. -/
lemma run_join (p : Prog Op Res α) (q : Prog Op Res β) (s : σ) : (join p q).run h s =
      (((p.run h s).1, (q.run h (p.run h s).2).1), (q.run h (p.run h s).2).2) := by
  induction p generalizing q s with
  | ret a => exact run_map q _ s
  | amb k ih => exact ih true q s
  | op o k ih =>
    have hjoin : ∀ q : Prog Op Res β, (joinOp o k (fun r => join (k r)) q).run h s =
        (join (k (h o s).1) q).run h (h o s).2 := by
      intro q
      induction q with
      | ret b =>
        show ((k (h o s).1).map _).run h _ = _
        rw [ih, run_map]
        rfl
      | op o' k' _ => rfl
      | amb k' ihq =>
        show (joinOp o k (fun r => join (k r)) (k' true)).run h s = _
        rw [ihq true, ih, ih]
        rfl
    show (joinOp o k (fun r => join (k r)) q).run h s = _
    rw [hjoin q, ih]
    rfl

@[simp] lemma advance_zero (p : Prog Op Res α) (s : σ) : p.advance h 0 s = (p, s) := by
  cases p <;> rfl

lemma advance_op (o : Op) (k : Res o → Prog Op Res α) (n : Nat) (s : σ) :
    (op o k).advance h (n + 1) s = (k (h o s).1).advance h n (h o s).2 := rfl

/-- What is left of a program issues no other requests. -/
lemma Emits.advance {A : Op → Prop} {p : Prog Op Res α} (hp : p.Emits A) (n : Nat) (s : σ) :
    (p.advance h n s).1.Emits A := by
  induction p generalizing n s with
  | ret a => cases n <;> trivial
  | op o k ih =>
    cases n with
    | zero => exact hp
    | succ n => exact ih _ (hp.2 _) n _
  | amb k ih =>
    cases n with
    | zero => exact hp
    | succ n => exact ih true (hp true) (n + 1) s

section Abstract

variable {τ : Type} {h' : Handler Op Res τ} {f : σ → τ} (hf : ∀ o s, h' o (f s) = ((h o s).1, f (h o s).2))

include hf

lemma run_abstract (p : Prog Op Res α) (s : σ) : p.run h' (f s) = ((p.run h s).1, f (p.run h s).2) := by
  induction p generalizing s with
  | ret a => rfl
  | op o k ih =>
    show (k (h' o (f s)).1).run h' (h' o (f s)).2 = _
    rw [hf]
    exact ih _ _
  | amb k ih => exact ih true s

lemma advance_abstract (p : Prog Op Res α) (n : Nat) (s : σ) :
    p.advance h' n (f s) = ((p.advance h n s).1, f (p.advance h n s).2) := by
  induction p generalizing n s with
  | ret a => cases n <;> rfl
  | op o k ih =>
    cases n with
    | zero => rfl
    | succ n =>
      rw [advance_op, hf]
      exact ih _ n _
  | amb k ih =>
    cases n with
    | zero => rfl
    | succ n => exact ih true (n + 1) s

end Abstract

end Prog

/-- A state with a pending interruption: the requests left until it, and where it struck. -/
structure Watched (σ : Type) where
  state : σ
  left : Nat
  stop : Option σ

/-- A handler during which `f` happens once, after a number of requests. -/
def interrupted (h : Handler Op Res σ) (f : σ → σ) : Handler Op Res (Watched σ) := fun o s =>
  match s.left with
  | 0 => ((h o s.state).1, ⟨(h o s.state).2, 0, s.stop⟩)
  | 1 => ((h o s.state).1, ⟨f (h o s.state).2, 0, some (h o s.state).2⟩)
  | n + 2 => ((h o s.state).1, ⟨(h o s.state).2, n + 1, s.stop⟩)

lemma run_interrupted_zero (h : Handler Op Res σ) (f : σ → σ) (p : Prog Op Res α) (s : σ)
    (stop : Option σ) :
    p.run (interrupted h f) ⟨s, 0, stop⟩ = ((p.run h s).1, ⟨(p.run h s).2, 0, stop⟩) := by
  induction p generalizing s with
  | ret a => rfl
  | op o k ih => exact ih _ _
  | amb k ih => exact ih true s

/-- Running to an interruption that is reached, and from it to the end. -/
lemma run_interrupted (h : Handler Op Res σ) (f : σ → σ) (p : Prog Op Res α) (n : Nat) (s : σ)
    (hreached : (p.run (interrupted h f) ⟨s, n + 1, none⟩).2.left = 0) :
    p.run (interrupted h f) ⟨s, n + 1, none⟩ = (((p.advance h (n + 1) s).1.run h (f (p.advance h (n + 1) s).2)).1,
        ⟨((p.advance h (n + 1) s).1.run h (f (p.advance h (n + 1) s).2)).2, 0,
          some (p.advance h (n + 1) s).2⟩) := by
  induction p generalizing n s with
  | ret a => cases hreached
  | op o k ih =>
    cases n with
    | zero =>
      rw [Prog.advance_op, Prog.advance_zero]
      exact run_interrupted_zero h f (k (h o s).1) (f (h o s).2) _
    | succ n => exact ih _ n _ hreached
  | amb k ih => exact ih true n s hreached

/-! ## Requests under a condition -/

/-- Part of the run of a program alone, along which every request meets `R` at the state it is made in. -/
inductive Alone (h : Handler Op Res σ) (R : Op → σ → Prop) : Prog Op Res α → σ → Prog Op Res α → σ → Prop where
  | refl {p s} : Alone h R p s p s
  | op {o k s p' s'} (hR : R o s) (hrest : Alone h R (k (h o s).1) (h o s).2 p' s') : Alone h R (.op o k) s p' s'
  | amb {k s p' s'} (hrest : Alone h R (k true) s p' s') : Alone h R (.amb k) s p' s'

namespace Alone

variable {h : Handler Op Res σ} {A : Op → Prop} {J : σ → Prop} {p p' : Prog Op Res α} {s s' : σ}

lemma run (hkeeps : ∀ o s, A o → J s → J (h o s).2) (hp : p.Emits A) (hJ : J s) :
    Alone h (fun o s => A o ∧ J s) p s (.ret (p.run h s).1) (p.run h s).2 := by
  induction p generalizing s with
  | ret a => exact refl
  | op o k ih => exact op ⟨hp.1, hJ⟩ (ih _ (hp.2 _) (hkeeps o s hp.1 hJ))
  | amb k ih => exact amb (ih true (hp true) hJ)

lemma advance (hkeeps : ∀ o s, A o → J s → J (h o s).2) (hp : p.Emits A) (n : Nat) (hJ : J s) :
    Alone h (fun o s => A o ∧ J s) p s (p.advance h n s).1 (p.advance h n s).2 := by
  induction p generalizing n s with
  | ret a => cases n <;> exact refl
  | op o k ih =>
    cases n with
    | zero => exact refl
    | succ n => exact op ⟨hp.1, hJ⟩ (ih _ (hp.2 _) n (hkeeps o s hp.1 hJ))
  | amb k ih =>
    cases n with
    | zero => exact refl
    | succ n => exact amb (ih true (hp true) (n + 1) hJ)

lemma keeps (hkeeps : ∀ o s, A o → J s → J (h o s).2) (h : Alone h (fun o s => A o ∧ J s) p s p' s') (hJ : J s) :
    J s' := by
  induction h with
  | refl => exact hJ
  | op hR _ ih => exact ih (hkeeps _ _ hR.1 hR.2)
  | amb _ ih => exact ih hJ

end Alone

/-- A handler that also tells whether every request has met `Q`. -/
def guarded (h : Handler Op Res σ) (Q : Op → σ → Bool) : Handler Op Res (σ × Bool) := fun o s =>
  ((h o s.1).1, (h o s.1).2, s.2 && Q o s.1)

namespace Alone

variable {h : Handler Op Res σ} {Q : Op → σ → Bool}

/-- A run to the end, of which the handler tells that it met `Q`. -/
lemma run_guarded (p : Prog Op Res α) (s : σ) {b : Bool} (hmet : (p.run (guarded h Q) (s, b)).2.2 = true) :
    b = true ∧ Alone h (fun o s => Q o s = true) p s (.ret (p.run h s).1) (p.run h s).2 := by
  induction p generalizing s b with
  | ret a => exact ⟨hmet, refl⟩
  | op o k ih =>
    obtain ⟨hq, hrest⟩ := ih _ _ hmet
    obtain ⟨hb, hq⟩ := Bool.and_eq_true_iff.mp hq
    exact ⟨hb, op hq hrest⟩
  | amb k ih =>
    obtain ⟨hb, hrest⟩ := ih true s hmet
    exact ⟨hb, amb hrest⟩

lemma advance_guarded (p : Prog Op Res α) (n : Nat) (s : σ) {b : Bool}
    (hmet : (p.advance (guarded h Q) n (s, b)).2.2 = true) :
    b = true ∧ Alone h (fun o s => Q o s = true) p s (p.advance h n s).1 (p.advance h n s).2 := by
  induction p generalizing n s b with
  | ret a => cases n <;> exact ⟨hmet, refl⟩
  | op o k ih =>
    cases n with
    | zero => exact ⟨hmet, refl⟩
    | succ n =>
      obtain ⟨hq, hrest⟩ := ih _ n _ hmet
      obtain ⟨hb, hq⟩ := Bool.and_eq_true_iff.mp hq
      exact ⟨hb, op hq hrest⟩
  | amb k ih =>
    cases n with
    | zero => exact ⟨hmet, refl⟩
    | succ n =>
      obtain ⟨hb, hrest⟩ := ih true (n + 1) s hmet
      exact ⟨hb, amb hrest⟩

end Alone

/-! ## Evaluating budgeted programs -/

namespace Budgeted

variable {h : Handler Op Res σ} {b : Nat} {s : σ} {s' x s'' : σ} {e : ε} {m : Budgeted Op Res ε α} {a : α}
  {r : Except ε α} {body : σ → Budgeted Op Res ε (σ ⊕ α)} {f : ι → β → Budgeted Op Res ε ι}

/-- `m` ends with `r`, leaving budget `b'` and state `s'`. -/
def Evals (h : Handler Op Res σ) (m : Budgeted Op Res ε α) (b : Nat) (s : σ) (r : Except ε α)
    (b' : Nat) (s' : σ) : Prop :=
  (m b).run h s = ((r, b'), s')

namespace Evals

lemma ofExcept (r : Except ε α) : Evals h (Budgeted.ofExcept r) b s r b s := rfl

lemma pure (a : α) : Evals h (Pure.pure a : Budgeted Op Res ε α) b s (.ok a) b s := rfl

lemma fail (e : ε) : Evals h (Budgeted.fail e : Budgeted Op Res ε α) b s (.error e) b s := rfl

lemma bind {f : α → Budgeted Op Res ε β} {r : Except ε β} (hm : Evals h m b s (.ok a) b' s')
    (hf : Evals h (f a) b' s' r b'' s'') : Evals h (m >>= f) b s r b'' s'' := by
  show ((m b).bind _).run h s = _
  rw [Prog.run_bind, hm]
  exact hf

lemma bind_error {f : α → Budgeted Op Res ε β} (hm : Evals h m b s (.error e) b' s') :
    Evals h (m >>= f) b s (.error e) b' s' := by
  show ((m b).bind _).run h s = _
  rw [Prog.run_bind, hm]
  rfl

lemma spend (e : ε) : Evals h (Budgeted.spend e) (b + 1) s (.ok ()) b s := rfl

lemma request (o : Op) : Evals h (Budgeted.request o : Budgeted Op Res ε _) b s (.ok (h o s).1) b (h o s).2 := rfl

lemma remaining : Evals h (Budgeted.remaining : Budgeted Op Res ε _) b s (.ok b) b s := rfl

lemma attempt (hm : Evals h m b s r b' s') : Evals h (Budgeted.attempt m) b s (.ok r) b' s' := by
  show ((m b).map _).run h s = _
  rw [Prog.run_map, hm]

lemma retry {m : Budgeted Op Res ε (Option α)} {left : Nat} (hm : Evals h m b s (.ok (some a)) b' s') :
    Evals h (Budgeted.retry e m left) b s (.ok a) b' s' := by
  cases left with
  | zero => exact bind hm (pure a)
  | succ left => exact bind hm (pure a)

lemma retry_error {e' : ε} {m : Budgeted Op Res ε (Option α)} {left : Nat}
    (hm : Evals h m b s (.error e') b' s') : Evals h (Budgeted.retry e m left) b s (.error e') b' s' := by
  cases left with
  | zero => exact bind_error hm
  | succ left => exact bind_error hm

lemma iterate_done {fuel : Nat} {s s' : ι} {h : Handler Op Res ι}
    (hbody : Evals h (body x) b s (.ok (.inr a)) b' s') :
    Evals h (Budgeted.iterate e body (fuel + 1) x) b s (.ok a) b' s' :=
  bind hbody (pure a)

lemma iterate_next {fuel : Nat} {x' : σ} {s s' s'' : ι} {h : Handler Op Res ι}
    (hbody : Evals h (body x) b s (.ok (.inl x')) b' s')
    (hrest : Evals h (Budgeted.iterate e body fuel x') b' s' r b'' s'') :
    Evals h (Budgeted.iterate e body (fuel + 1) x) b s r b'' s'' :=
  bind hbody hrest

lemma loop_done {s s' : ι} {h : Handler Op Res ι} (hbody : Evals h (body x) b s (.ok (.inr a)) b' s') :
    Evals h (Budgeted.loop e body x) b s (.ok a) b' s' :=
  iterate_done hbody

lemma loop_error {e' : ε} {s s' : ι} {h : Handler Op Res ι} (hbody : Evals h (body x) b s (.error e') b' s') :
    Evals h (Budgeted.loop e body x) b s (.error e') b' s' :=
  bind_error hbody

lemma foldAny {x : ι} {ys : List β} {r : Except ε ι} (hfold : Evals h (Budgeted.foldM f x ys) b s r b' s') :
    Evals h (Budgeted.foldAny f x ys) b s r b' s' := by
  have hpick : Evals h (Budgeted.lift (Prog.shuffle ys) : Budgeted Op Res ε (List β)) b s (.ok ys) b s := by
    unfold Evals Budgeted.lift
    rw [Prog.run_map, Prog.run_shuffle]
  exact hpick.bind hfold

lemma foldM_nil {x : ι} : Evals h (Budgeted.foldM f x []) b s (.ok x) b s := rfl

lemma foldM_cons {x x' : ι} {y : β} {ys : List β} {r : Except ε ι} (hf : Evals h (f x y) b s (.ok x') b' s')
    (hrest : Evals h (Budgeted.foldM f x' ys) b' s' r b'' s'') :
    Evals h (Budgeted.foldM f x (y :: ys)) b s r b'' s'' :=
  bind hf hrest

lemma beside {p : Prog Op Res β} {a : β} (hp : p.run h s = (a, s')) (hm : Evals h m b s' r b' s'') :
    Evals h (Budgeted.beside p m) b s (.ok (a, r)) b' s'' := by
  show ((Prog.join p (m b)).map _).run h s = _
  rw [Prog.run_map, Prog.run_join, hp]
  simp only [Evals] at hm
  rw [hm]

lemma joinSplit_one (hm : Evals h m b s r b' s') : Evals h (Budgeted.joinSplit [m]) b s (.ok [r]) b' s' := by
  have hm' : (m b).run h s = ((r, b'), s') := hm
  unfold Evals Budgeted.joinSplit
  simp [Prog.joinAll, Prog.run_map, Prog.run_join, Prog.run, hm']

end Evals

end Budgeted

/-! ## Runs of a machine -/

namespace Machine

variable {W C E Call Out : Type} {M : Machine W Op Res C E Call Out}
  {P : Profile W Op Res C E Call Out}

/-- The handler of a call under a rule for the outside's choices, for the requests in `A`. -/
structure Answers (M : Machine W Op Res C E Call Out) (P : Profile W Op Res C E Call Out)
    (i : Nat) (call : Call) (A : Op → Prop) (J : W → Prop) (h : Handler Op Res W) : Prop where
  exec : ∀ o w, A o → J w → ∃ c, P.step w i call o c ∧ M.exec i o c w = some (h o w)
  keeps : ∀ o w, A o → J w → J (h o w).2

variable {i : Nat} {call : Call} {A : Op → Prop} {J : W → Prop} {h : Handler Op Res W}
  {cfg : Config W Op Res Call Out} {p : Prog Op Res Out} {w' : W}

lemma Answers.run_keeps (hans : Answers M P i call A J h) {p : Prog Op Res α} (hp : p.Emits A)
    {w : W} (hJ : J w) : J (p.run h w).2 :=
  (Alone.run hans.keeps hp hJ).keeps hans.keeps hJ

lemma Answers.advance_keeps (hans : Answers M P i call A J h) {p : Prog Op Res α}
    (hp : p.Emits A) (n : Nat) {w : W} (hJ : J w) : J (p.advance h n w).2 :=
  (Alone.advance hans.keeps hp n hJ).keeps hans.keeps hJ

lemma set_set (cfg : Config W Op Res Call Out) (w w' : W) (i : Nat)
    (t t' : Thread Op Res Call Out) : (cfg.set w i t).set w' i t' = cfg.set w' i t' := by
  simp [Config.set, Function.update_idem]

/-- Part of the run of a call alone is part of a run of the machine. -/
lemma run_alone {R : Op → W → Prop}
    (hR : ∀ o w, R o w → ∃ c, P.step w i call o c ∧ M.exec i o c w = some (h o w)) {p' : Prog Op Res Out}
    (halone : Alone h R p cfg.world p' w') (hthread : cfg.threads i = some ⟨call, p⟩) :
    M.Run P cfg (cfg.set w' i ⟨call, p'⟩) := by
  generalize hw : cfg.world = w at halone
  induction halone generalizing cfg with
  | @refl p w =>
    subst hw
    have hself : cfg.set cfg.world i ⟨call, p⟩ = cfg := by
      unfold Config.set
      rw [← hthread, Function.update_eq_self]
    exact hself.symm ▸ Relation.ReflTransGen.refl
  | op hstep _ ih =>
    subst hw
    obtain ⟨c, hadm, hexec⟩ := hR _ _ hstep
    have hnext := ih (Config.set_threads_self cfg _ i ⟨call, _⟩) rfl
    rw [set_set] at hnext
    exact Relation.ReflTransGen.head (.step i call _ _ c _ _ hthread hadm hexec) hnext
  | amb _ ih =>
    subst hw
    have hnext := ih (Config.set_threads_self cfg cfg.world i ⟨call, _⟩) rfl
    rw [set_set] at hnext
    exact Relation.ReflTransGen.head (.choose i call _ true hthread) hnext

/-- Some requests of one call, with nothing in between. -/
lemma run_advance (hans : Answers M P i call A J h) (hp : p.Emits A) (n : Nat)
    (hthread : cfg.threads i = some ⟨call, p⟩) (hJ : J cfg.world) :
    M.Run P cfg (cfg.set (p.advance h n cfg.world).2 i ⟨call, (p.advance h n cfg.world).1⟩) :=
  run_alone (fun o w ho => hans.exec o w ho.1 ho.2) (Alone.advance hans.keeps hp n hJ) hthread

/-- A call to its end, with nothing in between. -/
lemma run_solo (hans : Answers M P i call A J h) (hp : p.Emits A) (hthread : cfg.threads i = some ⟨call, p⟩)
    (hJ : J cfg.world) : M.Run P cfg (cfg.set (p.run h cfg.world).2 i ⟨call, .ret (p.run h cfg.world).1⟩) :=
  run_alone (fun o w ho => hans.exec o w ho.1 ho.2) (Alone.run hans.keeps hp hJ) hthread

lemma run_request {o : Op} {k : Res o → Prog Op Res Out} {c : C} {r : Res o}
    (hthread : cfg.threads i = some ⟨call, .op o k⟩) (hadm : P.step cfg.world i call o c)
    (hrun : M.exec i o c cfg.world = some (r, w')) : M.Run P cfg (cfg.set w' i ⟨call, k r⟩) :=
  Relation.ReflTransGen.single (.step i call o k c r w' hthread hadm hrun)

lemma run_start (i : Nat) (call : Call) (hfree : cfg.threads i = none) (hadm : P.start cfg i call)
    (hrun : M.start i call cfg.world = some w') : M.Run P cfg (cfg.set w' i ⟨call, M.prog call⟩) :=
  Relation.ReflTransGen.single (.start i call w' hfree hadm hrun)

end Machine

end Concurrent
end StowQ
