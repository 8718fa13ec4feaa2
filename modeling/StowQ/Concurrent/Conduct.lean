import StowQ.Concurrent.Emits
import Mathlib.Algebra.BigOperators.Group.List.Basic
import Mathlib.Algebra.Order.BigOperators.Group.List

/-!
# The conduct of a program

`Issues V p os p'` says that `p` can issue the requests `os`, with any answers that are
`V`alid, and then has `p'` left to run.  `Keeps c V A Q R p n` bounds every such path at
once: its requests are in `A`, what they cost and the credit `R` of the value at its end are
together at most `n`, and that value is in `Q`.

A routine is judged in a `Regime`: what a request costs, which answers may come and which
errors may leave.  `Yields T A k Q m` says that, for every budget, `m` issues requests in
`A`, what they cost and the budget it leaves are together at most the budget and `k` more,
and what it ends with is a value in `Q` or an error that may leave: `k` is what has been paid
for it in advance.  The rules follow the constructors of routines; a payment moves one unit
into the credit of what follows it, a request takes its cost out again.
-/

namespace StowQ
namespace Concurrent

variable {Op : Type} {Res : Op → Type} {α β σ ι ε : Type}

namespace Prog

/-- With some valid answers to the requests `os`, in this order, `p` has become `p'`. -/
inductive Issues (V : (o : Op) → Res o → Prop) : Prog Op Res α → List Op → Prog Op Res α → Prop
  | refl (p : Prog Op Res α) : Issues V p [] p
  | op {o : Op} {k : Res o → Prog Op Res α} {r : Res o} {os : List Op} {p' : Prog Op Res α}
      (hr : V o r) (h : Issues V (k r) os p') : Issues V (.op o k) (o :: os) p'
  | amb {k : Bool → Prog Op Res α} {b : Bool} {os : List Op} {p' : Prog Op Res α}
      (h : Issues V (k b) os p') : Issues V (.amb k) os p'

/-- Every path issues requests in `A`, costs at most `n`, with the credit of the value it ends in, and
ends in a value in `Q`. -/
def Keeps (c : Op → Nat) (V : (o : Op) → Res o → Prop) (A : Op → Prop) (Q : α → Prop) (R : α → Nat) :
    Prog Op Res α → Nat → Prop
  | ret a, n => Q a ∧ R a ≤ n
  | op o k, n => A o ∧ c o ≤ n ∧ ∀ r, V o r → (k r).Keeps c V A Q R (n - c o)
  | amb k, n => ∀ b, (k b).Keeps c V A Q R n

namespace Keeps

variable {c : Op → Nat} {V : (o : Op) → Res o → Prop} {A : Op → Prop} {Q : α → Prop} {R : α → Nat}
  {p : Prog Op Res α} {n m : Nat} {P : β → Prop} {S : β → Nat}

lemma mono (h : p.Keeps c V A Q R n) (hn : n ≤ m) : p.Keeps c V A Q R m := by
  induction p generalizing n m with
  | ret a => exact ⟨h.1, Nat.le_trans h.2 hn⟩
  | op o k ih =>
    exact ⟨h.1, Nat.le_trans h.2.1 hn, fun r hr => ih r (h.2.2 r hr) (Nat.sub_le_sub_right hn _)⟩
  | amb k ih => exact fun b => ih b (h b) hn

/-- Less is known of the requests and of the end, or less credit is left. -/
lemma weaken {B : Op → Prop} {P : α → Prop} {S : α → Nat} (h : p.Keeps c V A Q R n) (hB : ∀ o, A o → B o)
    (hQ : ∀ a, Q a → P a) (hS : ∀ a, S a ≤ R a) : p.Keeps c V B P S n := by
  induction p generalizing n with
  | ret a => exact ⟨hQ a h.1, Nat.le_trans (hS a) h.2⟩
  | op o k ih => exact ⟨hB o h.1, h.2.1, fun r hr => ih r (h.2.2 r hr)⟩
  | amb k ih => exact fun b => ih b (h b)

lemma frame (h : p.Keeps c V A Q R n) (m : Nat) : p.Keeps c V A Q (fun a => R a + m) (n + m) := by
  induction p generalizing n with
  | ret a => exact ⟨h.1, Nat.add_le_add_right h.2 m⟩
  | op o k ih =>
    refine ⟨h.1, Nat.le_trans h.2.1 (Nat.le_add_right n m), fun r hr => ?_⟩
    rw [Nat.sub_add_comm h.2.1]
    exact ih r (h.2.2 r hr)
  | amb k ih => exact fun b => ih b (h b)

lemma bind {f : α → Prog Op Res β} (h : p.Keeps c V A Q R n) (hf : ∀ a, Q a → (f a).Keeps c V A P S (R a)) :
    (p.bind f).Keeps c V A P S n := by
  induction p generalizing n with
  | ret a => exact (hf a h.1).mono h.2
  | op o k ih => exact ⟨h.1, h.2.1, fun r hr => ih r (h.2.2 r hr)⟩
  | amb k ih => exact fun b => ih b (h b)

lemma map {f : α → β} (h : p.Keeps c V A Q R n) (hP : ∀ a, Q a → P (f a)) (hS : ∀ a, S (f a) ≤ R a) :
    (p.map f).Keeps c V A P S n :=
  h.bind fun a ha => ⟨hP a ha, hS a⟩

lemma join {q : Prog Op Res β} (hp : p.Keeps c V A Q R n) (hq : q.Keeps c V A P S m) :
    (p.join q).Keeps c V A (fun x => Q x.1 ∧ P x.2) (fun x => R x.1 + S x.2) (n + m) := by
  induction p generalizing q n m with
  | ret a =>
    refine map ((hq.frame (R a)).mono ?_) (fun b hb => ⟨hp.1, hb⟩) fun b => Nat.le_of_eq (Nat.add_comm _ _)
    rw [Nat.add_comm m]
    exact Nat.add_le_add_right hp.2 m
  | amb k ih => exact fun b => ih b (hp b) hq
  | op o k ih =>
    induction q generalizing m with
    | ret b =>
      refine ⟨hp.1, Nat.le_trans hp.2.1 (Nat.le_add_right n m), fun r hr => ?_⟩
      rw [Nat.sub_add_comm hp.2.1]
      exact map (((hp.2.2 r hr).frame (S b)).mono (Nat.add_le_add_left hq.2 _)) (fun a ha => ⟨ha, hq.1⟩)
        fun a => Nat.le_refl _
    | amb k' ih' => exact fun b => ih' b (hq b)
    | op o' k' ih' =>
      -- the scheduler picks the side that advances
      intro first
      cases first with
      | true =>
        refine ⟨hp.1, Nat.le_trans hp.2.1 (Nat.le_add_right n m), fun r hr => ?_⟩
        rw [Nat.sub_add_comm hp.2.1]
        exact ih r (hp.2.2 r hr) hq
      | false =>
        refine ⟨hq.1, Nat.le_trans hq.2.1 (Nat.le_add_left m n), fun r hr => ?_⟩
        rw [Nat.add_sub_assoc hq.2.1]
        exact ih' r (hq.2.2 r hr)

lemma joinAll {ps : List (Prog Op Res α)} (h : ∀ p ∈ ps, p.Keeps c V A Q R n) :
    (Prog.joinAll ps).Keeps c V A (fun xs => ∀ x ∈ xs, Q x) (fun xs => (xs.map R).sum) (n * ps.length) := by
  induction ps with
  | nil => exact ⟨nofun, Nat.le_refl _⟩
  | cons p ps ih =>
    have hjoin := (h p List.mem_cons_self).join (ih fun x hx => h x (List.mem_cons_of_mem p hx))
    refine map (hjoin.mono ?_) (fun xs hxs => ?_) fun xs => Nat.le_refl _
    · rw [List.length_cons, Nat.mul_succ, Nat.add_comm]
    · exact List.forall_mem_cons.mpr hxs

lemma of_picks (h : p.Picks Q) : p.Keeps c V A Q (fun _ => 0) n := by
  induction p with
  | ret a => exact ⟨h, Nat.zero_le n⟩
  | op o k ih => exact h.elim
  | amb k ih => exact fun b => ih b (h b)

lemma issues {os : List Op} {p' : Prog Op Res α} (h : p.Keeps c V A Q R n) (hi : Issues V p os p') :
    (os.map c).sum ≤ n ∧ p'.Keeps c V A Q R (n - (os.map c).sum) := by
  induction hi generalizing n with
  | refl p => exact ⟨Nat.zero_le n, h⟩
  | @op o k r os p' hr _ ih =>
    obtain ⟨hle, hrest⟩ := ih (h.2.2 r hr)
    rw [List.map_cons, List.sum_cons, Nat.sub_add_eq]
    have := h.2.1
    exact ⟨by omega, hrest⟩
  | @amb k b os p' _ ih => exact ih (h b)

/-- Where every answer is valid, every request is in `A`. -/
lemma emits (h : p.Keeps c (fun _ _ => True) A Q R n) : p.Emits A := by
  induction p generalizing n with
  | ret a => trivial
  | op o k ih => exact ⟨h.1, fun r => ih r (h.2.2 r trivial)⟩
  | amb k ih => exact fun b => ih b (h b)

end Keeps
end Prog

/-- What a request costs, which answers may come, and which errors may leave. -/
structure Regime (Op : Type) (Res : Op → Type) (ε : Type) where
  cost : Op → Nat
  valid : (o : Op) → Res o → Prop
  raises : ε → Prop

namespace Regime

/-- Nothing costs, and anything may be answered and raised. -/
abbrev free : Regime Op Res ε := ⟨fun _ => 0, fun _ _ => True, fun _ => True⟩

/-- A value in `Q` or an error that may leave. -/
def Ends (T : Regime Op Res ε) (Q : α → Prop) : Except ε α → Prop
  | .ok a => Q a
  | .error e => T.raises e

variable {T : Regime Op Res ε} {Q : α → Prop} {r : Except ε α}

lemma Ends.mono {P : α → Prop} (h : T.Ends Q r) (hP : ∀ a, Q a → P a) : T.Ends P r := by
  cases r with
  | ok a => exact hP a h
  | error e => exact h

lemma ends_of_raises (h : ∀ e, r = .error e → T.raises e) : T.Ends (fun _ => True) r := by
  cases r with
  | ok a => trivial
  | error e => exact h e rfl

end Regime

namespace Budgeted

/-- Under the terms, with `k` paid in advance, `m` issues requests in `A`, pays for them, and ends with a
value in `Q` or an error that may leave. -/
def Yields (T : Regime Op Res ε) (A : Op → Prop) (k : Nat) (Q : α → Prop) (m : Budgeted Op Res ε α) : Prop :=
  ∀ b, (m b).Keeps T.cost T.valid A (fun out => T.Ends Q out.1) Prod.snd (b + k)

/-- The same, with nothing said of the value. -/
abbrev Keeps (T : Regime Op Res ε) (A : Op → Prop) (k : Nat) (m : Budgeted Op Res ε α) : Prop :=
  Yields T A k (fun _ => True) m

/-- Every request satisfies `A`, for every budget. -/
abbrev Emits (A : Op → Prop) (m : Budgeted Op Res ε α) : Prop := Keeps Regime.free A 0 m

variable {T : Regime Op Res ε} {A : Op → Prop} {m : Budgeted Op Res ε α} {j k : Nat}

lemma Emits.prog (h : Emits A m) (b : Nat) : (m b).Emits A := (h b).emits

namespace Yields

variable {P : α → Prop} {Q : β → Prop} {e : ε} {I : σ → Prop} {s : σ}

lemma mono (h : Yields T A j P m) (hjk : j ≤ k) : Yields T A k P m :=
  fun b => (h b).mono (Nat.add_le_add_left hjk b)

lemma weaken {B : Op → Prop} {P' : α → Prop} (h : Yields T A k P m) (hB : ∀ o, A o → B o)
    (hP : ∀ a, P a → P' a) : Yields T B k P' m :=
  fun b => (h b).weaken hB (fun _ hout => hout.mono hP) fun _ => Nat.le_refl _

lemma ofExcept {r : Except ε α} (h : T.Ends P r) : Yields T A k P (Budgeted.ofExcept r) :=
  fun b => ⟨h, Nat.le_add_right b k⟩

lemma pure {a : α} (h : P a) : Yields T A k P (Pure.pure a : Budgeted Op Res ε α) := ofExcept (r := .ok a) h

lemma fail (h : T.raises e) : Yields T A k P (Budgeted.fail e : Budgeted Op Res ε α) := ofExcept (r := .error e) h

lemma andThen {f : α → Budgeted Op Res ε β} (h : Yields T A j P m) (hf : ∀ a, P a → Yields T A k Q (f a)) :
    Yields T A (j + k) Q (m >>= f) := by
  intro b
  rw [← Nat.add_assoc]
  refine ((h b).frame k).bind fun out hout => ?_
  obtain ⟨r, left⟩ := out
  cases r with
  | ok a => exact hf a hout left
  | error e => exact ⟨hout, Nat.le_add_right left k⟩

/-- A routine that pays for itself, in front of another. -/
lemma bind {f : α → Budgeted Op Res ε β} (h : Yields T A 0 P m) (hf : ∀ a, P a → Yields T A k Q (f a)) :
    Yields T A k Q (m >>= f) := by
  rw [← Nat.zero_add k]
  exact h.andThen hf

lemma spend {f : Unit → Budgeted Op Res ε β} (he : T.raises e) (hf : Yields T A (k + 1) Q (f ())) :
    Yields T A k Q (Budgeted.spend e >>= f) := by
  intro b
  cases b with
  | zero => exact ⟨he, Nat.zero_le _⟩
  | succ b =>
    refine (hf b).mono ?_
    omega

lemma request {o : Op} {f : Res o → Budgeted Op Res ε β} (h : A o)
    (hf : ∀ r, T.valid o r → Yields T A k Q (f r)) : Yields T A (k + T.cost o) Q (Budgeted.request o >>= f) := by
  intro b
  refine ⟨h, by omega, fun r hr => ?_⟩
  refine (hf r hr b).mono ?_
  omega

lemma lift {p : Prog Op Res α} (h : p.Keeps T.cost T.valid A P (fun _ => 0) k) :
    Yields T A k P (Budgeted.lift p) := by
  intro b
  refine Prog.Keeps.map ((h.frame b).mono ?_) (fun _ ha => ha) fun _ => Nat.le_add_left b 0
  omega

lemma attempt (h : Yields T A k P m) : Yields T A k (T.Ends P) (Budgeted.attempt m) :=
  fun b => Prog.Keeps.map (h b) (fun _ hout => hout) fun _ => Nat.le_refl _

lemma retry {a : Budgeted Op Res ε (Option α)} (he : T.raises e)
    (h : Yields T A 0 (fun found => ∀ x, found = some x → P x) a) (left : Nat) :
    Yields T A 0 P (Budgeted.retry e a left) := by
  induction left with
  | zero =>
    refine h.bind fun found hfound => ?_
    cases found with
    | none => exact fail he
    | some x => exact pure (hfound x rfl)
  | succ left ih =>
    refine h.bind fun found hfound => ?_
    cases found with
    | none => exact ih
    | some x => exact pure (hfound x rfl)

lemma iterate {body : σ → Budgeted Op Res ε (σ ⊕ α)} (he : T.raises e)
    (h : ∀ s, I s → Yields T A 0 (Sum.elim I P) (body s)) (fuel : Nat) (hs : I s) :
    Yields T A 0 P (Budgeted.iterate e body fuel s) := by
  induction fuel generalizing s with
  | zero => exact fail he
  | succ fuel ih =>
    refine (h s hs).bind fun r hr => ?_
    cases r with
    | inl s' => exact ih hr
    | inr a => exact pure hr

lemma loop {body : σ → Budgeted Op Res ε (σ ⊕ α)} (he : T.raises e)
    (h : ∀ s, I s → Yields T A 0 (Sum.elim I P) (body s)) (hs : I s) :
    Yields T A 0 P (Budgeted.loop e body s) :=
  fun b => iterate he h (b + 1) hs b

lemma foldM {f : σ → ι → Budgeted Op Res ε σ} {xs : List ι} (h : ∀ s, ∀ x ∈ xs, I s → Yields T A 0 I (f s x))
    (hs : I s) : Yields T A 0 I (Budgeted.foldM f s xs) := by
  induction xs generalizing s with
  | nil => exact pure hs
  | cons x xs ih =>
    refine (h s x List.mem_cons_self hs).bind fun s' hs' => ?_
    exact ih (fun s y hy => h s y (List.mem_cons_of_mem x hy)) hs'

lemma foldAny {f : σ → ι → Budgeted Op Res ε σ} {xs : List ι}
    (h : ∀ s, ∀ x ∈ xs, I s → Yields T A 0 I (f s x)) (hs : I s) : Yields T A 0 I (Budgeted.foldAny f s xs) :=
  (lift (.of_picks (Prog.picks_shuffle xs))).bind fun _ hys => foldM (fun s x hx => h s x (hys.mem_iff.mpr hx)) hs

lemma beside {p : Prog Op Res β} (hp : p.Keeps T.cost T.valid A Q (fun _ => 0) k) (hm : Yields T A 0 P m) :
    Yields T A k (fun out => Q out.1 ∧ T.Ends P out.2) (Budgeted.beside p m) := by
  intro b
  refine Prog.Keeps.map ((hp.join (hm b)).mono ?_) (fun _ hout => hout) fun _ => Nat.le_add_left _ 0
  omega

/-- Shares of the budget bound their holders, and what they leave is kept. -/
lemma joinSplit {ms : List (Budgeted Op Res ε α)} (h : ∀ m ∈ ms, Yields T A 0 P m) :
    Yields T A 0 (fun results => ∀ r ∈ results, T.Ends P r) (Budgeted.joinSplit ms) := by
  intro b
  have hall : ∀ p ∈ ms.map fun m => m (b / ms.length), p.Keeps T.cost T.valid A (fun out => T.Ends P out.1)
      Prod.snd (b / ms.length) := by
    intro p hp
    obtain ⟨m, hm, rfl⟩ := List.mem_map.mp hp
    exact h m hm (b / ms.length)
  have hjoin := (Prog.Keeps.joinAll hall).frame (b - b / ms.length * ms.length)
  rw [List.length_map, Nat.add_sub_cancel' (Nat.div_mul_le_self b ms.length)] at hjoin
  refine Prog.Keeps.map hjoin (fun outs houts => ?_) fun outs => Nat.le_of_eq (Nat.add_comm _ _)
  intro r hr
  obtain ⟨out, hout, rfl⟩ := List.mem_map.mp hr
  exact houts out hout

end Yields

namespace Keeps

variable {Q : β → Prop}

lemma ofExcept {r : Except ε α} (h : ∀ e, r = .error e → T.raises e) : Keeps T A k (Budgeted.ofExcept r) :=
  Yields.ofExcept (Regime.ends_of_raises h)

lemma pure (a : α) : Keeps T A k (Pure.pure a : Budgeted Op Res ε α) := Yields.pure trivial

lemma bind {f : α → Budgeted Op Res ε β} (h : Keeps T A 0 m) (hf : ∀ a, Yields T A k Q (f a)) :
    Yields T A k Q (m >>= f) :=
  Yields.bind h fun a _ => hf a

lemma remaining : Keeps T A k (Budgeted.remaining : Budgeted Op Res ε Nat) :=
  fun b => ⟨trivial, Nat.le_add_right b k⟩

lemma retry {e : ε} {a : Budgeted Op Res ε (Option α)} (he : T.raises e) (h : Keeps T A 0 a) (left : Nat) :
    Keeps T A 0 (Budgeted.retry e a left) :=
  Yields.retry he (h.weaken (fun _ h => h) fun _ _ _ _ => trivial) left

lemma loop {e : ε} {body : σ → Budgeted Op Res ε (σ ⊕ α)} (he : T.raises e) (h : ∀ s, Keeps T A 0 (body s))
    (s : σ) : Keeps T A 0 (Budgeted.loop e body s) :=
  Yields.loop (I := fun _ => True) he (fun s _ => (h s).weaken (fun _ h => h) fun r _ => by cases r <;> trivial) trivial

lemma foldM {f : σ → ι → Budgeted Op Res ε σ} (xs : List ι) (h : ∀ s x, x ∈ xs → Keeps T A 0 (f s x)) (s : σ) :
    Keeps T A 0 (Budgeted.foldM f s xs) :=
  Yields.foldM (fun s x hx _ => h s x hx) trivial

lemma foldAny {f : σ → ι → Budgeted Op Res ε σ} (xs : List ι) (h : ∀ s x, x ∈ xs → Keeps T A 0 (f s x)) (s : σ) :
    Keeps T A 0 (Budgeted.foldAny f s xs) :=
  Yields.foldAny (fun s x hx _ => h s x hx) trivial

end Keeps

lemma Emits.request {o : Op} (h : A o) : Emits A (Budgeted.request o : Budgeted Op Res ε (Res o)) :=
  Yields.request (k := 0) h fun _ _ => Keeps.pure _

end Budgeted

end Concurrent
end StowQ
