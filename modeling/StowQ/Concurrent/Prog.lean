import Mathlib.Logic.Function.Basic

/-!
# Resumable programs over a request signature

A `Prog Op Res α` is a finite-depth computation that issues requests `o : Op`
one at a time, receives an answer of type `Res o` for each, and finally returns
an `α`.  Nothing is said here about what a request does: the meaning of a
request is supplied later by a machine, so one program text can be run alone,
interleaved with others, or reasoned about against every answer at once.

* `Prog.bind` sequences two programs and makes `Prog Op Res` a lawful monad.
* `Prog.amb` is a choice left to the scheduler.  It is never issued to the
  outside; `Prog.join` uses it to let two programs advance in any order, one
  request at a time.
* `Prog.joinAll` is the same for a list of programs and returns their values in
  list order, whatever order they finished in.
* `Prog.shuffle` is a list in an order left to the scheduler, for the loops of a
  source over a collection that promises none.
-/

namespace StowQ
namespace Concurrent

/-- A program over the request signature `(Op, Res)`. -/
inductive Prog (Op : Type) (Res : Op → Type) (α : Type) : Type
  | ret (value : α)
  | op (request : Op) (resume : Res request → Prog Op Res α)
  | amb (branch : Bool → Prog Op Res α)

namespace Prog

variable {Op : Type} {Res : Op → Type} {α β γ : Type}

/-- Run `p`, then continue with `f` on its value. -/
def bind : Prog Op Res α → (α → Prog Op Res β) → Prog Op Res β
  | ret a, f => f a
  | op o k, f => op o fun r => (k r).bind f
  | amb k, f => amb fun b => (k b).bind f

/-- Apply `f` to the value of `p`. -/
def map (f : α → β) (p : Prog Op Res α) : Prog Op Res β :=
  p.bind fun a => ret (f a)

/-- Issue one request and return its answer. -/
def request (o : Op) : Prog Op Res (Res o) :=
  op o ret

instance : Monad (Prog Op Res) where
  pure := ret
  bind := bind

/-! ## Parallel composition -/

/-- Interleave a program that waits for the answer to `o` with a second program.
`rest r` is the interleaving of the first program's continuation on answer `r`. -/
def joinOp (o : Op) (k : Res o → Prog Op Res α)
    (rest : Res o → Prog Op Res β → Prog Op Res (α × β)) :
    Prog Op Res β → Prog Op Res (α × β)
  | ret b => op o fun r => (k r).map fun a => (a, b)
  | op o' k' =>
    amb fun first =>
      if first then op o fun r => rest r (op o' k')
      else op o' fun r' => joinOp o k rest (k' r')
  | amb k' => amb fun choice => joinOp o k rest (k' choice)

/-- Run two programs concurrently: whenever both wait for an answer, the
scheduler picks the one that advances.  The result is the pair of values. -/
def join : Prog Op Res α → Prog Op Res β → Prog Op Res (α × β)
  | ret a => fun q => q.map fun b => (a, b)
  | op o k => joinOp o k fun r => join (k r)
  | amb k => fun q => amb fun choice => join (k choice) q

/-- Run a list of programs concurrently and collect their values in list order. -/
def joinAll : List (Prog Op Res α) → Prog Op Res (List α)
  | [] => ret []
  | p :: ps => (join p (joinAll ps)).map fun out => out.1 :: out.2

/-! ## Choices -/

/-- Put `x` somewhere into a list; the scheduler picks the place. -/
def insertAnywhere (x : α) : List α → Prog Op Res (List α)
  | [] => ret [x]
  | y :: ys => amb fun here => if here then ret (x :: y :: ys) else (insertAnywhere x ys).map (y :: ·)

/-- The items of a list, in an order that the scheduler picks. -/
def shuffle : List α → Prog Op Res (List α)
  | [] => ret []
  | x :: xs => (shuffle xs).bind (insertAnywhere x)

/-- The program issues nothing, and whatever the scheduler picks it returns a value in `P`. -/
def Picks (P : α → Prop) : Prog Op Res α → Prop
  | ret a => P a
  | op _ _ => False
  | amb k => ∀ b, (k b).Picks P

lemma Picks.bind {P : α → Prop} {Q : β → Prop} {p : Prog Op Res α} {f : α → Prog Op Res β} (h : p.Picks P)
    (hf : ∀ a, P a → (f a).Picks Q) : (p.bind f).Picks Q := by
  induction p with
  | ret a => exact hf a h
  | op o k ih => exact h.elim
  | amb k ih => exact fun b => ih b (h b)

lemma Picks.mono {P Q : α → Prop} {p : Prog Op Res α} (h : p.Picks P) (hQ : ∀ a, P a → Q a) : p.Picks Q := by
  induction p with
  | ret a => exact hQ a h
  | op o k ih => exact h.elim
  | amb k ih => exact fun b => ih b (h b)

lemma picks_insertAnywhere (x : α) (ys : List α) :
    (insertAnywhere x ys : Prog Op Res (List α)).Picks (List.Perm (x :: ys)) := by
  induction ys with
  | nil => exact List.Perm.refl _
  | cons y ys ih =>
    intro here
    cases here with
    | true => exact List.Perm.refl _
    | false => exact ih.bind fun zs hzs => (List.Perm.swap y x ys).trans (hzs.cons y)

lemma picks_shuffle (xs : List α) : (shuffle xs : Prog Op Res (List α)).Picks (List.Perm xs) := by
  induction xs with
  | nil => exact List.Perm.refl _
  | cons x xs ih =>
    refine ih.bind fun ys hys => ?_
    exact (picks_insertAnywhere x ys).mono fun zs hzs => (hys.cons x).trans hzs

end Prog

end Concurrent
end StowQ
