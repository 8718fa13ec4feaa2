import StowQ.Concurrent.Prog
import Mathlib.Data.List.Forall2

/-!
# Rely-guarantee safety of resumable programs

A `Service` says which answers and successor worlds a request may have, and
which invariant of the world every participant keeps.  `Safe S R G p Q w` is the
safety judgment of one program `p` started at world `w`:

* before each of its requests the world may have moved along the rely `R`, and
  the invariant may be assumed there;
* each of its requests keeps the invariant and moves the world along the
  guarantee `G`;
* when it returns a value, `Q` holds of the value then and at every later world
  the rely allows.

The rules below are the usual ones: consequence, sequencing, framing of stable
facts, and parallel composition, where each side's guarantee must lie inside the
other side's rely.
-/

namespace StowQ
namespace Concurrent

/-- What requests do to the world, and the invariant all participants keep. -/
structure Service (W : Type) (Op : Type) (Res : Op → Type) where
  answers : (o : Op) → W → Res o → W → Prop
  inv : W → Prop

/-- The moves of the environment a program tolerates: a preorder on worlds. -/
structure Rely (W : Type) where
  rel : W → W → Prop
  refl : ∀ w, rel w w
  trans : ∀ {a b c}, rel a b → rel b c → rel a c

namespace Rely

variable {W ι : Type}

/-- The moves tolerated by every member of a list. -/
def all (R : ι → Rely W) (xs : List ι) : Rely W where
  rel w w' := ∀ x ∈ xs, (R x).rel w w'
  refl w x _ := (R x).refl w
  trans hab hbc x hx := (R x).trans (hab x hx) (hbc x hx)

end Rely

variable {W Op : Type} {Res : Op → Type} {α β : Type}

/-- The safety judgment; see the module header. -/
def Safe (S : Service W Op Res) (R : Rely W) (G : W → W → Prop) :
    Prog Op Res α → (α → W → Prop) → W → Prop
  | .ret a, Q, w => ∀ w', R.rel w w' → S.inv w' → Q a w'
  | .op o k, Q, w =>
    ∀ w1, R.rel w w1 → S.inv w1 → ∀ r w2, S.answers o w1 r w2 → S.inv w2 ∧ G w1 w2 ∧ Safe S R G (k r) Q w2
  | .amb k, Q, w => ∀ b, Safe S R G (k b) Q w

namespace Safe

variable {S : Service W Op Res} {R R' : Rely W} {G G' : W → W → Prop}
  {p : Prog Op Res α} {Q Q' : α → W → Prop} {w w' : W}

lemma of_picks (h : p.Picks fun a => ∀ w', R.rel w w' → S.inv w' → Q a w') : Safe S R G p Q w := by
  induction p with
  | ret a => exact h
  | op o k ih => exact h.elim
  | amb k ih => exact fun b => ih b (h b)

lemma later (h : Safe S R G p Q w) (hw : R.rel w w') : Safe S R G p Q w' := by
  induction p with
  | ret a => exact fun w1 hw1 hi => h w1 (R.trans hw hw1) hi
  | op o k ih => exact fun w1 hw1 hi r w2 hr => h w1 (R.trans hw hw1) hi r w2 hr
  | amb k ih => exact fun b => ih b (h b)

/-- To be safe it is enough to be safe from every world the rely allows. -/
lemma of_later (h : ∀ w', R.rel w w' → S.inv w' → Safe S R G p Q w') : Safe S R G p Q w := by
  induction p with
  | ret a => exact fun w1 hw1 hi => h w1 hw1 hi w1 (R.refl w1) hi
  | op o k ih => exact fun w1 hw1 hi r w2 hr => h w1 hw1 hi w1 (R.refl w1) hi r w2 hr
  | amb k ih => exact fun b => ih b fun w1 hw1 hi => h w1 hw1 hi b

lemma mono (h : Safe S R G p Q w) (hQ : ∀ a w', S.inv w' → Q a w' → Q' a w') : Safe S R G p Q' w := by
  induction p generalizing w with
  | ret a => exact fun w1 hw1 hi => hQ a w1 hi (h w1 hw1 hi)
  | op o k ih =>
    intro w1 hw1 hi r w2 hr
    obtain ⟨hi2, hg, hk⟩ := h w1 hw1 hi r w2 hr
    exact ⟨hi2, hg, ih r hk⟩
  | amb k ih => exact fun b => ih b (h b)

/-- A postcondition holds at every world the rely allows after the return. -/
lemma stable (h : Safe S R G p Q w) : Safe S R G p (fun a w' => ∀ w'', R.rel w' w'' → S.inv w'' → Q a w'') w := by
  induction p generalizing w with
  | ret a => exact fun w1 hw1 _ w2 hw2 hi => h w2 (R.trans hw1 hw2) hi
  | op o k ih =>
    intro w1 hw1 hi r w2 hr
    obtain ⟨hi2, hg, hk⟩ := h w1 hw1 hi r w2 hr
    exact ⟨hi2, hg, ih r hk⟩
  | amb k ih => exact fun b => ih b (h b)

/-- What is shown of a program in two ways holds together. -/
lemma and (h : Safe S R G p Q w) (h' : Safe S R G p Q' w) : Safe S R G p (fun a w' => Q a w' ∧ Q' a w') w := by
  induction p generalizing w with
  | ret a => exact fun w1 hw1 hi => ⟨h w1 hw1 hi, h' w1 hw1 hi⟩
  | op o k ih =>
    intro w1 hw1 hi r w2 hr
    obtain ⟨hi2, hg, hk⟩ := h w1 hw1 hi r w2 hr
    exact ⟨hi2, hg, ih r hk (h' w1 hw1 hi r w2 hr).2.2⟩
  | amb k ih => exact fun b => ih b (h b) (h' b)

/-- A smaller rely and a larger guarantee are easier to live with. -/
lemma weaken (h : Safe S R G p Q w) (hR : ∀ w w', R'.rel w w' → R.rel w w')
    (hG : ∀ w w', G w w' → G' w w') : Safe S R' G' p Q w := by
  induction p generalizing w with
  | ret a => exact fun w1 hw1 hi => h w1 (hR w w1 hw1) hi
  | op o k ih =>
    intro w1 hw1 hi r w2 hr
    obtain ⟨hi2, hg, hk⟩ := h w1 (hR w w1 hw1) hi r w2 hr
    exact ⟨hi2, hG w1 w2 hg, ih r hk⟩
  | amb k ih => exact fun b => ih b (h b)

/-- Sequencing, with the continuation's safety as the intermediate assertion. -/
lemma bind {f : α → Prog Op Res β} {Q : β → W → Prop}
    (h : Safe S R G p (fun a w' => Safe S R G (f a) Q w') w) :
    Safe S R G (p.bind f) Q w := by
  induction p generalizing w with
  | ret a => exact of_later fun w1 hw1 hi => h w1 hw1 hi
  | op o k ih =>
    intro w1 hw1 hi r w2 hr
    obtain ⟨hi2, hg, hk⟩ := h w1 hw1 hi r w2 hr
    exact ⟨hi2, hg, ih r hk⟩
  | amb k ih => exact fun b => ih b (h b)

lemma seq {f : α → Prog Op Res β} {M : α → W → Prop} {Q : β → W → Prop}
    (h : Safe S R G p M w) (hf : ∀ a w', S.inv w' → M a w' → Safe S R G (f a) Q w') :
    Safe S R G (p.bind f) Q w :=
  bind (h.mono hf)

lemma map {f : α → β} {Q : β → W → Prop} (h : Safe S R G p (fun a w' => Q (f a) w') w) :
    Safe S R G (p.map f) Q w := by
  induction p generalizing w with
  | ret a => exact fun w1 hw1 hi => h w1 hw1 hi
  | op o k ih =>
    intro w1 hw1 hi r w2 hr
    obtain ⟨hi2, hg, hk⟩ := h w1 hw1 hi r w2 hr
    exact ⟨hi2, hg, ih r hk⟩
  | amb k ih => exact fun b => ih b (h b)

/-- A fact that neither the rely nor the program's own steps can destroy is
carried to the end. -/
lemma frame {K : W → Prop} (h : Safe S R G p Q w) (hK : K w)
    (hrely : ∀ w w', R.rel w w' → S.inv w' → K w → K w')
    (hguar : ∀ w w', S.inv w → S.inv w' → G w w' → K w → K w') :
    Safe S R G p (fun a w' => Q a w' ∧ K w') w := by
  induction p generalizing w with
  | ret a => exact fun w1 hw1 hi => ⟨h w1 hw1 hi, hrely w w1 hw1 hi hK⟩
  | op o k ih =>
    intro w1 hw1 hi r w2 hr
    obtain ⟨hi2, hg, hk⟩ := h w1 hw1 hi r w2 hr
    have hK2 : K w2 := hguar w1 w2 hi hi2 hg (hrely w w1 hw1 hi hK)
    exact ⟨hi2, hg, ih r hk hK2⟩
  | amb k ih => exact fun b => ih b (h b) hK

/-! ## Parallel composition -/

section Parallel

variable {R1 R2 : Rely W} {G1 G2 : W → W → Prop} {q : Prog Op Res β}
  {Q1 : α → W → Prop} {Q2 : β → W → Prop}

/-- The moves both sides of a parallel composition tolerate. -/
def both (R1 R2 : Rely W) : Rely W where
  rel w w' := R1.rel w w' ∧ R2.rel w w'
  refl w := ⟨R1.refl w, R2.refl w⟩
  trans hab hbc := ⟨R1.trans hab.1 hbc.1, R2.trans hab.2 hbc.2⟩

/-- The moves either side of a parallel composition makes. -/
def either (G1 G2 : W → W → Prop) (w w' : W) : Prop := G1 w w' ∨ G2 w w'

/-- One side alone, run in the joint rely after the other side has returned. -/
lemma alone_left (h : Safe S R1 G1 p Q1 w) (b : β)
    (hb : ∀ w', R2.rel w w' → S.inv w' → Q2 b w')
    (h12 : ∀ w w', S.inv w → S.inv w' → G1 w w' → R2.rel w w') :
    Safe S (both R1 R2) (either G1 G2) (p.map fun a => (a, b))
      (fun out w' => Q1 out.1 w' ∧ Q2 out.2 w') w := by
  apply map
  induction p generalizing w with
  | ret a => exact fun w1 hw1 hi => ⟨h w1 hw1.1 hi, hb w1 hw1.2 hi⟩
  | op o k ih =>
    intro w1 hw1 hi r w2 hr
    obtain ⟨hi2, hg, hk⟩ := h w1 hw1.1 hi r w2 hr
    refine ⟨hi2, Or.inl hg, ih r hk fun w3 hw3 hi3 => ?_⟩
    exact hb w3 (R2.trans hw1.2 (R2.trans (h12 w1 w2 hi hi2 hg) hw3)) hi3
  | amb k ih => exact fun c => ih c (h c) hb

lemma alone_right (h : Safe S R2 G2 q Q2 w) (a : α)
    (ha : ∀ w', R1.rel w w' → S.inv w' → Q1 a w')
    (h21 : ∀ w w', S.inv w → S.inv w' → G2 w w' → R1.rel w w') :
    Safe S (both R1 R2) (either G1 G2) (q.map fun b => (a, b))
      (fun out w' => Q1 out.1 w' ∧ Q2 out.2 w') w := by
  apply map
  induction q generalizing w with
  | ret b => exact fun w1 hw1 hi => ⟨ha w1 hw1.1 hi, h w1 hw1.2 hi⟩
  | op o k ih =>
    intro w1 hw1 hi r w2 hr
    obtain ⟨hi2, hg, hk⟩ := h w1 hw1.2 hi r w2 hr
    refine ⟨hi2, Or.inr hg, ih r hk fun w3 hw3 hi3 => ?_⟩
    exact ha w3 (R1.trans hw1.1 (R1.trans (h21 w1 w2 hi hi2 hg) hw3)) hi3
  | amb k ih => exact fun c => ih c (h c) ha

/-- **Parallel composition.**  Two programs, each safe against a rely that
contains the other's guarantee, are safe together. -/
theorem join (h1 : Safe S R1 G1 p Q1 w) (h2 : Safe S R2 G2 q Q2 w)
    (h12 : ∀ w w', S.inv w → S.inv w' → G1 w w' → R2.rel w w')
    (h21 : ∀ w w', S.inv w → S.inv w' → G2 w w' → R1.rel w w') :
    Safe S (both R1 R2) (either G1 G2) (p.join q)
      (fun out w' => Q1 out.1 w' ∧ Q2 out.2 w') w := by
  -- outer induction on the left program, inner induction on the right one: each
  -- request shortens exactly one of the two
  induction p generalizing q w with
  | ret a => exact alone_right h2 a h1 h21
  | amb k ih => exact fun c => ih c (h1 c) h2
  | op o k ih =>
    induction q generalizing w with
    | ret b =>
      exact alone_left (p := Prog.op o k) h1 b h2 h12
    | amb k' ih' => exact fun c => ih' c h1 (h2 c)
    | op o' k' ih' =>
      intro first
      cases first with
      | true =>
        intro w1 hw1 hi r w2 hr
        obtain ⟨hi2, hg, hk⟩ := h1 w1 hw1.1 hi r w2 hr
        have hq : Safe S R2 G2 (Prog.op o' k') Q2 w2 := h2.later (R2.trans hw1.2 (h12 w1 w2 hi hi2 hg))
        exact ⟨hi2, Or.inl hg, ih r hk hq⟩
      | false =>
        intro w1 hw1 hi r w2 hr
        obtain ⟨hi2, hg, hk⟩ := h2 w1 hw1.2 hi r w2 hr
        have hp : Safe S R1 G1 (Prog.op o k) Q1 w2 := h1.later (R1.trans hw1.1 (h21 w1 w2 hi hi2 hg))
        exact ⟨hi2, Or.inr hg, ih' r hp hk⟩

end Parallel

/-- **Parallel composition of a list.**  `D x` is the rely and `G x` the guarantee
of branch `x`; distinct branches must tolerate each other's steps. -/
theorem joinAll {ι : Type} {D : ι → Rely W} {G : ι → W → W → Prop}
    {f : ι → Prog Op Res α} {Q : ι → α → W → Prop} (xs : List ι)
    (hsafe : ∀ x ∈ xs, Safe S (D x) (G x) (f x) (Q x) w)
    (hpair : xs.Pairwise fun x y =>
      (∀ w w', S.inv w → S.inv w' → G x w w' → (D y).rel w w') ∧
      (∀ w w', S.inv w → S.inv w' → G y w w' → (D x).rel w w')) :
    Safe S (Rely.all D xs) (fun w w' => ∃ x ∈ xs, G x w w') (Prog.joinAll (xs.map f))
      (fun outs w' => List.Forall₂ (fun x a => Q x a w') xs outs) w := by
  induction xs with
  | nil => exact fun w1 _ _ => List.Forall₂.nil
  | cons x xs ih =>
    rw [List.pairwise_cons] at hpair
    obtain ⟨hhead, htail⟩ := hpair
    have hrest := ih (fun y hy => hsafe y (List.mem_cons_of_mem x hy)) htail
    have hx := hsafe x List.mem_cons_self
    have hboth := join hx hrest
      (fun a b ha hb hg y hy => (hhead y hy).1 a b ha hb hg)
      (fun a b ha hb hg => by
        obtain ⟨y, hy, hgy⟩ := hg
        exact (hhead y hy).2 a b ha hb hgy)
    apply map
    refine (hboth.mono ?_).weaken ?_ ?_
    · intro out w1 _ hQ
      exact List.Forall₂.cons hQ.1 hQ.2
    · intro a b hab
      exact ⟨hab x List.mem_cons_self, fun y hy => hab y (List.mem_cons_of_mem x hy)⟩
    · rintro a b (hg | ⟨y, hy, hg⟩)
      · exact ⟨x, List.mem_cons_self, hg⟩
      · exact ⟨y, List.mem_cons_of_mem x hy, hg⟩

end Safe

end Concurrent
end StowQ
