import StowQ.Concurrent.Budgeted

/-!
# The requests of a program

`Emits A p` says that every request `p` can issue, whatever the answers, satisfies `A`.
It is the cheap half of a safety proof: where each request of a program is harmless by
itself, `Safe.of_emits` needs nothing else.
-/

namespace StowQ
namespace Concurrent

variable {W Op : Type} {Res : Op → Type} {α β σ ι ε : Type} {S : Service W Op Res} {R : Rely W}
  {G : W → W → Prop} {A : Op → Prop} {p : Prog Op Res α}

namespace Prog

/-- Every request satisfies `A`. -/
def Emits (A : Op → Prop) : Prog Op Res α → Prop
  | ret _ => True
  | op o k => A o ∧ ∀ r, (k r).Emits A
  | amb k => ∀ b, (k b).Emits A

namespace Emits

variable {A B : Op → Prop} {p : Prog Op Res α}

lemma mono (h : p.Emits A) (hAB : ∀ o, A o → B o) : p.Emits B := by
  induction p with
  | ret a => trivial
  | op o k ih => exact ⟨hAB o h.1, fun r => ih r (h.2 r)⟩
  | amb k ih => exact fun b => ih b (h b)

lemma any (p : Prog Op Res α) : p.Emits fun _ => True := by
  induction p with
  | ret a => trivial
  | op o k ih => exact ⟨trivial, ih⟩
  | amb k ih => exact ih

lemma of_bind {f : α → Prog Op Res β} (h : (p.bind f).Emits A) : p.Emits A := by
  induction p with
  | ret a => trivial
  | op o k ih => exact ⟨h.1, fun r => ih r (h.2 r)⟩
  | amb k ih => exact fun b => ih b (h b)

lemma bind {f : α → Prog Op Res β} (h : p.Emits A) (hf : ∀ a, (f a).Emits A) : (p.bind f).Emits A := by
  induction p with
  | ret a => exact hf a
  | op o k ih => exact ⟨h.1, fun r => ih r (h.2 r)⟩
  | amb k ih => exact fun b => ih b (h b)

lemma map {f : α → β} (h : p.Emits A) : (p.map f).Emits A := h.bind fun _ => trivial

lemma join {q : Prog Op Res β} (hp : p.Emits A) (hq : q.Emits A) : (p.join q).Emits A := by
  induction p generalizing q with
  | ret a => exact hq.map
  | amb k ih => exact fun b => ih b (hp b) hq
  | op o k ih =>
    induction q with
    | ret b => exact ⟨hp.1, fun r => (hp.2 r).map⟩
    | amb k' ih' => exact fun b => ih' b (hq b)
    | op o' k' ih' =>
      intro first
      cases first with
      | true => exact ⟨hp.1, fun r => ih r (hp.2 r) hq⟩
      | false => exact ⟨hq.1, fun r => ih' r (hq.2 r)⟩

lemma joinAll {ps : List (Prog Op Res α)} (h : ∀ p ∈ ps, p.Emits A) : (Prog.joinAll ps).Emits A := by
  induction ps with
  | nil => trivial
  | cons p ps ih =>
    exact ((h p List.mem_cons_self).join (ih fun p' hp' => h p' (List.mem_cons_of_mem p hp'))).map

end Emits
end Prog

/-- A service that another one simulates: what is shown over the second holds over the first, of a
related world. -/
lemma Safe.simulate {V : Type} {T : Service V Op Res} {R' : Rely V} {G' : V → V → Prop} {K : W → V → Prop}
    {Q : α → W → Prop} {w : W} {v : V} (h : Safe S R G p Q w) (hp : p.Emits A) (hinv : ∀ w v, K w v → S.inv w)
    (hrely : ∀ w v v', K w v → R'.rel v v' → K w v')
    (hstep : ∀ o, A o → ∀ w v r v', K w v → T.answers o v r v' →
      T.inv v' ∧ G' v v' ∧ ∃ w', S.answers o w r w' ∧ K w' v') (hrel : K w v) :
    Safe T R' G' p (fun a v' => ∃ w', K w' v' ∧ Q a w') v := by
  induction p generalizing w v with
  | ret a => exact fun v' hv' _ => ⟨w, hrely w v v' hrel hv', h w (R.refl w) (hinv w v hrel)⟩
  | op o k ih =>
    intro v1 hv1 _ r v2 hr
    obtain ⟨hi, hg, w', hanswers, hrel'⟩ := hstep o hp.1 w v1 r v2 (hrely w v v1 hrel hv1) hr
    exact ⟨hi, hg, ih r (h w (R.refl w) (hinv w v hrel) r w' hanswers).2.2 (hp.2 r) hrel'⟩
  | amb k ih => exact fun b => ih b (h b) (hp b) hrel

/-- A program whose requests are all harmless where `K` holds is safe, if `K` is kept. -/
lemma Safe.of_emits_while {K : W → Prop} (h : p.Emits A) (hR : ∀ w w', R.rel w w' → K w → K w')
    (hA : ∀ o, A o → ∀ w r w', S.inv w → K w → S.answers o w r w' → S.inv w' ∧ G w w' ∧ K w') {w : W} (hK : K w) :
    Safe S R G p (fun _ _ => True) w := by
  induction p generalizing w with
  | ret a => exact fun _ _ _ => trivial
  | op o k ih =>
    intro w1 hw1 hi r w2 hr
    obtain ⟨hi2, hg, hK2⟩ := hA o h.1 w1 r w2 hi (hR w w1 hw1 hK) hr
    exact ⟨hi2, hg, ih r (h.2 r) hK2⟩
  | amb k ih => exact fun b => ih b (h b) hK

/-- A program whose requests are all harmless is safe. -/
lemma Safe.of_emits (h : p.Emits A)
    (hA : ∀ o, A o → ∀ w r w', S.inv w → S.answers o w r w' → S.inv w' ∧ G w w') (w : W) :
    Safe S R G p (fun _ _ => True) w := by
  refine Safe.of_emits_while (K := fun _ => True) h (fun _ _ _ _ => trivial)
    (fun o ho w r w' hi _ hr => ?_) trivial
  obtain ⟨hi', hg⟩ := hA o ho w r w' hi hr
  exact ⟨hi', hg, trivial⟩

end Concurrent
end StowQ
