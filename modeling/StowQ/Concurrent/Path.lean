import StowQ.Concurrent.Conduct
import StowQ.Concurrent.Solo

/-!
# Programs alone with a service

`Path S p s os p' s'` says that `p`, served by `S` from state `s` on and with nobody else
moving the state, can issue the requests `os` and become `p'` at state `s'`.

`Exceeds S c m u Q s` is about a routine: with some budget it returns a value in `Q`, has
spent `n` of the budget, and the requests it issued cost at least `n + u`.  It is the
converse of `Keeps`: the excess adds up along the constructors of routines.
-/

namespace StowQ
namespace Concurrent

variable {Op : Type} {Res : Op → Type} {α β σ τ ι ε : Type}

namespace Prog

/-- Served by `S` from `s` on, `p` issues `os` and becomes `p'`, at `s'`. -/
inductive Path (S : Service σ Op Res) : Prog Op Res α → σ → List Op → Prog Op Res α → σ → Prop
  | refl (p : Prog Op Res α) (s : σ) : Path S p s [] p s
  | op {o : Op} {k : Res o → Prog Op Res α} {s s1 s' : σ} {r : Res o} {os : List Op} {p' : Prog Op Res α}
      (hr : S.answers o s r s1) (h : Path S (k r) s1 os p' s') : Path S (.op o k) s (o :: os) p' s'
  | amb {k : Bool → Prog Op Res α} {s s' : σ} {b : Bool} {os : List Op} {p' : Prog Op Res α}
      (h : Path S (k b) s os p' s') : Path S (.amb k) s os p' s'

namespace Path

variable {S : Service σ Op Res} {p p' : Prog Op Res α} {s s' : σ} {os : List Op}

lemma bind {a : α} {f : α → Prog Op Res β} {s1 : σ} {os' : List Op} {q : Prog Op Res β}
    (h : Path S p s os (.ret a) s1) (hf : Path S (f a) s1 os' q s') : Path S (p.bind f) s (os ++ os') q s' := by
  generalize hp' : (Prog.ret a : Prog Op Res α) = p' at h
  induction h with
  | refl p s =>
    subst hp'
    exact hf
  | op hr _ ih => exact .op hr (ih hf hp')
  | amb _ ih => exact .amb (ih hf hp')

/-- An invariant that the answers to the requests of `p` keep. -/
lemma invariant {A : Op → Prop} {J : σ → Prop} (hJ : ∀ o s r s', A o → J s → S.answers o s r s' → J s')
    (hp : p.Emits A) (h : Path S p s os p' s') (hs : J s) : J s' := by
  induction h with
  | refl p s => exact hs
  | @op o k s s1 s' r os p' hr _ ih => exact ih (hp.2 r) (hJ o s r s1 hp.1 hs hr)
  | @amb k s s' b os p' _ ih => exact ih (hp b) hs

/-- The scheduler may leave a list in its order. -/
lemma shuffle (xs : List α) (s : σ) : Path S (Prog.shuffle xs) s [] (.ret xs) s := by
  induction xs with
  | nil => exact .refl _ s
  | cons x xs ih =>
    refine ih.bind ?_
    cases xs with
    | nil => exact .refl _ s
    | cons y ys => exact .amb (b := true) (.refl _ s)

/-- In a state where the invariant holds the answers are valid. -/
lemma issues {A : Op → Prop} {J : σ → Prop} {V : (o : Op) → Res o → Prop}
    (hJ : ∀ o s r s', A o → J s → S.answers o s r s' → J s')
    (hV : ∀ o s r s', J s → S.answers o s r s' → V o r)
    (hp : p.Emits A) (h : Path S p s os p' s') (hs : J s) : Issues V p os p' := by
  induction h with
  | refl p s => exact .refl p
  | @op o k s s1 s' r os p' hr _ ih =>
    exact .op (hV o s r s1 hs hr) (ih (hp.2 r) (hJ o s r s1 hp.1 hs hr))
  | @amb k s s' b os p' _ ih => exact .amb (ih (hp b) hs)

/-- The run under a handler whose answers are among those of the service. -/
lemma of_run {h : Handler Op Res σ} (hS : ∀ o s, S.answers o s (h o s).1 (h o s).2) (p : Prog Op Res α) (s : σ) :
    ∃ os, Path S p s os (.ret (p.run h s).1) (p.run h s).2 := by
  induction p generalizing s with
  | ret a => exact ⟨[], .refl _ s⟩
  | op o k ih =>
    obtain ⟨os, hpath⟩ := ih (h o s).1 (h o s).2
    exact ⟨o :: os, .op (hS o s) hpath⟩
  | amb k ih =>
    obtain ⟨os, hpath⟩ := ih true s
    exact ⟨os, .amb hpath⟩

lemma safe {T : Service σ Op Res} {R : Rely σ} {G : σ → σ → Prop} {Q : α → σ → Prop} {a : α}
    (hT : ∀ o s r s', S.answers o s r s' → T.answers o s r s') (h : Path S p s os (.ret a) s')
    (hp : Safe T R G p Q s) (hs : T.inv s) : Q a s' := by
  generalize hend : (Prog.ret a : Prog Op Res α) = p' at h
  induction h with
  | refl p s =>
    subst hend
    exact hp s (R.refl s) hs
  | @op o k s s1 s' r os p' hr _ ih =>
    obtain ⟨hs1, -, hk⟩ := hp s (R.refl s) hs r s1 (hT o s r s1 hr)
    exact ih hk hs1 hend
  | @amb k s s' b os p' _ ih => exact ih (hp b) hs hend

end Path
end Prog

namespace Budgeted

/-- With some answers of the service `m` returns a value in `Q`, and what its requests cost
exceeds what it has spent by `u`. -/
def Exceeds (S : Service σ Op Res) (c : Op → Nat) (m : Budgeted Op Res ε α) (u : Nat) (Q : α → σ → Prop)
    (s : σ) : Prop :=
  ∃ n os a s', (∀ d, (m (n + d)).Path S s os (.ret (.ok a, d)) s') ∧ n + u ≤ (os.map c).sum ∧ Q a s'

namespace Exceeds

variable {S : Service σ Op Res} {c : Op → Nat} {m : Budgeted Op Res ε α} {u v : Nat} {s : σ}
  {Q : α → σ → Prop} {e : ε} {t : τ}

lemma mono {P : α → σ → Prop} (h : Exceeds S c m u Q s) (hv : v ≤ u) (hQ : ∀ a s', Q a s' → P a s') :
    Exceeds S c m v P s := by
  obtain ⟨n, os, a, s', hpath, hcost, ha⟩ := h
  exact ⟨n, os, a, s', hpath, by omega, hQ a s' ha⟩

/-- An invariant of the requests of `m` holds at the end. -/
lemma invariant {A : Op → Prop} {J : σ → Prop} (h : Exceeds S c m u Q s) (hm : Emits A m)
    (hJ : ∀ o s r s', A o → J s → S.answers o s r s' → J s') (hs : J s) :
    Exceeds S c m u (fun a s' => Q a s' ∧ J s') s := by
  obtain ⟨n, os, a, s', hpath, hcost, ha⟩ := h
  exact ⟨n, os, a, s', hpath, hcost, ha, (hpath 0).invariant hJ (hm.prog _) hs⟩

lemma pure {a : α} (h : Q a s) : Exceeds S c (Pure.pure a : Budgeted Op Res ε α) 0 Q s := by
  refine ⟨0, [], a, s, fun d => ?_, Nat.le_refl 0, h⟩
  rw [Nat.zero_add]
  exact .refl _ s

lemma bind {f : α → Budgeted Op Res ε β} {M : α → σ → Prop} {Q : β → σ → Prop}
    (h : Exceeds S c m u M s) (hf : ∀ a s', M a s' → Exceeds S c (f a) v Q s') :
    Exceeds S c (m >>= f) (u + v) Q s := by
  obtain ⟨n, os, a, s1, hpath, hcost, ha⟩ := h
  obtain ⟨n', os', b, s', hpath', hcost', hb⟩ := hf a s1 ha
  refine ⟨n + n', os ++ os', b, s', fun d => ?_, ?_, hb⟩
  · rw [bind_apply, Nat.add_assoc]
    exact (hpath (n' + d)).bind (hpath' d)
  · rw [List.map_append, List.sum_append]
    omega

/-- A routine without an excess, in front of another. -/
lemma andThen {f : α → Budgeted Op Res ε β} {M : α → σ → Prop} {Q : β → σ → Prop}
    (h : Exceeds S c m 0 M s) (hf : ∀ a s', M a s' → Exceeds S c (f a) v Q s') :
    Exceeds S c (m >>= f) v Q s := by
  simpa only [Nat.zero_add] using h.bind hf

lemma spend {f : Unit → Budgeted Op Res ε β} {Q : β → σ → Prop} (h : Exceeds S c (f ()) (u + 1) Q s) :
    Exceeds S c (Budgeted.spend e >>= f) u Q s := by
  obtain ⟨n, os, b, s', hpath, hcost, hb⟩ := h
  refine ⟨n + 1, os, b, s', fun d => ?_, by omega, hb⟩
  rw [Nat.add_right_comm]
  exact hpath d

lemma request {o : Op} {f : Res o → Budgeted Op Res ε β} {Q : β → σ → Prop} {r : Res o} {s1 : σ}
    (hr : S.answers o s r s1) (h : Exceeds S c (f r) u Q s1) :
    Exceeds S c (Budgeted.request o >>= f) (u + c o) Q s := by
  obtain ⟨n, os, b, s', hpath, hcost, hb⟩ := h
  refine ⟨n, o :: os, b, s', fun d => .op hr (hpath d), ?_, hb⟩
  rw [List.map_cons, List.sum_cons]
  omega

lemma retry {a : Budgeted Op Res ε (Option α)} (left : Nat)
    (h : Exceeds S c a u (fun r s' => ∃ x, r = some x ∧ Q x s') s) :
    Exceeds S c (Budgeted.retry e a left) u Q s := by
  cases left <;> exact h.bind (v := 0) fun r s' ⟨x, hr, hx⟩ => hr ▸ pure hx

/-- Along a list the excesses of its items add up. -/
lemma foldM {f : τ → ι → Budgeted Op Res ε τ} {I : τ → σ → Prop} {weight : ι → Nat} {xs : List ι}
    (h : ∀ t, ∀ x ∈ xs, ∀ s, I t s → Exceeds S c (f t x) (weight x) I s) (ht : I t s) :
    Exceeds S c (Budgeted.foldM f t xs) (xs.map weight).sum I s := by
  induction xs generalizing t s with
  | nil => exact pure ht
  | cons x xs ih =>
    rw [List.map_cons, List.sum_cons]
    refine (h t x List.mem_cons_self s ht).bind fun t' s' ht' => ?_
    exact ih (fun t y hy => h t y (List.mem_cons_of_mem x hy)) ht'

lemma foldAny {f : τ → ι → Budgeted Op Res ε τ} {Q : τ → σ → Prop} {xs : List ι}
    (h : Exceeds S c (Budgeted.foldM f t xs) u Q s) : Exceeds S c (Budgeted.foldAny f t xs) u Q s := by
  have hpick : Exceeds S c (Budgeted.lift (Prog.shuffle xs) : Budgeted Op Res ε (List ι)) 0
      (fun ys s' => ys = xs ∧ s' = s) s := by
    refine ⟨0, [], xs, s, fun d => ?_, Nat.le_refl 0, rfl, rfl⟩
    rw [Nat.zero_add]
    have hdone : Prog.Path S (.ret ((.ok xs : Except ε _), d)) s [] (.ret (.ok xs, d)) s := .refl _ s
    exact (Prog.Path.shuffle xs s).bind hdone
  refine hpick.andThen ?_
  rintro ys s' ⟨rfl, rfl⟩
  exact h

/-- A loop that pays for a request at the start of each round. -/
lemma loop {body : τ → Budgeted Op Res ε (τ ⊕ α)} (I : τ → σ → Prop) (measure : τ → Nat)
    (h : ∀ t s, I t s → ∃ e' rest, body t = (Budgeted.spend e' >>= fun _ => rest) ∧ Exceeds S c rest 1
      (fun r s' => Sum.elim (fun t' => I t' s' ∧ measure t' < measure t) (fun a => Q a s') r) s) (ht : I t s) :
    Exceeds S c (Budgeted.loop e body t) 0 Q s := by
  -- the fuel is one more than the budget, and every round takes at least one from both
  have hiter : ∃ n os a s', (∀ d fuel, n + d < fuel →
      (Budgeted.iterate e body fuel t (n + d)).Path S s os (.ret (.ok a, d)) s') ∧
      n ≤ (os.map c).sum ∧ Q a s' := by
    induction hm : measure t using Nat.strong_induction_on generalizing t s with
    | _ m ih =>
      obtain ⟨e', rest, hbody, n, os, r, s1, hpath, hcost, hr⟩ := h t s ht
      have hround : ∀ d, (body t (n + 1 + d)).Path S s os (.ret (.ok r, d)) s1 := by
        intro d
        rw [hbody, Nat.add_right_comm]
        exact hpath d
      cases r with
      | inr a =>
        refine ⟨n + 1, os, a, s1, fun d fuel hfuel => ?_, hcost, hr⟩
        obtain ⟨fuel, rfl⟩ := Nat.exists_eq_succ_of_ne_zero (Nat.ne_of_gt (Nat.zero_lt_of_lt hfuel))
        rw [Budgeted.iterate, bind_apply, ← List.append_nil os]
        exact (hround d).bind (.refl _ s1)
      | inl t' =>
        obtain ⟨n', os', a, s', hpath', hcost', ha⟩ := ih _ (hm ▸ hr.2) hr.1 rfl
        refine ⟨n + 1 + n', os ++ os', a, s', fun d fuel hfuel => ?_, ?_, ha⟩
        · obtain ⟨fuel, rfl⟩ := Nat.exists_eq_succ_of_ne_zero (Nat.ne_of_gt (Nat.zero_lt_of_lt hfuel))
          rw [Budgeted.iterate, bind_apply, Nat.add_assoc (n + 1)]
          exact (hround (n' + d)).bind (hpath' d fuel (by omega))
        · rw [List.map_append, List.sum_append]
          omega
  obtain ⟨n, os, a, s', hpath, hcost, ha⟩ := hiter
  exact ⟨n, os, a, s', fun d => hpath d _ (Nat.lt_succ_self _), hcost, ha⟩

end Exceeds
end Budgeted

end Concurrent
end StowQ
