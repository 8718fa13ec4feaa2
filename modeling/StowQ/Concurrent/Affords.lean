import Mathlib.Algebra.BigOperators.Group.List.Basic
import StowQ.Concurrent.Ends

/-!
# Programs that a budget is enough for

`Affords D total m n Q w` is a judgment for every budget: whatever the budget, a value that
`m` returns satisfies `Q`; and, if `total`, from the budget `n` on `m` does return a value and
spends no more than `n`.  The costs of the parts add up along the program, so the budget that
is enough for a whole operation is read off its text.  Without `total` the costs mean nothing:
one analysis of a program serves a setting in which its loops come to an end and one in which
others can keep them going.
-/

namespace StowQ
namespace Concurrent

variable {W Op : Type} {Res : Op → Type} {ε α β σ ι : Type}

/-- The values of `m` are good, and the budget `n` is enough to get one. -/
def Affords (D : Discipline W Op Res) (total : Prop) (m : Budgeted Op Res ε α) (n : Nat)
    (Q : α → W → Prop) (w : W) : Prop :=
  ∀ b, Ends D m b (fun r left w' => (∀ a, r = .ok a → Q a w') ∧ (total → n ≤ b → (∃ a, r = .ok a) ∧ b ≤ left + n)) w

/-- What the rely keeps. -/
def Stable (D : Discipline W Op Res) (P : W → Prop) : Prop :=
  ∀ w w', D.rely.rel w w' → D.service.inv w' → P w → P w'

namespace Affords

variable {D : Discipline W Op Res} {total : Prop} {m : Budgeted Op Res ε α} {n k : Nat}
  {Q Q' : α → W → Prop} {w w' : W}

lemma mono (h : Affords D total m n Q w) (hn : total → n ≤ k)
    (hQ : ∀ a w', D.service.inv w' → D.order.rel w w' → Q a w' → Q' a w') :
    Affords D total m k Q' w := by
  intro b
  refine (h b).mono fun r left w' hi ho hq => ⟨fun a ha => hQ a w' hi ho (hq.1 a ha), fun ht hb => ?_⟩
  obtain ⟨hok, hleft⟩ := hq.2 ht (Nat.le_trans (hn ht) hb)
  exact ⟨hok, Nat.le_trans hleft (Nat.add_le_add_left (hn ht) left)⟩

lemma later (h : Affords D total m n Q w) (hw : D.rely.rel w w') : Affords D total m n Q w' :=
  fun b => (h b).later hw

lemma pure {a : α} (h : Stably D (Q a) w) : Affords D total (Pure.pure a : Budgeted Op Res ε α) n Q w := by
  refine fun b => Ends.pure fun w' hw' hi' => ⟨fun a' ha' => ?_, fun _ _ => ⟨⟨a, rfl⟩, Nat.le_add_right b n⟩⟩
  cases ha'
  exact h w' hw' hi'

lemma bind {f : α → Budgeted Op Res ε β} {M : α → W → Prop} {Q : β → W → Prop}
    (h : Affords D total m n M w)
    (hf : ∀ a w', D.service.inv w' → D.order.rel w w' → M a w' → Affords D total (f a) k Q w') :
    Affords D total (m >>= f) (n + k) Q w := by
  intro b
  have habove : Ends D m b (fun r left w' => D.order.rel w w' ∧ (∀ a, r = .ok a → M a w') ∧
      (total → n ≤ b → (∃ a, r = .ok a) ∧ b ≤ left + n)) w :=
    (h b).mono fun _ _ _ _ ho hq => ⟨ho, hq⟩
  refine habove.bind (fun a left w' hi hM => ?_)
    fun e left w' _ hM => ⟨nofun, fun ht hb => ?_⟩
  · refine (hf a w' hi hM.1 (hM.2.1 a rfl) left).mono fun r left' w'' _ _ hq => ⟨hq.1, fun ht hb => ?_⟩
    obtain ⟨-, hleft⟩ := hM.2.2 ht (by omega)
    obtain ⟨hok, hleft'⟩ := hq.2 ht (by omega)
    exact ⟨hok, by omega⟩
  · obtain ⟨⟨a, ha⟩, -⟩ := hM.2.2 ht (by omega)
    cases ha

lemma andThen {f : α → Budgeted Op Res ε β} {M : α → W → Prop} {Q : β → W → Prop}
    (h : Affords D total m 0 M w)
    (hf : ∀ a w', D.service.inv w' → D.order.rel w w' → M a w' → Affords D total (f a) k Q w') :
    Affords D total (m >>= f) k Q w := by
  have hbind := h.bind hf
  rwa [Nat.zero_add] at hbind

lemma spend {e : ε} {f : Unit → Budgeted Op Res ε β} {Q : β → W → Prop}
    (h : Affords D total (f ()) n Q w) : Affords D total (Budgeted.spend e >>= f) (n + 1) Q w := by
  intro b
  cases b with
  | zero =>
    exact fun w' _ _ => ⟨nofun, fun _ hb => absurd hb (Nat.not_succ_le_zero n)⟩
  | succ b =>
    refine Ends.spend ((h b).mono fun r left w' _ _ hq => ⟨hq.1, fun ht hb => ?_⟩)
    obtain ⟨hok, hleft⟩ := hq.2 ht (Nat.le_of_succ_le_succ hb)
    exact ⟨hok, Nat.succ_le_succ hleft⟩

lemma request {o : Op} {f : Res o → Budgeted Op Res ε β} {Q : β → W → Prop}
    (h : ∀ w1, D.rely.rel w w1 → D.service.inv w1 → ∀ r w2, D.service.answers o w1 r w2 →
      D.service.inv w2 ∧ D.guar w1 w2 ∧ Affords D total (f r) n Q w2) :
    Affords D total (Budgeted.request o >>= f) n Q w := by
  refine fun b => Ends.request fun w1 hw1 hi1 r w2 hr => ?_
  obtain ⟨hi2, hg, hf⟩ := h w1 hw1 hi1 r w2 hr
  exact ⟨hi2, hg, hf b⟩

lemma bind_some {a : Budgeted Op Res ε (Option α)} (again : Budgeted Op Res ε α)
    (h : Affords D total a n (fun found w' => ∃ v, found = some v ∧ Stably D (Q v) w') w) :
    Affords D total (a >>= fun r => match r with | some v => Pure.pure v | none => again) n Q w := by
  refine (h.bind (k := 0) fun found w' _ _ hfound => ?_ : Affords D total _ (n + 0) Q w)
  obtain ⟨v, rfl, hQ⟩ := hfound
  exact pure hQ

/-- An attempt that gives a value at the first try. -/
lemma retry {e : ε} {a : Budgeted Op Res ε (Option α)} {left : Nat}
    (h : Affords D total a n (fun found w' => ∃ v, found = some v ∧ Stably D (Q v) w') w) :
    Affords D total (Budgeted.retry e a left) n Q w := by
  cases left with
  | zero => exact h.bind_some (Budgeted.fail e)
  | succ left => exact h.bind_some (Budgeted.retry e a left)

section Fold

variable {f : σ → ι → Budgeted Op Res ε σ} {I : List ι → σ → W → Prop} {c : ι → Nat}
  (hstable : ∀ done s, Stable D (I done s)) (xs : List ι)
  (hstep : ∀ done x s w', x ∈ xs → D.service.inv w' → D.order.rel w w' → I done s w' →
    Affords D total (f s x) (c x) (fun s' w'' => I (done ++ [x]) s' w'') w')

include hstable hstep

/-- Fold rule: `I` relates the part of the list that is done to the state. -/
lemma foldM {s : σ} (hinit : I [] s w) (hinv : D.service.inv w) :
    Affords D total (Budgeted.foldM f s xs) (xs.map c).sum (I xs) w := by
  have hmain : ∀ ys done s w', done ++ ys = xs → D.service.inv w' → D.order.rel w w' → I done s w' →
      Affords D total (Budgeted.foldM f s ys) (ys.map c).sum (I xs) w' := by
    intro ys
    induction ys with
    | nil =>
      intro done s w' hxs _ _ hI
      rw [List.append_nil] at hxs
      subst hxs
      exact pure fun w'' hw'' hi'' => hstable done s w' w'' hw'' hi'' hI
    | cons y ys ih =>
      intro done s w' hxs hi ho hI
      have hy : y ∈ xs := by
        rw [← hxs]
        exact List.mem_append_right _ List.mem_cons_self
      refine (hstep done y s w' hy hi ho hI).bind fun s' w'' hi'' ho'' hI'' => ?_
      exact ih (done ++ [y]) s' w'' (by rw [← hxs, List.append_assoc]; rfl) hi''
        (D.order.trans ho ho'') hI''
  exact hmain xs [] s w rfl hinv (D.order.refl w) hinit

/-- The same in any order: what is done at the end is the whole list in some order. -/
lemma foldAny {s : σ} (hinit : Stably D (I [] s) w) :
    Affords D total (Budgeted.foldAny f s xs) (xs.map c).sum
      (fun s' w' => ∃ ys, xs.Perm ys ∧ I ys s' w') w := by
  have hpick : Affords D total (Budgeted.lift (Prog.shuffle xs) : Budgeted Op Res ε (List ι)) 0
      (fun ys w' => xs.Perm ys ∧ I [] s w') w := by
    intro b
    have hsafe : Safe D.service D.rely D.guar (Prog.shuffle xs) (fun ys w' => xs.Perm ys ∧ I [] s w') w :=
      .of_picks ((Prog.picks_shuffle xs).mono fun ys hys w' hw' hi' => ⟨hys, hinit w' hw' hi'⟩)
    refine Safe.map (hsafe.mono fun ys w' _ hys => ⟨fun ys' heq => ?_, fun _ _ => ⟨⟨ys, rfl⟩, Nat.le_refl b⟩⟩)
    exact Except.ok.inj heq ▸ hys
  refine hpick.andThen fun ys w' hi' ho' hpicked => ?_
  obtain ⟨hys, hI⟩ := hpicked
  rw [(hys.map c).sum_eq]
  refine (foldM hstable ys (fun done x s w'' hx hi'' ho'' => ?_) hI hi').mono (fun _ => Nat.le_refl _)
    fun s' w'' _ _ hI' => ⟨ys, hys, hI'⟩
  exact hstep done x s w'' (hys.mem_iff.mpr hx) hi'' (D.order.trans ho' ho'')

end Fold

/-- Loop rule: `c` bounds what is still to be paid, and every round pays something. -/
lemma loop {e : ε} {body : σ → Budgeted Op Res ε (σ ⊕ α)} {I : σ → W → Prop} {c : σ → Nat}
    (hbody : ∀ s w', D.service.inv w' → D.order.rel w w' → I s w' → ∃ price, (total → 0 < price ∧ price ≤ c s) ∧
      Affords D total (body s) price (fun next w'' => Sum.elim
        (fun s' => I s' w'' ∧ (total → c s' + price ≤ c s)) (fun a => Stably D (Q a) w'') next) w')
    {s : σ} (hinit : I s w) (hinv : D.service.inv w) :
    Affords D total (Budgeted.loop e body s) (c s) Q w := by
  -- a round pays, so what is left to pay bounds the rounds that are left
  have hmain : ∀ fuel s w' b, D.service.inv w' → D.order.rel w w' → I s w' →
      Ends D (Budgeted.iterate e body fuel s) b (fun r left w'' => (∀ a, r = .ok a → Q a w'') ∧
        (total → c s ≤ b → c s < fuel → (∃ a, r = .ok a) ∧ b ≤ left + c s)) w' := by
    intro fuel
    induction fuel with
    | zero =>
      intro s w' b _ _ _
      exact Ends.fail fun _ _ _ =>
        ⟨nofun, fun _ _ hlt => absurd hlt (Nat.not_lt_zero _)⟩
    | succ fuel ih =>
      intro s w' b hi ho hI
      obtain ⟨price, hprice, hround⟩ := hbody s w' hi ho hI
      have habove : Ends D (body s) b (fun r left w'' => D.order.rel w' w'' ∧
          (∀ next, r = .ok next → Sum.elim (fun s' => I s' w'' ∧ (total → c s' + price ≤ c s))
            (fun a => Stably D (Q a) w'') next) ∧
          (total → price ≤ b → (∃ next, r = .ok next) ∧ b ≤ left + price)) w' :=
        (hround b).mono fun _ _ _ _ ho hq => ⟨ho, hq⟩
      refine habove.bind (fun next left w1 hi1 hM => ?_)
        fun e' left w1 _ hM => ⟨nofun, fun ht hb _ => ?_⟩
      · obtain ⟨ho1, hM1, hM2⟩ := hM
        cases next with
        | inl s' =>
          obtain ⟨hI', hcost⟩ := hM1 _ rfl
          refine (ih s' w1 left hi1 (D.order.trans ho ho1) hI').mono fun r left' w2 _ _ hq =>
            ⟨hq.1, fun ht hb hfuel => ?_⟩
          have hpaid := hprice ht
          have hnext := hcost ht
          obtain ⟨-, hleft⟩ := hM2 ht (by omega)
          obtain ⟨hok, hleft'⟩ := hq.2 ht (by omega) (by omega)
          exact ⟨hok, by omega⟩
        | inr a =>
          refine Ends.pure fun w2 hw2 hi2 => ⟨fun a' ha' => ?_, fun ht hb _ => ⟨⟨a, rfl⟩, ?_⟩⟩
          · cases ha'
            exact hM1 _ rfl w2 hw2 hi2
          · have hpaid := hprice ht
            have hleft := (hM2 ht (by omega)).2
            omega
      · have hpaid := hprice ht
        obtain ⟨⟨a, ha⟩, -⟩ := hM.2.2 ht (by omega)
        cases ha
  intro b
  have hends : Ends D (Budgeted.iterate e body (b + 1) s) b (fun r left w' =>
      (∀ a, r = .ok a → Q a w') ∧ (total → c s ≤ b → (∃ a, r = .ok a) ∧ b ≤ left + c s)) w :=
    (hmain (b + 1) s w b hinv (D.order.refl w) hinit).mono fun r left w' _ _ hq =>
      ⟨hq.1, fun ht hb => hq.2 ht hb (Nat.lt_succ_of_le hb)⟩
  exact hends

end Affords

end Concurrent
end StowQ
