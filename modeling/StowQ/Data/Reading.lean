import Mathlib.Data.List.Basic

/-!
# Readers of a sequence

A reader takes a prefix off its input or fails.  Two specifications of a reader:

* `Reads p b a`: `p` consumes exactly `b`, whatever follows, and returns `a`;
* `Fails p b`: `p` fails on every input that starts with `b`.

Both compose along concatenation, and `many` repeats a reader a given number of
times.  In the other direction, `bind_eq_ok` takes an accepted input apart.
`Parses p write ok` is both directions at once: `p` accepts what `write` writes and
nothing else.
-/

namespace StowQ
namespace Data

/-- Readers consume a prefix of their input or fail. -/
abbrev Reader (τ ε α : Type) := StateT (List τ) (Except ε) α

section Readers

variable {τ ε α β : Type} {p : Reader τ ε α} {a : α} {b data rest c : List τ} {f : α → Reader τ ε β} {x : β}

/-- `p` consumes exactly `b` and returns `a`. -/
def Reads (p : Reader τ ε α) (b : List τ) (a : α) : Prop :=
  ∀ rest, p (b ++ rest) = .ok (a, rest)

/-- `p` fails on whatever starts with `b`. -/
def Fails (p : Reader τ ε α) (b : List τ) : Prop :=
  ∀ rest, ∃ e, p (b ++ rest) = .error e

/-- `p` accepts exactly what `write` writes of the values in `ok`. -/
def Parses (p : Reader τ ε α) (write : α → List τ) (ok : α → Prop) : Prop :=
  ∀ data a rest, p data = .ok (a, rest) ↔ data = write a ++ rest ∧ ok a

lemma Parses.reads {write : α → List τ} {ok : α → Prop} (h : Parses p write ok) (ha : ok a) :
    Reads p (write a) a := fun rest => (h _ a rest).mpr ⟨rfl, ha⟩

/-! ## Accepted inputs -/

lemma bind_eq_ok : (p >>= f) data = .ok (x, rest) ↔ ∃ a mid, p data = .ok (a, mid) ∧ f a mid = .ok (x, rest) := by
  show (p data >>= fun r => f r.1 r.2) = .ok (x, rest) ↔ _
  cases hp : p data with
  | error e =>
    refine ⟨nofun, ?_⟩
    rintro ⟨a, mid, h, -⟩
    cases h
  | ok r =>
    obtain ⟨a, mid⟩ := r
    refine ⟨fun h => ⟨a, mid, rfl, h⟩, ?_⟩
    rintro ⟨a', mid', h, hf⟩
    cases h
    exact hf

lemma pure_eq_ok {x : α} : (Pure.pure a : Reader τ ε α) data = .ok (x, rest) ↔ x = a ∧ data = rest := by
  constructor
  · intro h
    cases h
    exact ⟨rfl, rfl⟩
  · rintro ⟨rfl, rfl⟩
    rfl

lemma throw_eq_ok {e : ε} {x : α} : ¬ (throw e : Reader τ ε α) data = .ok (x, rest) := by
  intro h
  cases h

lemma map_eq_ok {f : α → β} :
    (do Pure.pure (f (← p)) : Reader τ ε β) data = .ok (x, rest) ↔ ∃ a, p data = .ok (a, rest) ∧ x = f a := by
  simp only [bind_eq_ok, pure_eq_ok]
  exact ⟨fun ⟨a, _, hp, hx, hrest⟩ => ⟨a, hrest ▸ hp, hx⟩, fun ⟨a, hp, hx⟩ => ⟨a, rest, hp, hx, rfl⟩⟩

lemma check_eq_ok {c : Prop} [Decidable c] {e : ε} {x : α} :
    (if c then throw e else p) data = .ok (x, rest) ↔ ¬c ∧ p data = .ok (x, rest) := by
  split_ifs with h
  · exact ⟨fun hx => absurd hx throw_eq_ok, fun hx => absurd h hx.1⟩
  · exact (and_iff_right h).symm

lemma lift_eq_ok {r : Except ε α} {x : α} :
    (liftM r : Reader τ ε α) data = .ok (x, rest) ↔ r = .ok x ∧ data = rest := by
  cases r with
  | error e =>
    refine ⟨nofun, ?_⟩
    rintro ⟨h, -⟩
    cases h
  | ok a =>
    constructor
    · intro h
      cases h
      exact ⟨rfl, rfl⟩
    · rintro ⟨h, rfl⟩
      cases h
      rfl

/-! ## Composition -/

namespace Reads

lemma pure (a : α) : Reads (Pure.pure a : Reader τ ε α) [] a := fun _ => rfl

lemma bind (hp : Reads p b a) (hf : Reads (f a) c x) : Reads (p >>= f) (b ++ c) x := by
  intro rest
  have hfirst : p (b ++ (c ++ rest)) = .ok (a, c ++ rest) := hp (c ++ rest)
  rw [List.append_assoc]
  simp only [Bind.bind, StateT.bind, hfirst, Except.bind]
  exact hf rest

lemma checked (hp : Reads p b a) (hf : Reads (f a) [] x) : Reads (p >>= f) b x := by
  have h := hp.bind hf
  rwa [List.append_nil] at h

/-- A reader followed by a value computed from what it read. -/
lemma map {f : α → β} (hp : Reads p b a) : Reads (do Pure.pure (f (← p))) b (f a) := hp.checked (Reads.pure (f a))

lemma of_eq (h : Reads p b a) (hbc : b = c) : Reads p c a := hbc ▸ h

lemma fails (hp : Reads p b a) (hf : Fails (f a) c) : Fails (p >>= f) (b ++ c) := by
  intro rest
  obtain ⟨e, he⟩ := hf rest
  refine ⟨e, ?_⟩
  have hfirst : p (b ++ (c ++ rest)) = .ok (a, c ++ rest) := hp (c ++ rest)
  rw [List.append_assoc]
  simp only [Bind.bind, StateT.bind, hfirst, Except.bind]
  exact he

end Reads

namespace Fails

lemma throw (e : ε) (b : List τ) : Fails (MonadExcept.throw e : Reader τ ε α) b := fun _ => ⟨e, rfl⟩

lemma bind (hp : Fails p b) (f : α → Reader τ ε β) (c : List τ) : Fails (p >>= f) (b ++ c) := by
  intro rest
  obtain ⟨e, he⟩ := hp (c ++ rest)
  refine ⟨e, ?_⟩
  rw [List.append_assoc]
  simp only [Bind.bind, StateT.bind, he, Except.bind]

lemma of_eq (h : Fails p b) (hbc : b = c) : Fails p c := hbc ▸ h

end Fails

/-! ## Repetition -/

/-- `n` items. -/
def many (p : Reader τ ε α) : Nat → Reader τ ε (List α)
  | 0 => pure []
  | n + 1 => do
    let a ← p
    let rest ← many p n
    pure (a :: rest)

variable {ι : Type} {p : Reader τ ε α} {enc : ι → List τ} {res : ι → α}

lemma Reads.many (xs : List ι) (h : ∀ x ∈ xs, Reads p (enc x) (res x)) :
    Reads (many p xs.length) (xs.flatMap enc) (xs.map res) := by
  induction xs with
  | nil => exact Reads.pure []
  | cons x xs ih =>
    rw [List.flatMap_cons]
    refine (h x List.mem_cons_self).bind ?_
    exact (ih fun y hy => h y (List.mem_cons_of_mem _ hy)).checked (Reads.pure (res x :: xs.map res))

/-- One item that cannot be read ends the repetition. -/
lemma Fails.many (xs : List ι) (h : ∀ x ∈ xs, Reads p (enc x) (res x) ∨ Fails p (enc x))
    (hfails : ∃ x ∈ xs, Fails p (enc x)) : Fails (many p xs.length) (xs.flatMap enc) := by
  induction xs with
  | nil =>
    obtain ⟨x, hx, -⟩ := hfails
    cases hx
  | cons x xs ih =>
    rw [List.flatMap_cons]
    rcases h x List.mem_cons_self with hreads | hfail
    · refine hreads.fails ?_
      have hrest := ih (fun y hy => h y (List.mem_cons_of_mem _ hy))
      by_cases hlater : ∃ y ∈ xs, Fails p (enc y)
      · exact ((hrest hlater).bind _ []).of_eq (List.append_nil _)
      · obtain ⟨y, hy, hfail⟩ := hfails
        rcases List.mem_cons.mp hy with rfl | hy
        · -- a reader cannot both succeed and fail
          obtain ⟨e, he⟩ := hfail []
          rw [hreads []] at he
          cases he
        · exact absurd ⟨y, hy, hfail⟩ hlater
    · exact hfail.bind _ _

lemma many_eq_ok {enc : α → List τ} {P : α → Prop}
    (hp : ∀ data a rest, p data = .ok (a, rest) → data = enc a ++ rest ∧ P a) {n : Nat} {data rest : List τ}
    {xs : List α} (h : many p n data = .ok (xs, rest)) :
    data = xs.flatMap enc ++ rest ∧ xs.length = n ∧ ∀ x ∈ xs, P x := by
  induction n generalizing data xs with
  | zero =>
    obtain ⟨rfl, rfl⟩ := pure_eq_ok.mp h
    exact ⟨rfl, rfl, nofun⟩
  | succ n ih =>
    obtain ⟨a, mid, ha, hrest⟩ := bind_eq_ok.mp h
    obtain ⟨as, mid', has, hpure⟩ := bind_eq_ok.mp hrest
    obtain ⟨rfl, rfl⟩ := pure_eq_ok.mp hpure
    obtain ⟨rfl, hPa⟩ := hp _ _ _ ha
    obtain ⟨rfl, rfl, hPas⟩ := ih has
    refine ⟨by simp, rfl, fun x hx => ?_⟩
    rcases List.mem_cons.mp hx with rfl | hx
    · exact hPa
    · exact hPas x hx

/-- Items that each take something are no more than what there is to take. -/
lemma length_of_many (hp : ∀ data a rest, p data = .ok (a, rest) → rest.length < data.length) {n : Nat}
    {data rest : List τ} {xs : List α} (h : many p n data = .ok (xs, rest)) : n + rest.length ≤ data.length := by
  induction n generalizing data xs with
  | zero =>
    obtain ⟨-, rfl⟩ := pure_eq_ok.mp h
    omega
  | succ n ih =>
    obtain ⟨a, mid, ha, hrest⟩ := bind_eq_ok.mp h
    obtain ⟨as, mid', has, hpure⟩ := bind_eq_ok.mp hrest
    obtain ⟨-, rfl⟩ := pure_eq_ok.mp hpure
    have hfirst := hp _ _ _ ha
    have hothers := ih has
    omega

end Readers

end Data
end StowQ
