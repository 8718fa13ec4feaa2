import Mathlib.Data.List.Chain
import Mathlib.Order.Interval.Set.Defs

/-!
# Successive leases on one resource

A resource is held for one term after another.  A new term either continues the one before it (same holder, same
length, no earlier start) or takes the resource over after that one has run out.  Continuations may start late, after
the previous term has run out, and may overlap the term they continue.

`Succeeds` relates neighbours in a chain of terms.  What it implies of any two terms of the chain is the transitive
relation `Yields`, and `pairwise_yields` passes from the one to the other.  Terms that are in force at one instant
then have one holder (`Yields.holder_eq`), and a takeover starts after everything before it has run out
(`Yields.of_takeover`).  Time is a natural number and holders are arbitrary; the claim chains of a queue are an
instance.
-/

namespace StowQ
namespace Data

/-- One term of a lease, in natural-number time. -/
structure Term (T : Type) where
  holder : T
  start : ℕ
  length : ℕ
  takeover : Bool

namespace Term

variable {T : Type}

/-- The instants at which a term is in force. -/
def interval (t : Term T) : Set ℕ :=
  Set.Ico t.start (t.start + t.length)

/-- How a term follows the one before it. -/
def Succeeds (p t : Term T) : Prop :=
  if t.takeover then p.start + p.length ≤ t.start
  else t.holder = p.holder ∧ t.length = p.length ∧ p.start ≤ t.start

/-- Either `t` continues `p`, perhaps through several terms, or it starts after `p` has
run out.  This is what `Succeeds` implies of any two terms in order. -/
def Yields (p t : Term T) : Prop :=
  (t.takeover = false ∧ t.holder = p.holder ∧ t.length = p.length ∧ p.start ≤ t.start) ∨
    p.start + p.length ≤ t.start

lemma Succeeds.yields {p t : Term T} (h : p.Succeeds t) : p.Yields t := by
  unfold Succeeds at h
  split at h
  · exact .inr h
  · next hto => exact .inl ⟨by simpa using hto, h⟩

lemma Yields.start_le {p t : Term T} (h : p.Yields t) : p.start ≤ t.start := by
  rcases h with ⟨-, -, -, hle⟩ | hle
  · exact hle
  · omega

lemma Yields.trans {a b c : Term T} (hab : a.Yields b) (hbc : b.Yields c) : a.Yields c := by
  have hstart := hab.start_le
  have hstart' := hbc.start_le
  rcases hab with ⟨-, hholder, hlength, -⟩ | hend
  · rcases hbc with ⟨hto, hholder', hlength', -⟩ | hend
    · exact .inl ⟨hto, hholder'.trans hholder, hlength'.trans hlength, by omega⟩
    · exact .inr (by omega)
  · exact .inr (by omega)

instance : IsTrans (Term T) Yields := ⟨fun _ _ _ => Yields.trans⟩

/-- Along a chain of terms every later term yields to every earlier one. -/
lemma pairwise_yields {terms : List (Term T)} (h : terms.IsChain Succeeds) : terms.Pairwise Yields :=
  List.isChain_iff_pairwise.mp (h.imp fun _ _ => Succeeds.yields)

/-- A takeover starts after every earlier term has run out. -/
lemma Yields.of_takeover {p t : Term T} (h : p.Yields t) (hto : t.takeover = true) :
    p.start + p.length ≤ t.start := by
  rcases h with ⟨hcont, -⟩ | hend
  · simp [hto] at hcont
  · exact hend

/-- **Terms in force at one instant have one holder.** -/
theorem Yields.holder_eq {p t : Term T} (h : p.Yields t) {now : ℕ} (hp : now ∈ p.interval)
    (ht : now ∈ t.interval) : t.holder = p.holder := by
  rcases h with ⟨-, hholder, -⟩ | hend
  · exact hholder
  · have hp' : now < p.start + p.length := hp.2
    have ht' : t.start ≤ now := ht.1
    omega

end Term

end Data
end StowQ
