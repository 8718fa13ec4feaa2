import StowQ.Data.Lease
import StowQ.Format.Record

/-!
# Custody chains

The abstract state of one job: the list of its committed claims, oldest first, each with
the time the store gave it.  Claim number `k + 1` is the entry at position `k`.  A chain
grows at its end only; `Chain` carries the links between neighbours, and from them follow
the attempt numbers and, with the times, the exclusivity of leases.
-/

namespace StowQ
namespace Custody

open Data Format

/-- The record of the first claim of a job. -/
def Opens (r : ClaimRecord) : Prop :=
  r.continuation = false ∧ r.attempt.toNat = 1

/-- A continuation keeps the attempt, the token and the lease; a takeover counts one
more attempt. -/
def Follows (p r : ClaimRecord) : Prop :=
  if r.continuation then
    r.attempt = p.attempt ∧ r.workerToken = p.workerToken ∧ r.leaseDurationNs = p.leaseDurationNs
  else r.attempt.toNat = p.attempt.toNat + 1

/-- A committed claim and its store time. -/
structure Entry where
  record : ClaimRecord
  timeNs : UInt64
  deriving DecidableEq

namespace Entry

/-- Claims that are not continuations. -/
def takeover (e : Entry) : Bool := !e.record.continuation

/-- A continuation is not earlier than what it continues; a takeover waits for the lease
to run out. -/
def Timely (p e : Entry) : Prop :=
  if e.record.continuation then p.timeNs ≤ e.timeNs
  else satAdd p.timeNs p.record.leaseDurationNs ≤ e.timeNs

/-- The evidence a claim gives for the claim before it: a continuation names its token, a
takeover the store time and the lease that had run out at the floor it observed. -/
def Supports (p : Entry) (r : ClaimRecord) : Prop :=
  if r.continuation then r.prevToken = some p.record.workerToken
  else ∃ basis, r.basis = some basis ∧ basis.prevStoreTimeNs = p.timeNs ∧
    basis.prevDurationNs = p.record.leaseDurationNs ∧
    satAdd p.timeNs p.record.leaseDurationNs ≤ basis.observedWatermarkNs

/-- The lease term of a claim. -/
def term (e : Entry) : Term (ByteArr 16) where
  holder := e.record.workerToken
  start := e.timeNs.toNat
  length := e.record.leaseDurationNs.toNat
  takeover := e.takeover

/-- The end of the lease is a representable time. -/
def InRange (e : Entry) : Prop :=
  e.timeNs.toNat + e.record.leaseDurationNs.toNat < 2 ^ 64

lemma succeeds_of_links {p e : Entry} (hf : Follows p.record e.record) (ht : p.Timely e) (hp : p.InRange) :
    p.term.Succeeds e.term := by
  unfold Follows at hf
  unfold Timely at ht
  unfold Term.Succeeds
  by_cases hc : e.record.continuation = true
  · rw [if_pos hc] at hf ht
    have hto : e.term.takeover = false := by simp [term, takeover, hc]
    rw [hto]
    exact ⟨hf.2.1, congrArg UInt64.toNat hf.2.2, UInt64.le_iff_toNat_le.mp ht⟩
  · rw [if_neg hc] at hf ht
    have hto : e.term.takeover = true := by simp [term, takeover, hc]
    rw [hto, if_pos rfl]
    have hle := UInt64.le_iff_toNat_le.mp ht
    rw [toNat_satAdd] at hle
    unfold InRange at hp
    simp only [term]
    omega

end Entry

/-- The claims of a job, oldest first. -/
structure Chain where
  entries : List Entry
  generation : ∀ k e, entries[k]? = some e → e.record.generation.toNat = k + 1
  first : ∀ e ∈ entries.head?, Opens e.record
  linked : entries.IsChain fun p e => Follows p.record e.record

namespace Chain

/-- The job without claims. -/
def empty : Chain where
  entries := []
  generation := by simp
  first := by simp
  linked := List.isChain_nil

/-- What a claim must be to extend a chain. -/
structure Admits (c : Chain) (e : Entry) : Prop where
  generation : e.record.generation.toNat = c.entries.length + 1
  first : c.entries = [] → Opens e.record
  linked : ∀ p ∈ c.entries.getLast?, Follows p.record e.record

/-- One more claim. -/
def append (c : Chain) (e : Entry) (h : c.Admits e) : Chain where
  entries := c.entries ++ [e]
  generation := by
    intro k x hx
    rcases Nat.lt_or_ge k c.entries.length with hk | hk
    · rw [List.getElem?_append_left hk] at hx
      exact c.generation k x hx
    · rw [List.getElem?_append_right hk, List.getElem?_singleton] at hx
      split at hx
      · next hzero =>
          cases hx
          rw [h.generation]
          omega
      · cases hx
  first := by
    intro x hx
    cases hc : c.entries with
    | nil =>
      rw [hc] at hx
      obtain rfl : x = e := by simpa using hx.symm
      exact h.first hc
    | cons y ys =>
      rw [hc] at hx
      exact c.first x (by rw [hc]; simpa using hx)
  linked := by
    refine List.isChain_append.mpr ⟨c.linked, List.isChain_singleton e, fun p hp x hx => ?_⟩
    obtain rfl : x = e := by simpa using hx.symm
    exact h.linked p hp

/-! ## Attempts -/

lemma follows_getElem (c : Chain) {k : Nat} {p e : Entry} (hp : c.entries[k]? = some p)
    (he : c.entries[k + 1]? = some e) : Follows p.record e.record := by
  obtain ⟨hk, rfl⟩ := List.getElem?_eq_some_iff.mp he
  obtain ⟨hk', rfl⟩ := List.getElem?_eq_some_iff.mp hp
  exact List.isChain_iff_getElem.mp c.linked k hk

/-- **The attempt of a claim counts the takeovers up to it.** -/
theorem attempt_eq (c : Chain) (k : Nat) {e : Entry} (h : c.entries[k]? = some e) :
    e.record.attempt.toNat = (c.entries.take (k + 1)).countP Entry.takeover := by
  induction k generalizing e with
  | zero =>
    have hopen := c.first e (by rw [List.head?_eq_getElem?]; exact h)
    cases hc : c.entries with
    | nil => simp [hc] at h
    | cons y ys =>
      obtain rfl : y = e := by simpa [hc] using h
      simp [Entry.takeover, hopen.1, hopen.2]
  | succ k ih =>
    obtain ⟨hk, -⟩ := List.getElem?_eq_some_iff.mp h
    obtain ⟨p, hp⟩ : ∃ p, c.entries[k]? = some p := ⟨_, List.getElem?_eq_getElem (Nat.lt_of_succ_lt hk)⟩
    have hlink := c.follows_getElem hp h
    have hcount := ih hp
    rw [List.take_add_one, h, Option.toList_some, List.countP_append, ← hcount]
    unfold Follows at hlink
    by_cases hc : e.record.continuation = true
    · rw [if_pos hc] at hlink
      simp [Entry.takeover, hc, hlink.1]
    · rw [if_neg hc] at hlink
      simp [Entry.takeover, hc, hlink]

lemma attempt_le_generation (c : Chain) {k : Nat} {e : Entry} (h : c.entries[k]? = some e) :
    e.record.attempt.toNat ≤ k + 1 := by
  rw [c.attempt_eq k h]
  exact List.countP_le_length.trans (List.length_take_le _ _)

/-! ## Leases -/

/-- The store times of the chain are in order. -/
def Timed (c : Chain) : Prop := c.entries.IsChain Entry.Timely

lemma timed_append {c : Chain} {e : Entry} (h : c.Admits e) (hc : c.Timed)
    (he : ∀ p ∈ c.entries.getLast?, p.Timely e) : (c.append e h).Timed := by
  refine List.isChain_append.mpr ⟨hc, List.isChain_singleton e, fun p hp x hx => ?_⟩
  obtain rfl : x = e := by simpa using hx.symm
  exact he p hp

/-- The lease terms of a timed chain form a chain of terms. -/
lemma terms_isChain (c : Chain) (ht : c.Timed) (hr : ∀ e ∈ c.entries, e.InRange) :
    (c.entries.map Entry.term).IsChain Term.Succeeds := by
  rw [List.isChain_map]
  refine List.isChain_iff_getElem.mpr fun k hk => ?_
  exact Entry.succeeds_of_links (List.isChain_iff_getElem.mp c.linked k hk)
    (List.isChain_iff_getElem.mp ht k hk) (hr _ (List.getElem_mem _))

/-- Every later term of a timed chain yields to every earlier one. -/
lemma yields_of_lt (c : Chain) (ht : c.Timed) (hr : ∀ e ∈ c.entries, e.InRange) {g h : Nat}
    {p e : Entry} (hlt : g < h) (hp : c.entries[g]? = some p) (he : c.entries[h]? = some e) :
    p.term.Yields e.term := by
  have hpair := List.pairwise_iff_getElem.mp (Term.pairwise_yields (c.terms_isChain ht hr))
  obtain ⟨hg, rfl⟩ := List.getElem?_eq_some_iff.mp hp
  obtain ⟨hh, rfl⟩ := List.getElem?_eq_some_iff.mp he
  have hyields := hpair g h (by rwa [List.length_map]) (by rwa [List.length_map]) hlt
  rwa [List.getElem_map, List.getElem_map] at hyields

end Chain

end Custody
end StowQ
