import Mathlib.Data.List.Induction
import StowQ.Core.Space
import StowQ.Core.Sweep
import StowQ.Quiescent.Basic
import StowQ.Scenario.Basic

/-!
# Discovering the tail of a chain

The tail of a chain is the canonical claim key of the highest generation.  `listTail` and `claimTail` take the
last key below the job's claims whose last segment is eight hexadecimal digits of either case, so a foreign key
that is no canonical claim key can be taken for the tail.  In a store at rest the functions are evaluated
outright (`runs_listTail`), and `tail_discovery_iff` says for exactly which stores the selected key is the tail.
The store is left alone here; under concurrent appends the chain invariant of `Custody` applies.
-/

namespace StowQ
namespace Quiescent

open Data Concurrent Store Format StowQ.Core
open Budgeted (Runs)

section Discovery

variable [Sha256] (q : Queue) (objs : Objects) (shard : UInt16) (jobId : ByteArr 16)

/-- The claim of generation `n` is present. -/
def Claimed (n : UInt32) : Prop := objs.get? (q.absolute (.claim shard jobId n)) ≠ none

/-- What tail discovery is to select: generation and metadata of the canonical claim key of the highest
generation, or nothing. -/
def IsTail : Option (UInt64 × Meta) → Prop
  | none => ∀ n, ¬ Claimed q objs shard jobId n
  | some (g, info) => ∃ n stored, objs.get? (q.absolute (.claim shard jobId n)) = some stored ∧
      g = n.toUInt64 ∧ info = stored.info ∧ ∀ n', Claimed q objs shard jobId n' → n' ≤ n

/-- A key below the job's claims that reads as a generation. -/
def Accepted (key : Str) : Prop :=
  objs.get? key ≠ none ∧ q.claimsPrefix shard jobId <+: key ∧ parseGeneration key ≠ none

/-- Such a key that is no claim key of the job: its digits are in upper case, or it lies deeper. -/
def Foreign (key : Str) : Prop :=
  Accepted q objs shard jobId key ∧ ∀ n, key ≠ q.absolute (.claim shard jobId n)

/-- A foreign key stands above the chain, and above every other key that reads as a generation, only if `P` holds of
its generation and metadata. -/
def ForeignAbove (P : UInt64 × Meta → Prop) : Prop :=
  ∀ key stored g, Foreign q objs shard jobId key → objs.get? key = some stored → parseGeneration key = some g →
    (∀ key', Accepted q objs shard jobId key' → key' ≤ key) → P (g, stored.info)

/-- The record of the tail decodes. -/
def TailDecodes : Prop :=
  ∀ n stored, objs.get? (q.absolute (.claim shard jobId n)) = some stored →
    (∀ n', Claimed q objs shard jobId n' → n' ≤ n) →
    ∃ record, q.decodeAt (.claim shard jobId n) stored.body = .ok record

variable {q objs shard jobId} {stamp : Stamp}

/-! ## The last key of a listing -/

omit [Sha256] in
lemma lastClaim_eq_none {items : List Listing} (h : lastClaim items = none) :
    ∀ x ∈ items, parseGeneration x.key = none := by
  induction items using List.reverseRecOn with
  | nil => exact nofun
  | append_singleton items y ih =>
    rw [lastClaim, List.foldl_append] at h
    cases hy : parseGeneration y.key with
    | some g => simp [hy] at h
    | none =>
      simp only [List.foldl_cons, List.foldl_nil, hy] at h
      intro x hx
      obtain hx | hx := List.mem_append.mp hx
      · exact ih h x hx
      · rw [List.mem_singleton.mp hx, hy]

omit [Sha256] in
lemma lastClaim_eq_some {items : List Listing} {p : UInt64 × Meta} (h : lastClaim items = some p)
    (hasc : items.Pairwise fun a b => a.key < b.key) : ∃ x ∈ items, parseGeneration x.key = some p.1 ∧
      x.info = p.2 ∧ ∀ y ∈ items, parseGeneration y.key ≠ none → y.key ≤ x.key := by
  induction items using List.reverseRecOn with
  | nil => cases h
  | append_singleton items y ih =>
    rw [lastClaim, List.foldl_append] at h
    rw [List.pairwise_append] at hasc
    cases hy : parseGeneration y.key with
    | some g =>
      simp only [List.foldl_cons, List.foldl_nil, hy, Option.some.injEq] at h
      subst h
      refine ⟨y, List.mem_append_right _ List.mem_cons_self, hy, rfl, fun x hx _ => ?_⟩
      obtain hx | hx := List.mem_append.mp hx
      · exact le_of_lt (hasc.2.2 x hx y List.mem_cons_self)
      · rw [List.mem_singleton.mp hx]
    | none =>
      simp only [List.foldl_cons, List.foldl_nil, hy] at h
      obtain ⟨x, hx, hg, hinfo, hlast⟩ := ih h hasc.1
      refine ⟨x, List.mem_append_left _ hx, hg, hinfo, fun z hz hz' => ?_⟩
      obtain hz | hz := List.mem_append.mp hz
      · exact hlast z hz hz'
      · rw [List.mem_singleton.mp hz, hy] at hz'
        exact absurd rfl hz'

/-- The last accepted key of the listing. -/
def lastListed (q : Queue) (objs : Objects) (shard : UInt16) (jobId : ByteArr 16) : Option (UInt64 × Meta) :=
  lastClaim (remaining objs (q.claimsPrefix shard jobId) none)

omit [Sha256] in
lemma accepted_of_mem {x : Listing} (hx : x ∈ remaining objs (q.claimsPrefix shard jobId) none)
    (hg : parseGeneration x.key ≠ none) : Accepted q objs shard jobId x.key := by
  obtain ⟨stored, hget, -, hsel⟩ := mem_remaining.mp hx
  exact ⟨by rw [hget]; exact Option.some_ne_none _, selects_pre hsel, hg⟩

omit [Sha256] in
lemma mem_of_accepted {key : Str} (h : Accepted q objs shard jobId key) :
    ∃ x ∈ remaining objs (q.claimsPrefix shard jobId) none, x.key = key := by
  obtain ⟨stored, hget⟩ := Option.ne_none_iff_exists'.mp h.1
  refine ⟨⟨key, stored.info⟩, mem_remaining.mpr ⟨stored, hget, rfl, ?_⟩, rfl⟩
  rw [selects, Bool.and_true]
  exact List.isPrefixOf_iff_prefix.mpr h.2.1

omit [Sha256] in
lemma lastListed_none (h : lastListed q objs shard jobId = none) (key : Str) : ¬ Accepted q objs shard jobId key := by
  intro haccepted
  obtain ⟨x, hx, rfl⟩ := mem_of_accepted haccepted
  exact haccepted.2.2 (lastClaim_eq_none h x hx)

omit [Sha256] in
lemma lastListed_some {p : UInt64 × Meta} (h : lastListed q objs shard jobId = some p) :
    ∃ key stored, objs.get? key = some stored ∧ parseGeneration key = some p.1 ∧ stored.info = p.2 ∧
      Accepted q objs shard jobId key ∧ ∀ key', Accepted q objs shard jobId key' → key' ≤ key := by
  obtain ⟨x, hx, hg, hinfo, hlast⟩ := lastClaim_eq_some h (remaining_ascending _ _ _)
  obtain ⟨stored, hget, hinfo', -⟩ := mem_remaining.mp hx
  refine ⟨x.key, stored, hget, hg, by rw [← hinfo', hinfo], accepted_of_mem hx (by simp [hg]), fun key' hkey' => ?_⟩
  obtain ⟨y, hy, rfl⟩ := mem_of_accepted hkey'
  exact hlast y hy hkey'.2.2

omit [Sha256] in
lemma lastListed_eq {key : Str} {stored : Stored} {g : UInt64} (hget : objs.get? key = some stored)
    (hg : parseGeneration key = some g) (haccepted : Accepted q objs shard jobId key)
    (hlast : ∀ key', Accepted q objs shard jobId key' → key' ≤ key) :
    lastListed q objs shard jobId = some (g, stored.info) := by
  cases hlisted : lastListed q objs shard jobId with
  | none => exact absurd haccepted (lastListed_none hlisted key)
  | some p =>
    obtain ⟨key', stored', hget', hg', hinfo', haccepted', hlast'⟩ := lastListed_some hlisted
    obtain rfl : key = key' := le_antisymm (hlast' key haccepted) (hlast key' haccepted')
    rw [hget] at hget'
    rw [hg] at hg'
    cases hget'
    rw [hinfo', Option.some.inj hg']

/-! ## Canonical keys -/

omit [Sha256] in
lemma accepted_claim {n : UInt32} (h : Claimed q objs shard jobId n) :
    Accepted q objs shard jobId (q.absolute (.claim shard jobId n)) := by
  refine ⟨h, q.site.claimsDir_prefix shard jobId n, ?_⟩
  rw [parseGeneration_claim]
  exact Option.some_ne_none _

omit [Sha256] in
lemma isTail_of_canonical {n : UInt32} {stored : Stored}
    (hget : objs.get? (q.absolute (.claim shard jobId n)) = some stored)
    (hlast : ∀ key', Accepted q objs shard jobId key' → key' ≤ q.absolute (.claim shard jobId n)) :
    IsTail q objs shard jobId (some (n.toUInt64, stored.info)) := by
  refine ⟨n, stored, hget, rfl, rfl, fun n' hn' => ?_⟩
  apply UInt32.not_lt.mp
  intro hlt
  exact absurd (hlast _ (accepted_claim hn')) (not_le_of_gt (q.site.claim_lt_claim hlt))

omit [Sha256] in
lemma isTail_none (h : lastListed q objs shard jobId = none) : IsTail q objs shard jobId none :=
  fun _ hn => lastListed_none h _ (accepted_claim hn)

/-! ## What is selected -/

lemma runs_listTail : Runs (quiet stamp) (q.listTail shard jobId) objs (.ok (lastListed q objs shard jobId)) objs :=
  runs_pages_pure (by decide) _ none

/-- What `claimTail` makes of the last key. -/
def foundTail (q : Queue) (objs : Objects) (shard : UInt16) (jobId : ByteArr 16) :
    Except Error (UInt64 × Meta × UInt64) :=
  match lastListed q objs shard jobId with
  | none => .ok (0, emptyMeta, 0)
  | some (g, info) =>
    match objs.get? (q.absolute (.claim shard jobId g.toUInt32)) with
    | none => .ok (g, info, 0)
    | some stored =>
      match q.decodeAt (.claim shard jobId g.toUInt32) stored.body with
      | .ok (.claim c) => .ok (g, info, c.leaseDurationNs)
      | .ok _ => .ok (g, info, 0)
      | .error e => .error (.record (recordErrorText e))

lemma runs_claimTail : Runs (quiet stamp) (q.claimTail shard jobId) objs (foundTail q objs shard jobId) objs := by
  apply runs_listTail.bind
  unfold foundTail
  cases lastListed q objs shard jobId with
  | none => exact Runs.pure _
  | some p =>
    obtain ⟨g, info⟩ := p
    apply runs_spend
    apply runs_get
    unfold Store.get
    dsimp only
    cases objs.get? (q.absolute (.claim shard jobId g.toUInt32)) with
    | none => exact Runs.pure _
    | some stored =>
      dsimp only
      cases q.decodeAt (.claim shard jobId g.toUInt32) stored.body with
      | error e => exact (Runs.fail _).bind_error
      | ok record =>
        apply (Runs.pure record).bind
        cases record <;> exact Runs.pure _

/-- The tail of a chain is the metadata of one object. -/
lemma foundTail_of_isTail {g : UInt64} {info : Meta} (hlisted : lastListed q objs shard jobId = some (g, info))
    (htail : IsTail q objs shard jobId (some (g, info))) (hdecodes : TailDecodes q objs shard jobId) :
    ∃ d, foundTail q objs shard jobId = .ok (g, info, d) := by
  obtain ⟨n, stored, hget, rfl, rfl, hhighest⟩ := htail
  obtain ⟨record, hrecord⟩ := hdecodes n stored hget hhighest
  unfold foundTail
  simp only [hlisted, UInt32.toUInt32_toUInt64, hget, hrecord]
  cases record <;> exact ⟨_, rfl⟩

/-- `foundTail` reports the last key, if it reports anything. -/
lemma foundTail_eq_ok {g d : UInt64} {info : Meta} (h : foundTail q objs shard jobId = .ok (g, info, d)) :
    (lastListed q objs shard jobId).getD (0, emptyMeta) = (g, info) := by
  unfold foundTail at h
  cases hlisted : lastListed q objs shard jobId with
  | none =>
    rw [hlisted] at h
    cases h
    rfl
  | some p =>
    rw [hlisted] at h
    dsimp only at h
    split at h
    · cases h
      rfl
    · split at h <;> cases h <;> rfl

omit [Sha256] in
lemma IsTail.unique {r r' : Option (UInt64 × Meta)} (h : IsTail q objs shard jobId r)
    (h' : IsTail q objs shard jobId r') : r = r' := by
  have hclaimed : ∀ {n stored}, objs.get? (q.absolute (.claim shard jobId n)) = some stored →
      Claimed q objs shard jobId n := fun hget => by rw [Claimed, hget]; exact Option.some_ne_none _
  cases r with
  | none =>
    cases r' with
    | none => rfl
    | some p =>
      obtain ⟨n, stored, hget, -⟩ := h'
      exact absurd (hclaimed hget) (h n)
  | some p =>
    obtain ⟨n, stored, hget, hg, hinfo, hhighest⟩ := h
    cases r' with
    | none => exact absurd (hclaimed hget) (h' n)
    | some p' =>
      obtain ⟨n', stored', hget', hg', hinfo', hhighest'⟩ := h'
      obtain rfl : n = n' := UInt32.le_antisymm (hhighest' n (hclaimed hget)) (hhighest n' (hclaimed hget'))
      rw [hget] at hget'
      cases hget'
      exact congrArg some (Prod.ext (hg.trans hg'.symm) (hinfo.trans hinfo'.symm))

omit [Sha256] in
/-- The last key decides what is selected, and a claim key that is last is the tail. -/
lemma foreignAbove_iff {P : UInt64 × Meta → Prop} (hP : ∀ p, IsTail q objs shard jobId (some p) → P p) :
    ForeignAbove q objs shard jobId P ↔ ∀ p, lastListed q objs shard jobId = some p → P p := by
  constructor
  · intro h p hlisted
    obtain ⟨key, stored, hget, hg, hinfo, haccepted, hlast⟩ := lastListed_some hlisted
    by_cases hforeign : ∀ n, key ≠ q.absolute (.claim shard jobId n)
    · have hp := h key stored p.1 ⟨haccepted, hforeign⟩ hget hg hlast
      rwa [hinfo] at hp
    · simp only [not_forall, not_not] at hforeign
      obtain ⟨n, rfl⟩ := hforeign
      have htail := isTail_of_canonical hget hlast
      rw [parseGeneration_claim] at hg
      rw [Option.some.inj hg, hinfo] at htail
      exact hP p htail
  · intro h key stored g hforeign hget hg hlast
    exact h _ (lastListed_eq hget hg hforeign.1 hlast)

lemma listTail_iff (stamp : Stamp) :
    (∃ r, Runs (quiet stamp) (q.listTail shard jobId) objs (.ok r) objs ∧ IsTail q objs shard jobId r) ↔
      ForeignAbove q objs shard jobId fun p => IsTail q objs shard jobId (some p) := by
  rw [foreignAbove_iff fun p hp => hp]
  constructor
  · rintro ⟨r, hruns, htail⟩ p hlisted
    obtain ⟨hr, -⟩ := hruns.unique runs_listTail
    rwa [Except.ok.inj hr, hlisted] at htail
  · intro h
    refine ⟨_, runs_listTail, ?_⟩
    cases hlisted : lastListed q objs shard jobId with
    | none => exact isTail_none hlisted
    | some p => exact h p hlisted

lemma claimTail_iff (stamp : Stamp) :
    (∃ g info d r, Runs (quiet stamp) (q.claimTail shard jobId) objs (.ok (g, info, d)) objs ∧
      IsTail q objs shard jobId r ∧ r.getD (0, emptyMeta) = (g, info) ∧ (r = none → d = 0)) ↔
      ForeignAbove q objs shard jobId (fun p => IsTail q objs shard jobId (some p) ∨
          IsTail q objs shard jobId none ∧ p = (0, emptyMeta)) ∧
        TailDecodes q objs shard jobId := by
  rw [foreignAbove_iff fun p hp => .inl hp]
  constructor
  · rintro ⟨g, info, d, r, hruns, htail, hr, -⟩
    obtain ⟨hfound, -⟩ := runs_claimTail.unique hruns
    have hlast := foundTail_eq_ok hfound
    constructor
    · intro p hlisted
      rw [hlisted] at hlast
      obtain rfl : r.getD (0, emptyMeta) = p := hr.trans hlast.symm
      cases r with
      | none => exact .inr ⟨htail, rfl⟩
      | some p => exact .inl htail
    · intro n stored hget hhighest
      -- an undecodable tail would have been an error of the function
      have htail' : IsTail q objs shard jobId (some (n.toUInt64, stored.info)) :=
        ⟨n, stored, hget, rfl, rfl, hhighest⟩
      obtain rfl := htail.unique htail'
      cases hdecode : q.decodeAt (.claim shard jobId n) stored.body with
      | ok record => exact ⟨record, rfl⟩
      | error e =>
        have hclaimed : Claimed q objs shard jobId n := by
          rw [Claimed, hget]
          exact Option.some_ne_none _
        cases hlisted : lastListed q objs shard jobId with
        | none => exact absurd hclaimed (isTail_none hlisted n)
        | some p =>
          rw [hlisted] at hlast
          obtain rfl : p = (n.toUInt64, stored.info) := hlast.trans hr.symm
          simp only [foundTail, hlisted, UInt32.toUInt32_toUInt64, hget, hdecode] at hfound
          cases hfound
  · rintro ⟨hlast, hdecodes⟩
    have hruns : Runs (quiet stamp) (q.claimTail shard jobId) objs (foundTail q objs shard jobId) objs :=
      runs_claimTail
    cases hlisted : lastListed q objs shard jobId with
    | none =>
      have hfound : foundTail q objs shard jobId = .ok (0, emptyMeta, 0) := by simp only [foundTail, hlisted]
      rw [hfound] at hruns
      exact ⟨0, emptyMeta, 0, none, hruns, isTail_none hlisted, rfl, fun _ => rfl⟩
    | some p =>
      obtain ⟨g, info⟩ := p
      rcases hlast _ hlisted with htail | ⟨hempty, hzero⟩
      · obtain ⟨d, hfound⟩ := foundTail_of_isTail hlisted htail hdecodes
        rw [hfound] at hruns
        exact ⟨g, info, d, _, hruns, htail, rfl, nofun⟩
      -- a foreign key of generation 0 over an empty chain: its claim record is not found
      · have habsent : objs.get? (q.absolute (.claim shard jobId g.toUInt32)) = none := by
          by_contra hpresent
          exact hempty _ hpresent
        have hfound : foundTail q objs shard jobId = .ok (g, info, 0) := by
          simp only [foundTail, hlisted, habsent]
        rw [hfound] at hruns
        exact ⟨g, info, 0, none, hruns, hempty, hzero.symm, fun _ => rfl⟩

/-- **Tail discovery and foreign keys.**  What is selected in a store at rest is the tail of the chain if and only if
a foreign key that stands above everything else passes for the tail: it has to spell the generation of the highest
claim and to carry its version, size and time.  Above an empty chain `listTail` bears no foreign key at all, and
`claimTail` one of generation zero with the metadata it reports for no claim; it also needs the record of the tail. -/
theorem tail_discovery_iff (q : Queue) (objs : Objects) (shard : UInt16) (jobId : ByteArr 16) (stamp : Stamp) :
    ((∃ r, Runs (quiet stamp) (q.listTail shard jobId) objs (.ok r) objs ∧ IsTail q objs shard jobId r) ↔
      ForeignAbove q objs shard jobId fun p => IsTail q objs shard jobId (some p)) ∧
    ((∃ g info d r, Runs (quiet stamp) (q.claimTail shard jobId) objs (.ok (g, info, d)) objs ∧
      IsTail q objs shard jobId r ∧ r.getD (0, emptyMeta) = (g, info) ∧ (r = none → d = 0)) ↔
      ForeignAbove q objs shard jobId (fun p => IsTail q objs shard jobId (some p) ∨
          IsTail q objs shard jobId none ∧ p = (0, emptyMeta)) ∧
        TailDecodes q objs shard jobId) :=
  ⟨listTail_iff stamp, claimTail_iff stamp⟩

end Discovery

/-! ## A foreign key -/

open Scenario

/-- The object of generation one, and a foreign one whose digits are in upper case. -/
def foreignStore : Objects :=
  (OrderedMap.empty.insert (claimKey 1) ⟨[], ⟨['1']⟩, 0⟩).insert
    (demo.claimsPrefix 0 jobZero ++ "0000000A".toList) ⟨[], ⟨['2']⟩, 0⟩

lemma claimed_foreignStore {n : UInt32} (h : Claimed demo foreignStore 0 jobZero n) : n = 1 := by
  have hforeign : claimKey n ≠ demo.claimsPrefix 0 jobZero ++ "0000000A".toList := by
    intro heq
    have hparse := demo.parseRel_absolute (.claim 0 jobZero n)
    rw [show demo.absolute (.claim 0 jobZero n) = _ from heq] at hparse
    have hnone : demo.parseRel (demo.claimsPrefix 0 jobZero ++ "0000000A".toList) = none := by decide +kernel
    rw [hnone] at hparse
    cases hparse
  by_contra hne
  have hkey : claimKey n ≠ claimKey 1 := fun heq => hne (by cases demo.site.absolute_injective heq; rfl)
  apply h
  change foreignStore.get? (claimKey n) = none
  rw [foreignStore, OrderedMap.get?_insert_of_ne _ _ hforeign, OrderedMap.get?_insert_of_ne _ _ hkey]
  rfl

/-- The foreign key is taken for generation ten, by the reader of the tail and by the sweeps. -/
theorem foreign_key_selected : ∃ _ : Sha256, ∀ stamp,
    Runs (quiet stamp) (demo.listTail 0 jobZero) foreignStore (.ok (some (10, ⟨⟨['2']⟩, 0, 0⟩))) foreignStore ∧
    Runs (quiet stamp) (demo.claimTail 0 jobZero) foreignStore (.ok (10, ⟨⟨['2']⟩, 0, 0⟩, 0)) foreignStore ∧
    IsTail demo foreignStore 0 jobZero (some (1, ⟨⟨['1']⟩, 0, 0⟩)) := by
  let _ := Sha256.zero
  have hlisted : lastListed demo foreignStore 0 jobZero = some (10, ⟨⟨['2']⟩, 0, 0⟩) := by decide +kernel
  have habsent : foreignStore.get? (demo.absolute (.claim 0 jobZero (10 : UInt64).toUInt32)) = none := by
    decide +kernel
  refine ⟨inferInstance, fun stamp => ⟨?_, ?_, 1, ⟨[], ⟨['1']⟩, 0⟩, by decide +kernel, rfl, rfl, ?_⟩⟩
  · exact hlisted ▸ runs_listTail
  · have hruns : Runs (quiet stamp) (demo.claimTail 0 jobZero) foreignStore
        (foundTail demo foreignStore 0 jobZero) foreignStore := runs_claimTail
    rwa [show foundTail demo foreignStore 0 jobZero = .ok (10, ⟨⟨['2']⟩, 0, 0⟩, 0) by
      simp only [foundTail, hlisted, habsent]] at hruns
  · intro n hn
    exact UInt32.le_of_eq (claimed_foreignStore hn)

end Quiescent
end StowQ
