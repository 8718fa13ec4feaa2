import StowQ.Core.Overrun
import StowQ.Scenario.Basic

/-!
# Budgets bound work

A call is given a budget, and a payment that exceeds what is left ends it with an error.  Every call but the
repair scan performs at most as many store operations as its budget allows, whatever the store answers
(`budget_bounds_work`): no request is issued before it is paid for.  The repair scan reads the records it lists
and probes for index entries without paying.  It stays within its budget only if there is no record for it to
read, and `repair_bounds_work_iff` says that this is all there is to it: with one record some budget is
exceeded.
-/

namespace StowQ
namespace Budget

open Data Concurrent Store Format StowQ.Core Interleaving Keys

variable {shard : UInt16} {k : Key}

/-- The store operations among the requests issued so far. -/
def performed (os : List Op) : Nat := (os.map storeOps).sum

/-- Whatever the store answers, a call with budget `B` performs at most `B` store operations, and
these and the budget that is left when it returns are together at most `B`. -/
def BoundsWork {α : Type} (m : Routine α) : Prop :=
  ∀ B os rest, Prog.Issues (fun _ _ => True) (m B) os rest → performed os ≤ B ∧
    ∀ out left, rest = .ret (out, left) → performed os + left ≤ B

lemma boundsWork_of_pays {α : Type} {m : Routine α} (h : Spending.Pays (fun _ _ => True) 0 m) : BoundsWork m := by
  intro B os rest hissues
  obtain ⟨hle, hrest⟩ := (h B).issues hissues
  refine ⟨hle, ?_⟩
  rintro out left rfl
  have hleft : left ≤ B - performed os := hrest.2
  have hle' : performed os ≤ B := hle
  omega

/-- **Budgets bound work**: whatever the store answers, a call with a budget of `B` performs at most `B` operations
on the store.  This holds of every action but the repair scan, and of the depth probe, along every path through the
program. -/
theorem budget_bounds_work [Sha256] (q : Queue) :
    (∀ action : Action, (∀ shard, action ≠ .repairScan shard) → BoundsWork (action.task q)) ∧
    ∀ shard, BoundsWork (q.depth shard) :=
  ⟨fun _ h => boundsWork_of_pays (Spending.pays_task h), fun shard => boundsWork_of_pays (Spending.depth shard)⟩

/-- A floor with a budget of one: the beacon is written, and its time cannot be read any more. -/
theorem budget_bounds_work_beacon : ∃ (_ : Sha256) (os : List Op) (rest : _),
    Prog.Issues (fun _ _ => True) (Action.establishFloor.task Scenario.demo 1) os rest ∧
      os.length = 3 ∧ performed os ≤ 1 := by
  let hash := Sha256.zero
  have hissues : ∃ rest, Prog.Issues (fun _ _ => True) (Action.establishFloor.task Scenario.demo 1)
      [.cachedFloor 0, .freshToken, .put (Scenario.demo.absolute (.beacon Scenario.jobZero)) []] rest :=
    ⟨_, .op (o := Op.cachedFloor 0) (r := none) trivial (.op (o := Op.freshToken) (r := Scenario.jobZero) trivial
      (.op (o := Op.put _ _) (r := Except.ok (.committed ⟨[]⟩)) trivial (.refl _)))⟩
  obtain ⟨rest, hissues⟩ := hissues
  exact ⟨hash, _, rest, hissues, rfl, ((budget_bounds_work Scenario.demo).1 .establishFloor nofun 1 _ rest hissues).1⟩

section Repair

variable [Sha256] {q : Queue} {permits : Fault → Prop} {objs : Objects}

/-- The shard in which a repair scan meets a key. -/
def scannedIn : Key → Option UInt16
  | .job shard _ | .claim shard _ _ | .receipt shard _ | .dead shard _ => some shard
  | _ => none

/-- The store holds no job, claim, receipt or dead record of the queue. -/
def Recordless (q : Queue) (objs : Objects) : Prop :=
  ∀ k shard, scannedIn k = some shard → shard.toNat < q.format.shardCount.toNat → objs.get? (q.absolute k) = none

omit [Sha256] in
/-- A key under a record directory of a shard is met in that shard. -/
lemma scannedIn_of_shardDir {plane : Str} (hplane : plane ∈ Spending.recordPlanes)
    (h : q.shardDir plane shard <+: q.absolute k) : scannedIn k = some shard := by
  obtain ⟨rest, hrest⟩ := q.site.segmentsOf_of_dir (Overrun.slash_not_mem_shardDir hplane shard) h
  rw [Site.segmentsOf_absolute] at hrest
  have hsegs : k.segments = plane :: hex16 shard :: rest := Option.some.inj hrest
  have hshard : ∀ s, hex16 s = hex16 shard → s = shard := by
    intro s hs
    have hdecode := congrArg Keys.hexDecodeU16 hs
    simpa using hdecode
  cases k with
  | job s j | claim s j g | receipt s j | dead s j =>
    simp only [Key.segments, List.cons.injEq] at hsegs
    exact congrArg some (hshard s hsegs.2.1)
  | _ =>
    simp only [Key.segments, List.cons.injEq] at hsegs
    rw [← hsegs.1] at hplane
    exact absurd hplane (by decide)

omit [Sha256] in
lemma shardDir_prefix (h : scannedIn k = some shard) :
    planeOf k ∈ Spending.recordPlanes ∧ q.shardDir (planeOf k) shard <+: q.absolute k := by
  cases k with
  | job s j | claim s j g | receipt s j | dead s j =>
    obtain rfl : s = shard := Option.some.inj h
    refine ⟨by simp [planeOf, Spending.recordPlanes], ?_⟩
    simp [Queue.shardDir, Site.dir, Site.absolute, planeOf, Key.fmt]
  | _ => cases h

/-- What the record directories list without a record does not parse. -/
lemma strange_of_recordless (h : Recordless q objs) (o : Op) (objs1 : Objects) (r : Res o) (objs2 : Objects)
    (hkeeps : Overrun.Keeps q objs objs1) (hr : (Overrun.alone permits).answers o objs1 r objs2) :
    Spending.Strange q o r := by
  cases o with
  | store req =>
    cases req with
    | list pre after limit =>
      rintro plane hplane shard hshard rfl page rfl item hitem
      obtain ⟨fault, stamp, -, hinject⟩ := hr
      obtain rfl : fault = none := fault_none_of_ok (congrArg Prod.fst hinject)
      obtain rfl : listPage objs1 (q.shardDir plane shard) after limit = page :=
        Except.ok.inj (congrArg Prod.fst hinject)
      rw [items_listPage] at hitem
      obtain ⟨stored, hget, -, hsel⟩ := mem_remaining.mp (List.mem_of_mem_take hitem)
      have hdir : q.shardDir plane shard <+: item.key := selects_pre hsel
      cases hparse : q.parseRel item.key with
      | none => rfl
      | some k =>
        rw [← Queue.absolute_of_parseRel hparse] at hdir hget
        have habsent := h k shard (scannedIn_of_shardDir hplane hdir) hshard
        rw [hkeeps _ ⟨plane, hplane, Overrun.plane_of_shardDir hplane hdir⟩, habsent] at hget
        cases hget
    | _ => trivial
  | _ => trivial

omit [Sha256] in
lemma held_pos {stored : Stored} (hk : scannedIn k = some shard)
    (hget : objs.get? (q.absolute k) = some stored) : 0 < Overrun.held q objs (planeOf k) shard := by
  obtain ⟨-, hdir⟩ := shardDir_prefix (q := q) hk
  have hmem : ⟨q.absolute k, stored.info⟩ ∈ remaining objs (q.shardDir (planeOf k) shard) none := by
    refine mem_remaining.mpr ⟨stored, hget, rfl, ?_⟩
    simp only [selects, Bool.and_true]
    exact List.isPrefixOf_iff_prefix.mpr hdir
  have hweight : Overrun.weight q (planeOf k) ⟨q.absolute k, stored.info⟩ = 1 := by
    simp [Overrun.weight, Queue.parseRel_absolute]
  calc 0 < 1 := Nat.one_pos
    _ = Overrun.weight q (planeOf k) ⟨q.absolute k, stored.info⟩ := hweight.symm
    _ ≤ _ := List.single_le_sum (fun _ _ => Nat.zero_le _) _ (List.mem_map_of_mem hmem)

/-- The scan of a shard with a record in it does more than it pays for. -/
lemma repairShard_exceeds {stored : Stored} (hk : scannedIn k = some shard)
    (hget : objs.get? (q.absolute k) = some stored) (report : RepairReport) :
    Budgeted.Exceeds (Overrun.alone permits) storeOps (q.repairShard shard report) 1 (fun _ _ => True) objs := by
  refine (Overrun.exceeds_repairShard report objs).mono ?_ fun _ _ _ => trivial
  have hpos := held_pos hk hget
  cases k with
  | job s j | claim s j g | receipt s j | dead s j =>
    simp only [planeOf] at hpos
    omega
  | _ => cases hk

/-- **A repair scan keeps within its budget only where there is nothing to repair**: a scan that is
alone with the store performs at most as many operations as its budget, for every first shard and every
budget, if and only if the store holds no record of the queue. -/
theorem repair_bounds_work_iff (permits : Fault → Prop) (q : Queue) (objs : Objects) :
    (∀ startShard B os rest objs', (q.repairScan startShard B).Path (Overrun.alone permits) objs os rest objs' →
      performed os ≤ B) ↔ Recordless q objs := by
  constructor
  · intro hbound k shard hk hshard
    by_contra hpresent
    obtain ⟨stored, hget⟩ := Option.ne_none_iff_exists'.mp hpresent
    have hexceeds : Budgeted.Exceeds (Overrun.alone permits) storeOps (q.repairShard shard {}) 1
      (fun _ _ => True) objs := repairShard_exceeds hk hget {}
    obtain ⟨n, os, report, objs', hpath, hcost, -⟩ := hexceeds
    obtain ⟨left, hleft⟩ := Nat.exists_eq_add_of_lt hshard
    have hcount : q.format.shardCount.toNat - shard.toNat = left + 1 := by omega
    have hscan : ∃ rest, (q.repairScan shard n).Path (Overrun.alone permits) objs (os ++ []) rest objs' := by
      rw [Queue.repairScan, hcount, Queue.repairFrom, UInt16.ofNat_toNat, Budgeted.bind_apply]
      exact ⟨_, (hpath 0).bind (.refl _ objs')⟩
    obtain ⟨rest, hscan⟩ := hscan
    have hwithin := hbound shard n _ rest objs' hscan
    rw [List.append_nil] at hwithin
    exact absurd (Nat.le_trans hcost hwithin) (Nat.not_succ_le_self n)
  · intro hnone startShard B os rest objs' hpath
    have hissues := hpath.issues Overrun.spares_keep (strange_of_recordless hnone)
      (Budgeted.Emits.prog (Footprint.repairScan Overrun.reading_spares Overrun.spares_put) B) fun _ _ => rfl
    exact (Spending.repairScan startShard B).issues hissues |>.1

end Repair

/-- A store with one job. -/
def oneJob [Sha256] : Objects :=
  OrderedMap.empty.insert Scenario.jobKey ⟨Scenario.jobBody 1, ⟨[]⟩, 0⟩

/-- With a budget of one, a scan lists the jobs and reads the first one, although the listing has used
up the budget. -/
theorem repair_exceeds_budget : ∃ (_ : Sha256) (os : List Op) (rest : _) (objs' : Objects),
    (Scenario.demo.repairScan 0 1).Path (Overrun.alone fun _ => False) oneJob os rest objs' ∧ performed os = 2 := by
  let hash := Sha256.zero
  have hpath : ∃ rest objs', (Scenario.demo.repairScan 0 1).Path (Overrun.alone fun _ => False) oneJob
      [.store (.list (Scenario.demo.shardDir jobsSeg 0) none 64), .store (.get Scenario.jobKey)] rest objs' :=
    ⟨_, _, .op ⟨none, Overrun.someStamp, nofun, rfl⟩ (.op ⟨none, Overrun.someStamp, nofun, rfl⟩ (.refl _ _))⟩
  obtain ⟨rest, objs', hpath⟩ := hpath
  exact ⟨hash, _, rest, objs', hpath, rfl⟩

end Budget
end StowQ
