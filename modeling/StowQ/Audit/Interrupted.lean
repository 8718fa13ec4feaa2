import StowQ.Audit.Runs
import StowQ.Core.GcRules
import StowQ.Listing

/-!
# A collection that is cut off

`gc` takes the graph of an ended job apart object by object, and it may stop after any of its requests.  What it
leaves behind then is still orderly as long as the graph had no second claim and no detached payload, and a scan
of it has no finding that it did not have before: `cut_gc_adds_no_finding`.  The claims of a longer chain are
deleted from the first one on, and a payload before the job record that refers to it, so that a scan between two
deletes reports a gap or a missing payload: `cut_gc_adds_finding`.
-/

namespace StowQ
namespace Audit

open Data StowQ.Core Store Format Concurrent Interleaving Custody Keys

variable {key : Str} {shard : UInt16} {jobId : ByteArr 16} {j : Nat}

section Interrupted

variable [Sha256]

/-- A job that a collection with this cutoff takes apart: an index entry names it, and its
terminal record is old enough. -/
def Doomed (q : Queue) (objs : Objects) (cutoff : UInt64) (shard : UInt16) (jobId : ByteArr 16) : Prop :=
  ∃ kind key terminal, q.under [termidxSeg] <+: key ∧ objs.get? key ≠ none ∧
    q.entryOf key = some (kind, shard, jobId) ∧
    objs.get? (q.absolute (Queue.terminalRel kind shard jobId)) = some terminal ∧
    terminal.storeTimeNs < cutoff

/-- A graph without a second claim and without a detached payload. -/
structure Slim (S : Site) (objs : Objects) (shard : UInt16) (jobId : ByteArr 16) : Prop where
  claims : ∀ g e, claimAt S objs shard jobId g = some e → g = 1
  payload : ∀ shard' stored job, objs.get? (S.absolute (.job shard' jobId)) = some stored →
    S.decodeAt (.job shard' jobId) stored.body = .ok (.job job) → job.payloadKey = none

/-- The job records lie in the shards of their jobs. -/
def Placed (q : Queue) (objs : Objects) : Prop :=
  ∀ shard jobId, objs.get? (q.absolute (.job shard jobId)) ≠ none → shard = q.payloadShard jobId

/-- A request that deletes a claim. -/
def DeletesClaim (S : Site) (r : Request) : Prop :=
  ∃ key, r = .delete key ∧ S.plane key = some claimsSeg

/-- What a collection leaves at any moment: an orderly part of the store it found. -/
structure Tidy (S : Site) (objs0 objs : Objects) : Prop where
  orderly : Orderly S objs
  shrunk : Shrunk objs0 objs

def shrinking : Rely Objects where
  rel := Shrunk
  refl := Shrunk.refl
  trans := Shrunk.trans

/-- The discipline of a collection that began at `objs0` and is the only one to move objects.
Its requests may meet any fault, but a claim that it deletes is gone. -/
def cutting (S : Site) (objs0 : Objects) : Discipline Objects Op Res where
  service :=
    { answers := fun
        | .store r, objs, answer, objs' => ∃ fault stamp, (DeletesClaim S r → fault = none) ∧
            inject fault objs stamp r = (answer, objs')
        | _, objs, _, objs' => objs' = objs
      inv := Tidy S objs0 }
  rely := Calm.nowhere
  guar := Shrunk
  order := shrinking
  rely_order _ _ _ h := h ▸ Shrunk.refl _
  guar_order _ _ _ _ h := h

variable {q : Queue} {objs0 objs : Objects} {cutoff : UInt64} {α : Type}

/-! ## Requests -/

lemma holds_request {r : Request} {Q : StoreResult r.Answer → Objects → Prop}
    (h : ∀ fault stamp, (DeletesClaim q.site r → fault = none) → Tidy q.site objs0 objs →
      Tidy q.site objs0 (inject fault objs stamp r).2 ∧ Shrunk objs (inject fault objs stamp r).2 ∧
        Q (inject fault objs stamp r).1 (inject fault objs stamp r).2) :
    Holds (cutting q.site objs0) (Routine.store r) (OnOk Q) objs := by
  intro b objs1 hobjs1 hi answer objs2 ⟨fault, stamp, hfault, hinject⟩
  obtain rfl : objs1 = objs := hobjs1
  obtain ⟨htidy, hshrunk, hQ⟩ := h fault stamp hfault hi
  rw [hinject] at htidy hshrunk hQ
  refine ⟨htidy, hshrunk, fun objs3 hobjs3 _ a ha => ?_⟩
  obtain rfl : objs3 = objs2 := hobjs3
  cases ha
  exact hQ

lemma holds_reading {r : Request} (hr : r.reads = true) {Q : StoreResult r.Answer → Objects → Prop}
    (h : ∀ fault stamp, Tidy q.site objs0 objs → Q (inject fault objs stamp r).1 objs) :
    Holds (cutting q.site objs0) (Routine.store r) (OnOk Q) objs := by
  refine holds_request fun fault stamp _ htidy => ?_
  have hsame : (inject fault objs stamp r).2 = objs := inject_reads hr
  rw [hsame]
  exact ⟨htidy, Shrunk.refl objs, h fault stamp htidy⟩

/-- A delete of a key that the store can do without. -/
lemma holds_discard_spare (hspare : Tidy q.site objs0 objs → Spare q.site objs key) :
    Holds (cutting q.site objs0) (Queue.discard key) (OnOk Any) objs := by
  refine holds_discard (K := fun _ => True) (fun _ _ _ _ h => h) (holds_request (r := .delete key)
    fun fault stamp _ htidy => ?_)
  rcases inject_delete fault objs stamp key with hsame | herase
  · rw [hsame]
    exact ⟨htidy, Shrunk.refl objs, trivial⟩
  · rw [herase]
    exact ⟨⟨htidy.orderly.erase (hspare htidy), htidy.shrunk.trans (Shrunk.erase objs key)⟩,
      Shrunk.erase objs key, trivial⟩

/-- A delete in a plane that the audit does not connect with others. -/
lemma holds_discard_plain {seg : Str} (hplane : q.site.plane key = some seg)
    (hseg : seg ∉ [jobsSeg, claimsSeg, payloadsSeg]) :
    Holds (cutting q.site objs0) (Queue.discard key) (OnOk Any) objs :=
  holds_discard_spare fun _ => spare_of_plane hplane hseg

/-! ## The graph of a job -/

/-- The objects of a slim graph that lie in the planes the audit connects, the job record apart. -/
lemma Tidy.spare_graph (h : Tidy q.site objs0 objs) (hslim : Slim q.site objs0 shard jobId)
    (hkey : GraphKey q.site shard jobId key) : Spare q.site objs key := by
  cases hkey with
  | lease hplane => exact spare_of_plane hplane (by decide)
  | delayed hplane => exact spare_of_plane hplane (by decide)
  | termidx hplane => exact spare_of_plane hplane (by decide)
  | tail heq =>
    have hplane : q.site.plane key = some tailsSeg := heq ▸ plane_absolute _ _
    exact spare_of_plane hplane (by decide)
  | fail hpre => exact spare_of_plane (plane_of_jobDir (by decide) hpre) (by decide)
  | claim hpre =>
    have hplane := plane_of_jobDir (by decide) hpre
    refine ⟨fun _ _ _ _ _ _ _ _ => ne_absolute_of_plane hplane (by simp only [planeOf]; decide),
      fun _ _ _ _ _ => ne_absolute_of_plane hplane (by simp only [planeOf]; decide), ?_⟩
    rintro shard' jobId' g e rfl he
    obtain ⟨rfl, rfl⟩ := claim_of_claimsDir hpre
    obtain rfl := hslim.claims g e (claimAt_of_shrunk h.shrunk he)
    by_contra hnext
    obtain ⟨e', he'⟩ := Option.ne_none_iff_exists'.mp hnext
    exact absurd (hslim.claims _ e' (claimAt_of_shrunk h.shrunk he')) (by decide)
  | payload hpre =>
    have hplane := plane_of_payloadsDir hpre
    refine ⟨fun shard' jobId' stored job digest hget hdec hrel heq => ?_,
      fun _ _ _ _ _ => ne_absolute_of_plane hplane (by simp only [planeOf]; decide),
      fun _ _ _ _ heq => absurd heq (ne_absolute_of_plane hplane (by simp only [planeOf]; decide))⟩
    subst heq
    obtain rfl := payload_of_payloadsDir hpre
    rw [hslim.payload shard' stored job (h.shrunk _ _ hget) hdec] at hrel
    cases hrel

/-- A claim without a job record is not in the store, and neither does a job refer to a payload
whose job record is absent. -/
lemma Tidy.spare_orphan (h : Tidy q.site objs0 objs) (hplaced : Placed q objs0)
    (hkey : OrphanKey q shard jobId key) (habsent : objs.get? (q.absolute (.job shard jobId)) = none) :
    Spare q.site objs key := by
  cases hkey with
  | payload digest hshard heq =>
    subst heq hshard
    have hplane : q.site.plane (q.absolute (.payload jobId digest)) = some payloadsSeg := plane_absolute _ _
    refine ⟨fun shard' jobId' stored job digest' hget _ _ heq => ?_,
      fun _ _ _ _ _ => ne_absolute_of_plane hplane (by simp only [planeOf]; decide),
      fun _ _ _ _ heq => absurd heq (ne_absolute_of_plane hplane (by simp only [planeOf]; decide))⟩
    cases q.site.absolute_inj.mp heq
    have hshard := hplaced shard' jobId (by
      rw [h.shrunk _ _ hget]
      exact Option.some_ne_none _)
    rw [hshard, habsent] at hget
    cases hget
  | claim g heq =>
    subst heq
    have hplane : q.site.plane (q.absolute (.claim shard jobId g)) = some claimsSeg := plane_absolute _ _
    refine ⟨fun _ _ _ _ _ _ _ _ => ne_absolute_of_plane hplane (by simp only [planeOf]; decide),
      fun _ _ _ _ _ => ne_absolute_of_plane hplane (by simp only [planeOf]; decide),
      fun shard' jobId' g' e heq he => ?_⟩
    cases q.site.absolute_inj.mp heq
    exact absurd habsent (h.orderly.owned shard jobId g e he)

lemma spare_job (hcleared : ∀ g, objs.get? (q.absolute (.claim shard jobId g)) = none) :
    Spare q.site objs (q.absolute (.job shard jobId)) := by
  have hplane : q.site.plane (q.absolute (.job shard jobId)) = some jobsSeg := plane_absolute _ _
  refine ⟨fun _ _ _ _ _ _ _ _ => ne_absolute_of_plane hplane (by simp only [planeOf]; decide),
    fun shard' jobId' g e he heq => ?_,
    fun _ _ _ _ heq => absurd heq (ne_absolute_of_plane hplane (by simp only [planeOf]; decide))⟩
  cases q.site.absolute_inj.mp heq
  obtain ⟨stored, hget, -⟩ := get?_of_claimAt he
  exact absurd (hcleared g) (by rw [hget]; exact Option.some_ne_none _)

/-! ## The collection -/

/-- What a collection knows here. -/
def verdicts (q : Queue) (objs0 : Objects) (cutoff : UInt64) : Verdicts Objects where
  listed key _ := objs0.get? key ≠ none
  absent shard jobId objs := objs.get? (q.absolute (.job shard jobId)) = none
  ended _ shard jobId _ := Doomed q objs0 cutoff shard jobId
  cleared shard jobId objs := ∀ g, objs.get? (q.absolute (.claim shard jobId g)) = none
  gone _ _ _ := True

/-- The claims of a doomed job are gone when their directory has been walked. -/
lemma holds_clearClaims (hslim : Slim q.site objs0 shard jobId) (hinv : Tidy q.site objs0 objs) :
    Holds (cutting q.site objs0)
      (Queue.discardAll (q.under [claimsSeg, hex16 shard, hex jobId.toList]))
      (OnOk fun _ objs' => ∀ g, objs'.get? (q.absolute (.claim shard jobId g)) = none) objs := by
  have hclears : Clears (cutting q.site objs0) False
      (q.under [claimsSeg, hex16 shard, hex jobId.toList]) (fun _ => true) fun _ => True := by
    refine ⟨fun _ _ h => h, fun objs1 after answer objs2 _ _ ⟨fault, stamp, _, hinject⟩ => ?_,
      fun objs1 key answer objs2 hi _ hpre _ ⟨fault, stamp, hfault, hinject⟩ => ?_⟩
    · have hsame : objs2 = objs1 := (congrArg Prod.snd hinject).symm.trans (inject_reads rfl)
      refine ⟨hsame, Shrunk.refl objs1, ?_⟩
      cases answer with
      | error e => exact .inr ⟨not_false, e, rfl⟩
      | ok page =>
        have hpage := answer_list (congrArg Prod.fst hinject)
        exact .inl (congrArg _ hpage)
    · have hnone := hfault ⟨key, rfl, plane_of_jobDir (by decide) hpre⟩
      subst hnone
      obtain rfl : objs1.erase key = objs2 := congrArg Prod.snd hinject
      exact ⟨rfl, ⟨hi.orderly.erase (hi.spare_graph hslim (.claim hpre)),
        hi.shrunk.trans (Shrunk.erase objs1 key)⟩, Shrunk.erase objs1 key, trivial⟩
  intro b
  refine Safe.mono (hclears.affords_discardAll hinv trivial b) fun out objs' _ hout a ha g => ?_
  refine (hout.1 a ha).2.2 _ ⟨hex32 g, ?_⟩
  simp [Queue.under, Queue.absolute, Site.dir, Site.absolute, Key.fmt]

/-- **A collection of slim graphs** keeps the store orderly at every request. -/
theorem cutting_collects (hplaced : Placed q objs0)
    (hslim : ∀ shard jobId, Doomed q objs0 cutoff shard jobId → Slim q.site objs0 shard jobId)
    (hinv : Tidy q.site objs0 objs) :
    Core.Collects (cutting q.site objs0) q objs cutoff (verdicts q objs0 cutoff) where
  inv := hinv
  kept := ⟨fun _ _ _ _ _ h => h, fun _ _ _ _ _ hab h => hab.absent h, fun _ _ _ _ _ _ _ h => h,
    fun _ _ _ _ _ hab h g => hab.absent (h g), fun _ _ _ _ _ _ h => h⟩
  list pre after limit objs1 _ _ := holds_reading (r := .list pre after limit) rfl
    fun fault stamp htidy page hpage x hx => by
      obtain rfl := answer_list hpage
      obtain ⟨stored, hget, -, hsel⟩ := mem_listPage hx
      exact ⟨selects_pre hsel, by
        show objs0.get? x.key ≠ none
        rw [htidy.shrunk _ _ hget]
        exact Option.some_ne_none _⟩
  head key objs1 _ _ := holds_reading (r := .head key) rfl fun _ _ _ => trivial
  job shard jobId objs1 _ _ := holds_reading (r := .head _) rfl fun _ _ _ hnone =>
    answer_head_notFound hnone
  terminal kind shard jobId key objs1 _ _ hlisted hkey hentry := holds_reading (r := .head _) rfl
    fun _ _ htidy info hok hold => by
      obtain ⟨terminal, hget, rfl⟩ := answer_head hok
      exact ⟨kind, key, terminal, hkey, hlisted, hentry, htidy.shrunk _ _ hget, hold⟩
  discardOrphan shard jobId key objs1 _ _ hkey habsent :=
    holds_discard_spare fun htidy => htidy.spare_orphan hplaced hkey habsent
  discardBeacon key hkey objs1 _ _ :=
    holds_discard_plain (q.site.plane_of_dir (by decide) hkey) (by decide)
  discardIndex key hkey objs1 _ _ := holds_discard_plain hkey (by decide)
  discardInner kind shard jobId key objs1 _ _ hkey hdoomed :=
    holds_discard_spare fun htidy => htidy.spare_graph (hslim shard jobId hdoomed) hkey
  clearClaims kind shard jobId objs1 hi _ hdoomed := holds_clearClaims (hslim shard jobId hdoomed) hi
  discardJob kind shard jobId objs1 _ _ _ hcleared :=
    (holds_discard_spare fun _ => spare_job hcleared).mono fun _ _ _ _ _ _ _ => trivial
  discardTerminal kind shard jobId objs1 _ _ _ _ := by
    have hplane := plane_absolute q.site (Queue.terminalRel kind shard jobId)
    exact holds_discard_plain hplane (by cases kind <;> simp only [Queue.terminalRel, planeOf] <;> decide)

/-! ## Runs -/

/-- Call `j` is the only one to move objects, and the claims that it deletes are gone. -/
def cuttingOff (S : Site) (j : Nat) : Terms where
  start _ _ _ := True
  step w i _ o c :=
    if i = j then ∀ r, o = .store r → DeletesClaim S r → c.fault = none
    else (w.exec i o c).2.objects = w.objects
  env w e := (w.outside e).objects = w.objects

lemma cuttingOff_step_self {S : Site} {w : World} {call : Call} {o : Op} {c : Choice} :
    (cuttingOff S j).step w j call o c ↔ ∀ r, o = .store r → DeletesClaim S r → c.fault = none := by
  unfold cuttingOff
  exact iff_of_eq (if_pos rfl)

lemma suits_cutting (S : Site) (objs0 : Objects) (j : Nat) (call : Call) (reached : Calls → Prop) :
    Calm.Suits (cuttingOff S j) (cutting S objs0) j call reached := by
  refine ⟨fun cfg o c _ hadm => ?_, fun cfg i call' o k c _ hi hij _ hadm => ?_, fun cfg e _ hi hadm => ?_⟩
  · have hfault := cuttingOff_step_self.mp hadm
    cases o with
    | store r => exact ⟨c.fault, c.stamp, hfault r rfl, rfl⟩
    | _ => rfl
  · have hsame : (cfg.world.exec i o c).2.objects = cfg.world.objects := (if_neg hij).mp hadm
    exact ⟨hsame, hsame ▸ hi⟩
  · have hsame : (cfg.world.outside e).objects = cfg.world.objects := hadm
    exact ⟨hsame, hsame ▸ hi⟩

/-- Wherever a collection of slim graphs is cut off, it leaves a tidy store. -/
lemma run_tidy {before mid : Calls} {budget : Nat} {nowNs retentionNs orphanHorizonNs : UInt64}
    (horder : Orderly q.site before.world.objects) (hplaced : Placed q before.world.objects)
    (hslim : ∀ shard jobId, Doomed q before.world.objects (satSub nowNs retentionNs) shard jobId →
      Slim q.site before.world.objects shard jobId) (hrun : machine.Run (cuttingOff q.site j)
      (Calm.starting before j ⟨q, .gc nowNs retentionNs orphanHorizonNs, budget⟩) mid) :
    Tidy q.site before.world.objects mid.world.objects := by
  have hinv : Tidy q.site before.world.objects before.world.objects := ⟨horder, Shrunk.refl _⟩
  have hgc := (cutting_collects hplaced hslim hinv).holds_gc orphanHorizonNs
  have htask : Holds (cutting q.site before.world.objects)
      ((Action.gc nowNs retentionNs orphanHorizonNs).task q) (fun _ _ => True) before.world.objects :=
    (hgc.andThen fun _ _ _ _ _ => holds_any).mono fun _ _ _ _ _ => trivial
  let call : Call := ⟨q, .gc nowNs retentionNs orphanHorizonNs, budget⟩
  have hends : Ends (cutting q.site before.world.objects) (call.action.task call.queue) call.budget
      (fun _ _ _ => True) before.world.objects := htask budget
  exact (Calm.run_suited (suits_cutting q.site before.world.objects j call _) hinv hends hrun).2.1

/-- The job records of an honest run lie in the shards of their jobs. -/
lemma run_placed {S : Site} {F : FormatRecord} {w : World} {cfg : Calls} (hfresh : Fresh S w)
    (hrun : machine.Run (honest S F) (Machine.initial w) cfg) (hsite : q.site = S) (hformat : q.format = F) :
    Placed q cfg.world.objects := by
  subst hsite hformat
  intro shard jobId hjob
  obtain ⟨stored, hget⟩ := Option.ne_none_iff_exists'.mp hjob
  have hoffering := Delivery.offering_of_working (working_of_honest hrun)
  obtain ⟨i, call, input, -, -, -, -, hrel, -⟩ := Intake.run_job hfresh.intake hoffering hget
  rw [← Queue.shardOf_eq_payloadShard]
  exact (Key.job.inj hrel).1

/-- A scan of all shards that is made at `mid` reports nothing that the same scan would not have
reported at `before`.  Both are left alone, meet no fault and have enough budget. -/
def AddsNoFinding (q : Queue) (k : Nat) (before mid : Calls) : Prop :=
  ∃ enough, ∀ budget, enough ≤ budget → (∀ cfg ∈ [before, mid], ∃ after out, machine.Run (Calm.terms Set.univ k)
      (Calm.starting cfg k ⟨q, .repairScan 0, budget⟩) after ∧ after.Returned k ⟨q, .repairScan 0, budget⟩ out) ∧
    ∀ after0 out0 after out,
      machine.Run (Calm.terms Set.univ k) (Calm.starting before k ⟨q, .repairScan 0, budget⟩) after0 →
      after0.Returned k ⟨q, .repairScan 0, budget⟩ out0 →
      machine.Run (Calm.terms Set.univ k) (Calm.starting mid k ⟨q, .repairScan 0, budget⟩) after →
      after.Returned k ⟨q, .repairScan 0, budget⟩ out →
      ∃ report0 report, out0 = .ok (.repairScan report0 none) ∧ out = .ok (.repairScan report none) ∧
        report.findings ⊆ report0.findings

/-- Two orderly stores, the second one a part of the first. -/
lemma addsNoFinding_of_tidy {before mid : Calls} (horder : Orderly q.site before.world.objects)
    (htidy : Tidy q.site before.world.objects mid.world.objects) (k : Nat) :
    AddsNoFinding q k before mid := by
  refine ⟨max (fullScanCost q before.world.objects) (fullScanCost q mid.world.objects),
    fun budget hbudget => ⟨fun cfg _ => Calm.run_returns _ (fun o w => Calm.step_self.mpr rfl) cfg, ?_⟩⟩
  intro after0 out0 after out hrun0 hret0 hrun hret
  obtain ⟨report0, rfl, hfindings0⟩ := quiet_scan horder
    (Nat.le_trans (Nat.le_max_left _ _) hbudget) hrun0 hret0
  obtain ⟨report, rfl, hfindings⟩ := quiet_scan htidy.orderly
    (Nat.le_trans (Nat.le_max_right _ _) hbudget) hrun hret
  refine ⟨report0, report, rfl, rfl, fun f hf => ?_⟩
  obtain ⟨i, hi, jobId, rfl, h1, h2⟩ := (hfindings f).mp hf
  refine (hfindings0 _).mpr ⟨i, hi, jobId, rfl, fun habs => h1 (htidy.shrunk.absent habs),
    fun habs => h2 (htidy.shrunk.absent habs)⟩

/-- **A collection that is cut off adds no finding**, as long as the graphs it takes apart have no
second claim and no detached payload. -/
theorem cut_gc_adds_no_finding (S : Site) (F : FormatRecord) (w : World) (hfresh : Fresh S w) (before : Calls)
    (hrun : machine.Run (honest S F) (Machine.initial w) before) (q : Queue) (hsite : q.site = S)
    (hformat : q.format = F) (nowNs retentionNs orphanHorizonNs : UInt64) (budget j : Nat)
    (hslim : ∀ shard jobId, Doomed q before.world.objects (satSub nowNs retentionNs) shard jobId →
      Slim S before.world.objects shard jobId) (mid : Calls)
    (hmid : machine.Run (cuttingOff S j)
      (Calm.starting before j ⟨q, .gc nowNs retentionNs orphanHorizonNs, budget⟩) mid)
    (auditor : Queue) (hauditor : auditor.site = S) (k : Nat) : AddsNoFinding auditor k before mid := by
  have horder := run_orderly hfresh hrun
  have hplaced := run_placed hfresh hrun hsite hformat
  subst hsite
  have htidy := run_tidy horder hplaced hslim hmid
  rw [← hauditor] at horder htidy
  exact addsNoFinding_of_tidy horder htidy k

end Interrupted

end Audit

/-! ## Burying a job and collecting it

The small job after a delivery: the worker buries it, with an index entry for the dead record, and a collection
begins to take its graph apart.
-/

namespace Scenario

open Data StowQ.Core Store Format Concurrent Interleaving Keys
open Budgeted (Evals)

section Burial

variable [Sha256] {n : Nat} {handles : Nat → HandleState}

/-- The beacon of a burial whose token is the `n`-th. -/
def beaconKey (n : Nat) : Str := demo.absolute (.beacon (tokenAt n))

/-- The index entry of a dead record of time one. -/
def buriedIndex : Str := demo.absolute (.termIndex 1 .dead 0 jobZero)

/-- A worker buries the job. -/
def burial (c : Claim) : Call := ⟨demo, .bury c 0, 8⟩

/-- The dead record. -/
def burialBody (c : Claim) : Bytes :=
  demo.encodeAt (.dead 0 jobZero) (.dead ⟨jobZero, c.generation, c.attempt, 0⟩)

/-- The store after the burial. -/
def buried (objs : Objects) (c : Claim) (n : Nat) (v5 v6 v7 : Version) : Objects :=
  ((objs.insert deadKey ⟨burialBody c, v5, 1⟩).insert (beaconKey n) ⟨[], v6, 1⟩).insert
    buriedIndex ⟨[], v7, 1⟩

/-- The burial at time one: the dead record, a beacon, and the index entry. -/
lemma run_burial (c : Claim) (objs : Objects) {objs1 objs2 : Objects} (hjob : c.jobId = jobZero) (hshard : c.shard = 0)
    (hreceipt : objs.get? receiptKey = none) (hdead : objs.get? deadKey = none)
    (h1 : objs.insert deadKey ⟨burialBody c, versionAt (n + 1), 1⟩ = objs1)
    (hbeacon : objs1.get? (beaconKey (n + 2)) = none)
    (h2 : objs1.insert (beaconKey (n + 2)) ⟨[], versionAt (n + 2), 1⟩ = objs2)
    (hlit : objs2.get? (beaconKey (n + 2)) = some ⟨[], versionAt (n + 2), 1⟩)
    (hwatermark : objs2.get? (demo.absolute .watermark) = none) (hindex : objs2.get? buriedIndex = none) :
    ∃ handles, (burial c).prog.run (staged faultless) ⟨objs, 1, fun _ => {}, n⟩ =
      (.ok (.bury .buried), ⟨buried objs c (n + 2) (versionAt (n + 1)) (versionAt (n + 2)) (versionAt (n + 5)), 1,
        handles, n + 6⟩) := by
  obtain ⟨jobId, shard, generation, attempt, token, lease, time, payload⟩ := c
  obtain rfl : jobId = jobZero := hjob
  obtain rfl : shard = 0 := hshard
  have hbeacons : Evals (staged faultless) demo.beacon 4 ⟨objs1, 1, fun _ => {}, n + 2⟩ (.ok (some 1)) 2
      ⟨objs2, 1, fun _ => {}, n + 4⟩ := by
    subst h2
    exact evals_beacon rfl (serves_put rfl hbeacon) (serves_head rfl hlit)
  have hfloor := evals_establishFloor (q := demo) (s := ⟨objs1, 1, fun _ => {}, n + 2⟩) rfl hbeacons (by decide)
    (serves_get_absent rfl hwatermark) rfl
  have hbucket : Math.bucketNumber 1 demo.format.terminalBucketWidthNs = some 1 := by decide
  subst h1 h2
  exact ⟨_, run_call (Evals.bind (evals_bury (serves_head_absent rfl hreceipt) (serves_put rfl hdead)
    (evals_writeTermidx hfloor hbucket (serves_put rfl hindex))) (Evals.pure _))⟩

/-! ## The collection -/

/-- A collection at time two that keeps no terminal record, with fourteen requests. -/
def halfway : Call := ⟨demo, .gc 2 0 2, 14⟩

omit [Sha256] in
/-- The orphan pass leaves an entry alone that is not older than time zero. -/
lemma evals_gcClaim_young {σ : Type} {h : Handler Op Res σ} {s : σ} {b : Nat} (report : GcReport) (g : UInt32)
    (info : Meta) : Evals h (demo.gcClaim 0 report ⟨claimKey g, info⟩) b s (.ok report) b s := by
  unfold Queue.gcClaim Queue.collectOrphan
  dsimp only
  rw [show demo.parseRel (claimKey g) = some (.claim 0 jobZero g) from demo.parseRel_absolute _]
  dsimp only
  rw [if_pos UInt64.zero_le]
  exact (Evals.pure false).bind (Evals.pure _)

omit [Sha256] in
lemma evals_gcBeacon_young {σ : Type} {h : Handler Op Res σ} {s : σ} {b : Nat} (report : GcReport) (item : Listing) :
    Evals h (Queue.gcBeacon 0 report item) b s (.ok report) b s := by
  unfold Queue.gcBeacon
  rw [if_neg (UInt64.not_lt.mpr UInt64.zero_le)]
  exact Evals.pure _

/-- The store after the burial of the second delivery. -/
def ruins (v v1 v2 v3 v4 v5 v6 v7 : Version) : Objects :=
  buried (redelivered 2 (tokenAt 8) (tokenAt 19) v v1 v2 v3 v4) (secondClaim v1) 25 v5 v6 v7

/-- Without its advisory entries and what `chain` does not hold. -/
def remains (chain : Objects → Objects) (v v1 v3 v5 v6 : Version) : Objects :=
  (((chain (enqueued 2 v)).insert (claimKey 2)
    ⟨grantBody ⟨0, 1, 1⟩ (firstTail (tokenAt 8) v1) (tokenAt 19), v3, 1⟩).insert deadKey
    ⟨burialBody (secondClaim v1), v5, 1⟩).insert (beaconKey 25) ⟨[], v6, 1⟩

set_option maxRecDepth 8000 in
/-- The collection gets as far as the first of the two claims. -/
lemma run_halfway {v v1 v2 v3 v4 v5 v6 v7 : Version} :
    halfway.prog.run (staged faultless) ⟨ruins v v1 v2 v3 v4 v5 v6 v7, 1, handles, n⟩ =
      (.error .budgetExhausted, ⟨remains id v v1 v3 v5 v6, 1, handles, n + 14⟩) := by
  generalize hobjs : ruins v v1 v2 v3 v4 v5 v6 v7 = objs
  have hmatch : ∀ key ∈ [leaseKey 1 1, leaseKey 2 2],
      containsStr key ('/' :: (hex16 0 ++ '/' :: hex jobZero.toList)) = true := by decide
  have hleases : Evals (staged faultless) (Queue.discardEntries (demo.under [leasesSeg]) 0 jobZero) 9
      ⟨objs, 1, handles, n + 5⟩ (.ok ()) 6
      ⟨(objs.erase (leaseKey 1 1)).erase (leaseKey 2 2), 1, handles, n + 8⟩ := by
    subst hobjs
    exact evals_pages_last (List.cons_ne_nil _ _) (serves_list rfl rfl)
      (Evals.foldM_cons (evals_discardEntry (hmatch _ List.mem_cons_self) (serves_delete rfl))
        (Evals.foldM_cons (evals_discardEntry (hmatch _ (List.mem_cons_of_mem _ List.mem_cons_self))
          (serves_delete rfl)) Evals.foldM_nil))
  subst hobjs
  have htail : Evals (staged faultless) (Queue.discard (demo.absolute (.tail 0 jobZero))) 4
      ⟨(((ruins v v1 v2 v3 v4 v5 v6 v7).erase (leaseKey 1 1)).erase (leaseKey 2 2)).erase buriedIndex, 1, handles,
        n + 10⟩ (.ok ()) 3 ⟨remains (·.insert (claimKey 1) ⟨grantBody ⟨0, 0, 1⟩ noTail (tokenAt 8), v1, 0⟩) v v1 v3
        v5 v6, 1, handles, n + 11⟩ := evals_discard (serves_delete rfl)
  have hentry : parseTermEntry (if demo.root.isPrefixOf buriedIndex then
      buriedIndex.drop demo.root.length else []) = some (.dead, 0, jobZero) := by decide
  have hold : ¬ satSub 2 0 ≤ (1 : UInt64) := by decide
  -- the orphan pass and the beacons
  refine run_call (b := 0) (Evals.bind_error ((evals_pages_nil (serves_list rfl rfl)).bind ?_))
  refine (evals_pages_last (List.cons_ne_nil _ _) (serves_list rfl rfl)
    (Evals.foldM_cons (evals_gcClaim_young _ 1 _)
      (Evals.foldM_cons (evals_gcClaim_young _ 2 _) Evals.foldM_nil))).bind ?_
  refine (evals_pages_one (serves_list rfl rfl) (evals_gcBeacon_young _ _)).bind ?_
  -- the graph of the dead record
  refine evals_pages_error (List.cons_ne_nil _ _) (serves_list rfl rfl) (Evals.bind_error ?_)
  refine evals_gcTerminal .dead 0 jobZero hentry (serves_head rfl rfl) hold
    (Evals.bind_error (hleases.bind ?_))
  refine (evals_pages_nil (serves_list rfl rfl)).bind ?_
  refine (evals_discard (serves_delete rfl)).bind (Evals.bind htail ?_)
  refine (evals_pages_nil (serves_list rfl rfl)).bind (Evals.bind_error ?_)
  exact evals_pages_error (List.cons_ne_nil _ _) (serves_list rfl rfl)
    (Evals.foldM_cons (evals_discard (serves_delete rfl)) rfl)

end Burial

end Scenario

namespace Audit

open Data StowQ.Core Store Format Concurrent Interleaving Custody Keys

/-! ## A chain that loses its first claim -/

namespace Halved

open Scenario Budgeted

variable [Sha256]

/-- What a scan reports of a job whose first claim is gone. -/
def gapped : RepairReport where
  shardsScanned := 1
  jobsScanned := 1
  claimChainsScanned := 1
  indexesRegenerated := 2
  findings := [⟨.chainGap, claimKey 2, 0x0015⟩]

section Evaluation

variable {σ : Type} {h : Handler Op Res σ} {s s1 s2 s3 s' : σ} {b : Nat} {info : Meta} {tail : Tail}
  {token : ByteArr 16} {ans : StoreResult PutOutcome}

/-- An index entry that is missing is put back. -/
lemma evals_ensureIndex {index : Str} (h1 : Serves h s (.head index) (.error .notFound) s1)
    (h2 : Serves h s1 (.putIfAbsent index [] (Sha256.digest [])) ans s') :
    Evals h (Queue.ensureIndex index) (b + 1) s (.ok true) b s' :=
  evals_store h1 (evals_spend (evals_store h2 (Evals.pure _)))

lemma evals_smallJob (report : RepairReport) {attempts : UInt64} {item : Listing}
    (hkey : item.key = jobKey) (h1 : Serves h s (.get jobKey) (.ok ⟨info, jobBody attempts⟩) s') :
    Evals h (demo.repairJobs 0 (report, []) item) b s
      (.ok ({ report with jobsScanned := report.jobsScanned + 1 }, [jobZero])) b s' := by
  have hparse : demo.parseRel item.key = some (.job 0 jobZero) := by
    rw [hkey]
    exact demo.parseRel_absolute _
  unfold Queue.repairJobs
  dsimp only
  rw [hparse]
  refine Evals.bind (evals_store h1 ?_) (Evals.pure _)
  dsimp only
  rw [decode_jobBody]
  exact (Evals.pure _).bind (Evals.pure _)

lemma evals_gap (report : RepairReport) (hgen : tail.generation = 1) (hbucket : info.storeTimeNs = 1)
    (h1 : Serves h s (.get (claimKey 2)) (.ok ⟨info, grantBody ⟨0, 1, 1⟩ tail token⟩) s1)
    (h2 : Serves h s1 (.head (leaseKey 2 2)) (.error .notFound) s2)
    (h3 : Serves h s2 (.putIfAbsent (leaseKey 2 2) [] (Sha256.digest [])) ans s') :
    Evals h (demo.repairChain 0 [jobZero] report (jobZero, [(2, info)])) (b + 2) s
      (.ok { (report.push ⟨.chainGap, claimKey 2, 0x0015⟩) with
        claimChainsScanned := report.claimChainsScanned + 1
        indexesRegenerated := report.indexesRegenerated + 1 }) b s' := by
  have hdec : demo.decodeAt (.claim 0 jobZero 2) (grantBody ⟨0, 1, 1⟩ tail token) =
      .ok (.claim (demo.takeoverRecord jobZero ⟨0, 1, 1⟩ tail token)) := by
    unfold grantBody
    rw [hgen]
    exact decode_encode (.claim _) (demo.takeoverRecord_wellFormed _ _ _ _) _ _
  generalize hreport : ({ report with claimChainsScanned := report.claimChainsScanned + 1 } : RepairReport) =
    report1
  have hrecord : Evals h (demo.auditRecord 0 jobZero (report1.push ⟨.chainGap, claimKey 2, 0x0015⟩, [])
      (2, info)) (b + 2) s (.ok (report1.push ⟨.chainGap, claimKey 2, 0x0015⟩,
        [some (demo.takeoverRecord jobZero ⟨0, 1, 1⟩ tail token)])) (b + 1) s1 := by
    refine evals_spend (evals_store h1 ?_)
    dsimp only
    rw [show demo.decodeAt (.claim 0 jobZero (2 : UInt64).toUInt32) (grantBody ⟨0, 1, 1⟩ tail token) = _
      from hdec]
    exact Evals.pure _
  have hhead : Evals h (demo.auditHead 0 jobZero report1 (2, info)) (b + 2) s
      (.ok (report1.push ⟨.chainGap, claimKey 2, 0x0015⟩)) (b + 2) s := by
    have hsecond : (2 : UInt64) ≠ 1 := by decide
    unfold Queue.auditHead
    rw [if_pos hsecond]
    exact (Evals.pure ()).bind (Evals.pure _)
  have hchain : Evals h (demo.auditClaimChain 0 jobZero [(2, info)] report1) (b + 2) s
      (.ok (report1.push ⟨.chainGap, claimKey 2, 0x0015⟩, 2, info, 1)) (b + 1) s1 :=
    Evals.foldM_nil.bind <| hhead.bind <| (Evals.foldM_cons hrecord Evals.foldM_nil).bind <|
      Evals.foldM_nil.bind (Evals.pure _)
  have hlease : Evals h (demo.restoreLease 0 jobZero (report1.push ⟨.chainGap, claimKey 2, 0x0015⟩) 2 info 1)
      (b + 1) s1 (.ok ((report1.push ⟨.chainGap, claimKey 2, 0x0015⟩).regenerated true)) b s' := by
    unfold Queue.restoreLease
    rw [hbucket, bucket_demo]
    exact (evals_ensureIndex h2 h3).bind (Evals.pure _)
  unfold Queue.repairChain
  rw [show ((jobZero, [((2 : UInt64), info)]).2.mergeSort fun a b => a.1 ≤ b.1) = [(2, info)] from
    List.mergeSort_singleton _]
  subst hreport
  exact hchain.bind hlease

/-- The dead record of time one, without its index entry. -/
lemma evals_buriedRecord (report : RepairReport) {item : Listing} (hkey : item.key = deadKey)
    (htime : item.info.storeTimeNs = 1) (h1 : Serves h s (.head buriedIndex) (.error .notFound) s1)
    (h2 : Serves h s1 (.putIfAbsent buriedIndex [] (Sha256.digest [])) ans s') :
    Evals h (demo.repairTerminal 0 (report, []) item) (b + 1) s
      (.ok ({ report with indexesRegenerated := report.indexesRegenerated + 1 }, [(jobZero, 1)])) b s' := by
  have hparse : demo.parseRel item.key = some (.dead 0 jobZero) := by
    rw [hkey]
    exact demo.parseRel_absolute _
  have hbucket : Math.bucketNumber 1 demo.format.terminalBucketWidthNs = some 1 := by decide
  unfold Queue.repairTerminal
  dsimp only
  rw [hparse, htime]
  dsimp only
  rw [hbucket]
  exact (evals_ensureIndex h1 h2).bind (Evals.pure _)

end Evaluation

set_option maxRecDepth 8000 in
/-- The scan after the collection has deleted the first claim. -/
lemma scan_halved {v v1 v3 v5 v6 : Version} {handles : Nat → HandleState} {n : Nat} (b : Nat) :
    ∃ s', (⟨demo, .repairScan 0, b + 7⟩ : Call).prog.run (staged faultless) ⟨remains id v v1 v3 v5 v6, 1, handles, n⟩ =
      (.ok (.repairScan gapped none), s') := by
  have hparse : demo.parseRel (claimKey 2) = some (.claim 0 jobZero 2) := demo.parseRel_absolute _
  have hcollect : ∀ (report : RepairReport) (info : Meta) (b : Nat) (s : Stage), Evals (staged faultless)
      (demo.collectChain (report, []) ⟨claimKey 2, info⟩) b s (.ok (report, [(jobZero, [(2, info)])])) b s := by
    intro report info b s
    unfold Queue.collectChain
    dsimp only
    rw [hparse]
    exact Evals.pure _
  have hshard : ∃ s', Evals (staged faultless) (demo.repairShard 0 {}) (b + 7)
      ⟨remains id v v1 v3 v5 v6, 1, handles, n⟩ (.ok { gapped with shardsScanned := 0 }) b s' := by
    refine ⟨⟨((remains id v v1 v3 v5 v6).insert (leaseKey 2 2) ⟨[], versionAt (n + 5), 1⟩).insert buriedIndex
      ⟨[], versionAt (n + 9), 1⟩, 1, handles, n + 10⟩, ?_⟩
    refine (evals_pages_one (serves_list rfl rfl) (Evals.pure _)).bind ?_
    refine (Evals.foldM_cons (evals_smallJob {} rfl
      (show Serves _ _ (.get jobKey) (.ok ⟨Stored.info ⟨jobBody 2, v, 0⟩, jobBody 2⟩) _ from serves_get rfl rfl))
      Evals.foldM_nil).bind ?_
    refine (evals_pages_one (serves_list rfl rfl) (Evals.pure _)).bind ?_
    refine (Evals.foldM_cons (hcollect _ _ _ _) Evals.foldM_nil).bind ?_
    refine (Evals.foldM_cons (evals_gap _ rfl rfl (show Serves _ _ (.get (claimKey 2)) (.ok ⟨Stored.info ⟨_, v3, 1⟩,
      grantBody ⟨0, 1, 1⟩ (firstTail (tokenAt 8) v1) (tokenAt 19)⟩) _ from serves_get rfl rfl)
      (serves_head_absent rfl rfl) (serves_put rfl rfl)) Evals.foldM_nil).foldAny.bind ?_
    refine (evals_pages_nil (serves_list rfl rfl)).bind (Evals.foldM_nil.bind ?_)
    refine (evals_pages_one (serves_list rfl rfl) (Evals.pure _)).bind ?_
    exact (Evals.foldM_cons (evals_buriedRecord _ rfl rfl (serves_head_absent rfl rfl) (serves_put rfl rfl))
      Evals.foldM_nil).bind Evals.foldM_nil.foldAny
  obtain ⟨s', hshard⟩ := hshard
  have hscan : Evals (staged faultless) (demo.repairScan 0) (b + 7) ⟨remains id v v1 v3 v5 v6, 1, handles, n⟩
      (.ok (gapped, none)) b s' := by
    refine hshard.bind (Evals.remaining.bind ?_)
    split <;> exact Evals.pure _
  exact ⟨s', run_call (hscan.bind (Evals.pure _))⟩

end Halved

open Halved Scenario

/-- A burial by a worker that was given the claim. -/
lemma burial_honest [Sha256] {cfg : Calls} {i : Nat} {call : Call} {c : Claim}
    (hret : cfg.Returned i call (.ok (.claim (.claimed c)))) :
    (honest demo.site demo.format).start cfg j (burial c) := by
  refine ⟨rfl, rfl, nofun, fun c' hc' => ?_, nofun⟩
  obtain rfl : c = c' := Option.some.inj hc'
  exact ⟨i, call, _, hret, List.mem_singleton_self c⟩

set_option maxRecDepth 8000 in
/-- A job with one delivery is buried, and its collection may be cut off anywhere. -/
theorem cut_gc_adds_no_finding_slim : ∃ (_ : Sha256) (before : Calls),
    Doomed demo before.world.objects (satSub 2 0) 0 jobZero ∧
    ∀ mid, machine.Run (cuttingOff demo.site 3) (Calm.starting before 3 halfway) mid →
      AddsNoFinding demo 4 before mid := by
  let hash := Sha256.zero
  let late := tick 1 (once 2)
  let before := play faultless 2 (burial firstClaim) late
  have hspares : (honest demo.site demo.format).env (once 2).world (.tick 1) := fun _ _ _ _ => trivial
  have hbefore : machine.Run (honest demo.site demo.format) (Machine.initial (blank 0)) before :=
    ((run_once_honest 2).trans (run_tick hspares)).trans
      (run_plainly (burial_honest (once_at (by decide)).2) (fun _ _ => trivial) (once_free (le_refl 2)))
  obtain ⟨handles, hbury⟩ := run_burial (n := 12) firstClaim
    (delivered 2 (tokenAt 8) (versionAt 1) (versionAt 8) (versionAt 10)) rfl rfl rfl rfl rfl rfl rfl rfl rfl rfl
  have hobjs := congrArg Stage.objects (play_at (i := 2) (tick_at (once_at (by decide)).1) hbury).1
  change before.world.objects = _ at hobjs
  have hfresh : Fresh demo.site (blank 0) := ⟨rfl, fun _ _ _ _ => rfl⟩
  have hkeys : ∀ key stored, before.world.objects.get? key = some stored →
      key ∈ [buriedIndex, beaconKey 14, deadKey, leaseKey 1 1, claimKey 1, jobKey] := by
    intro key stored hget
    rw [hobjs] at hget
    have hall : ∀ e ∈ (buried (delivered 2 (tokenAt 8) (versionAt 1) (versionAt 8) (versionAt 10)) firstClaim 14
        (versionAt 13) (versionAt 14) (versionAt 17)).entries,
        e.1 ∈ [buriedIndex, beaconKey 14, deadKey, leaseKey 1 1, claimKey 1, jobKey] := by decide +kernel
    exact hall _ ((OrderedMap.mem_entries_iff _).mpr hget)
  have hslim : ∀ shard jobId, Slim demo.site before.world.objects shard jobId := by
    intro shard jobId
    constructor
    · intro g e he
      obtain ⟨stored, hget, -⟩ := get?_of_claimAt he
      have hmem := hkeys _ _ hget
      simp [buriedIndex, beaconKey, deadKey, leaseKey, claimKey, jobKey, Queue.absolute, Site.absolute_inj] at hmem
      exact hmem.2.2
    · intro shard' stored job hget hdec
      have hmem := hkeys _ _ hget
      simp [buriedIndex, beaconKey, deadKey, leaseKey, claimKey, jobKey, Queue.absolute, Site.absolute_inj] at hmem
      obtain ⟨rfl, rfl⟩ := hmem
      rw [hobjs] at hget
      cases hget
      cases hdec.symm.trans (decode_jobBody 2)
      rfl
  refine ⟨hash, before, ?_, fun mid hmid => cut_gc_adds_no_finding demo.site demo.format (blank 0) hfresh before
    hbefore demo rfl rfl 2 0 2 14 3 (fun shard jobId _ => hslim shard jobId) mid hmid demo rfl 4⟩
  rw [hobjs]
  exact ⟨.dead, buriedIndex, _, by decide, Option.some_ne_none _, by decide, rfl, show (1 : UInt64) < satSub 2 0 by decide⟩

set_option maxRecDepth 8000 in
/-- Without that condition it does: the first of two claims is deleted, and the scan finds the
second one without it. -/
theorem cut_gc_adds_finding : ¬ ∃ _ : Sha256, ∀ S F w, Fresh S w → ∀ before,
    machine.Run (honest S F) (Machine.initial w) before → ∀ q : Queue, q.site = S → q.format = F →
    ∀ nowNs retentionNs orphanHorizonNs budget j mid, machine.Run (cuttingOff S j)
      (Calm.starting before j ⟨q, .gc nowNs retentionNs orphanHorizonNs, budget⟩) mid →
    ∀ auditor : Queue, auditor.site = S → ∀ k, AddsNoFinding auditor k before mid := by
  rintro ⟨_, hall⟩
  let before := play faultless 3 (burial (secondClaim (versionAt 8))) twice
  let mid := play faultless 4 halfway before
  have hbefore : machine.Run (honest demo.site demo.format) (Machine.initial (blank 0)) before :=
    run_twice_honest.trans (run_plainly (burial_honest twice_at.2) (fun _ _ => trivial)
      ((play_threads (by decide)).trans (once_free (by decide))))
  have hfresh : Fresh demo.site (blank 0) := ⟨rfl, fun _ _ _ _ => rfl⟩
  obtain ⟨handles, hbury⟩ := run_burial (n := 23) (secondClaim (versionAt 8))
    (redelivered 2 (tokenAt 8) (tokenAt 19) (versionAt 1) (versionAt 8) (versionAt 10) (versionAt 19)
      (versionAt 21)) rfl rfl rfl rfl rfl rfl rfl rfl rfl rfl
  -- the collection, up to the first claim
  obtain ⟨hmid, -⟩ : stage mid = _ ∧ _ := play_at (play_at twice_at.1 hbury).1 run_halfway
  have hcut : machine.Run (cuttingOff demo.site 4) (Calm.starting before 4 halfway) mid :=
    solo_plainly fun _ _ => cuttingOff_step_self.mpr fun _ _ _ => rfl
  obtain ⟨enough, hscans⟩ := hall demo.site demo.format (blank 0) hfresh before hbefore demo rfl rfl 2 0 2 14 4 mid
    hcut demo rfl 5
  -- both scans
  let b := max enough (fullScanCost demo before.world.objects)
  obtain ⟨hreturns, hsub⟩ := hscans (b + 7) (by omega)
  obtain ⟨after0, out0, hrun0, hret0⟩ := hreturns before List.mem_cons_self
  obtain ⟨report, rfl, hfindings⟩ := quiet_scan (run_orderly hfresh hbefore)
    (show fullScanCost demo before.world.objects ≤ b + 7 by omega) hrun0 hret0
  let scan : Call := ⟨demo, .repairScan 0, b + 7⟩
  obtain ⟨s', hscan⟩ := scan_halved b
  have hrun1 : machine.Run (Calm.terms Set.univ 5) (Calm.starting mid 5 scan) (play faultless 5 scan mid) :=
    solo_plainly fun _ _ => Calm.step_self.mpr rfl
  obtain ⟨report0, report1, hok0, hok1, hle⟩ := hsub _ _ _ _ hrun0 hret0 hrun1 (play_at hmid hscan).2
  cases hok0
  cases hok1
  obtain ⟨i, -, jobId, heq, -⟩ := (hfindings _).mp (hle (List.mem_singleton_self _))
  cases heq

end Audit
end StowQ
