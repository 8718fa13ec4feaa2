import StowQ.Core.GcRules
import StowQ.Scenario.Basic

/-!
# The terminal record outlives the job record

A collection deletes a job's graph with the job record second to last and the terminal
record last.  If every delete of the job record takes effect, the job record is gone
whenever the terminal record is: `tombstone_outlives_job`.

The answers of the deletes are dropped, so a delete of the job record that fails is
followed by the delete of the terminal record all the same: `tombstone_lost`.
-/

namespace StowQ
namespace Gc

open Data StowQ.Core Store Format Concurrent Interleaving Keys

variable {S : Site} {c : Choice} {key : Str}

/-- An object is stored at a key. -/
def Present (S : Site) (objs : Objects) (k : Key) : Prop :=
  objs.get? (S.absolute k) ≠ none

/-- One collection and nobody else.  `reaches` says which failures its requests may meet. -/
def alone (S : Site) (reaches : Op → Choice → Prop) : Terms where
  start cfg _ call := call.queue.site = S ∧
    (∃ nowNs retentionNs orphanHorizonNs, call.action = .gc nowNs retentionNs orphanHorizonNs) ∧
      ∀ j, cfg.threads j = none
  step _ _ _ o c := reaches o c
  env _ e := ∃ clock, e = .tick clock

/-- Deletes of the job record take effect, though their answers may be lost. -/
def JobDeletesReach (S : Site) (shard : UInt16) (jobId : ByteArr 16) (o : Op) (c : Choice) : Prop :=
  o = .store (.delete (S.absolute (.job shard jobId))) →
    c.fault = none ∨ ∃ why, c.fault = some (.postTransmitAfter why)

section Tombstone

variable [Sha256]

/-- A job with exactly one terminal record is not resurrected: in every configuration of the
run without the terminal record there is no job record either. -/
def Tombstone (S : Site) (P : Terms) (shard : UInt16) (jobId : ByteArr 16) (w : World) : Prop :=
  ∀ kind, (∀ kind', Present S w.objects (Queue.terminalRel kind' shard jobId) ↔ kind' = kind) →
    ∀ cfg : Calls, machine.Run P (Machine.initial w) cfg →
      ¬ Present S cfg.world.objects (Queue.terminalRel kind shard jobId) →
        ¬ Present S cfg.world.objects (.job shard jobId)

/-- The job record lies under its terminal record. -/
def Covered (S : Site) (kind : TermKind) (shard : UInt16) (jobId : ByteArr 16) (w : World) :
    Prop :=
  Present S w.objects (.job shard jobId) → Present S w.objects (Queue.terminalRel kind shard jobId)

/-- Absent keys stay absent. -/
def shrinks : Rely World where
  rel w w' := ∀ key, w.objects.get? key = none → w'.objects.get? key = none
  refl _ _ h := h
  trans h h' key habs := h' key (h key habs)

variable {q : Queue} {kind : TermKind} {shard : UInt16} {jobId : ByteArr 16} {i : Nat}
  {call : Call} {w : World}

/-- The discipline of a collection whose deletes of the job record take effect. -/
abbrev burying (S : Site) (kind : TermKind) (shard : UInt16) (jobId : ByteArr 16) (i : Nat)
    (call : Call) : Discipline World Op Res :=
  uniform (alone S (JobDeletesReach S shard jobId)) (Covered S kind shard jobId)
    (fun _ => shrinks) i call

omit [Sha256] in
lemma Covered.congr {w' : World} (h : Covered S kind shard jobId w) (hobjs : w'.objects = w.objects) :
    Covered S kind shard jobId w' := by
  unfold Covered at h ⊢
  rwa [hobjs]

lemma covered_read {r : Request} (hr : r.reads = true) (h : Covered S kind shard jobId w) :
    Covered S kind shard jobId (w.request i r c) ∧ ∀ _ : Nat, shrinks.rel w (w.request i r c) := by
  have hobjs : (w.request i r c).objects = w.objects := inject_reads hr
  refine ⟨h.congr hobjs, fun _ key habs => ?_⟩
  rwa [hobjs]

lemma shrinks_delete : shrinks.rel w (w.request i (.delete key) c) := by
  intro key' habs
  show (inject c.fault w.objects c.stamp (.delete key)).2.get? key' = none
  rcases inject_delete c.fault w.objects c.stamp key with h | h
  · rwa [h]
  · rw [h, OrderedMap.get?_erase]
    split
    · rfl
    · exact habs

/-- A delete of any key but the terminal record. -/
lemma covered_delete (hkey : key ≠ S.absolute (Queue.terminalRel kind shard jobId))
    (h : Covered S kind shard jobId w) : Covered S kind shard jobId (w.request i (.delete key) c) := by
  intro hjob
  have hjob' : Present S w.objects (.job shard jobId) := fun habs =>
    hjob (shrinks_delete _ habs)
  show (inject c.fault w.objects c.stamp (.delete key)).2.get? _ ≠ none
  rcases inject_delete c.fault w.objects c.stamp key with hsame | herase
  · rw [hsame]
    exact h hjob'
  · rw [herase, OrderedMap.get?_erase_of_ne _ (Ne.symm hkey)]
    exact h hjob'

/-- Discarding a key that is not the terminal record. -/
lemma holds_discard_other (hkey : key ≠ S.absolute (Queue.terminalRel kind shard jobId)) :
    Holds (burying S kind shard jobId i call) (Queue.discard key) (OnOk Any) w := by
  refine holds_discard (K := fun _ => True) (fun _ _ _ _ h => h) ?_
  exact holds_uniform_last (o := .store (.delete key)) fun w1 c _ hi _ =>
    ⟨⟨covered_delete hkey hi, fun _ => shrinks_delete⟩, fun _ _ => trivial⟩

lemma holds_discard_job :
    Holds (burying S kind shard jobId i call) (Queue.discard (S.absolute (.job shard jobId)))
      (OnOk fun _ w' => ¬ Present S w'.objects (.job shard jobId)) w := by
  have hkept : Kept (burying S kind shard jobId i call)
      fun w' => ¬ Present S w'.objects (.job shard jobId) := fun a b _ hab hgone hb =>
    hb (hab _ (not_not.mp hgone))
  refine holds_discard hkept (holds_uniform_last (o := .store (.delete _)) fun w1 c _ hi hc =>
    ⟨⟨covered_delete ?_ hi, fun _ => shrinks_delete⟩, fun w2 hw2 hpresent => hpresent (hw2 _ ?_)⟩)
  · rw [ne_eq, Site.absolute_inj]
    cases kind <;> exact nofun
  · have herase : (w1.request i (.delete (S.absolute (.job shard jobId))) c).objects =
        w1.objects.erase (S.absolute (.job shard jobId)) := by
      show (inject c.fault _ _ _).2 = _
      rcases hc rfl with h | ⟨why, h⟩
      · rw [h]
        rfl
      · rw [h]
        rfl
    show (w1.request i (.delete (S.absolute (.job shard jobId))) c).objects.get? _ = none
    rw [herase, OrderedMap.get?_erase_self]

lemma holds_discard_terminal (hgone : ¬ Present S w.objects (.job shard jobId)) (key : Str) :
    Holds (burying S kind shard jobId i call) (Queue.discard key) (OnOk Any) w := by
  refine holds_discard (K := fun _ => True) (fun _ _ _ _ h => h) ?_
  refine holds_uniform_last (o := .store (.delete key)) fun w1 c hw1 _ _ =>
    ⟨⟨fun hjob => absurd ?_ hjob, fun _ => shrinks_delete⟩, fun _ _ => trivial⟩
  exact shrinks_delete _ (hw1 _ (not_not.mp hgone))

lemma holds_burying_list {pre : Str} {after : Option Str} {limit : Nat} :
    Holds (burying S kind shard jobId i call) (Routine.list pre after limit) (OnOk fun r _ =>
      ∀ page, r = .ok page → ∀ x ∈ page.items, pre <+: x.key ∧ True) w :=
  (holds_uniform_list fun _ _ hi _ => covered_read rfl hi).mono fun _ _ _ _ h r hr page hpage x hx =>
    ⟨h r hr page hpage x hx, trivial⟩

/-- What a collection knows here: nothing from its looks, and the absence of the job record
after its delete. -/
def verdicts (S : Site) (shard : UInt16) (jobId : ByteArr 16) : Verdicts World where
  listed _ _ := True
  absent _ _ _ := True
  ended _ _ _ _ := True
  cleared _ _ _ := True
  gone s j w' := s = shard → j = jobId → ¬ Present S w'.objects (.job shard jobId)

lemma burying_collects (cutoff : UInt64) (hinv : Covered q.site kind shard jobId w) :
    Core.Collects (burying q.site kind shard jobId i call) q w cutoff
      (verdicts q.site shard jobId) where
  inv := hinv
  kept := ⟨fun _ _ _ _ _ h => h, fun _ _ _ _ _ _ h => h, fun _ _ _ _ _ _ _ h => h,
    fun _ _ _ _ _ _ h => h, fun s j a b _ hab h hs hj hb => hb (hab _ (not_not.mp (h hs hj)))⟩
  list pre after limit w' _ _ := holds_burying_list
  head key w' _ _ := holds_uniform_last (o := .store (.head key)) fun w1 c _ hi _ =>
    ⟨covered_read rfl hi, fun _ _ => trivial⟩
  job s j w' _ _ := holds_uniform_last (o := .store (.head _)) fun w1 c _ hi _ =>
    ⟨covered_read rfl hi, fun _ _ _ => trivial⟩
  terminal k s j key w' _ _ _ _ _ := holds_uniform_last (o := .store (.head _)) fun w1 c _ hi _ =>
    ⟨covered_read rfl hi, fun _ _ _ _ _ => trivial⟩
  discardOrphan s j key w' _ _ hkey _ :=
    holds_discard_other (ne_absolute_of_aside hkey.plane (terminal_not_aside _ _ _))
  discardBeacon key hkey w' _ _ := by
    have hplane : q.site.plane key = some metaSeg := q.site.plane_of_dir (by decide) hkey
    exact holds_discard_other (ne_absolute_of_aside ⟨_, by decide, hplane⟩ (terminal_not_aside _ _ _))
  discardIndex key hkey w' _ _ :=
    holds_discard_other (ne_absolute_of_aside ⟨_, by decide, hkey⟩ (terminal_not_aside _ _ _))
  discardInner k s j key w' _ _ hkey _ :=
    holds_discard_other (ne_absolute_of_aside hkey.plane (terminal_not_aside _ _ _))
  clearClaims k s j w' hi _ _ := (holds_discardAll (L := fun _ _ => True) hi (fun _ _ _ _ _ h => h)
      (fun after w1 _ _ => holds_burying_list) fun key hkey w1 _ _ => holds_discard_other
        (ne_absolute_of_aside (GraphKey.claim hkey).plane (terminal_not_aside _ _ _))).mono
      fun _ _ _ _ _ _ _ => trivial
  discardJob k s j w' _ _ _ _ := by
    by_cases hjob : s = shard ∧ j = jobId
    · obtain ⟨rfl, rfl⟩ := hjob
      exact holds_discard_job.mono fun r _ _ _ hr a ha _ _ => hr a ha
    · have hne : q.absolute (.job s j) ≠ q.site.absolute (Queue.terminalRel kind shard jobId) := by
        rw [ne_eq, Site.absolute_inj]
        cases kind <;> exact nofun
      exact (holds_discard_other hne).mono fun r _ _ _ _ a _ hs hj => absurd ⟨hs, hj⟩ hjob
  discardTerminal k s j w' _ _ _ hgone := by
    by_cases hjob : s = shard ∧ j = jobId
    · exact holds_discard_terminal (hgone hjob.1 hjob.2) _
    · refine holds_discard_other ?_
      rw [ne_eq, Site.absolute_inj]
      rintro heq
      cases k <;> cases kind <;> cases heq <;> exact hjob ⟨rfl, rfl⟩

lemma burying_obligations (S : Site) (kind : TermKind) (shard : UInt16)
    (jobId : ByteArr 16) : Obligations machine (alone S (JobDeletesReach S shard jobId))
    (Covered S kind shard jobId) (fun _ _ => shrinks) (fun _ _ w w' => Nat → shrinks.rel w w')
    (fun _ _ _ _ => True) := by
  refine uniform_obligations (fun _ => shrinks) (fun cfg i call hinv _ hadm =>
    ⟨hinv.congr rfl, fun _ _ h => h, ?_⟩) (fun i out w hinv => ⟨hinv.congr rfl, fun _ _ _ h => h⟩)
    (fun _ _ _ _ _ _ _ h => h) fun w e hinv he => ?_
  · obtain ⟨q, action, budget⟩ := call
    obtain ⟨rfl, ⟨nowNs, retentionNs, orphanHorizonNs, rfl⟩, -⟩ := hadm
    have hstart : Covered q.site kind shard jobId (cfg.world.record
        (.started i ⟨q, .gc nowNs retentionNs orphanHorizonNs, budget⟩)) := hinv.congr rfl
    refine Holds.mono (Q := OnOk Any) ?_ fun _ _ _ _ _ => trivial
    exact ((burying_collects _ hstart).holds_gc orphanHorizonNs).andThen
      fun _ _ _ _ _ => holds_any
  · obtain ⟨clock, rfl⟩ := he
    exact ⟨hinv.congr rfl, fun _ _ h => h⟩

/-- **The terminal record outlives the job record**, whatever fails and wherever the
collection stops, as long as deletes of the job record take effect. -/
theorem tombstone_outlives_job (S : Site) (shard : UInt16) (jobId : ByteArr 16) (w : World) :
    Tombstone S (alone S (JobDeletesReach S shard jobId)) shard jobId w := by
  intro kind honly cfg hrun hgone hjob
  have hstart : Covered S kind shard jobId w := fun _ => (honly kind).mpr rfl
  have hgood := (burying_obligations S kind shard jobId).run_good
    (Obligations.initial_good hstart) hrun
  exact hgone (hgood.1 hjob)

end Tombstone

end Gc

/-! ## Collecting an ended job

A job that was buried without ever being claimed, and a collection that finds its dead record through the
terminal index.
-/

namespace Scenario

open Data StowQ.Core Store Format Concurrent Interleaving Keys
open Budgeted (Evals)

/-- The index entry of the dead record. -/
def indexKey : Str := demo.absolute (.termIndex 0 .dead 0 jobZero)

/-- A collection of everything older than time 1. -/
def collect : Call := ⟨demo, .gc 1 0 0, 14⟩

/-- A later one, for which everything is old. -/
def sweep : Call := ⟨demo, .gc 5 0 0, 20⟩

section Ended

variable [Sha256]

/-- The job enqueued and buried, at time 0. -/
def ended : World where
  objects := ((OrderedMap.empty.insert jobKey
      ⟨jobBody 1, ⟨['a']⟩, 0⟩).insert
    deadKey ⟨demo.encodeAt (.dead 0 jobZero) (.dead ⟨jobZero, 1, 1, 4⟩), ⟨['b']⟩, 0⟩).insert
    indexKey ⟨[], ⟨['c']⟩, 0⟩
  clock := 1
  handles := fun _ => {}
  log := []

variable {σ : Type} {h : Handler Op Res σ} {n : Nat}

/-- A collection at time 1 that finds the index entry of an ended job. -/
lemma run_collect {s s1 s2 s3 s4 s5 s6 s7 s8 s9 s10 s11 s12 s13 s' : σ} {index dead : Meta}
    {a8 a9 a13 a14 : StoreResult Unit}
    (h1 : Serves h s (.list (demo.under [payloadsSeg]) none 64) (.ok ⟨[], none⟩) s1)
    (h2 : Serves h s1 (.list (demo.under [claimsSeg]) none 64) (.ok ⟨[], none⟩) s2)
    (h3 : Serves h s2 (.list (demo.under [metaSeg, clockSeg]) none 64) (.ok ⟨[], none⟩) s3)
    (h4 : Serves h s3 (.list (demo.under [termidxSeg]) none 64) (.ok ⟨[⟨indexKey, index⟩], none⟩) s4)
    (h5 : Serves h s4 (.head deadKey) (.ok dead) s5) (hold : dead.storeTimeNs = 0)
    (h6 : Serves h s5 (.list (demo.under [leasesSeg]) none 64) (.ok ⟨[], none⟩) s6)
    (h7 : Serves h s6 (.list (demo.under [delayedSeg]) none 64) (.ok ⟨[], none⟩) s7)
    (h8 : Serves h s7 (.delete indexKey) a8 s8)
    (h9 : Serves h s8 (.delete (demo.absolute (.tail 0 jobZero))) a9 s9)
    (h10 : Serves h s9 (.list (demo.under [failsSeg, hex16 0, hex jobZero.toList]) none 64)
      (.ok ⟨[], none⟩) s10)
    (h11 : Serves h s10 (.list (demo.under [claimsSeg, hex16 0, hex jobZero.toList]) none 64)
      (.ok ⟨[], none⟩) s11)
    (h12 : Serves h s11 (.list (demo.under [payloadsSeg, hex jobZero.toList]) none 64) (.ok ⟨[], none⟩) s12)
    (h13 : Serves h s12 (.delete jobKey) a13 s13) (h14 : Serves h s13 (.delete deadKey) a14 s') :
    collect.prog.run h s = (.ok (.gc ⟨1, 0, 0, 0⟩), s') := by
  have hentry : parseTermEntry (if demo.root.isPrefixOf indexKey then indexKey.drop demo.root.length else []) =
      some (.dead, 0, jobZero) := by decide
  have hold : ¬ satSub 1 0 ≤ dead.storeTimeNs := by
    rw [hold]
    decide
  have hgraph : Evals h (demo.deleteTerminalGraph 0 jobZero (.dead 0 jobZero) indexKey) 9 s5 (.ok true) 0 s' :=
    (evals_pages_nil h6).bind <| (evals_pages_nil h7).bind <| (evals_discard h8).bind <| (evals_discard h9).bind <|
      (evals_pages_nil h10).bind <| (evals_pages_nil h11).bind <| (evals_pages_nil h12).bind <|
      (evals_discard h13).bind <| (evals_discard h14).bind (Evals.pure _)
  have hitem : Evals h (demo.gcTerminal (satSub 1 0) {} ⟨indexKey, index⟩) 10 s4 (.ok ⟨1, 0, 0, 0⟩) 0 s' :=
    evals_gcTerminal .dead 0 jobZero hentry h5 hold (hgraph.bind (Evals.pure _))
  have hgc : Evals h (demo.gc 1 0 0) 14 s (.ok ⟨1, 0, 0, 0⟩) 0 s' :=
    (evals_pages_nil h1).bind <| (evals_pages_nil h2).bind <| (evals_pages_nil h3).bind (evals_pages_one h4 hitem)
  exact run_call (hgc.bind (Evals.pure _))

set_option maxRecDepth 8000 in
/-- The collection of the ended job, with nothing in between. -/
lemma run_collect_ended : collect.prog.run (staged faultless) ⟨ended.objects, 1, fun _ => {}, n⟩ =
    (.ok (.gc ⟨1, 0, 0, 0⟩), ⟨OrderedMap.empty, 1, fun _ => {}, n + 14⟩) :=
  run_collect (serves_list rfl rfl) (serves_list rfl rfl) (serves_list rfl rfl) (serves_list rfl rfl)
    (serves_head rfl rfl) rfl (serves_list rfl rfl) (serves_list rfl rfl) (serves_delete rfl) (serves_delete rfl)
    (serves_list rfl rfl) (serves_list rfl rfl) (serves_list rfl rfl) (serves_delete rfl) (serves_delete rfl)

end Ended

end Scenario

namespace Gc

open Data StowQ.Core Store Format Concurrent Interleaving Keys

/-! ## A delete that fails -/

namespace Loss

open Scenario
open Budgeted (Evals)

/-- The collection's thirteenth request, the delete of the job record, is not transmitted. -/
def faults (n : Nat) : Option Fault := if n = 13 then some .preTransmit else none

/-- The delete of the tail hint is not transmitted, and the answer to that of the job record is lost. -/
def survived (n : Nat) : Option Fault :=
  if n = 9 then some .preTransmit else if n = 13 then some (.postTransmitAfter .timeout) else none

variable [Sha256]

lemma only_dead (kind : TermKind) :
    Present demo.site ended.objects (Queue.terminalRel kind 0 jobZero) ↔ kind = .dead := by
  unfold Present
  cases kind with
  | dead => simp [ended, OrderedMap.get?_insert, indexKey, deadKey, jobKey, Queue.terminalRel]
  | receipt => simp [ended, OrderedMap.get?_insert, indexKey, deadKey, jobKey, Queue.terminalRel]

set_option maxRecDepth 8000 in
/-- The collection leaves the job record and not the dead record. -/
lemma run_lossy : collect.prog.run (staged faults) ⟨ended.objects, 1, fun _ => {}, 1⟩ =
    (.ok (.gc ⟨1, 0, 0, 0⟩), ⟨OrderedMap.empty.insert jobKey ⟨jobBody 1, ⟨['a']⟩, 0⟩, 1, fun _ => {}, 15⟩) :=
  run_collect (serves_list rfl rfl) (serves_list rfl rfl) (serves_list rfl rfl) (serves_list rfl rfl)
    (serves_head rfl rfl) rfl (serves_list rfl rfl) (serves_list rfl rfl) (serves_delete rfl) (serves_delete rfl)
    (serves_list rfl rfl) (serves_list rfl rfl) (serves_list rfl rfl) (serves rfl) (serves_delete rfl)

end Loss

open Loss Scenario

/-- The condition leaves room for failures: the delete of the tail hint is not transmitted and the answer to the
delete of the job record is lost, and nothing of the job is left at the end. -/
theorem tombstone_outlives_job_cleared : ∃ (_ : Sha256) (cfg : Calls),
    machine.Run (alone demo.site (JobDeletesReach demo.site 0 jobZero)) (Machine.initial ended) cfg ∧
    cfg.Returned 0 collect (.ok (.gc ⟨1, 0, 0, 0⟩)) ∧
    Present demo.site ended.objects (.job 0 jobZero) ∧ ¬ Present demo.site cfg.world.objects (.dead 0 jobZero) ∧
    ¬ Present demo.site cfg.world.objects (.job 0 jobZero) := by
  let hash := Sha256.zero
  let cfg := play survived 0 collect (Machine.initial ended)
  have hrun : machine.Run (alone demo.site (JobDeletesReach demo.site 0 jobZero)) (Machine.initial ended) cfg := by
    refine run_checked (fun o w => w.log.length != 9 || o != .store (.delete jobKey)) (fun o w h => ?_)
      ⟨rfl, ⟨1, 0, 0, rfl⟩, fun _ => rfl⟩ rfl (by decide +kernel)
    rintro rfl
    have hlater : w.log.length ≠ 9 := by
      rintro hlen
      rw [hlen] at h
      cases h
    have hfault : survived w.log.length = none ∨ ∃ why, survived w.log.length = some (.postTransmitAfter why) := by
      unfold survived
      rw [if_neg hlater]
      split
      · exact .inr ⟨_, rfl⟩
      · exact .inl rfl
    exact hfault
  have hjob : ended.objects.get? jobKey ≠ none := by decide +kernel
  have hgone : ¬ cfg.world.objects.get? deadKey ≠ none := by decide +kernel
  exact ⟨hash, cfg, hrun, play_returned (by decide +kernel), hjob, hgone,
    tombstone_outlives_job demo.site 0 jobZero ended .dead only_dead cfg hrun hgone⟩

/-- With a failed delete of the job record the dead record is deleted all the same, and the
job is back. -/
theorem tombstone_lost : ¬ ∃ _ : Sha256, ∀ S shard jobId w,
    Tombstone S (alone S fun _ _ => True) shard jobId w := by
  rintro ⟨_, hall⟩
  have hrun : machine.Run (alone demo.site fun _ _ => True) (Machine.initial ended)
      (play faults 0 collect (Machine.initial ended)) :=
    run_plainly ⟨rfl, ⟨1, 0, 0, rfl⟩, fun _ => rfl⟩ (fun _ _ => trivial) rfl
  obtain ⟨hat, -⟩ : stage (play faults 0 collect (Machine.initial ended)) = _ ∧ _ := play_at rfl run_lossy
  refine hall demo.site 0 jobZero ended .dead only_dead _ hrun ?_ ?_
  all_goals
    unfold Present
    rw [show (play faults 0 collect (Machine.initial ended)).world.objects = _ from congrArg Stage.objects hat]
  · exact fun h => h rfl
  · exact fun h => Option.some_ne_none _ ((OrderedMap.get?_insert_self _ _ _).symm.trans h)

end Gc
end StowQ
