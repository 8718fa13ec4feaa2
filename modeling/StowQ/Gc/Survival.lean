import StowQ.Gc.Live
import StowQ.Gc.Tombstone

/-!
# Collections and new incarnations

The job record of a new incarnation, and the claims committed for it, survive every
collection if the record is created when no terminal record of the job is left and no
running collection has looked at the job: `incarnation_survives`.

Nothing in the code makes it so.  A collection looks at an old terminal record; a second
collection removes the whole graph; the job is enqueued again; and the first collection
goes on with its deletes: `incarnation_destroyed`.
-/

namespace StowQ
namespace Gc

open Data StowQ.Core Store Format Concurrent Interleaving Keys

/-- Any number of collections, enqueues and claim scans at one site. -/
def collecting (S : Site) (admits : World → Op → Choice → Prop) : Terms where
  start _ _ call := call.queue.site = S ∧ Watch.Participates call.action
  step w _ _ o c := admits w o c
  env _ e := ∃ clock, e = .tick clock

section Watching

variable [Sha256]

/-- The record of a job and its claims, as long as no terminal record is written. -/
def claimsWatch (S : Site) (shard : UInt16) (jobId : ByteArr 16) : Watch S where
  shard := shard
  jobId := jobId
  Ends key := ∃ kind, key = S.absolute (Queue.terminalRel kind shard jobId)
  Held key := key = S.absolute (.job shard jobId) ∨ ∃ g, key = S.absolute (.claim shard jobId g)
  Uses _ := True
  held_job := .inl rfl
  held_plane := by
    rintro key (rfl | ⟨g, rfl⟩)
    · exact ⟨jobsSeg, by simp, plane_absolute _ _⟩
    · exact ⟨claimsSeg, by simp, plane_absolute _ _⟩
  ends_job := by
    rintro ⟨kind, heq⟩
    rw [Site.absolute_inj] at heq
    cases kind <;> cases heq
  ends_graph := by
    rintro kind s j key hkey (rfl | ⟨g, rfl⟩)
    · rcases hkey with hkey | heq
      · exact absurd rfl (ne_absolute_of_aside hkey.plane (job_not_aside shard jobId))
      · rw [Site.absolute_inj] at heq
        cases heq
        exact ⟨kind, rfl⟩
    · rcases hkey with hkey | heq
      · have hdir : S.dir [claimsSeg, hex16 s, hex j.toList] <+: S.absolute (.claim shard jobId g) := by
          have hclaims : S.plane (S.absolute (.claim shard jobId g)) = some claimsSeg := plane_absolute _ _
          exact hkey.inOwnDir.1 hclaims
        obtain ⟨rfl, rfl⟩ := claim_of_claimsDir hdir
        exact ⟨kind, rfl⟩
      · rw [Site.absolute_inj] at heq
        cases heq
  orphan := by
    rintro q s j key rfl - hkey (rfl | ⟨g, rfl⟩)
    · exact absurd rfl (ne_absolute_of_aside hkey.plane (job_not_aside shard jobId))
    · cases hkey with
      | payload digest _ h =>
        rw [Site.absolute_inj] at h
        cases h
      | claim g' h =>
        rw [Site.absolute_inj] at h
        cases h
        exact ⟨rfl, rfl⟩

/-- Once the job record is created, and as long as no terminal record is written, the record
stays, and so does every claim committed since. -/
def Survives (S : Site) (P : Terms) (shard : UInt16) (jobId : ByteArr 16) : Prop :=
  ∀ (w : World) (created committed final : Calls), w.log = [] →
    machine.Run P (Machine.initial w) created → machine.Run P created committed →
    machine.Run P committed final →
    (∃ e earlier, created.world.log = e :: earlier ∧ Fills (S.absolute (.job shard jobId)) e) →
    (∀ new, final.world.log = new ++ created.world.log → ∀ e ∈ new, ∀ kind,
      ¬ Fills (S.absolute (Queue.terminalRel kind shard jobId)) e) →
    (∃ stored, created.world.objects.get? (S.absolute (.job shard jobId)) = some stored ∧
      final.world.objects.get? (S.absolute (.job shard jobId)) = some stored) ∧
    ∀ g stored, created.world.objects.get? (S.absolute (.claim shard jobId g)) = none →
      committed.world.objects.get? (S.absolute (.claim shard jobId g)) = some stored →
      final.world.objects.get? (S.absolute (.claim shard jobId g)) = some stored

/-- **A new incarnation survives** every collection, if it is created clear of them: at the moment its record is
created nothing is left of the end of the job before it, and no collection that is still running has looked at that
end.  The record and every claim committed since then stay until the job ends again. -/
theorem incarnation_survives (S : Site) (shard : UInt16) (jobId : ByteArr 16) :
    Survives S (collecting S fun w o _ => (claimsWatch S shard jobId).Clear w o) shard jobId := by
  intro w created committed final hw hrun1 hrun2 hrun3 hcreated hquiet
  let V := claimsWatch S shard jobId
  have hgoverns : V.Governs (collecting S fun w o _ => V.Clear w o) :=
    ⟨fun _ _ _ h => ⟨h.1, trivial, h.2⟩, fun _ _ _ _ _ h => h, fun _ _ h => h⟩
  have O := Watch.obligations hgoverns
  have hgood1 := O.run_good (Obligations.initial_good (.of_nil hw)) hrun1
  have hgood2 := O.run_good hgood1 hrun2
  have hlive : V.Live created.world.log := by
    obtain ⟨e, earlier, hlog, hfills⟩ := hcreated
    rw [hlog]
    exact .inl hfills
  obtain ⟨new2, hlog2, hkept2⟩ := Watch.run_stays hgoverns hgood1 hrun2
  obtain ⟨new3, hlog3, hkept3⟩ := Watch.run_stays hgoverns hgood2 hrun3
  have hall : ∀ e ∈ new3 ++ new2, ∀ t, V.Ends t → ¬ Fills t e := by
    rintro e he t ⟨kind, rfl⟩
    exact hquiet _ (by rw [hlog3, hlog2, List.append_assoc]) e he kind
  have hends2 : ∀ e ∈ new2, ∀ t, V.Ends t → ¬ Fills t e :=
    fun e he => hall e (List.mem_append_right new3 he)
  have hends3 : ∀ e ∈ new3, ∀ t, V.Ends t → ¬ Fills t e :=
    fun e he => hall e (List.mem_append_left new2 he)
  have hlive2 : V.Live committed.world.log := hlog2 ▸ hlive.append hends2
  constructor
  · obtain ⟨stored, hstored⟩ := Option.ne_none_iff_exists'.mp (hgood1.1.1 hlive).1
    refine ⟨stored, hstored, ?_⟩
    exact hkept3 hlive2 hends3 _ _ V.held_job (hkept2 hlive hends2 _ _ V.held_job hstored)
  · intro g stored _ hget
    exact hkept3 hlive2 hends3 _ _ (.inr ⟨g, rfl⟩) hget

end Watching

/-! ## A job enqueued between a look and its deletes -/

namespace Race

open Scenario

/-- Everything but creates. -/
def Uncreative : Op → Prop
  | .store (.putIfAbsent _ _ _) => False
  | _ => True

variable [Sha256]

/-- What follows `log` fills no key. -/
def Fillless (log : List Event) (w : World) : Prop :=
  ∃ new, w.log = new ++ log ∧ ∀ e ∈ new, ∀ key, ¬ Fills key e

lemma answers_uncreative (log : List Event) : Machine.Answers machine
    (collecting demo.site fun _ _ c => c.fault = none) 0 collect Uncreative (Fillless log) (plainly faultless 0) where
  exec _ w _ _ := ⟨plain faultless w, rfl, rfl⟩
  keeps o w ho hJ := by
    cases o with
    | store r =>
      obtain ⟨new, hlog, hnone⟩ := hJ
      refine ⟨_ :: new, congrArg (_ :: ·) hlog, fun e he key hfills => ?_⟩
      rcases List.mem_cons.mp he with rfl | he
      · obtain ⟨body, rfl, -⟩ := eq_put_of_fills hfills.1 hfills.2
        exact ho
      · exact hnone e he key hfills
    | _ => exact hJ

lemma collect_emits : collect.prog.Emits Uncreative := by
  have htame : Tame Uncreative :=
    ⟨trivial, fun _ => trivial, fun _ _ => trivial, fun _ _ _ _ => trivial, fun _ => trivial,
      fun _ _ _ => trivial⟩
  have htask : Budgeted.Emits Uncreative (collect.action.task demo) :=
    (Footprint.gc htame fun _ => trivial).bind fun _ => Budgeted.Keeps.pure _
  exact (htask.prog _).map

set_option maxRecDepth 8000 in
/-- The collection that is interrupted after its look at the dead record deletes what was
enqueued since. -/
lemma run_stale {v : Version} : collect.prog.run (interrupted (staged faultless) fun _ =>
      ⟨OrderedMap.empty.insert jobKey ⟨jobBody 1, v, 1⟩, 1, fun _ => {}, 23⟩)
      ⟨⟨ended.objects, 1, fun _ => {}, 1⟩, 5, none⟩ =
    (.ok (.gc ⟨1, 0, 0, 0⟩), ⟨⟨OrderedMap.empty, 1, fun _ => {}, 32⟩, 0,
      some ⟨ended.objects, 1, fun _ => {}, 6⟩⟩) :=
  run_collect (serves_list rfl rfl).ahead (serves_list rfl rfl).ahead (serves_list rfl rfl).ahead
    (serves_list rfl rfl).ahead (serves_head rfl rfl).struck rfl (serves_list rfl rfl).past
    (serves_list rfl rfl).past (serves_delete rfl).past (serves_delete rfl).past (serves_list rfl rfl).past
    (serves_list rfl rfl).past (serves_list rfl rfl).past (serves_delete rfl).past (serves_delete rfl).past

/-! ### A job that is enqueued again -/

/-- Call `i` has made no request since it returned. -/
def quit (i : Nat) : List Event → Bool
  | [] => true
  | .returned j _ :: log => j == i || quit i log
  | .did j _ _ _ _ :: log => j != i && quit i log
  | _ :: log => quit i log

lemma not_deciding_of_quit {V : Watch demo.site} {i : Nat} {log : List Event} (h : quit i log = true) :
    ¬ V.Deciding i log := by
  induction log with
  | nil => exact id
  | cons e log ih =>
    rintro (⟨key, answer, before, after, rfl, -⟩ | ⟨hdeciding, hrunning⟩)
    · simp [quit] at h
    · cases e with
      | returned j out =>
        rcases Bool.or_eq_true_iff.mp h with hj | hquit
        · exact hrunning out (congrArg (Event.returned · out) (beq_iff_eq.mp hj))
        · exact ih hquit hdeciding
      | did j r answer before after => exact ih (Bool.and_eq_true_iff.mp h).2 hdeciding
      | started j call => exact ih h hdeciding

/-- The job is created when it has no terminal record and nobody is at work. -/
def rested (o : Op) (w : World) : Bool :=
  match o with
  | .store (.putIfAbsent key _ _) => key != jobKey ||
      ((w.objects.get? receiptKey).isNone && (w.objects.get? deadKey).isNone && w.log.all fun
        | .started i _ => quit i w.log
        | _ => true)
  | _ => true

lemma clear_of_rested {o : Op} {w : World} (h : rested o w = true) :
    (claimsWatch demo.site 0 jobZero).Clear w o := by
  rintro body sha256 rfl -
  have hjob : ((claimsWatch demo.site 0 jobZero).job != jobKey) = false := bne_self_eq_false jobKey
  simp only [rested, hjob, Bool.false_or, Bool.and_eq_true, List.all_eq_true, Option.isNone_iff_eq_none] at h
  obtain ⟨⟨hreceipt, hdead⟩, hquit⟩ := h
  refine ⟨?_, fun i call hmem _ => not_deciding_of_quit (hquit _ hmem)⟩
  rintro t ⟨kind, rfl⟩
  cases kind with
  | receipt => exact hreceipt
  | dead => exact hdead

end Race

open Race Scenario

/-- A job that is collected and enqueued again: call 0 takes the old graph apart and returns, call 1 creates the
record anew, call 2 is given the first claim, and call 3, for which everything is old, leaves both alone. -/
theorem incarnation_survives_enqueued : ∃ (_ : Sha256) (created committed final : Calls) (job claim : Stored),
    machine.Run (collecting demo.site fun w o _ => (claimsWatch demo.site 0 jobZero).Clear w o)
      (Machine.initial ended) created ∧
    machine.Run (collecting demo.site fun w o _ => (claimsWatch demo.site 0 jobZero).Clear w o) created committed ∧
    machine.Run (collecting demo.site fun w o _ => (claimsWatch demo.site 0 jobZero).Clear w o) committed final ∧
    final.Returned 0 collect (.ok (.gc ⟨1, 0, 0, 0⟩)) ∧ final.Returned 3 sweep (.ok (.gc ⟨0, 0, 0, 0⟩)) ∧
    final.world.objects.get? jobKey = some job ∧ final.world.objects.get? (claimKey 1) = some claim := by
  let hash := Sha256.zero
  let P := collecting demo.site fun w o _ => (claimsWatch demo.site 0 jobZero).Clear w o
  have hstep : ∀ i call o w, rested o w = true → P.step w i call o (plain faultless w) :=
    fun _ _ _ _ => clear_of_rested
  let gone := play faultless 0 collect (Machine.initial ended)
  let created := play faultless 1 (enqueue 1) (finish 0 (.ok (.gc ⟨1, 0, 0, 0⟩)) gone)
  let committed := play faultless 2 (claiming 1 1) created
  let final := play faultless 3 sweep committed
  have hret : gone.Returned 0 collect (.ok (.gc ⟨1, 0, 0, 0⟩)) := play_returned (by decide +kernel)
  have hgone : machine.Run P (Machine.initial ended) gone :=
    run_checked rested (hstep 0 collect) ⟨rfl, .inl ⟨1, 0, 0, rfl⟩⟩ rfl (by decide +kernel)
  have hcreated : machine.Run P gone created := (run_finish hret (by decide +kernel)).trans <|
    run_checked rested (hstep 1 (enqueue 1)) ⟨rfl, .inr (.inl ⟨_, rfl⟩)⟩ (play_threads (by decide)) (by decide +kernel)
  have hcommitted : machine.Run P created committed :=
    run_checked rested (hstep 2 (claiming 1 1)) ⟨rfl, .inr (.inr (.inl ⟨_, rfl⟩))⟩
      ((play_threads (by decide)).trans (play_threads (by decide))) (by decide +kernel)
  have hfinal : machine.Run P committed final := run_checked rested (hstep 3 sweep) ⟨rfl, .inl ⟨5, 0, 0, rfl⟩⟩
      ((play_threads (by decide)).trans ((play_threads (by decide)).trans (play_threads (by decide)))) (by decide +kernel)
  have hquiet : ∀ kind, ∀ e ∈ final.world.log, ¬ Fills (demo.absolute (Queue.terminalRel kind 0 jobZero)) e := by
    intro kind
    cases kind <;> decide +kernel
  have hclaim : (committed.world.objects.get? (claimKey 1)).isSome := by decide +kernel
  obtain ⟨claim, hclaim⟩ := Option.isSome_iff_exists.mp hclaim
  obtain ⟨⟨job, -, hjob⟩, hkept⟩ := incarnation_survives demo.site 0 jobZero ended created committed final rfl
    (hgone.trans hcreated) hcommitted hfinal (exists_of_head? (by decide +kernel))
    fun new hnew e he kind => hquiet kind e (hnew ▸ List.mem_append_left _ he)
  exact ⟨hash, created, committed, final, job, claim, hgone.trans hcreated, hcommitted, hfinal,
    (play_threads (by decide)).trans ((play_threads (by decide)).trans ((play_threads (by decide)).trans hret)),
    play_returned (by decide +kernel), hjob, hkept 1 claim (by decide +kernel) hclaim⟩

/-- Without that condition a collection destroys a new incarnation: call 0 looks at the old
dead record, call 1 collects the job, call 2 enqueues it again, and call 0 goes on with its
deletes. -/
theorem incarnation_destroyed : ¬ ∃ _ : Sha256, ∀ S shard jobId,
    Survives S (collecting S fun _ _ c => c.fault = none) shard jobId := by
  rintro ⟨_, hall⟩
  let P := collecting demo.site fun _ _ c => c.fault = none
  have hstep : ∀ i call o w, P.step w i call o (plain faultless w) := fun _ _ _ _ => rfl
  let looked := pause 0 collect 5 (Machine.initial ended)
  let gone := play faultless 1 collect looked
  let created := play faultless 2 (enqueue 1) gone
  obtain ⟨hlooked, hend⟩ := pause_at 0 (Machine.initial ended) rfl run_stale
  obtain ⟨hgone, -⟩ : stage gone = _ ∧ _ := play_at hlooked run_collect_ended
  obtain ⟨hcreated, -⟩ : stage created = _ ∧ _ := play_at hgone (run_enqueue (by decide) rfl)
  have hwaiting : created.threads 0 = looked.threads 0 :=
    (play_threads (by decide)).trans (play_threads (by decide))
  obtain ⟨hfinal, -⟩ := hend created hcreated hwaiting
  obtain ⟨p, hthread, hp⟩ := pause_thread 0 (Machine.initial ended) collect_emits 5
  have hcollect : ∀ cfg i, P.start cfg i collect := fun _ _ => ⟨rfl, .inl ⟨1, 0, 0, rfl⟩⟩
  have henqueue : ∀ cfg i, P.start cfg i (enqueue 1) := fun _ _ => ⟨rfl, .inr (.inl ⟨demoInput 1, rfl⟩)⟩
  have hrun : machine.Run P (Machine.initial ended) created :=
    ((pause_plainly 5 (hcollect _ _) (hstep 0 collect) rfl).trans
      (run_plainly (hcollect _ _) (hstep 1 collect) (pause_threads (by decide)))).trans
      (run_plainly (henqueue _ _) (hstep 2 (enqueue 1)) (by simp [Machine.initial]))
  obtain ⟨r, answer, hlog⟩ := play_logs faultless 2 (enqueue 1) gone (by rw [hcreated, hgone])
  have hbefore : (stage gone).objects.get? jobKey = none := by
    rw [hgone]
    rfl
  have hafter : (stage created).objects.get? jobKey ≠ none := by
    rw [hcreated]
    exact fun h => Option.some_ne_none _ ((OrderedMap.get?_insert_self _ _ _).symm.trans h)
  -- after the creation there is only the rest of call 0, which fills no key
  obtain ⟨hrest, new, hnew, hnone⟩ := run_resume (hwaiting.trans hthread) (answers_uncreative created.world.log) hp
    ⟨[], rfl, fun _ h => (List.not_mem_nil h).elim⟩
  obtain ⟨⟨stored, -, hget⟩, -⟩ := hall demo.site 0 jobZero ended created created (resume 0 created) rfl hrun
    Relation.ReflTransGen.refl hrest ⟨_, _, hlog, hbefore, hafter⟩
    fun new' hnew' e he kind => hnone e (List.append_cancel_right (hnew'.symm.trans hnew) ▸ he) _
  rw [show (resume 0 created).world.objects = _ from congrArg Stage.objects hfinal] at hget
  cases hget

end Gc
end StowQ
