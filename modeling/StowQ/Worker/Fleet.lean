import StowQ.Scenario.Basic
import StowQ.Worker.Reports

/-!
# A fleet of workers

Workers that deliver jobs one by one or in batches, sweepers, and callers of the operations of a
queue share one store.  Without garbage collection nothing that they write to be kept is changed or
deleted again (`objects_last`): only the tail hints, the watermark and the entries of the lease and
delay indexes come and go.  A worker judges by the answers it has got, and what an answer has shown
lasts; so, whatever the interleaving and the faults, every report is true of the store and of the
requests its worker has made, when it is made and from then on (`reports_hold`).
-/

namespace StowQ
namespace Worker

open Data Concurrent Store Format StowQ.Core Interleaving Delivery

/-- What a participant does. -/
inductive Duty
  | call (call : Call)
  | delivery (queue : Queue) (msg : DoorbellMsg) (exec : Executor) (leaseNs : UInt64)
  | batch (queue : Queue) (msg : DoorbellMsg) (exec : Executor) (leaseNs : UInt64) (size : Nat)
  | sweep (queue : Queue) (budget : Nat)

namespace Duty

def queue : Duty → Queue
  | .call c => c.queue
  | .delivery q .. | .batch q .. | .sweep q _ => q

def executor : Duty → Option Executor
  | .delivery _ _ exec _ | .batch _ _ exec _ _ => some exec
  | _ => none

def budget : Duty → Nat
  | .call c => c.budget
  | .sweep _ budget => budget
  | _ => deliveryBudgetOps

variable [Sha256]

/-- The program of a duty, with the reports it makes. -/
def task : Duty → Routine (List DeliveryReport)
  | .call c => do
    let _ ← c.action.task c.queue
    pure []
  | .delivery q msg exec leaseNs => do pure [← runDelivery q msg exec leaseNs]
  | .batch q msg exec leaseNs size => runBatch q msg exec leaseNs size
  | .sweep q _ => do
    let _ ← sweepOnce q
    pure []

end Duty

/-- The store with everyone at work. -/
abbrev Posts := Config World Op Res Duty (Except Error (List DeliveryReport))

/-- Duties interleaving over a world. -/
def fleet [Sha256] : Machine World Op Res Choice Outside Duty (Except Error (List DeliveryReport)) where
  exec i o c w := some (w.exec i o c)
  env e w := some (w.outside e)
  start _ _ w := some w
  finish _ _ w := some w
  prog duty := (duty.task duty.budget).map Prod.fst

/-- One queue, any faults; nobody collects garbage, and outside the fleet only time passes.  A participant is a
number that has made no request before, so that the requests under it in the log are those of its duty. -/
def terms (S : Site) : Profile World Op Res Choice Outside Duty (Except Error (List DeliveryReport)) where
  start cfg i duty := duty.queue.site = S ∧ (∀ call a b c, duty = .call call → call.action ≠ .gc a b c) ∧
    own i cfg.world.log = []
  step _ _ _ _ _ := True
  env _ e := ∃ clock, e = .tick clock

section Fleet

variable [Sha256] {S : Site}

/-! ## What a duty requests and reports -/

/-- A request that no protected key is overwritten or deleted by. -/
def Sparing (S : Site) (o : Op) : Prop := ∀ key, Protected S key → Preserves key o

omit [Sha256] in
lemma emits_bind {A : Op → Prop} {α β : Type} {m : Routine α} {f : α → Routine β} (hm : ∀ b, (m b).Emits A)
    (hf : ∀ a b, (f a b).Emits A) (b : Nat) : ((m >>= f) b).Emits A := by
  rw [Budgeted.bind_apply]
  refine (hm b).bind fun out => ?_
  split
  · exact hf _ _
  · trivial

lemma emits_task {duty : Duty} (hgc : ∀ call a b c, duty = .call call → call.action ≠ .gc a b c) (b : Nat) :
    (duty.task b).Emits (Sparing duty.queue.site) := by
  have haction : ∀ (q : Queue) (action : Action), (∀ a b c, action ≠ .gc a b c) →
      Budgeted.Emits (Sparing q.site) (action.task q) := fun q action hgc =>
    (action.within hgc).weaken (fun o ho key hkey => ho.preserves_key hkey) fun _ h => h
  have hq : ∀ q action, uses action → Budgeted.Emits (Sparing q.site) (action.task q) := by
    refine fun q action huses => haction q action fun a b c heq => ?_
    subst heq
    cases huses
  have hget : ∀ q key, Sparing (Queue.site q) (.store (.get key)) := fun _ _ _ _ => ⟨by simp, by simp⟩
  -- what a duty adds to its routine requests nothing
  have hends : ∀ {α β : Type} {q : Queue} {m : Routine α} {f : α → β}, (∀ b, (m b).Emits (Sparing q.site)) →
      ((m >>= fun a => pure (f a)) b).Emits (Sparing q.site) := by
    intro α β q m f hm
    refine emits_bind hm (fun _ _ => ?_) b
    trivial
  cases duty with
  | call c => exact hends (haction _ _ fun a b d => hgc c a b d rfl).prog
  | delivery q msg exec leaseNs => exact hends fun b => (keeps_runDelivery (hq q) (hget q) msg exec leaseNs b).emits
  | batch q msg exec leaseNs size =>
    refine emits_bind (Budgeted.Emits.prog (keeps_inside (hq q .establishFloor rfl))) (fun floorNs => ?_) b
    refine emits_bind (Budgeted.Emits.prog (keeps_claimBatch (hq q) floorNs leaseNs size [] _)) fun claims => ?_
    refine emits_bind (fun b => (Prog.Emits.joinAll fun p hp => ?_).map) fun results b => trivial
    obtain ⟨c, -, rfl⟩ := List.mem_map.mp hp
    exact (keeps_deliverOne (hq q) (hget q) exec c deliveryBudgetOps).emits
  | sweep q budget => exact hends (Budgeted.Emits.prog (keeps_sweeping (hq q)))

/-- The reports of a duty are true, of what is known of the store and of the requests `h` made for the duty. -/
def Tells (duty : Duty) (h : List Exchange) (K : Facts) (reports : List DeliveryReport) : Prop :=
  ∀ report ∈ reports, ∃ exec, duty.executor = some exec ∧ Reported duty.queue exec h K report

lemma holds_task (duty : Duty) : Shows duty.task (fun reports h' => Tells duty h' (seen h') reports) [] := by
  have hsilent : ∀ {α : Type} (m : Routine α), Shows (do let _ ← m; pure [])
      (fun reports h' => Tells duty h' (seen h') reports) [] := fun m =>
    holds_after (holds_unasked m) fun _ _ _ _ => holds_pure nofun
  cases duty with
  | call c => exact hsilent _
  | delivery q msg exec leaseNs =>
    unfold Duty.task
    refine (holds_runDelivery msg leaseNs).andThen fun report h1 _ _ hreport => holds_pure fun h2 _ hh2 r hr => ?_
    rw [List.mem_singleton.mp hr]
    exact ⟨exec, rfl, hreport.mono hh2⟩
  | batch q msg exec leaseNs size =>
    unfold Duty.task
    refine (holds_runBatch msg leaseNs size).mono fun _ _ _ _ hreports reports hr report hmem => ?_
    exact ⟨exec, rfl, hreports reports hr report hmem⟩
  | sweep q budget => exact hsilent _

/-! ## What the store keeps -/

omit [Sha256] in
lemma Facts.Lasts.trans {K1 K2 K3 : Facts} (h : K1.Lasts S K2) (h' : K2.Lasts S K3) : K1.Lasts S K3 :=
  fun key hkey => ⟨fun ht => (h' key hkey).1 ((h key hkey).1 ht),
    fun body hr => (h' key hkey).2 body ((h key hkey).2 body hr)⟩

/-- No protected object changes or disappears. -/
def keeping (S : Site) : Rely World where
  rel w w' := ∀ key, Protected S key → ∀ s, w.objects.get? key = some s → w'.objects.get? key = some s
  refl _ _ _ _ hs := hs
  trans hab hbc key hkey s hs := hbc key hkey s (hab key hkey s hs)

omit [Sha256] in
lemma keeping.lasts {w w' : World} (h : (keeping S).rel w w') : (stored w.objects).Lasts S (stored w'.objects) := by
  refine fun key hkey => ⟨?_, ?_⟩
  · rintro ⟨s, hs⟩
    exact ⟨s, h key hkey s hs⟩
  · rintro body ⟨s, hs, hbody⟩
    exact ⟨s, h key hkey s hs, hbody⟩

lemma answer_stored {r : Request} (hr : Sparing S (.store r)) {fault : Option Fault} {objs : Objects} {stamp : Stamp} :
    (seen [⟨r, (inject fault objs stamp r).1⟩]).Lasts S (stored (inject fault objs stamp r).2) := by
  intro key hkey
  have hstays : ∀ s, objs.get? key = some s → (inject fault objs stamp r).2.get? key = some s :=
    fun s hs => get?_of_preserves (hr key hkey) hs
  generalize hanswer : (inject fault objs stamp r).1 = answer
  constructor
  · rintro (⟨body, sha256, outcome, hmem⟩ | ⟨info, hmem⟩ | ⟨obj, hmem⟩) <;> cases List.mem_singleton.mp hmem
    · cases outcome with
      | committed v =>
        rw [(answer_put_committed hanswer).2]
        exact ⟨_, OrderedMap.get?_insert_self _ _ _⟩
      | rejected => exact (answer_put_rejected hanswer).imp hstays
    · obtain ⟨s, hs, -⟩ := answer_head hanswer
      exact ⟨s, hstays s hs⟩
    · obtain ⟨s, hs, -⟩ := answer_get hanswer
      exact ⟨s, hstays s hs⟩
  · rintro body (⟨obj, hmem, hbody⟩ | ⟨sha256, v, hmem⟩) <;> cases List.mem_singleton.mp hmem
    · obtain ⟨s, hs, rfl⟩ := answer_get hanswer
      exact ⟨s, hstays s hs, hbody⟩
    · rw [(answer_put_committed hanswer).2]
      exact ⟨_, OrderedMap.get?_insert_self _ _ _, rfl⟩

omit [Sha256] in
lemma lasts_cons {x : Exchange} {h : List Exchange} {K : Facts} (hx : (seen [x]).Lasts S K)
    (hh : (seen h).Lasts S K) : (seen (x :: h)).Lasts S K := by
  intro key hkey
  have hx := hx key hkey
  have hh := hh key hkey
  simp only [seen, Placed, List.mem_cons, List.not_mem_nil, or_false] at hx hh ⊢
  grind

omit [Sha256] in
lemma licensed_unasked (h : List Exchange) : Licensed Unasked h := by
  induction h with
  | nil => trivial
  | cons x h ih => exact ⟨trivial, ih⟩

/-- What a participant relies on: no protected object changes, and nobody else requests in its name. -/
def sharing (S : Site) (i : Nat) : Rely World where
  rel w w' := (keeping S).rel w w' ∧ own i w'.log = own i w.log
  refl w := ⟨(keeping S).refl w, rfl⟩
  trans hab hbc := ⟨(keeping S).trans hab.1 hbc.1, hbc.2.trans hab.2⟩

/-- What participant `i` knows: the history is its own, and what that shows of the store is still so. -/
def Informed (S : Site) (i : Nat) (h : List Exchange) (w : World) : Prop :=
  own i w.log = h ∧ (seen h).Lasts S (stored w.objects)

omit [Sha256] in
lemma Informed.shared {i : Nat} {h : List Exchange} {w w' : World} (hw : Informed S i h w)
    (hww' : (sharing S i).rel w w') : Informed S i h w' :=
  ⟨hww'.2.trans hw.1, hw.2.trans (keeping.lasts hww'.1)⟩

/-- One request: what a worker has seen is still there, with what it sees now, and nobody else is disturbed. -/
lemma exec_informs {o : Op} (ho : Sparing S o) {i : Nat} {c : Choice} {h : List Exchange} {w : World}
    (hw : Informed S i h w) :
    (∀ j ≠ i, (sharing S j).rel w (w.exec i o c).2) ∧ (keeping S).rel w (w.exec i o c).2 ∧
      ∃ h', (recording Unasked).answers o h (w.exec i o c).1 h' ∧ Informed S i h' (w.exec i o c).2 := by
  cases o with
  | store r =>
    have hkeeps : (keeping S).rel w (w.exec i (.store r) c).2 :=
      fun key hkey s hs => get?_of_preserves (ho key hkey) hs
    have hown : own i (w.exec i (.store r) c).2.log = ⟨r, (w.exec i (.store r) c).1⟩ :: h := by
      rw [← hw.1]
      exact if_pos rfl
    exact ⟨fun j hj => ⟨hkeeps, if_neg hj.symm⟩, hkeeps, _, rfl, hown,
      lasts_cons (answer_stored ho) (hw.2.trans (keeping.lasts hkeeps))⟩
  | _ => exact ⟨fun j _ => (sharing S j).refl w, (keeping S).refl w, h, rfl, hw⟩

lemma obligations : Obligations fleet (terms S) (fun _ => True) (fun i _ => sharing S i)
    (fun i _ w w' => (∀ j ≠ i, (sharing S j).rel w w') ∧ (keeping S).rel w w') fun i duty out w =>
      ∀ reports, out = .ok reports → Tells duty (own i w.log) (stored w.objects) reports where
  start cfg i duty w' _ _ hadm hrun := by
    cases hrun
    refine ⟨trivial, fun j _ _ => (sharing S j).refl _, Safe.map ?_⟩
    obtain ⟨rfl, hgc, hown⟩ := hadm
    have hinformed : Informed duty.queue.site i [] cfg.world := by
      refine ⟨hown, fun key _ => ?_⟩
      simp [seen, Placed]
    refine (Safe.simulate (K := Informed duty.queue.site i) (holds_task duty duty.budget)
      (emits_task hgc duty.budget) (fun h _ _ => licensed_unasked h) (fun _ _ _ hw hww' => hw.shared hww')
      (fun o ho h w r w' hw hr => ?_) hinformed).mono fun out w' _ hout reports hreports => ?_
    · obtain ⟨c, -, hexec⟩ := hr
      obtain ⟨rfl, rfl⟩ := Prod.mk.inj (Option.some.inj hexec)
      obtain ⟨hothers, hkeeps, hinforms⟩ := exec_informs ho hw
      exact ⟨trivial, ⟨hothers, hkeeps⟩, hinforms⟩
    · obtain ⟨h', ⟨rfl, hlasts⟩, htells⟩ := hout
      intro report hmem
      obtain ⟨exec, hexec, hreport⟩ := htells reports hreports report hmem
      exact ⟨exec, hexec, hreport.lasts (List.suffix_refl _) hlasts⟩
  finish i out w w' _ hrun := by
    cases hrun
    exact ⟨trivial, fun j _ _ => (sharing S j).refl _, fun _ h => h⟩
  env w e w' _ he hrun := by
    obtain ⟨clock, rfl⟩ := he
    cases hrun
    exact ⟨trivial, fun j _ => (sharing S j).refl _⟩
  compat _ _ j _ _ _ hij _ _ hg := hg.1 j hij.symm

/-- **What is written lasts**: without garbage collection no interleaving of the fleet changes or deletes an
object, except for tail hints, the watermark, and the objects in the planes of the lease and delay indexes.  The
records of jobs, claims, failures, receipts and dead jobs, the payloads and outputs, the clock beacons and the
format record of the queue are all among what lasts. -/
theorem objects_last {w : World} {cfg cfg' : Posts} (hrun : fleet.Run (terms S) (Machine.initial w) cfg)
    (hrun' : fleet.Run (terms S) cfg cfg') {key : Str} (hkey : Protected S key) {s : Stored}
    (hs : cfg.world.objects.get? key = some s) : cfg'.world.objects.get? key = some s := by
  have hgood := obligations.run_good (Obligations.initial_good trivial) hrun
  refine obligations.run_moves (keeping S) (fun _ _ _ _ h => h.1) (fun _ _ _ _ h => h.2) (fun e w w' _ he hw' => ?_)
    hgood hrun' key hkey s hs
  obtain ⟨clock, rfl⟩ := he
  cases hw'
  exact (keeping S).refl w

/-- **Every report is true**: it is about a claim that its own worker has requested and won, whose record and whose
job's record are in the store; the payload of that claim is what was executed, and the outputs and the record that
settled the job, or the record that ended the lease, are in the store.  This holds at the moment of the report and
ever after. -/
theorem reports_hold {w : World} {cfg : Posts} (hrun : fleet.Run (terms S) (Machine.initial w) cfg) {i : Nat}
    {duty : Duty} {reports : List DeliveryReport} (hret : cfg.Returned i duty (.ok reports)) :
    Tells duty (own i cfg.world.log) (stored cfg.world.objects) reports :=
  (obligations.run_good (Obligations.initial_good trivial) hrun).returned hret reports rfl

end Fleet

/-! A store that offers one job, and a worker that hears of it. -/

open Scenario in
def offering [Sha256] : World :=
  { blank 1 with objects := OrderedMap.empty.insert jobKey ⟨jobBody 1, versionAt 0, 1⟩ }

/-- One output, whatever the job. -/
def writing : Executor where
  run _ _ := .ok [⟨['r'], [1]⟩]
  fits _ _ outputs h := by
    cases h
    decide

open Scenario in
def hearing : Duty := .delivery demo ⟨[]⟩ writing 5

section Witnesses

open Scenario

lemma run_hearing [Sha256] : fleet.Run (terms demo.site) (Machine.initial offering)
    (((Machine.initial offering).set offering 0 ⟨hearing, fleet.prog hearing⟩).set
      ((fleet.prog hearing).run (plainly faultless 0) offering).2 0
      ⟨hearing, .ret ((fleet.prog hearing).run (plainly faultless 0) offering).1⟩) := by
  have hadm : (terms demo.site).start (Machine.initial offering) 0 hearing :=
    ⟨rfl, nofun, rfl⟩
  have hans : Machine.Answers fleet (terms demo.site) 0 hearing (fun _ => True) (fun _ => True)
      (plainly faultless 0) := ⟨fun o w _ _ => ⟨plain faultless w, trivial, rfl⟩, fun _ _ _ _ => trivial⟩
  exact (Machine.run_start 0 hearing rfl hadm rfl).trans
    (Machine.run_solo hans (.any _) (Config.set_threads_self _ _ _ _) trivial)

/-- The record of the job outlives its delivery. -/
theorem objects_last_job : ∃ (_ : Sha256) (cfg : Posts), fleet.Run (terms demo.site) (Machine.initial offering) cfg ∧
    cfg.world.objects.get? jobKey = some ⟨jobBody 1, versionAt 0, 1⟩ := by
  let hash := Sha256.zero
  exact ⟨hash, _, run_hearing, objects_last .refl run_hearing (protected_absolute (job_authoritative _ _))
    (OrderedMap.get?_insert_self _ _ _)⟩

/-- The worker claims the job and delivers it. -/
theorem reports_hold_delivered : ∃ (_ : Sha256) (cfg : Posts) (out : CommittedOutput),
    fleet.Run (terms demo.site) (Machine.initial offering) cfg ∧ cfg.Returned 0 hearing (.ok [.delivered [out]]) ∧
      Tells hearing (own 0 cfg.world.log) (stored cfg.world.objects) [.delivered [out]] := by
  let hash := Sha256.zero
  have hout : ((fleet.prog hearing).run (plainly faultless 0) offering).1 =
      .ok [.delivered [⟨demo.outputsPrefix jobZero ++ ['r'], Sha256.digest [1]⟩]] := by decide +kernel
  have hrun := run_hearing
  rw [hout] at hrun
  exact ⟨hash, _, _, hrun, Config.set_threads_self _ _ _ _, reports_hold hrun (Config.set_threads_self _ _ _ _)⟩

end Witnesses

end Worker
end StowQ
