import StowQ.Audit.Runs

/-!
# A scan beside live traffic

A scan lists the jobs of a shard before it lists the claims.  A job that is enqueued and claimed in between is
reported as a claim without a job, and a quarantine record is written about it: `scan_accuses`.  If whatever is
claimed during the scan was enqueued before it started, the scan reports nothing against a worker, whatever else
the writers do: `scan_accuses_nobody`.  The scan is analysed in a discipline whose rely is what the writers may
do to the audited planes, and the run is then shown to suit that discipline.
-/

namespace StowQ
namespace Audit

open Data StowQ.Core Store Format Concurrent Interleaving Custody Keys

section Beside

variable [Sha256]

/-- Enqueues, claims and renewals. -/
def Traffic : Action → Prop
  | .enqueue _ | .claim _ | .claimMany _ _ | .renew _ => True
  | _ => False

/-- Call `j` is a scan, and all others are honest enqueues, claims and renewals.  No request meets
a fault, every request is `allowed`, and only time passes outside. -/
def beside (S : Site) (F : FormatRecord) (j : Nat) (allowed : Op → Prop) : Terms where
  start cfg i call := (honest S F).start cfg i call ∧
    if i = j then ∃ startShard, call.action = .repairScan startShard else Traffic call.action
  step _ _ _ o c := c.fault = none ∧ allowed o
  env _ e := ∃ clock, e = .tick clock

/-- Claims are created only for jobs that `objs` has a record of. -/
def Known (S : Site) (objs : Objects) (o : Op) : Prop :=
  ∀ shard jobId g body sha256, o = .store (.putIfAbsent (S.absolute (.claim shard jobId g)) body sha256) →
    objs.get? (S.absolute (.job shard jobId)) ≠ none

/-- The findings that accuse a worker. -/
def accusations : List FindingKind := [.claimWithoutJob, .chainGap, .inadmissibleClaim, .payloadMissing]

/-- The scan reports no accusation, and no request of it changes a quarantine object. -/
structure AccusesNobody (S : Site) (j : Nat) (call : Call) (cfg : Calls) : Prop where
  findings : ∀ report resume, cfg.Returned j call (.ok (.repairScan report resume)) →
    ∀ f ∈ report.findings, f.kind ∉ accusations
  quarantine : ∀ r answer objs objs', .did j r answer objs objs' ∈ cfg.world.log →
    ∀ key, S.plane key = some quarantineSeg → objs'.get? key = objs.get? key

variable {S : Site} {F : FormatRecord} {w : World} {j : Nat} {allowed : Op → Prop}
  {cfg cfg' before after : Calls}

lemma honest_of_beside (hrun : machine.Run (beside S F j allowed) cfg cfg') :
    machine.Run (honest S F) cfg cfg' := by
  have henv : ∀ w e, (beside S F j allowed).env w e → (honest S F).env w e := by
    rintro _ _ ⟨clock, rfl⟩ _ _ _ _
    trivial
  have hstart : ∀ cfg i call, (beside S F j allowed).start cfg i call → (honest S F).start cfg i call :=
    fun _ _ _ h => h.1
  exact hrun.mono hstart (fun _ _ _ _ _ _ => trivial) henv

lemma beside_mono (hrun : machine.Run (beside S F j allowed) cfg cfg') :
    machine.Run (beside S F j fun _ => True) cfg cfg' := by
  have hstep : ∀ w i call o c, (beside S F j allowed).step w i call o c →
      (beside S F j fun _ => True).step w i call o c := fun _ _ _ _ _ h => ⟨h.1, trivial⟩
  have hstart : ∀ cfg i call, (beside S F j allowed).start cfg i call →
      (beside S F j fun _ => True).start cfg i call := fun _ _ _ h => h
  exact hrun.mono hstart hstep fun _ _ h => h

lemma no_receipts (hfresh : Fresh S w) (hrun : machine.Run (beside S F j allowed) (Machine.initial w) cfg)
    (shard : UInt16) (jobId : ByteArr 16) :
    cfg.world.objects.get? (S.absolute (.receipt shard jobId)) = none := by
  by_contra hpresent
  obtain ⟨stored, hget⟩ := Option.ne_none_iff_exists'.mp hpresent
  obtain ⟨i, call, p, hthread, rfl, hcreates⟩ := run_origin hfresh (honest_of_beside hrun)
    (Delivery.receipt_authoritative shard jobId) (plane_absolute _ _) hget
  obtain ⟨c, outputs, digest, haction, -⟩ := hcreates.receipt_inv
  obtain ⟨-, ⟨_, hadm⟩, -⟩ := (run_accounted (A := fun _ _ => True) (fun _ _ _ _ => .any _) hfresh.log
    hrun).2 i _ hthread
  obtain ⟨-, hwho⟩ := hadm
  split at hwho
  · obtain ⟨s, hs⟩ := hwho
    cases haction.symm.trans hs
  · rw [haction] at hwho
    exact hwho

omit [Sha256] in
lemma audited_authoritative {plane : Str} (h : plane ∈ audited) : plane ∈ Delivery.authoritative := by
  simp only [audited, List.mem_cons, List.not_mem_nil, or_false] at h
  rcases h with rfl | rfl | rfl | rfl | rfl <;> decide

lemma run_grown (hw : w.log = []) (hrun : machine.Run (honest S F) (Machine.initial w) cfg)
    (hrun' : machine.Run (honest S F) cfg cfg') : Grown S cfg.world.objects cfg'.world.objects := by
  rintro key ⟨plane, hmem, hplane⟩ stored hget
  exact run_preserved (lasting_of_plane (audited_authoritative hmem) hplane) hw hrun hrun' hget

/-- A claim after a request was there before, or is that of a known job. -/
lemma founded_step {objs0 : Objects} {i : Nat} {o : Op} {c : Choice}
    (hfounded : ∀ shard jobId g e, claimAt S w.objects shard jobId g = some e →
      objs0.get? (S.absolute (.job shard jobId)) ≠ none)
    (horder : Orderly S w.objects) (hknown : Known S objs0 o) {shard : UInt16} {jobId : ByteArr 16}
    {g : UInt32} {e : Entry}
    (he : claimAt S (w.exec i o c).2.objects shard jobId g = some e) :
    objs0.get? (S.absolute (.job shard jobId)) ≠ none := by
  obtain ⟨stored, hget, -⟩ := get?_of_claimAt he
  cases hold : w.objects.get? (S.absolute (.claim shard jobId g)) with
  | some stored' =>
    obtain ⟨shard', jobId', g', e', hkey, he'⟩ := horder.claims _ stored' hold (plane_absolute S _)
    cases S.absolute_inj.mp hkey
    exact hfounded shard jobId g e' he'
  | none =>
    cases o with
    | store r =>
      have hpresent : (inject c.fault w.objects c.stamp r).2.get? (S.absolute (.claim shard jobId g)) ≠
          none := by
        rw [show (inject c.fault w.objects c.stamp r).2.get? (S.absolute (.claim shard jobId g)) =
          some stored from hget]
        exact Option.some_ne_none stored
      obtain ⟨body, rfl, -⟩ := eq_put_of_fills hold hpresent
      exact hknown shard jobId g body _ rfl
    | _ =>
      have hsame : w.objects.get? (S.absolute (.claim shard jobId g)) = some stored := hget
      rw [hold] at hsame
      cases hsame

/-- The discipline of the scan suits the traffic beside it. -/
lemma suits_beside (hfresh : Fresh S w)
    (hbefore : machine.Run (beside S F j fun _ => True) (Machine.initial w) before)
    (hfree : before.threads j = none) {call : Call}
    (hcall : (beside S F j fun _ => True).start before j call) :
    Calm.Suits (beside S F j (Known S before.world.objects)) (scanning S False before.world.objects) j call
      fun cfg => machine.Run (beside S F j (Known S before.world.objects))
        (Calm.starting before j call) cfg := by
  have hstart : machine.Run (honest S F) (Machine.initial w) (Calm.starting before j call) :=
    (honest_of_beside hbefore).trans (Machine.run_start j call hfree hcall.1 rfl)
  -- where a step leads, the store is orderly and has lost nothing
  have hsound : ∀ cfg cfg', machine.Run (beside S F j (Known S before.world.objects))
      (Calm.starting before j call) cfg → machine.Step (beside S F j (Known S before.world.objects)) cfg cfg' →
      Orderly S cfg'.world.objects ∧ Grown S cfg.world.objects cfg'.world.objects := by
    intro cfg cfg' hrun hstep
    have hreach := hstart.trans (honest_of_beside hrun)
    have hnext := honest_of_beside (.single hstep)
    exact ⟨run_orderly hfresh (hreach.trans hnext), run_grown hfresh.log hreach hnext⟩
  refine ⟨fun cfg o c _ hadm => ?_, fun cfg i call' o k c hrun hinv hij hthread hadm => ?_,
    fun cfg e hrun hinv hadm => ?_⟩
  · have hfault : c.fault = none := hadm.1
    cases o with
    | store r => exact ⟨c.stamp, hfault ▸ rfl⟩
    | _ => rfl
  · have hstep : machine.Step (beside S F j (Known S before.world.objects)) cfg
        (cfg.set (cfg.world.exec i o c).2 i ⟨call', k (cfg.world.exec i o c).1⟩) :=
      .step i call' o k c _ _ hthread hadm rfl
    obtain ⟨horder, hgrown⟩ := hsound cfg _ hrun hstep
    refine ⟨hgrown, horder, Grown.trans hinv.grown hgrown, fun shard jobId g e he => ?_, False.elim⟩
    exact founded_step hinv.founded hinv.orderly hadm.2 he
  · obtain ⟨clock, rfl⟩ := hadm
    exact ⟨fun _ _ _ hget => hget, hinv⟩

/-- **A scan beside live traffic accuses nobody**, as long as whatever is claimed while it runs was enqueued before
it started.  Calls enqueue, claim, renew and settle jobs while it lists one directory after another, and still it
reports none of the findings that accuse a worker and puts nothing in quarantine. -/
theorem scan_accuses_nobody (S : Site) (F : FormatRecord) (w : World) (hfresh : Fresh S w) (j : Nat)
    (before : Calls) (hbefore : machine.Run (beside S F j fun _ => True) (Machine.initial w) before)
    (hfree : before.threads j = none) (call : Call)
    (hcall : (beside S F j fun _ => True).start before j call) (after : Calls)
    (hafter : machine.Run (beside S F j (Known S before.world.objects)) (Calm.starting before j call) after) :
    AccusesNobody S j call after := by
  obtain ⟨⟨hsite, -⟩, hwho⟩ := id hcall
  rw [if_pos rfl] at hwho
  obtain ⟨startShard, haction⟩ := hwho
  obtain ⟨q, action, budget⟩ := call
  dsimp only at hsite haction
  subst hsite haction
  have horder : Orderly q.site before.world.objects := run_orderly hfresh (honest_of_beside hbefore)
  have hsound : Sound q.site False before.world.objects before.world.objects := horder.sound
  obtain ⟨hmoved, -, hout⟩ := Calm.run_suited (suits_beside hfresh hbefore hfree hcall) hsound
    (ends_repairScan hsound startShard budget) hafter
  have hreach : machine.Run (beside q.site F j fun _ => True) (Machine.initial w) after :=
    (hbefore.trans (Machine.run_start j _ hfree hcall rfl)).trans (beside_mono hafter)
  constructor
  · intro report resume hret f hf
    obtain ⟨-, haudited, -⟩ := hout _ hret
    obtain ⟨_, -, jobId, -, hreceipt, -⟩ := haudited.only report resume rfl f hf
    exact absurd (no_receipts hfresh hreach _ jobId) hreceipt
  · intro r answer objs objs' hmem key hplane
    obtain ⟨new, hnew, hleaves⟩ := hmoved
    have hmem' := hmem
    rw [hnew] at hmem'
    rcases List.mem_append.mp hmem' with hin | hold
    · by_contra hchanged
      obtain ⟨shard, jobId, hreceipt⟩ := (hleaves r answer objs objs' hin).2 key hplane hchanged
      obtain ⟨later, earlier, hlog⟩ := List.append_of_mem hmem
      obtain ⟨at_, _, _, _, hm⟩ := run_at hfresh.log hreach hlog
      rw [← hm.objects] at hreceipt
      exact hreceipt (no_receipts hfresh hm.run shard jobId)
    · exact absurd hold (run_unstarted hfresh.log hbefore hfree)

end Beside

open Scenario

lemma traffic_beside [Sha256] {cfg : Calls} {i : Nat} {call : Call} (hi : i ≠ 2) (hqueue : call.queue = demo)
    (hgc : ∀ a b c, call.action ≠ .gc a b c) (hhandle : call.action.handle = none) (htraffic : Traffic call.action) :
    (beside demo.site demo.format 2 fun _ => True).start cfg i call := by
  refine ⟨⟨congrArg Queue.site hqueue, congrArg Queue.format hqueue, hgc, fun c hc => ?_, fun c hc => ?_⟩,
    (if_neg hi).mpr htraffic⟩
  · rw [hhandle] at hc
    cases hc
  · rw [hc] at hhandle
    cases hhandle

/-- All that is created belongs to the first claim of the first job. -/
def claimsFirst : Op → World → Bool
  | .store (.putIfAbsent key _ _), _ => key == claimKey 1 || key == leaseKey 1 1
  | _, _ => true

/-- The small job is delivered while a scan is running: call 0 enqueues it, the scan lists the jobs, call 1 is
given the first claim, and the scan then comes upon a chain that was not there when it started. -/
theorem scan_accuses_nobody_delivered : ∃ (_ : Sha256) (before after : Calls) (claim : Claim),
    before.threads 1 = none ∧ before.threads 2 = none ∧
      after.Returned 1 (claiming 0 1) (.ok (.claim (.claimed claim))) ∧
      after.Returned 2 ⟨demo, .repairScan 0, 20⟩
        (.ok (.repairScan { shardsScanned := 1, jobsScanned := 1, claimChainsScanned := 1 } none)) ∧
      AccusesNobody demo.site 2 ⟨demo, .repairScan 0, 20⟩ after := by
  let hash := Sha256.zero
  let P := beside demo.site demo.format 2 fun _ => True
  let before := play faultless 0 (enqueue 1) (Machine.initial (blank 0))
  let scan : Call := ⟨demo, .repairScan 0, 20⟩
  let listing := pause 2 scan 1 before
  let claimed := play faultless 1 (claiming 0 1) listing
  let K := Known demo.site before.world.objects
  have hbefore : machine.Run P (Machine.initial (blank 0)) before :=
    run_plainly (traffic_beside (by decide) rfl (fun _ _ _ h => by cases h) rfl trivial) (fun _ _ => ⟨rfl, trivial⟩) rfl
  have hfree : ∀ i, i ≠ 0 → before.threads i = none := fun i hi => play_threads hi
  have hstart : P.start before 2 scan :=
    ⟨⟨rfl, rfl, fun _ _ _ h => (by cases h), fun _ h => (by cases h), fun _ h => (by cases h)⟩, (if_pos rfl).mpr ⟨0, rfl⟩⟩
  -- the scan creates no claims
  have hemits : scan.prog.Emits K := by
    refine (Call.within fun _ _ _ h => by cases h).mono fun o ho shard jobId g body sha256 heq => ?_
    exact absurd heq (ho.ne_put (by simp [scan, planeOf, Action.planes, claimsSeg, delayedSeg,
      leasesSeg, termidxSeg, quarantineSeg]))
  have hanswers : Machine.Answers machine (beside demo.site demo.format 2 K) 2 scan K (fun _ => True) (plainly faultless 2) :=
    ⟨fun o w ho _ => ⟨plain faultless w, ⟨rfl, ho⟩, rfl⟩, fun _ _ _ _ => trivial⟩
  have hlisting : machine.Run _ (Calm.starting before 2 scan) listing := (run_halted 1 hanswers hemits trivial).1
  -- the claim is of the job that was enqueued before
  have hclaimed : machine.Run (beside demo.site demo.format 2 K) listing claimed := by
    refine run_checked claimsFirst (fun o w hput => ⟨rfl, ?_⟩)
      (traffic_beside (by decide) rfl (fun _ _ _ h => by cases h) rfl trivial)
      ((pause_threads (by decide)).trans (hfree 1 (by decide))) (by decide +kernel)
    rintro shard jobId g body sha256 rfl
    simp only [claimsFirst, Bool.or_eq_true, beq_iff_eq] at hput
    rcases hput with hkey | hkey
    · cases demo.site.absolute_inj.mp hkey
      decide +kernel
    · cases demo.site.absolute_inj.mp hkey
  have hthread : claimed.threads 2 = _ := (play_threads (by decide)).trans pause_threads_self
  have hafter := (run_resume hthread hanswers (hemits.advance 1 _) trivial).1
  have hclaim : claimed.Returned 1 (claiming 0 1)
      (.ok (.claim (.claimed (granted ⟨0, 0, 1⟩ noTail (tokenAt 10) (.inline []) 0)))) :=
    play_returned (by decide +kernel)
  exact ⟨hash, before, resume 2 claimed, _, hfree 1 (by decide), hfree 2 (by decide),
    (resume_threads (by decide)).trans hclaim, resume_returned hthread (by decide +kernel),
    scan_accuses_nobody demo.site demo.format (blank 0) ⟨rfl, fun _ _ _ _ => rfl⟩ 2 before hbefore
      (hfree 2 (by decide)) scan hstart _ ((hlisting.trans hclaimed).trans hafter)⟩

/-! ## A job between two listings -/

namespace Overtaken

open Scenario Budgeted

variable [Sha256]

/-- A scan of the one shard. -/
def scanOnce : Call := ⟨demo, .repairScan 0, 5⟩

/-- What the scan reports when it has missed the job. -/
def accusing : RepairReport where
  shardsScanned := 1
  claimChainsScanned := 1
  findings := [⟨.claimWithoutJob, jobKey, 0x0005⟩]

section Evaluation

variable {σ : Type} {h : Handler Op Res σ} {s s1 s2 s3 s4 s5 s' : σ} {token : ByteArr 16} {info found : Meta}
  {b : Nat}

/-- A chain of one claim that is none of a listed job. -/
lemma evals_orphan (report : RepairReport) (htime : info.storeTimeNs = 0)
    (h1 : Serves h s (.get (claimKey 1)) (.ok ⟨info, grantBody ⟨0, 0, 1⟩ noTail token⟩) s1)
    (h2 : Serves h s1 (.head (leaseKey 1 1)) (.ok found) s') :
    Evals h (demo.repairChain 0 [] report (jobZero, [(1, info)])) (b + 1) s
      (.ok ({ report with claimChainsScanned := report.claimChainsScanned + 1 }.push
        ⟨.claimWithoutJob, jobKey, 0x0005⟩)) b s' := by
  have hdec : demo.decodeAt (.claim 0 jobZero 1) (grantBody ⟨0, 0, 1⟩ noTail token) =
      .ok (.claim (demo.takeoverRecord jobZero ⟨0, 0, 1⟩ noTail token)) :=
    decode_encode (.claim _) (demo.takeoverRecord_wellFormed _ _ _ _) _ _
  generalize hreport : ({ report with claimChainsScanned := report.claimChainsScanned + 1 }.push
    ⟨.claimWithoutJob, jobKey, 0x0005⟩ : RepairReport) = report1
  have hrecord : Evals h (demo.auditRecord 0 jobZero (report1, []) (1, info)) (b + 1) s
      (.ok (report1, [some (demo.takeoverRecord jobZero ⟨0, 0, 1⟩ noTail token)])) b s1 := by
    refine evals_spend (evals_store h1 ?_)
    dsimp only
    rw [show demo.decodeAt (.claim 0 jobZero (1 : UInt64).toUInt32) (grantBody ⟨0, 0, 1⟩ noTail token) = _
      from hdec]
    exact Evals.pure _
  have hchain : Evals h (demo.auditClaimChain 0 jobZero [(1, info)] report1) (b + 1) s
      (.ok (report1, 1, info, 1)) b s1 := by
    refine Evals.foldM_nil.bind ((Evals.pure report1).bind ?_)
    exact (Evals.foldM_cons hrecord Evals.foldM_nil).bind (Evals.foldM_nil.bind (Evals.pure _))
  have hlease : Evals h (demo.restoreLease 0 jobZero report1 1 info 1) b s1 (.ok report1) b s' := by
    unfold Queue.restoreLease
    rw [htime, bucket_demo]
    exact (evals_store h2 (Evals.pure false)).bind (Evals.pure _)
  unfold Queue.repairChain
  rw [show ((jobZero, [((1 : UInt64), info)]).2.mergeSort fun a b => a.1 ≤ b.1) = [(1, info)] from
    List.mergeSort_singleton _]
  subst hreport
  exact hchain.bind ((Evals.pure ()).bind hlease)

/-- The scan finds no jobs, then a claim and its lease entry, and no terminal records. -/
lemma evals_scanOnce
    (h1 : Serves h s (.list (demo.shardDir jobsSeg 0) none 64) (.ok ⟨[], none⟩) s1)
    (h2 : Serves h s1 (.list (demo.shardDir claimsSeg 0) none 64)
      (.ok ⟨[⟨claimKey 1, info⟩], none⟩) s2)
    (h3 : Serves h s2 (.get (claimKey 1)) (.ok ⟨info, grantBody ⟨0, 0, 1⟩ noTail token⟩) s3)
    (h4 : Serves h s3 (.head (leaseKey 1 1)) (.ok found) s4)
    (h5 : Serves h s4 (.list (demo.shardDir receiptsSeg 0) none 64) (.ok ⟨[], none⟩) s5)
    (h6 : Serves h s5 (.list (demo.shardDir deadSeg 0) none 64) (.ok ⟨[], none⟩) s')
    (htime : info.storeTimeNs = 0) :
    scanOnce.prog.run h s = (.ok (.repairScan accusing none), s') := by
  have hparse : demo.parseRel (claimKey 1) = some (.claim 0 jobZero 1) := demo.parseRel_absolute _
  have hcollect : Evals h (demo.collectChain ({}, []) ⟨claimKey 1, info⟩) 3 s2
      (.ok ({}, [(jobZero, [(1, info)])])) 3 s2 := by
    unfold Queue.collectChain
    rw [hparse]
    exact Evals.pure _
  have hshard : Evals h (demo.repairShard 0 {}) 5 s
      (.ok { claimChainsScanned := 1, findings := [⟨.claimWithoutJob, jobKey, 0x0005⟩] }) 0 s' := by
    refine (evals_pages_nil h1).bind (Evals.foldM_nil.bind ?_)
    refine (evals_pages_one h2 (Evals.pure _)).bind ((Evals.foldM_cons hcollect Evals.foldM_nil).bind ?_)
    refine (Evals.foldM_cons (evals_orphan {} htime h3 h4) Evals.foldM_nil).foldAny.bind ?_
    refine (evals_pages_nil h5).bind (Evals.foldM_nil.bind ?_)
    exact (evals_pages_nil h6).bind (Evals.foldM_nil.bind Evals.foldM_nil.foldAny)
  have hscan : Evals h (demo.repairScan 0) 5 s (.ok (accusing, none)) 0 s' :=
    hshard.bind (Evals.remaining.bind (Evals.pure _))
  exact run_call (hscan.bind (Evals.pure _))

end Evaluation

set_option maxRecDepth 8000 in
/-- The scan with the delivery of the job after its first listing. -/
lemma run_overtaken {token : ByteArr 16} {v v1 v2 : Version} {n m : Nat} :
    scanOnce.prog.run (interrupted (staged faultless) fun _ => ⟨delivered 1 token v v1 v2, 0, fun _ => {}, m⟩)
      ⟨⟨OrderedMap.empty, 0, fun _ => {}, n⟩, 1, none⟩ =
    (.ok (.repairScan accusing none), ⟨⟨delivered 1 token v v1 v2, 0, fun _ => {}, m + 5⟩, 0,
      some ⟨OrderedMap.empty, 0, fun _ => {}, n + 1⟩⟩) := by
  have hclaim : Serves (staged faultless) ⟨delivered 1 token v v1 v2, 0, fun _ => {}, m + 1⟩ (.get (claimKey 1))
      (.ok ⟨(firstTail token v1).info, grantBody ⟨0, 0, 1⟩ noTail token⟩)
      ⟨delivered 1 token v v1 v2, 0, fun _ => {}, m + 2⟩ := serves_get rfl rfl
  exact evals_scanOnce (serves_list rfl rfl).struck (serves_list rfl rfl).past hclaim.past (serves_head rfl rfl).past
    (serves_list rfl rfl).past (serves_list rfl rfl).past rfl

end Overtaken

open Overtaken Scenario

/-- Without that condition a scan accuses an honest worker: it finds no jobs, call 0 enqueues a
job, call 1 claims it, and the scan then finds a claim without a job. -/
theorem scan_accuses : ¬ ∃ _ : Sha256, ∀ S F w, Fresh S w → ∀ j before,
    machine.Run (beside S F j fun _ => True) (Machine.initial w) before → before.threads j = none →
    ∀ call, (beside S F j fun _ => True).start before j call → ∀ after,
    machine.Run (beside S F j fun _ => True) (Calm.starting before j call) after →
    AccusesNobody S j call after := by
  rintro ⟨_, hall⟩
  let P := beside demo.site demo.format 2 fun _ => True
  have hstep : ∀ i call o (w : World), P.step w i call o (plain faultless w) := fun _ _ _ _ => ⟨rfl, trivial⟩
  have hscan : P.start (Machine.initial (blank 0)) 2 scanOnce :=
    ⟨⟨rfl, rfl, nofun, nofun, nofun⟩,
      (if_pos rfl).mpr ⟨0, rfl⟩⟩
  let looked := pause 2 scanOnce 1 (Machine.initial (blank 0))
  let placed := play faultless 0 (enqueue 1) looked
  let given := play faultless 1 (claiming 0 1) placed
  obtain ⟨hlooked, hend⟩ := pause_at 2 (Machine.initial (blank 0)) rfl run_overtaken
  obtain ⟨hplaced, -⟩ : stage placed = _ ∧ _ := play_at hlooked (run_enqueue (by decide) rfl)
  obtain ⟨hgiven, -⟩ : stage given = _ ∧ _ := play_at hplaced
    (run_taking (decode_jobBody 1) rfl rfl (show ¬ (1 : UInt64) < 0 + 1 by decide))
  have hwaiting : given.threads 2 = looked.threads 2 := (play_threads (by decide)).trans (play_threads (by decide))
  obtain ⟨-, hret⟩ := hend given hgiven hwaiting
  have hpaused : machine.Run P (Calm.starting (Machine.initial (blank 0)) 2 scanOnce) looked :=
    (run_halted 1 (answers_plainly scanOnce (hstep 2 scanOnce)) (.any scanOnce.prog) trivial).1
  have hfirst : machine.Run P looked placed := run_plainly
    (traffic_beside (by decide) rfl nofun rfl
      (show Traffic (enqueue 1).action from trivial)) (hstep 0 (enqueue 1)) (pause_threads (by decide))
  have hsecond : machine.Run P placed given := run_plainly
    (traffic_beside (by decide) rfl nofun rfl
      (show Traffic (claiming 0 1).action from trivial)) (hstep 1 (claiming 0 1))
    ((play_threads (by decide)).trans (pause_threads (by decide)))
  obtain ⟨p, hthread, -⟩ := pause_thread 2 (Machine.initial (blank 0)) (.any scanOnce.prog) 1
  have hlast : machine.Run P given (resume 2 given) := resume_plainly (hwaiting.trans hthread) (hstep 2 scanOnce)
  have hfresh : Fresh demo.site (blank 0) := ⟨rfl, fun _ _ _ _ => rfl⟩
  have hnobody := hall demo.site demo.format (blank 0) hfresh 2 _ .refl rfl scanOnce hscan _
    (((hpaused.trans hfirst).trans hsecond).trans hlast)
  exact hnobody.findings accusing none hret ⟨.claimWithoutJob, jobKey, 0x0005⟩ (List.mem_singleton_self _)
    (by decide)

end Audit
end StowQ
