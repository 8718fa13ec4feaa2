import StowQ.Audit.Scan
import StowQ.Custody.Results
import StowQ.Delivery.Handles

/-!
# The audit of honest runs

A run is honest if its calls are given only handles that were handed out, if a worker renews
only what it has claimed itself, and if nobody else touches the planes that decide about jobs.
Whatever faults the calls of such a run have met and wherever they have stopped, the store is
orderly: `run_orderly`.  A scan of it therefore reports nothing but jobs that ended twice.
-/

namespace StowQ
namespace Audit

open Data StowQ.Core Store Format Concurrent Interleaving Custody

variable {plane key : Str} {q : Queue} {shard : UInt16} {jobId : ByteArr 16} {g : UInt32} {e : Entry}

section Honest

variable [Sha256]

/-- The handle was handed out to a caller with the worker id of `q`. -/
def HandedTo (cfg : Calls) (q : Queue) (c : Claim) : Prop :=
  ∃ i call out, cfg.Returned i call (.ok out) ∧ c ∈ out.handles ∧ call.queue.opts.workerId = q.opts.workerId

/-- Calls of any operation but garbage collection, on handles of one queue, with claims that were
handed out; a worker renews only its own.  Every request may meet any fault, and nobody else
touches the authoritative planes. -/
def honest (S : Site) (F : FormatRecord) : Terms where
  start cfg _ call := call.queue.site = S ∧ call.queue.format = F ∧
    (∀ a b c, call.action ≠ .gc a b c) ∧ (∀ c, call.action.handle = some c → Delivery.Handed cfg c) ∧
    ∀ c, call.action = .renew c → HandedTo cfg call.queue c
  step _ _ _ _ _ := True
  env _ e := ∀ key, ∀ plane ∈ Delivery.authoritative, S.plane key = some plane → Spares key e

/-- A store with nothing in the authoritative planes. -/
structure Fresh (S : Site) (w : World) : Prop where
  log : w.log = []
  absent : ∀ key, ∀ plane ∈ Delivery.authoritative, S.plane key = some plane → w.objects.get? key = none

variable {S : Site} {F : FormatRecord} {w : World} {cfg cfg' : Calls}

lemma working_of_honest (hrun : machine.Run (honest S F) cfg cfg') :
    machine.Run (Delivery.working S F) cfg cfg' := by
  have hstart : ∀ cfg i call, (honest S F).start cfg i call → (Delivery.working S F).start cfg i call :=
    fun _ _ _ h => ⟨h.1, h.2.1, h.2.2.1, h.2.2.2.1⟩
  have henv : ∀ w e, (honest S F).env w e → (Delivery.working S F).env w e :=
    fun _ _ h k hk => h _ _ hk (plane_absolute S k)
  exact hrun.mono hstart (fun _ _ _ _ _ _ => trivial) henv

lemma custody_of_honest (hrun : machine.Run (honest S F) cfg cfg') : machine.Run (profile S False) cfg cfg' := by
  have hstart : ∀ cfg i call, (honest S F).start cfg i call → (profile S False).start cfg i call :=
    fun _ _ _ h => ⟨h.1, h.2.2.1, fun c hc => h.2.2.2.1 c hc⟩
  have hstep : ∀ w i call o c, (honest S F).step w i call o c → (profile S False).step w i call o c :=
    fun _ _ _ _ _ _ => False.elim
  have hplane : ∀ plane ∈ custodyPlanes, plane ∈ Delivery.authoritative := by decide
  have henv : ∀ w e, (honest S F).env w e → (profile S False).env w e := by
    intro _ e h
    cases e with
    | tick clock => trivial
    | write key stored => exact fun plane hmem heq => h key plane (hplane plane hmem) heq rfl
    | delete key => exact fun plane hmem heq => h key plane (hplane plane hmem) heq rfl
  exact hrun.mono hstart hstep henv

omit [Sha256] in
lemma Fresh.custody (h : Fresh S w) : Custody.Fresh S w :=
  ⟨h.log, fun key hplane => h.absent key Keys.claimsSeg (by simp [Delivery.authoritative]) hplane⟩

omit [Sha256] in
lemma Fresh.intake (h : Fresh S w) : Intake.Fresh S w where
  log := h.log
  absent k hk := h.absent _ _ (by
    simp only [Intake.planes, List.mem_cons, List.not_mem_nil, or_false] at hk
    rcases hk with hk | hk <;> rw [hk] <;> decide) (plane_absolute S k)

/-! ## Authoritative objects -/

omit [Sha256] in
lemma authoritative_apart (h : plane ∈ Delivery.authoritative) :
    plane ∉ overwritten ++ swept ∧ plane ≠ outputsSeg := by
  simp only [Delivery.authoritative, List.mem_cons, List.not_mem_nil, or_false] at h
  rcases h with rfl | rfl | rfl | rfl | rfl | rfl <;> decide

lemma lasting_of_plane (hmem : plane ∈ Delivery.authoritative) (hplane : S.plane key = some plane) :
    Lasting (honest S F) key where
  calls := by
    rintro cfg i call ⟨rfl, -, hgc, -⟩
    exact (Call.within hgc).mono fun o ho =>
      ho.preserves_key (protected_of_plane hplane (authoritative_apart hmem).1)
  env _ _ h := h key plane hmem hplane

lemma emits_acts (cfg : Calls) (i : Nat) (call : Call) (h : (honest S F).start cfg i call) :
    call.prog.Emits (Acts call.queue call.action) :=
  ((call.action.acts h.2.2.1).prog call.budget).map

lemma run_origin (hfresh : Fresh S w) (hrun : machine.Run (honest S F) (Machine.initial w) cfg)
    (hmem : plane ∈ Delivery.authoritative) (hplane : S.plane key = some plane) {stored : Stored}
    (hget : cfg.world.objects.get? key = some stored) :
    ∃ i call p, cfg.threads i = some ⟨call, p⟩ ∧ call.queue.site = S ∧
      Creates call.queue call.action key stored.body := by
  obtain ⟨i, call, at_, hc⟩ := (lasting_of_plane hmem hplane).origin emits_acts hfresh.log
    (hfresh.absent key plane hmem hplane) hrun hget
  obtain ⟨_, hsite, -⟩ := hc.admitted
  obtain ⟨p, hthread⟩ := run_started hfresh.log hrun hc.started
  exact ⟨i, call, p, hthread, hsite, hc.listed.2⟩

/-- Authoritative objects are at keys of the queue's own. -/
lemma run_canonical (hfresh : Fresh S w) (hrun : machine.Run (honest S F) (Machine.initial w) cfg)
    (hmem : plane ∈ Delivery.authoritative) (hplane : S.plane key = some plane) {stored : Stored}
    (hget : cfg.world.objects.get? key = some stored) : ∃ k, key = S.absolute k ∧ planeOf k = plane := by
  obtain ⟨i, call, p, -, rfl, hcreates⟩ := run_origin hfresh hrun hmem hplane hget
  have hout : call.queue.site.plane key ≠ some outputsSeg := by
    rw [hplane]
    exact fun h => (authoritative_apart hmem).2 (Option.some.inj h)
  obtain ⟨k, rfl⟩ := hcreates.canonical hout
  exact ⟨k, rfl, Option.some.inj ((plane_absolute _ k).symm.trans hplane)⟩

/-! ## Renewals -/

/-- The claim that a handle names is the worker's own. -/
def Holder (S : Site) (objs : Objects) (q : Queue) (c : Claim) : Prop :=
  ∃ e, claimAt S objs c.shard c.jobId c.generation.toUInt32 = some e ∧ e.record.workerId = q.opts.workerId

omit [Sha256] in
lemma claim_authoritative : Keys.claimsSeg ∈ Delivery.authoritative := by
  simp [Delivery.authoritative]

/-- A claim record that a call has committed stands in the store. -/
lemma claimAt_of_won (hw : w.log = []) (hrun : machine.Run (honest S F) (Machine.initial w) cfg)
    (hsite : q.site = S) {i : Nat} {r : ClaimRecord} (hr : r.WellFormed)
    (hwon : Won q (.claim shard jobId g) (.claim r) (own i cfg.world.log)) :
    ∃ e, claimAt S cfg.world.objects shard jobId g = some e ∧ e.record = r := by
  subst hsite
  have hlasting : Lasting (honest q.site F) (q.absolute (.claim shard jobId g)) :=
    lasting_of_plane claim_authoritative (plane_absolute _ _)
  rcases hwon with ⟨v, hmem⟩ | ⟨obj, hmem, hdec⟩
  · obtain ⟨stored, hget, hbody⟩ := hlasting.committed hw hrun hmem
    exact ⟨_, claimAt_of_get? hr hget hbody, rfl⟩
  · obtain ⟨stored, hget, rfl⟩ := hlasting.got hw hrun hmem
    have hdec' : q.site.decodeAt (.claim shard jobId g) stored.body = .ok (.claim r) := hdec
    have hget' : cfg.world.objects.get? (q.site.absolute (.claim shard jobId g)) = some stored := hget
    refine ⟨⟨r, stored.storeTimeNs⟩, ?_, rfl⟩
    simp only [claimAt, hget', hdec']

lemma holder_of_handed (hw : w.log = []) (hrun : machine.Run (honest S F) (Machine.initial w) cfg) {c : Claim}
    (h : HandedTo cfg q c) : Holder S cfg.world.objects q c := by
  obtain ⟨i, call, out, hret, hmem, hworker⟩ := h
  obtain ⟨-, ⟨_, hsite, -⟩, -⟩ := (run_accounted (A := fun _ _ => True) (fun _ _ _ _ => .any _) hw
    hrun).2 i _ hret
  have hhands := run_answers (fun _ _ call _ => Delivery.holds_asks call) hw hrun hret out rfl c hmem
  obtain ⟨-, r, ⟨-, hwon⟩, hid, -, -, -, hwf⟩ := hhands.2
  obtain ⟨e, he, rfl⟩ := claimAt_of_won hw hrun hsite hwf hwon
  exact ⟨e, he, hid.trans hworker⟩

lemma run_claimAt (hw : w.log = []) (hrun : machine.Run (honest S F) (Machine.initial w) cfg)
    (hrun' : machine.Run (honest S F) cfg cfg') (he : claimAt S cfg.world.objects shard jobId g = some e) :
    claimAt S cfg'.world.objects shard jobId g = some e := by
  obtain ⟨stored, hget, -⟩ := get?_of_claimAt he
  have hlasting := lasting_of_plane (F := F) claim_authoritative (plane_absolute S (.claim shard jobId g))
  rw [← he]
  exact claimAt_congr ((run_preserved hlasting hw hrun hrun' hget).trans hget.symm)

lemma run_renewers (hw : w.log = []) (hrun : machine.Run (honest S F) (Machine.initial w) cfg) :
    ∀ i t, cfg.threads i = some t → ∀ c, t.call.action = .renew c → Holder S cfg.world.objects t.call.queue c := by
  refine run_threads (Φ := fun cfg call => ∀ c, call.action = .renew c →
    Holder S cfg.world.objects call.queue c) (fun cfg i call hbefore _ hadm c hc => ?_)
    (fun cfg cfg' call hbefore hstep h c hc => ?_) hrun
  · exact holder_of_handed hw hbefore (hadm.2.2.2.2 c hc)
  · obtain ⟨e, he, hworker⟩ := h c hc
    exact ⟨e, run_claimAt hw hbefore (.single hstep) he, hworker⟩

/-- A continuation carries the worker id of the claim it continues. -/
lemma run_workers (hfresh : Fresh S w) (hrun : machine.Run (honest S F) (Machine.initial w) cfg) {p : Entry}
    (hp : claimAt S cfg.world.objects shard jobId g = some p)
    (he : claimAt S cfg.world.objects shard jobId (g + 1) = some e) (hcont : e.record.continuation = true) :
    e.record.workerId = p.record.workerId := by
  obtain ⟨stored, hget, hdec⟩ := decode_of_claimAt he
  obtain ⟨i, call, prog, hthread, rfl, hcreates⟩ :=
    run_origin hfresh hrun claim_authoritative (plane_absolute _ _) hget
  have hrecord : ∀ r : ClaimRecord, r.WellFormed →
      stored.body = call.queue.encodeAt (.claim shard jobId (g + 1)) (.claim r) → e.record = r := by
    intro r hr hbody
    have hown := decode_encode (.claim r) hr call.queue.site.queueId
      (call.queue.site.tagFor (.claim shard jobId (g + 1)))
    rw [hbody] at hdec
    cases hdec.symm.trans hown
    rfl
  rcases hcreates.claim_inv with ⟨opts, tail, token, hbody⟩ | ⟨c, haction, rfl, rfl, hg, hbody⟩
  · rw [hrecord _ (call.queue.takeoverRecord_wellFormed ..) hbody] at hcont
    cases hcont
  · rw [hrecord _ (call.queue.continuationRecord_wellFormed c) hbody]
    obtain ⟨e', he', hworker⟩ := run_renewers hfresh.log hrun i _ hthread c haction
    have hgen : c.generation.toUInt32 = g := by
      rw [UInt64.toUInt32_add] at hg
      simpa using hg
    rw [hgen, hp] at he'
    cases he'
    exact hworker.symm

omit [Sha256] in
lemma admits_of_supports {p : Entry} (h : p.Supports e.record)
    (hworker : e.record.continuation = true → e.record.workerId = p.record.workerId) : Admits p e := by
  intro info htime
  unfold Entry.Supports at h
  unfold admissible
  split at h
  · next hcont =>
      rw [if_pos hcont, hworker hcont, h]
      simp
  · next hcont =>
      obtain ⟨basis, hbasis, hprev, hduration, hle⟩ := h
      rw [if_neg hcont, hbasis, htime]
      simp only [hprev, hduration]
      simpa using hle

/-! ## Every honest run leaves an orderly store -/

lemma run_chained_claims (hkept : Kept S False cfg.world.objects)
    (he : claimAt S cfg.world.objects shard jobId g = some e) :
    g ≠ 0 ∧ (g = 1 ∨ ∃ p, claimAt S cfg.world.objects shard jobId (g - 1) = some p) := by
  obtain ⟨c, hrep, -, -⟩ := hkept.chains shard jobId
  have hclaim := hrep.claim g
  rw [he] at hclaim
  split at hclaim
  · cases hclaim
  next hne =>
  refine ⟨hne, ?_⟩
  by_cases hone : g = 1
  · exact .inl hone
  obtain ⟨hlt, -⟩ := List.getElem?_eq_some_iff.mp hclaim.symm
  have hpos : g.toNat ≠ 0 := fun h => hne (UInt32.toNat_inj.mp h)
  have htwo : g.toNat ≠ 1 := fun h => hone (UInt32.toNat_inj.mp h)
  have hunit : (1 : UInt32).toNat = 1 := rfl
  have hprev : (g - 1).toNat = g.toNat - 1 := by
    rw [UInt32.toNat_sub_of_le _ _ (UInt32.le_iff_toNat_le.mpr (by omega)), hunit]
  have hne' : g - 1 ≠ 0 := by
    intro hzero
    rw [hzero] at hprev
    have hnil : (0 : UInt32).toNat = 0 := rfl
    omega
  refine .inr ⟨c.entries.get ⟨g.toNat - 1 - 1, by omega⟩, ?_⟩
  rw [hrep.claim, if_neg hne', hprev]
  exact List.getElem?_eq_getElem _

/-- **Honest runs leave the store orderly.** -/
theorem run_orderly (hfresh : Fresh S w) (hrun : machine.Run (honest S F) (Machine.initial w) cfg) :
    Orderly S cfg.world.objects := by
  have hkept : Kept S False cfg.world.objects := (Reachable.inv (custody_of_honest hrun) hfresh.custody).kept
  have hoffering := Delivery.offering_of_working (working_of_honest hrun)
  constructor
  · intro key stored hget hplane
    -- job records: the enqueue that wrote one had placed its payload
    obtain ⟨k, rfl, hk⟩ := run_canonical hfresh hrun (by simp [Delivery.authoritative]) hplane hget
    obtain ⟨shard, jobId, rfl⟩ := eq_job_of_plane hk
    obtain ⟨i, call, input, -, -, rfl, -, -, hbody, hplaced⟩ := Intake.run_job hfresh.intake hoffering hget
    refine ⟨shard, jobId, call.queue.jobRecord input jobId, rfl, ?_, fun rel hrel => ?_⟩
    · rw [hbody]
      exact decode_encode (.job _) (call.queue.jobRecord_wellFormed input jobId) _ _
    · rcases hplaced with hinline | ⟨payload, hpayload⟩
      · have hnone : (call.queue.jobRecord input jobId).payloadKey = none := if_pos hinline
        rw [hnone] at hrel
        cases hrel
      · by_cases hinline : call.queue.inlines input.payload = true
        · have hnone : (call.queue.jobRecord input jobId).payloadKey = none := if_pos hinline
          rw [hnone] at hrel
          cases hrel
        · have hkey : (call.queue.jobRecord input jobId).payloadKey =
              some (Keys.Key.payload jobId (Sha256.digest input.payload)).fmt := if_neg hinline
          exact ⟨_, payload, (Option.some.inj (hkey.symm.trans hrel)).symm, hpayload⟩
  · intro key stored hget hplane
    -- claims and their chains come from the custody invariant
    obtain ⟨shard, jobId, g, hkey, e, he⟩ := hkept.claims key stored hget hplane
    exact ⟨shard, jobId, g, e, hkey, he⟩
  · intro shard jobId g e he
    obtain ⟨c, hrep, -, hallowed⟩ := hkept.chains shard jobId
    have hclaim := hrep.claim g
    rw [he] at hclaim
    split at hclaim
    · cases hclaim
    obtain ⟨job, hjob, -⟩ := hallowed e (List.mem_of_getElem? hclaim.symm)
    intro habsent
    simp [jobAt, recordAt, habsent] at hjob
  · exact fun shard jobId g e he => run_chained_claims hkept he
  · intro shard jobId g p e hp he
    exact admits_of_supports (hkept.evidence shard jobId g p e hp he)
      fun hcont => run_workers hfresh hrun hp he hcont
  · intro key stored hget hplane
    obtain ⟨k, rfl, hk⟩ := run_canonical hfresh hrun (by simp [Delivery.authoritative]) hplane hget
    obtain ⟨shard, jobId, rfl⟩ := eq_receipt_of_plane hk
    exact ⟨shard, jobId, rfl⟩
  · intro key stored hget hplane
    obtain ⟨k, rfl, hk⟩ := run_canonical hfresh hrun (by simp [Delivery.authoritative]) hplane hget
    obtain ⟨shard, jobId, rfl⟩ := eq_dead_of_plane hk
    exact ⟨shard, jobId, rfl⟩

/-! ## Scans as calls -/

/-- What a scan of `left` shards from `next` on returns. -/
structure Audited (S : Site) (objs : Objects) (next left : Nat) (out : Except Error Output) : Prop where
  shape : ∀ output, out = .ok output → ∃ report resume, output = .repairScan report resume
  only : ∀ report resume, out = .ok (.repairScan report resume) → ∀ f ∈ report.findings,
    Duplicate S objs next left f

/-- The budget with which a scan of all shards comes to its end. -/
def fullScanCost (q : Queue) (objs : Objects) : Nat := scanCost q objs 0 q.format.shardCount.toNat

lemma ends_repairScan {total : Prop} {objs0 objs : Objects} (hinv : Sound q.site total objs0 objs)
    (startShard : UInt16) (b : Nat) :
    Ends (scanning q.site total objs0) ((Action.repairScan startShard).task q) b (fun out _ objs' =>
      Audited q.site objs' startShard.toNat (q.format.shardCount.toNat - startShard.toNat) out ∧
      (total → startShard = 0 → fullScanCost q objs0 ≤ b → ∃ report, out = .ok (.repairScan report none) ∧
          Covers q.site objs0 0 q.format.shardCount.toNat report)) objs := by
  have hscan := ends_repairFrom (q.format.shardCount.toNat - startShard.toNat) startShard.toNat b {} objs hinv
  refine Ends.bind hscan (fun scanned left objs1 _ hM => ?_) fun e left objs1 _ hM => ?_
  · obtain ⟨report, resume⟩ := scanned
    refine Ends.pure fun objs2 hobjs2 _ => ⟨⟨fun output h => ?_, fun r s h f hf => ?_⟩, fun ht hzero hb => ?_⟩
    · exact ⟨report, resume, (Except.ok.inj h).symm⟩
    · cases h
      rcases (hM.1 report resume rfl).only f hf with hnil | ⟨i, hi, jobId, rfl, h1, h2⟩
      · cases hnil
      · exact ⟨i, hi, jobId, rfl, ne_none_of_grown hobjs2 (by simp [planeOf, audited]) h1,
          ne_none_of_grown hobjs2 (by simp [planeOf, audited]) h2⟩
    · subst hzero
      obtain ⟨r, hr, hcovers⟩ := hM.2 ht hb
      cases hr
      exact ⟨report, rfl, hcovers⟩
  · refine ⟨⟨fun output h => (by cases h), fun r s h => (by cases h)⟩, fun ht hzero hb => ?_⟩
    subst hzero
    obtain ⟨r, hr, -⟩ := hM.2 ht hb
    cases hr

/-- A store is sound for a scan that begins on it. -/
lemma Orderly.sound {total : Prop} {objs : Objects} (h : Orderly S objs) : Sound S total objs objs :=
  ⟨h, fun _ _ _ hget => hget, h.owned, fun _ _ _ => rfl⟩

/-- **A full scan of a quiet orderly store** returns and finds the jobs that ended twice, and
nothing else. -/
theorem quiet_scan {j budget : Nat} {cfg after : Calls} {out : Except Error Output}
    (horder : Orderly q.site cfg.world.objects) (hbudget : fullScanCost q cfg.world.objects ≤ budget)
    (hrun : machine.Run (Calm.terms Set.univ j) (Calm.starting cfg j ⟨q, .repairScan 0, budget⟩) after)
    (hret : after.Returned j ⟨q, .repairScan 0, budget⟩ out) :
    ∃ report, out = .ok (.repairScan report none) ∧ ∀ f, f ∈ report.findings ↔
      Duplicate q.site cfg.world.objects 0 q.format.shardCount.toNat f := by
  have hsuits : Calm.Suits (Calm.terms Set.univ j) (scanning q.site True cfg.world.objects) j
      ⟨q, .repairScan 0, budget⟩
      fun cfg' => machine.Run (Calm.terms Set.univ j) (Calm.starting cfg j ⟨q, .repairScan 0, budget⟩) cfg' := by
    refine ⟨fun cfg' o c _ hadm => ?_, fun cfg' i call' o k c _ hi hij _ hadm => ?_, fun cfg' e _ hi hadm => ?_⟩
    · have hfault : c.fault = none := Calm.step_self.mp hadm
      cases o with
      | store r => exact ⟨c.stamp, hfault ▸ rfl⟩
      | _ => rfl
    · have hsame : Same q.site cfg'.world.objects (cfg'.world.exec i o c).2.objects :=
        fun key _ => (if_neg hij).mp hadm key trivial
      exact ⟨hsame.grown, Sound.congr hi hsame⟩
    · have hsame : Same q.site cfg'.world.objects (cfg'.world.outside e).objects :=
        fun key _ => hadm key trivial
      exact ⟨hsame.grown, Sound.congr hi hsame⟩
  obtain ⟨-, hsound, hout⟩ := Calm.run_suited hsuits horder.sound (ends_repairScan horder.sound 0 budget) hrun
  obtain ⟨left, haudited, henough⟩ := hout out hret
  obtain ⟨report, rfl, hcovers⟩ := henough trivial rfl hbudget
  have hsame := hsound.still trivial
  refine ⟨report, rfl, fun f => ⟨fun hf => ?_, ?_⟩⟩
  · obtain ⟨i, hi, jobId, rfl, h1, h2⟩ := haudited.only report none rfl f hf
    rw [hsame _ (absolute_mem_steady.mpr (by simp [planeOf, audited]))] at h1 h2
    exact ⟨i, hi, jobId, rfl, h1, h2⟩
  · rintro ⟨i, hi, jobId, rfl, h1, h2⟩
    exact hcovers i hi jobId h1 h2

/-- A scan of all shards by handle `q` that is left alone, meets no fault and has enough budget
returns, and it reports nothing but jobs that ended twice. -/
def AuditsClean (q : Queue) (j : Nat) (cfg : Calls) : Prop :=
  ∃ enough, ∀ budget, enough ≤ budget → (∃ after out, machine.Run (Calm.terms Set.univ j)
      (Calm.starting cfg j ⟨q, .repairScan 0, budget⟩) after ∧ after.Returned j ⟨q, .repairScan 0, budget⟩ out) ∧
    ∀ after out, machine.Run (Calm.terms Set.univ j)
      (Calm.starting cfg j ⟨q, .repairScan 0, budget⟩) after → after.Returned j ⟨q, .repairScan 0, budget⟩ out →
        ∃ report, out = .ok (.repairScan report none) ∧ ∀ f ∈ report.findings, f.kind = .duplicateTerminal

/-- **Honest histories audit clean.**  Whatever faults the calls of an honest run have met, and wherever they have
stopped, a repair scan of all shards that is then left alone with enough budget returns, and the only findings it
can have are jobs with both a receipt and a dead record, which a race may leave behind. -/
theorem honest_runs_audit_clean (S : Site) (F : FormatRecord) (w : World) (hfresh : Fresh S w) (cfg : Calls)
    (hrun : machine.Run (honest S F) (Machine.initial w) cfg) (q : Queue) (hsite : q.site = S)
    (j : Nat) : AuditsClean q j cfg := by
  subst hsite
  refine ⟨fullScanCost q cfg.world.objects, fun budget hbudget => ⟨?_, fun after out hrun' hret => ?_⟩⟩
  · exact Calm.run_returns _ (fun o w => Calm.step_self.mpr rfl) cfg
  · obtain ⟨report, rfl, hfindings⟩ := quiet_scan (run_orderly hfresh hrun) hbudget hrun' hret
    refine ⟨report, rfl, fun f hf => ?_⟩
    obtain ⟨i, -, jobId, rfl, -⟩ := (hfindings f).mp hf
    rfl

end Honest

open Scenario

/-- The calls of these runs that carry no handle are honest. -/
lemma playable_honest [Sha256] (i : Nat) (call : Call) (floorNs : UInt64)
    (hqueue : call.queue = demo) (hgc : ∀ a b c, call.action ≠ .gc a b c) (hhandle : call.action.handle = none) :
    Playable (honest demo.site demo.format) i call floorNs := by
  refine ⟨fun _ => ⟨congrArg Queue.site hqueue, congrArg Queue.format hqueue, hgc, fun c hc => ?_,
    fun c hc => ?_⟩, fun _ _ _ _ => trivial⟩
  · rw [hhandle] at hc
    cases hc
  · rw [hc] at hhandle
    cases hhandle

lemma run_once_honest [Sha256] (attempts : UInt64) :
    machine.Run (honest demo.site demo.format) (Machine.initial (blank 0)) (once attempts) :=
  run_once (playable_honest 0 (enqueue attempts) 0 rfl nofun rfl)
    (playable_honest 1 (claiming 0 1) 0 rfl nofun rfl)

lemma run_twice_honest [Sha256] : machine.Run (honest demo.site demo.format) (Machine.initial (blank 0)) twice :=
  run_twice (playable_honest 0 (enqueue 2) 0 rfl nofun rfl)
    (playable_honest 1 (claiming 0 1) 0 rfl nofun rfl)
    (playable_honest 2 (claiming 1 1) 1 rfl nofun rfl) fun _ _ _ _ _ => trivial

/-- The small job was delivered twice, the second time by a takeover. -/
theorem honest_runs_audit_clean_redelivered : ∃ (_ : Sha256) (cfg : Calls) (v : Version),
    cfg.Returned 2 (claiming 1 1) (.ok (.claim (.claimed (secondClaim v)))) ∧ AuditsClean demo 3 cfg := by
  let hash := Sha256.zero
  have hfresh : Fresh demo.site (blank 0) := ⟨rfl, fun _ _ _ _ => rfl⟩
  exact ⟨hash, twice, _, twice_at.2,
    honest_runs_audit_clean demo.site demo.format (blank 0) hfresh twice run_twice_honest demo rfl 3⟩

end Audit
end StowQ
