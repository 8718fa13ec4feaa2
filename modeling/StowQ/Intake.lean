import StowQ.Knowledge
import StowQ.Planes
import StowQ.Scenario.Basic

/-!
# Enqueue is first-wins

Any number of calls of every operation but garbage collection, under any faults.  A job record
or a payload, once stored, stays, and was stored by an enqueue: so a job has at most one record,
and what an enqueue reports is decided by comparing that record with its own.

An enqueue is analysed by its history.  It creates a job record that refers to a payload only
after the write of the payload was answered or the payload was seen, and it reports `Committed`
only on the evidence of its own record.
-/

namespace StowQ
namespace Intake

open Data StowQ.Core Store Format Concurrent Interleaving Keys

variable {k : Key} {stored : Stored}

section Intake

variable [Sha256]

/-- Where enqueues store what is authoritative. -/
def planes : List Str := [jobsSeg, payloadsSeg]

/-- Calls of any operation but garbage collection, on handles of one queue.  Every request may
meet any fault, and nobody else touches job records or payloads. -/
def offering (S : Site) (F : FormatRecord) : Terms where
  start _ _ call := call.queue.site = S ∧ call.queue.format = F ∧ ∀ a b c, call.action ≠ .gc a b c
  step _ _ _ _ _ := True
  env _ e := ∀ k, planeOf k ∈ planes → Spares (S.absolute k) e

/-- A store without job records and payloads. -/
structure Fresh (S : Site) (w : World) : Prop where
  log : w.log = []
  absent : ∀ k, planeOf k ∈ planes → w.objects.get? (S.absolute k) = none

/-! ## What calls create -/

/-- Among job records and payloads, a call creates what its input says. -/
def Offers (call : Call) (o : Op) : Prop :=
  ∀ k body sha256, planeOf k ∈ planes → o = .store (.putIfAbsent (call.queue.absolute k) body sha256) →
    ∃ input j, call.action = .enqueue input ∧
      ((k = .payload j (Sha256.digest input.payload) ∧ body = input.payload) ∨ (k = .job (call.queue.shardOf j) j ∧
          body = call.queue.encodeAt k (.job (call.queue.jobRecord input j))))

lemma tame_offers (call : Call) : Tame (Offers call) := by
  constructor <;> intros <;> intro _ _ _ _ heq <;> cases heq

lemma emits_offers {call : Call} (hgc : ∀ a b c, call.action ≠ .gc a b c) : call.prog.Emits (Offers call) := by
  by_cases henqueue : ∃ input, call.action = .enqueue input
  · obtain ⟨q, action, budget⟩ := call
    obtain ⟨input, rfl⟩ := henqueue
    have hput : ∀ {k : Key} {body : Bytes}, (planeOf k ∈ planes →
        ∃ j, (k = .payload j (Sha256.digest input.payload) ∧ body = input.payload) ∨
          (k = .job (q.shardOf j) j ∧ body = q.encodeAt k (.job (q.jobRecord input j)))) →
        Offers ⟨q, .enqueue input, budget⟩ (.put (q.absolute k) body) := by
      intro k body h k' body' sha256 hplane heq
      injection heq with heq
      injection heq with hkey hbody
      obtain rfl := q.site.absolute_inj.mp hkey
      subst hbody
      obtain ⟨j, hj⟩ := h hplane
      exact ⟨input, j, rfl, hj⟩
    have htask : Budgeted.Emits (Offers ⟨q, .enqueue input, budget⟩) (q.enqueue input) := by
      apply Footprint.enqueue (tame_offers _)
      · exact fun j => hput fun _ => ⟨j, .inl ⟨rfl, rfl⟩⟩
      · exact fun j => hput fun _ => ⟨j, .inr ⟨rfl, rfl⟩⟩
      · intro j k body sha256 hplane heq
        cases heq
      · exact fun b s j => hput fun hplane => absurd hplane (show delayedSeg ∉ planes by decide)
    exact (Budgeted.Emits.prog (htask.bind fun _ => Budgeted.Keeps.pure _) budget).map
  · refine (Call.within hgc).mono fun o ho k body sha256 hplane heq => ?_
    refine absurd heq (ho.ne_put fun hmem => henqueue ?_)
    -- no other operation creates in these planes
    obtain ⟨q, action, budget⟩ := call
    cases action with
    | enqueue input => exact ⟨input, rfl⟩
    | _ =>
      simp only [planes, List.mem_cons, List.not_mem_nil, or_false] at hplane
      rcases hplane with hseg | hseg <;> rw [hseg] at hmem <;> simp [Action.planes, outputsSeg,
        jobsSeg, payloadsSeg, claimsSeg, leasesSeg, tailsSeg, deadSeg,
        termidxSeg, metaSeg, receiptsSeg, failsSeg, delayedSeg,
        quarantineSeg] at hmem

lemma offering_offers {S : Site} {F : FormatRecord} (cfg : Calls) (i : Nat) (call : Call)
    (h : (offering S F).start cfg i call) : call.prog.Emits (Offers call) :=
  emits_offers h.2.2

omit [Sha256] in
lemma planes_preserved (hk : planeOf k ∈ planes) : planeOf k ∉ overwritten ++ swept := by
  simp only [planes, List.mem_cons, List.not_mem_nil, or_false] at hk
  rcases hk with hk | hk <;> rw [hk] <;> decide

lemma lasting {S : Site} {F : FormatRecord} (hk : planeOf k ∈ planes) :
    Lasting (offering S F) (S.absolute k) where
  calls := by
    rintro cfg i call ⟨rfl, -, hgc⟩
    exact Call.preserves hgc (planes_preserved hk)
  env _ _ h := h k hk

/-! ## What an enqueue has seen -/

/-- The bytes were put at the key, and are known to be there. -/
def Laid (q : Queue) (k : Key) (body : Bytes) (h : List Exchange) : Prop :=
  (∃ answer, ⟨.putIfAbsent (q.absolute k) body (Sha256.digest body), answer⟩ ∈ h) ∧ Placed (q.absolute k) h

/-- A job record is created once its payload is placed. -/
def Grounded (q : Queue) (input : EnqueueInput) (h : List Exchange) (r : Request) : Prop :=
  ∀ shard jobId body sha256, r = .putIfAbsent (q.absolute (.job shard jobId)) body sha256 →
    q.inlines input.payload = true ∨ Laid q (.payload jobId (Sha256.digest input.payload)) input.payload h

/-- The id in an outcome. -/
def outcomeId : EnqueueOutcome → ByteArr 16
  | .committed jobId | .idTaken jobId => jobId

/-- What an outcome is reported on. -/
def Reported (q : Queue) (input : EnqueueInput) (out : EnqueueOutcome) (h : List Exchange) : Prop :=
  let rel := Key.job (q.shardOf (outcomeId out)) (outcomeId out)
  let record := Record.job (q.jobRecord input (outcomeId out))
  (∀ jobId, input.jobId = some jobId → outcomeId out = jobId) ∧
    match out with
    | .committed _ => Won q rel record h
    | .idTaken _ => ∃ obj, ⟨.get (q.absolute rel), .ok obj⟩ ∈ h ∧ q.decodeAt rel obj.body ≠ .ok record

section Enqueue

variable {q : Queue} {input : EnqueueInput} {h h' : List Exchange}

lemma Laid.mono {body : Bytes} (hl : Laid q k body h) (hh : h <:+ h') : Laid q k body h' :=
  ⟨hl.1.imp fun _ hmem => hh.subset hmem, hl.2.mono hh⟩

lemma Reported.mono {out : EnqueueOutcome} (hr : Reported q input out h) (hh : h <:+ h') :
    Reported q input out h' := by
  obtain ⟨hid, hevidence⟩ := hr
  refine ⟨hid, ?_⟩
  cases out with
  | committed jobId => exact Won.mono hevidence hh
  | idTaken jobId =>
    obtain ⟨obj, hmem, hdec⟩ := hevidence
    exact ⟨obj, List.IsSuffix.subset hh hmem, hdec⟩

lemma holds_resolvePresence {key : Str} (hinv : Licensed (Grounded q input) h) :
    Holds (knowing (Grounded q input)) (Queue.resolvePresence key)
      (OnOk fun there h' => there = true → Placed key h') h := by
  refine holds_retrying hinv fun h1 _ _ => holds_spend ?_
  refine holds_ask (fun _ _ _ => nofun) fun answer h2 _ hmem _ => ?_
  cases answer with
  | ok info =>
    refine holds_pure fun h3 _ hh3 there hthere _ => ?_
    exact .inr (.inl ⟨info, List.IsSuffix.subset hh3 hmem⟩)
  | error e =>
    have hretry := holds_retryOrFail (D := knowing (Grounded q input)) (w := h2) (e := e)
      (Q := fun r h' => ∀ v, r = some v → v = true → Placed key h') nofun
    cases e with
    | notFound =>
      refine holds_pure fun _ _ _ there hthere htrue => ?_
      cases hthere
      cases htrue
    | _ => exact hretry

lemma holds_putBytesResolving {body : Bytes} (hk : ∀ s j, k ≠ .job s j) (hinv : Licensed (Grounded q input) h) :
    Holds (knowing (Grounded q input))
      (Queue.putBytesResolving (q.absolute k) body (Sha256.digest body))
      (OnOk fun _ h' => Laid q k body h') h := by
  refine holds_retrying hinv fun h1 _ _ => holds_spend ?_
  have hfree : ∀ h2, Grounded q input h2 (.putIfAbsent (q.absolute k) body (Sha256.digest body)) := by
    intro h2 shard jobId body' sha256 heq
    injection heq with hkey
    exact absurd (q.site.absolute_inj.mp hkey) (hk shard jobId)
  refine holds_ask (fun h2 _ _ => hfree h2) fun answer h2 _ hmem hi2 => ?_
  cases answer with
  | ok outcome =>
    have hlaid : Laid q k body h2 := ⟨⟨_, hmem⟩, .inl ⟨body, _, outcome, hmem⟩⟩
    exact holds_pure fun h3 _ hh3 _ _ => hlaid.mono hh3
  | error e =>
    cases e with
    | transport => exact holds_pure nofun
    | outcomeUnknown why =>
      refine (holds_resolvePresence hi2).andThen fun there h3 _ hh3 hthere => ?_
      cases there with
      | true =>
        have hlaid : Laid q k body h3 := ⟨⟨_, hh3.subset hmem⟩, hthere rfl⟩
        exact holds_pure fun h4 _ hh4 _ _ => hlaid.mono hh4
      | false => exact holds_pure nofun
    | _ => exact holds_fail

lemma holds_placePayload (jobId : ByteArr 16) (hinv : Licensed (Grounded q input) h) :
    Holds (knowing (Grounded q input)) (q.placePayload input jobId) (OnOk fun _ h' =>
      q.inlines input.payload = true ∨
        Laid q (.payload jobId (Sha256.digest input.payload)) input.payload h') h := by
  unfold Queue.placePayload
  split
  · next hinline => exact holds_pure fun _ _ _ => .inl hinline
  · have hk : ∀ s j, Key.payload jobId (Sha256.digest input.payload) ≠ .job s j :=
      nofun
    exact (holds_putBytesResolving hk hinv).mono fun _ _ _ _ hq r hr => .inr (hq r hr)

lemma holds_pickJobId : Holds (knowing (Grounded q input)) (Queue.pickJobId input)
    (OnOk fun jobId _ => ∀ given, input.jobId = some given → jobId = given) h := by
  unfold Queue.pickJobId
  cases input.jobId with
  | some jobId => exact holds_pure fun _ _ _ given hgiven => Option.some.inj hgiven
  | none =>
    have hany : Holds (knowing (Grounded q input)) Routine.freshToken (fun _ _ => True) h :=
      holds_of_asks (B := fun o => ∀ r, o ≠ .store r) (Budgeted.Emits.request nofun).prog
        fun r hr => absurd rfl (hr r)
    exact hany.mono nofun

lemma holds_indexDelay (notBeforeNs : Option UInt64) (shard : UInt16) (jobId : ByteArr 16) :
    Holds (knowing (Grounded q input)) (q.indexDelay notBeforeNs shard jobId) (fun _ _ => True) h := by
  have hemits : Budgeted.Emits (Footprint.Avoids q .job) (q.indexDelay notBeforeNs shard jobId) := by
    unfold Queue.indexDelay
    split
    · exact Budgeted.Keeps.pure _
    · split
      · next hentry => exact Footprint.delayIndexEntry (fun _ => Footprint.avoids_put nofun) hentry
      · exact Budgeted.Yields.fail trivial
  exact holds_of_asks hemits.prog fun _ hr _ _ s j body sha256 heq =>
    absurd (congrArg Op.store heq) (hr s j body sha256)

/-- **An enqueue acts and reports on evidence.** -/
theorem holds_enqueue : Holds (knowing (Grounded q input)) (q.enqueue input) (OnOk (Reported q input)) h := by
  unfold Queue.enqueue
  split
  · exact holds_fail
  refine holds_pickJobId.andThen fun jobId h1 hi1 _ hid => ?_
  refine (holds_placePayload jobId hi1).andThen fun _ h2 hi2 _ hplaced => holds_spend ?_
  have hput : Holds (knowing (Grounded q input))
      (q.putRecord (.job (q.shardOf jobId) jobId) (.job (q.jobRecord input jobId)))
      (OnOk (Resolves q (.job (q.shardOf jobId) jobId) (.job (q.jobRecord input jobId)))) h2 := by
    refine holds_putRecord (fun h3 hh3 _ shard jobId' body sha256 heq => ?_) (fun _ _ _ => nofun)
      (fun _ _ _ => nofun) hi2
    injection heq with hkey
    cases q.site.absolute_inj.mp hkey
    exact hplaced.imp_right fun hp => hp.mono hh3
  refine hput.andThen fun resolved h3 hi3 _ hwon => ?_
  cases resolved with
  | notCommitted => exact holds_fail
  | committed =>
    refine holds_after (holds_indexDelay _ _ _) fun _ h4 _ hh4 => holds_pure fun h5 _ hh5 => ?_
    exact ⟨hid, (hwon.1 rfl).mono (hh4.trans hh5)⟩
  | lost =>
    refine (holds_readRetrying (fun _ _ _ => nofun) hi3).andThen fun obj h4 _ _ hread => ?_
    have hmem : ∀ {h5}, h4 <:+ h5 → ⟨.get (q.absolute (.job (q.shardOf jobId) jobId)), .ok obj⟩ ∈ h5 :=
      fun hh5 => List.IsSuffix.subset hh5 hread
    split
    · next hown =>
        exact holds_pure fun h5 _ hh5 =>
          ⟨hid, .inr ⟨obj, hmem hh5, evidence_eq_committed.mp hown⟩⟩
    · next hother =>
        exact holds_pure fun h5 _ hh5 =>
          ⟨hid, obj, hmem hh5, fun hdec => hother (evidence_eq_committed.mpr hdec)⟩

end Enqueue

/-! ## Runs -/

/-- What calls ask for: job records on the evidence of their payload. -/
def asks (call : Call) : List Exchange → Request → Prop :=
  match call.action with
  | .enqueue input => Grounded call.queue input
  | _ => fun _ _ => True

/-- What calls return: outcomes on evidence. -/
def returns (call : Call) (r : Except Error Output) (h : List Exchange) : Prop :=
  ∀ input out, call.action = .enqueue input → r = .ok (.enqueue out) → Reported call.queue input out h

lemma holds_asks (call : Call) : Holds (knowing (asks call)) (call.action.task call.queue) (returns call) [] := by
  obtain ⟨q, action, budget⟩ := call
  have hother : (∀ input, action ≠ .enqueue input) → Holds (knowing fun _ _ => True) (action.task q)
      (returns ⟨q, action, budget⟩) [] := by
    intro h
    have hany : Holds (knowing fun _ _ => True) (action.task q) (fun _ _ => True) [] :=
      holds_of_asks (B := fun _ => True) (fun b => .any _) fun _ _ _ _ => trivial
    exact hany.mono fun _ _ _ _ _ input _ haction => absurd haction (h input)
  cases action with
  | enqueue input =>
    have henqueue : Holds (knowing (Grounded q input)) (q.enqueue input) (OnOk (Reported q input)) [] :=
      holds_enqueue
    have htask := henqueue.andThen
      (Q := fun out h' => ∀ out', out = .enqueue out' → Reported q input out' h')
      (f := fun out => pure (Output.enqueue out)) fun out h1 _ _ hout => by
        refine holds_pure fun h2 _ hh2 out' heq => ?_
        cases heq
        exact hout.mono hh2
    refine htask.mono fun r h' _ _ hr input' out haction hout => ?_
    cases haction
    exact hr _ hout out rfl
  | _ => exact hother nofun

/-- The record of a job goes to its shard. -/
def jobRel (S : Site) (F : FormatRecord) (jobId : ByteArr 16) : Key :=
  .job (Keys.computeShard S.queueId jobId (max F.shardCount 1)) jobId

/-- The payloads of the enqueues of a run have different digests. -/
def PayloadsApart (log : List Event) : Prop :=
  ∀ i call input i' call' input', .started i call ∈ log → call.action = .enqueue input →
    .started i' call' ∈ log → call'.action = .enqueue input' →
    Sha256.digest input.payload = Sha256.digest input'.payload → input.payload = input'.payload

section Runs

variable {S : Site} {F : FormatRecord} {w : World} {cfg cfg' : Calls} {jobId : ByteArr 16}

/-- What stands at a payload key is the payload of an enqueue. -/
lemma run_payload (hfresh : Fresh S w) (hrun : machine.Run (offering S F) (Machine.initial w) cfg)
    {digest : Digest} (hget : cfg.world.objects.get? (S.absolute (.payload jobId digest)) = some stored) :
    ∃ i call input, .started i call ∈ cfg.world.log ∧ call.action = .enqueue input ∧
      digest = Sha256.digest input.payload ∧ stored.body = input.payload := by
  have hk : planeOf (.payload jobId digest) ∈ planes := List.mem_cons_of_mem _ List.mem_cons_self
  obtain ⟨i, call, at_, hc⟩ := (lasting hk).origin offering_offers hfresh.log (hfresh.absent _ hk) hrun hget
  obtain ⟨_, rfl, -, -⟩ := hc.admitted
  obtain ⟨input, j, haction, ⟨heq, hbody⟩ | ⟨heq, -⟩⟩ := hc.listed _ _ _ hk rfl
  · cases heq
    exact ⟨i, call, input, hc.started, haction, rfl, hbody⟩
  · cases heq

omit [Sha256] in
lemma job_mem_planes (shard : UInt16) (jobId : ByteArr 16) : planeOf (.job shard jobId) ∈ planes :=
  List.mem_cons_self

/-- What stands at the key of a job is the record of an enqueue, with its payload in place. -/
lemma run_job (hfresh : Fresh S w) (hrun : machine.Run (offering S F) (Machine.initial w) cfg)
    {shard : UInt16} (hget : cfg.world.objects.get? (S.absolute (.job shard jobId)) = some stored) :
    ∃ i call input, .started i call ∈ cfg.world.log ∧ call.action = .enqueue input ∧
      call.queue.site = S ∧ call.queue.format = F ∧ Key.job shard jobId = jobRel S F jobId ∧
      stored.body = S.encodeAt (.job shard jobId) (.job (call.queue.jobRecord input jobId)) ∧
      (call.queue.inlines input.payload = true ∨ ∃ payload, cfg.world.objects.get?
        (S.absolute (.payload jobId (Sha256.digest input.payload))) = some payload) := by
  have hk := job_mem_planes shard jobId
  obtain ⟨i, call, at_, hc⟩ := (lasting hk).origin offering_offers hfresh.log (hfresh.absent _ hk) hrun hget
  obtain ⟨_, rfl, rfl, -⟩ := hc.admitted
  obtain ⟨input, j, haction, ⟨heq, -⟩ | ⟨heq, hbody⟩⟩ := hc.listed _ _ _ hk rfl
  · cases heq
  cases heq
  refine ⟨i, call, input, hc.started, haction, rfl, rfl, rfl, hbody, ?_⟩
  -- the evidence on which the record was created
  obtain ⟨k, hthread⟩ := hc.thread
  have hasks := run_asks (fun _ _ call _ => holds_asks call) hfresh.log hc.run hthread
  unfold asks at hasks
  rw [haction] at hasks
  refine (hasks _ _ _ _ rfl).imp_right fun hlaid => ?_
  have hpayload : planeOf (.payload jobId (Sha256.digest input.payload)) ∈ planes :=
    List.mem_cons_of_mem _ List.mem_cons_self
  exact (lasting hpayload).placed hfresh.log hrun (hlaid.2.mono (own_suffix hc.earlier))

/-- The record at the key of a job, whatever the key holds. -/
lemma run_recordAt (hfresh : Fresh S w) (hrun : machine.Run (offering S F) (Machine.initial w) cfg)
    (hget : cfg.world.objects.get? (S.absolute (jobRel S F jobId)) = some stored) :
    ∃ job, S.decodeAt (jobRel S F jobId) stored.body = .ok (.job job) := by
  obtain ⟨i, call, input, -, -, -, -, -, hbody, -⟩ := run_job hfresh hrun hget
  refine ⟨call.queue.jobRecord input jobId, ?_⟩
  rw [show S.decodeAt (jobRel S F jobId) stored.body = S.decodeAt (jobRel S F jobId)
    (S.encodeAt (jobRel S F jobId) (.job (call.queue.jobRecord input jobId))) by rw [hbody]; rfl]
  exact decode_encode (.job _) (call.queue.jobRecord_wellFormed input jobId) _ _

end Runs

/-! ## First wins -/

/-- The inline bound a handle goes by. -/
def inlineBound (q : Queue) : UInt64 := min q.opts.maxInlinePayload q.format.inlineLimit

/-- Two inputs ask for the same job but for its id. -/
structure SameContent (input input' : EnqueueInput) : Prop where
  payload : input.payload = input'.payload
  contentType : input.contentType = input'.contentType
  maximumAttempts : input.maximumAttempts = input'.maximumAttempts
  notBeforeNs : input.notBeforeNs = input'.notBeforeNs

lemma jobRecord_congr {q q' : Queue} {input input' : EnqueueInput}
    (hbound : inlineBound q = inlineBound q') (hsame : SameContent input input') (jobId : ByteArr 16) :
    q.jobRecord input jobId = q'.jobRecord input' jobId := by
  have hinlines : q.inlines input.payload = q'.inlines input'.payload := by
    unfold inlineBound at hbound
    unfold Queue.inlines
    rw [hbound, hsame.payload]
  unfold Queue.jobRecord
  rw [hinlines, hsame.payload, hsame.contentType, hsame.maximumAttempts, hsame.notBeforeNs]

/-- What holds of the enqueues of one job id in a configuration: the job has one record for good, the outcome of
every enqueue is decided by comparing that record with the call's own, and its payload is there. -/
structure FirstWins (S : Site) (F : FormatRecord) (cfg : Calls) (jobId : ByteArr 16) : Prop where
  /-- The record of the job never changes. -/
  lasting : ∀ stored, cfg.world.objects.get? (S.absolute (jobRel S F jobId)) = some stored →
    ∀ cfg', machine.Run (offering S F) cfg cfg' →
      cfg'.world.objects.get? (S.absolute (jobRel S F jobId)) = some stored
  /-- A success tells whether the record of the job is the call's own. -/
  outcome : ∀ i call input out, cfg.Returned i call (.ok (.enqueue out)) →
    call.action = .enqueue input → outcomeId out = jobId →
    (∀ given, input.jobId = some given → jobId = given) ∧
    ∃ job, recordAt S cfg.world.objects (jobRel S F jobId) = some (.job job) ∧
      (out = .committed jobId ↔ job = call.queue.jobRecord input jobId) ∧
      (out = .idTaken jobId ↔ job ≠ call.queue.jobRecord input jobId)
  /-- A retry of a committed input does not find the id taken. -/
  retry : ∀ i call input j call' input' out,
    cfg.Returned i call (.ok (.enqueue (.committed jobId))) → call.action = .enqueue input →
    cfg.Returned j call' (.ok (.enqueue out)) → call'.action = .enqueue input' →
    outcomeId out = jobId → SameContent input input' →
    inlineBound call.queue = inlineBound call'.queue → out = .committed jobId
  /-- A detached payload is in place. -/
  payload : ∀ job rel, recordAt S cfg.world.objects (jobRel S F jobId) = some (.job job) →
    job.payloadKey = some rel →
    ∃ stored, cfg.world.objects.get? (S.root ++ rel) = some stored ∧ Sha256.digest stored.body = job.payloadDigest ∧
      (PayloadsApart cfg.world.log → UInt64.ofNat stored.body.length = job.payloadLength)

section FirstWins

variable {S : Site} {F : FormatRecord} {w : World} {cfg : Calls} {jobId : ByteArr 16}

lemma run_detached (hfresh : Fresh S w) (hrun : machine.Run (offering S F) (Machine.initial w) cfg)
    {shard : UInt16} {job : JobRecord} {rel : Str}
    (hjob : recordAt S cfg.world.objects (.job shard jobId) = some (.job job))
    (hrel : job.payloadKey = some rel) :
    ∃ stored, cfg.world.objects.get? (S.root ++ rel) = some stored ∧ Sha256.digest stored.body = job.payloadDigest ∧
      (PayloadsApart cfg.world.log → UInt64.ofNat stored.body.length = job.payloadLength) := by
  obtain ⟨stored, hget, hdec⟩ := decode_of_recordAt hjob
  obtain ⟨i, call, input, hstarted, haction, rfl, rfl, -, hbody, hplaced⟩ := run_job hfresh hrun hget
  have hown : job = call.queue.jobRecord input jobId := by
    have hdec' := decode_encode (.job (call.queue.jobRecord input jobId))
      (call.queue.jobRecord_wellFormed input jobId) call.queue.site.queueId
      (call.queue.site.tagFor (.job shard jobId))
    rw [hbody] at hdec
    cases hdec.symm.trans hdec'
    rfl
  subst hown
  -- a record with a key is that of a payload that was not inlined
  have hdetached : call.queue.inlines input.payload = false := by
    by_contra hinline
    rw [Bool.not_eq_false] at hinline
    have hnone : (call.queue.jobRecord input jobId).payloadKey = none := if_pos hinline
    rw [hnone] at hrel
    cases hrel
  have hkey : (call.queue.jobRecord input jobId).payloadKey =
      some (Key.payload jobId (Sha256.digest input.payload)).fmt :=
    if_neg (by rw [hdetached]; exact Bool.false_ne_true)
  cases hkey.symm.trans hrel
  rcases hplaced with hinline | ⟨payload, hpayload⟩
  · cases hdetached.symm.trans hinline
  obtain ⟨i', call', input', hstarted', haction', hdigest, hbody'⟩ := run_payload hfresh hrun hpayload
  refine ⟨payload, hpayload, by rw [hbody']; exact hdigest.symm, fun hapart => ?_⟩
  rw [hbody', ← hapart i call input i' call' input' hstarted haction hstarted' haction' hdigest]
  rfl

/-- What a success says about the record of the job. -/
lemma run_reported (hfresh : Fresh S w) (hrun : machine.Run (offering S F) (Machine.initial w) cfg)
    {i : Nat} {call : Call} {input : EnqueueInput} {out : EnqueueOutcome}
    (hret : cfg.Returned i call (.ok (.enqueue out))) (haction : call.action = .enqueue input) :
    (∀ given, input.jobId = some given → outcomeId out = given) ∧
    ∃ job, recordAt S cfg.world.objects (jobRel S F (outcomeId out)) = some (.job job) ∧
      (out = .committed (outcomeId out) ↔ job = call.queue.jobRecord input (outcomeId out)) := by
  obtain ⟨hid, hevidence⟩ := run_answers (fun _ _ call _ => holds_asks call) hfresh.log hrun hret
    input out haction rfl
  refine ⟨hid, ?_⟩
  obtain ⟨-, ⟨_, rfl, rfl, -⟩, -⟩ := (run_accounted offering_offers hfresh.log hrun).2 i _ hret
  have hlasting := lasting (S := call.queue.site) (F := call.queue.format)
    (job_mem_planes (call.queue.shardOf (outcomeId out)) (outcomeId out))
  have hown : ∀ {objs : Objects} {stored : Stored},
      objs.get? (call.queue.absolute (jobRel call.queue.site call.queue.format (outcomeId out))) =
        some stored → ∀ {job : JobRecord}, call.queue.decodeAt (jobRel call.queue.site
          call.queue.format (outcomeId out)) stored.body = .ok (.job job) →
        recordAt call.queue.site objs (jobRel call.queue.site call.queue.format (outcomeId out)) =
          some (.job job) := fun hget _ hdec => recordAt_of_decode hget hdec
  cases out with
  | committed jobId =>
    refine ⟨call.queue.jobRecord input jobId, ?_, iff_of_true rfl rfl⟩
    -- the put was answered, or its outcome was read back
    rcases hevidence with ⟨v, hmem⟩ | ⟨obj, hmem, hdec⟩
    · obtain ⟨stored, hget, hbody⟩ := hlasting.committed hfresh.log hrun hmem
      refine hown hget ?_
      rw [hbody]
      exact decode_encode (.job _) (call.queue.jobRecord_wellFormed input jobId) _ _
    · obtain ⟨stored, hget, rfl⟩ := hlasting.got hfresh.log hrun hmem
      exact hown hget hdec
  | idTaken jobId =>
    obtain ⟨obj, hmem, hdec⟩ := hevidence
    obtain ⟨stored, hget, rfl⟩ := hlasting.got hfresh.log hrun hmem
    obtain ⟨job, hjob⟩ := run_recordAt hfresh hrun hget
    refine ⟨job, hown hget hjob, iff_of_false nofun fun heq => hdec ?_⟩
    rw [← heq]
    exact hjob

/-- **Enqueue is first-wins and idempotent.**  In every run from a fresh store of any calls but collections, under
any faults, the first record of a job id stays for good, and a success tells the truth about it: `Committed` exactly
if that record is the one the call asked for, `IdTaken` exactly if it is another.  So a repeated input commits
again, and the payload a record refers to is in place. -/
theorem enqueue_first_wins (S : Site) (F : FormatRecord) (w : World) (hfresh : Fresh S w) (cfg : Calls)
    (hrun : machine.Run (offering S F) (Machine.initial w) cfg) (jobId : ByteArr 16) :
    FirstWins S F cfg jobId where
  lasting stored hget cfg' hrun' := run_preserved (lasting (job_mem_planes _ _)) hfresh.log hrun hrun' hget
  outcome i call input out hret haction hout := by
    subst hout
    obtain ⟨hid, job, hjob, hiff⟩ := run_reported hfresh hrun hret haction
    refine ⟨hid, job, hjob, hiff, ?_⟩
    rw [ne_eq, ← hiff]
    cases out <;> simp [outcomeId]
  retry i call input j call' input' out hret haction hret' haction' hout hsame hbound := by
    subst hout
    obtain ⟨-, job, hjob, hiff⟩ := run_reported hfresh hrun hret haction
    obtain ⟨-, job', hjob', hiff'⟩ := run_reported hfresh hrun hret' haction'
    have hjobs : job = job' := by
      cases hjob.symm.trans hjob'
      rfl
    rw [hiff', ← hjobs, hiff.mp rfl]
    exact jobRecord_congr hbound hsame _
  payload job rel hjob hrel := run_detached hfresh hrun hjob hrel

end FirstWins

end Intake

open Scenario

/-- Three enqueues race for one id.  Call 0 puts a large payload in place; call 1, with the same input, finds it
there and creates the record; call 2, with another input, finds the id taken; and call 0, which comes second, finds a
record that is its own. -/
theorem enqueue_first_wins_once : ∃ (_ : Sha256) (cfg : Calls),
    cfg.Returned 0 ⟨demo, .enqueue largeInput, 9⟩ (.ok (.enqueue (.committed jobZero))) ∧
      cfg.Returned 1 ⟨demo, .enqueue largeInput, 9⟩ (.ok (.enqueue (.committed jobZero))) ∧
      cfg.Returned 2 ⟨demo, .enqueue (demoInput 1), 9⟩ (.ok (.enqueue (.idTaken jobZero))) ∧
      FirstWins demo.site demo.format cfg jobZero := by
  let hash := Sha256.zero
  let P := offering demo.site demo.format
  let large : Call := ⟨demo, .enqueue largeInput, 9⟩
  let small : Call := ⟨demo, .enqueue (demoInput 1), 9⟩
  let placed := pause 0 large 1 (Machine.initial (blank 0))
  let created := play faultless 1 large placed
  let taken := play faultless 2 small created
  have hstart : ∀ {cfg i call input}, call.queue = demo → call.action = .enqueue input → P.start cfg i call := by
    rintro _ _ ⟨_, _, _⟩ _ rfl rfl
    exact ⟨rfl, rfl, nofun⟩
  have hthread : taken.threads 0 = _ := ((play_threads (by decide)).trans (play_threads (by decide))).trans pause_threads_self
  have hrun : machine.Run P (Machine.initial (blank 0)) (resume 0 taken) :=
    (((pause_plainly 1 (hstart rfl rfl) (fun _ _ => trivial) rfl).trans
      (run_plainly (hstart rfl rfl) (fun _ _ => trivial) (pause_threads (by decide)))).trans
      (run_plainly (hstart rfl rfl) (fun _ _ => trivial)
        ((play_threads (by decide)).trans (pause_threads (by decide))))).trans
      (resume_plainly hthread fun _ _ => trivial)
  have hcreated : created.Returned 1 large (.ok (.enqueue (.committed jobZero))) := play_returned (by decide +kernel)
  have htaken : taken.Returned 2 small (.ok (.enqueue (.idTaken jobZero))) := play_returned (by decide +kernel)
  exact ⟨hash, resume 0 taken, resume_returned hthread (by decide +kernel),
    (resume_threads (by decide)).trans ((play_threads (by decide)).trans hcreated),
    (resume_threads (by decide)).trans htaken,
    enqueue_first_wins demo.site demo.format (blank 0) ⟨rfl, fun _ _ => rfl⟩ _ hrun jobZero⟩

end Intake
end StowQ
