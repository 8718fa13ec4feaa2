import StowQ.Core.ScanRules
import StowQ.Knowledge

/-!
# The evidence behind handles and receipts

A claim handle carries the payload reference of a job record that the scan read, and a receipt
is written on the evidence of the payload and of every output it names.  Both are facts about
the requests of one call and the answers it got.
-/

namespace StowQ
namespace Delivery

open Data StowQ.Core Store Format Concurrent Interleaving
open Footprint (Avoids avoids_put reading_avoids)

variable {job : JobRecord} {rel : Keys.Key} {record : Record}

section Evidence

variable [Sha256] {q : Queue} {h h' : List Exchange} {c : Claim} {outputs : List CommittedOutput}

/-! ## Handles -/

/-- A job record was read at its key. -/
def JobRead (q : Queue) (h : List Exchange) (shard : UInt16) (jobId : ByteArr 16) (job : JobRecord) :
    Prop :=
  ∃ obj, ⟨.get (q.absolute (.job shard jobId)), .ok obj⟩ ∈ h ∧
    q.decodeAt (.job shard jobId) obj.body = .ok (.job job)

/-- The handle carries the payload reference of a job record that was read. -/
def Obtained (q : Queue) (h : List Exchange) (c : Claim) : Prop :=
  ∃ job, JobRead q h c.shard c.jobId job ∧ q.payloadRef job = some c.payload

lemma JobRead.mono {shard : UInt16} {jobId : ByteArr 16} (hr : JobRead q h shard jobId job) (hh : h <:+ h') :
    JobRead q h' shard jobId job := by
  obtain ⟨obj, hmem, hdec⟩ := hr
  exact ⟨obj, List.IsSuffix.subset hh hmem, hdec⟩

lemma Obtained.mono (ho : Obtained q h c) (hh : h <:+ h') : Obtained q h' c := by
  obtain ⟨job, hread, hpayload⟩ := ho
  exact ⟨job, hread.mono hh, hpayload⟩

/-- The call asked for the record to be created, and knows it to be there. -/
def Written (q : Queue) (rel : Keys.Key) (record : Record) (h : List Exchange) : Prop :=
  (∃ answer, ⟨.putIfAbsent (q.absolute rel) (q.encodeAt rel record)
    (Sha256.digest (q.encodeAt rel record)), answer⟩ ∈ h) ∧ Won q rel record h

lemma Written.mono (hw : Written q rel record h) (hh : h <:+ h') : Written q rel record h' :=
  ⟨hw.1.imp fun _ hmem => hh.subset hmem, hw.2.mono hh⟩

/-- The handle names a claim record of this worker, which the call itself has written. -/
def Named (q : Queue) (h : List Exchange) (c : Claim) : Prop :=
  c.generation.toNat < 2 ^ 32 ∧ ∃ r, Written q (.claim c.shard c.jobId c.generation.toUInt32) (.claim r) h ∧
    r.workerId = q.opts.workerId ∧ r.attempt = c.attempt ∧ r.workerToken = c.workerToken ∧
    r.leaseDurationNs = c.leaseDurationNs ∧ r.WellFormed

lemma Named.mono (hn : Named q h c) (hh : h <:+ h') : Named q h' c := by
  obtain ⟨hlt, r, hwon, hrest⟩ := hn
  exact ⟨hlt, r, hwon.mono hh, hrest⟩

omit [Sha256] in
/-- The next generation of one that may be continued. -/
lemma next_lt_of_lt {g : UInt64} (h : g < UInt64.ofNat u32Max.toNat) : (g + 1).toNat < 2 ^ 32 := by
  have hmax : (UInt64.ofNat u32Max.toNat).toNat = 2 ^ 32 - 1 := rfl
  rw [UInt64.lt_iff_toNat_lt, hmax] at h
  rw [UInt64.toNat_add]
  have hone : (1 : UInt64).toNat = 1 := rfl
  omega

/-- Requests that need no evidence. -/
def Unasked : List Exchange → Request → Prop := fun _ _ => True

omit [Sha256] in
lemma holds_unasked {α : Type} (m : Routine α) : Holds (knowing Unasked) m (fun _ _ => True) h :=
  holds_of_asks (B := fun _ => True) (fun b => .any (m b)) fun _ _ _ _ => trivial

lemma holds_readJob (shard : UInt16) (jobId : ByteArr 16) :
    Holds (knowing Unasked) (q.readJob shard jobId) (OnOk fun found h' =>
      ∀ job, found = some job → JobRead q h' shard jobId job) h := by
  refine holds_spend (holds_ask (fun _ _ _ => trivial) fun answer h1 _ hmem _ => ?_)
  cases answer with
  | error e =>
    cases e with
    | notFound => exact holds_pure nofun
    | _ => exact holds_fail
  | ok obj =>
    refine holds_ofRecord fun record hrecord => ?_
    cases record with
    | job job =>
      refine holds_pure fun h2 _ hh2 job' hjob' => ?_
      cases hjob'
      exact ⟨obj, List.IsSuffix.subset hh2 hmem, hrecord⟩
    | _ => exact holds_fail

lemma holds_takeoverHandle {shard : UInt16} {jobId : ByteArr 16} {opts : ClaimOptions} {tail : Tail}
    {token : ByteArr 16} {hint : Option (Version × UInt64)} (hread : JobRead q h shard jobId job)
    (hgen : tail.generation < UInt64.ofNat u32Max.toNat)
    (hwon : Written q (.claim shard jobId (tail.generation + 1).toUInt32)
      (.claim (q.takeoverRecord jobId opts tail token)) h) :
    Holds (knowing Unasked) (q.takeoverHandle shard jobId opts tail job token hint)
      (OnOk fun c h' => Obtained q h' c ∧ Named q h' c) h := by
  refine holds_spend (holds_ask (fun _ _ _ => trivial) fun answer h1 hh1 _ _ => ?_)
  refine holds_ofStore fun info _ => ?_
  split
  · exact holds_fail
  · next payload hpayload =>
      refine holds_after (holds_unasked _) fun _ h2 _ hh2 =>
        holds_after (holds_unasked _) fun _ h3 _ hh3 => holds_pure fun h4 _ hh4 => ?_
      have hpath := ((hh1.trans hh2).trans hh3).trans hh4
      exact ⟨⟨job, hread.mono hpath, hpayload⟩, next_lt_of_lt hgen, _, hwon.mono hpath, rfl, rfl, rfl, rfl,
        q.takeoverRecord_wellFormed ..⟩

lemma holds_putUnasked : Holds (knowing Unasked) (q.putRecord rel record) (OnOk (Resolves q rel record)) h := by
  have hinv : Licensed Unasked h := by
    induction h with
    | nil => trivial
    | cons _ _ ih => exact ⟨trivial, ih⟩
  exact holds_putRecord (fun _ _ _ => trivial) (fun _ _ _ => trivial) (fun _ _ _ => trivial) hinv

lemma holds_putWritten (hinv : Licensed Unasked h) : Holds (knowing Unasked) (q.putRecord rel record)
      (OnOk fun res h' => res = .committed → Written q rel record h') h := by
  have hasked : Holds (knowing Unasked) (q.putRecord rel record) (OnOk fun _ h' => ∃ answer,
      ⟨.putIfAbsent (q.absolute rel) (q.encodeAt rel record) (Sha256.digest (q.encodeAt rel record)), answer⟩ ∈ h')
      h := by
    refine holds_retrying hinv fun h1 _ _ => holds_spend (holds_ask (fun _ _ _ => trivial) fun answer h2 _ hmem _ => ?_)
    exact (holds_unasked _).mono fun _ h3 _ hh3 _ _ _ _ _ => ⟨answer, List.IsSuffix.subset hh3 hmem⟩
  exact (holds_putUnasked.and hasked).mono fun _ _ _ _ hres res hr hcommitted =>
    ⟨(hres res hr).2, (hres res hr).1.1 hcommitted⟩

lemma takesSafely_unasked (opts : ClaimOptions) : TakesSafely (knowing Unasked) q opts (fun _ _ _ _ => True)
      (fun shard jobId job h => JobRead q h shard jobId job)
      (fun shard jobId tail token h => Written q (.claim shard jobId (tail.generation + 1).toUInt32)
        (.claim (q.takeoverRecord jobId opts tail token)) h)
      fun c h => Obtained q h c ∧ Named q h c where
  tolerant _ _ _ _ hg := hg
  quiet _ hp := safe_of_asks hp fun _ _ _ _ => trivial
  gather _ _ _ _ := (holds_unasked _).mono fun _ _ _ _ _ _ _ => trivial
  read shard jobId _ _ := holds_readJob shard jobId
  bury _ _ _ _ _ := holds_unasked _
  put _ _ _ _ _ hinv := holds_putWritten hinv
  handle _ _ _ _ _ _ _ _ _ hread hgen hwon := holds_takeoverHandle hread hgen hwon
  hinted_stable _ _ _ _ _ _ _ _ := trivial
  read_stable _ _ _ _ _ _ hh hread := hread.mono hh
  good_stable _ _ _ _ hh hgood := ⟨hgood.1.mono hh, hgood.2.mono hh⟩

lemma holds_scan (call : Call) {opts : ClaimOptions}
    (hscan : call.action = .claim opts ∨ ∃ max, call.action = .claimMany opts max) :
    Holds (knowing Unasked) (call.action.task call.queue)
      (OnOk fun out h' => ∀ c ∈ out.handles, Obtained call.queue h' c ∧ Named call.queue h' c) [] := by
  have hprobes := (takesSafely_unasked (q := call.queue) opts).probesSafely.scansSafely
  have hinv : (knowing Unasked).service.inv [] := trivial
  rcases hscan with hclaim | ⟨max, hmany⟩
  · rw [hclaim]
    refine (hprobes.holds_claim hinv).andThen fun outcome h1 _ _ hout => ?_
    refine holds_pure fun h2 _ hh2 c hc => ?_
    cases outcome with
    | empty => cases hc
    | claimed c' =>
      obtain rfl := List.mem_singleton.mp hc
      exact ⟨(hout _ rfl).1.mono hh2, (hout _ rfl).2.mono hh2⟩
  · rw [hmany]
    exact (hprobes.holds_claimMany max hinv).andThen fun claims h1 _ _ hout =>
      holds_pure fun h2 _ hh2 c hc => ⟨(hout c hc).1.mono hh2, (hout c hc).2.mono hh2⟩

omit [Sha256] in
/-- The payload of a handle: inline as in the job record, or with its digest and length. -/
lemma payload_cases (h : q.payloadRef job = some c.payload) :
    (∃ bytes, job.payloadInline = some bytes ∧ c.payload = .inline bytes) ∨
      job.payloadInline = none ∧ ∃ rel, job.payloadKey = some rel ∧
        c.payload = .detached (q.root ++ rel) job.payloadDigest job.payloadLength := by
  unfold Queue.payloadRef at h
  cases hinline : job.payloadInline with
  | some bytes =>
    rw [hinline] at h
    exact .inl ⟨bytes, rfl, (Option.some.inj h).symm⟩
  | none =>
    rw [hinline] at h
    cases hkey : job.payloadKey with
    | none => rw [hkey] at h; cases h
    | some rel =>
      rw [hkey] at h
      exact .inr ⟨rfl, rel, rfl, (Option.some.inj h).symm⟩

/-- The handle is for the same job and payload. -/
structure Continues (c c0 : Claim) : Prop where
  shard : c.shard = c0.shard
  jobId : c.jobId = c0.jobId
  payload : c.payload = c0.payload

/-- A renewal hands its claim out again, under the continuation it has written. -/
lemma holds_renew (c0 : Claim) : Holds (knowing Unasked) (q.renew c0)
    (OnOk fun out h' => ∀ c, out = .renewed c → Continues c c0 ∧ Named q h' c) h := by
  have hlost : ∀ {h1}, Holds (knowing Unasked) (pure .leaseLost : Routine RenewOutcome)
      (OnOk fun out h' => ∀ c, out = .renewed c → Continues c c0 ∧ Named q h' c) h1 :=
    holds_pure nofun
  unfold Queue.renew
  split
  · exact holds_fail
  next hgen =>
  refine holds_after (holds_unasked _) fun absent h1 _ _ => ?_
  split
  · exact hlost
  refine holds_after (holds_unasked _) fun absent h2 hi2 _ => ?_
  split
  · exact hlost
  refine holds_spend ((holds_putWritten hi2).andThen fun resolved h3 _ _ hwritten => ?_)
  cases resolved with
  | committed =>
    have hhandle : Holds (knowing Unasked) (q.renewedHandle c0)
        (OnOk fun c h' => Continues c c0 ∧ Named q h' c) h3 := by
      refine holds_spend (holds_after (holds_unasked _) fun answer h4 _ hh4 => ?_)
      refine holds_ofStore fun info _ => holds_after (holds_unasked _) fun _ h5 _ hh5 => ?_
      refine holds_pure fun _ _ hh6 => ⟨⟨rfl, rfl, rfl⟩, next_lt_of_lt (UInt64.not_le.mp hgen), _,
        (hwritten rfl).mono ((hh4.trans hh5).trans hh6), rfl, rfl, rfl, rfl, ?_⟩
      exact q.continuationRecord_wellFormed c0
    refine hhandle.andThen fun c h4 _ _ hc => holds_pure fun _ _ hh5 c' hc' => ?_
    cases hc'
    exact ⟨hc.1, hc.2.mono hh5⟩
  | lost => exact hlost
  | notCommitted => exact hlost

/-! ## Receipts -/

/-- The bytes are the payload of the claim: inline, or read and found to match. -/
def PayloadSeen (h : List Exchange) (c : Claim) (bytes : Bytes) : Prop :=
  match c.payload with
  | .inline b => bytes = b
  | .detached key digest length =>
    (∃ obj, ⟨.get key, .ok obj⟩ ∈ h ∧ obj.body = bytes) ∧ Sha256.digest bytes = digest ∧
      UInt64.ofNat bytes.length = length

/-- An output of the job was read and found to match. -/
def OutputSeen (q : Queue) (h : List Exchange) (c : Claim) (out : CommittedOutput) : Prop :=
  q.outputsPrefix c.jobId <+: out.key ∧ ∃ obj, ⟨.get out.key, .ok obj⟩ ∈ h ∧ Sha256.digest obj.body = out.digest

/-- A receipt is that of the claim, and written on the evidence of its payload and of all
outputs. -/
def Receipted (q : Queue) (c : Claim) (outputs : List CommittedOutput) (h : List Exchange)
    (r : Request) : Prop :=
  ∀ shard jobId body sha256, r = .putIfAbsent (q.absolute (.receipt shard jobId)) body sha256 →
    shard = c.shard ∧ jobId = c.jobId ∧ ∃ bytes, body = q.encodeAt (.receipt c.shard c.jobId)
        (.receipt (q.receiptRecord c (Sha256.digest bytes) outputs)) ∧
      PayloadSeen h c bytes ∧ ∀ out ∈ outputs, OutputSeen q h c out

lemma PayloadSeen.mono {bytes : Bytes} (hp : PayloadSeen h c bytes) (hh : h <:+ h') : PayloadSeen h' c bytes := by
  unfold PayloadSeen at hp ⊢
  split at hp
  · exact hp
  · obtain ⟨⟨obj, hmem, hbody⟩, hrest⟩ := hp
    exact ⟨⟨obj, List.IsSuffix.subset hh hmem, hbody⟩, hrest⟩

lemma OutputSeen.mono {out : CommittedOutput} (ho : OutputSeen q h c out) (hh : h <:+ h') :
    OutputSeen q h' c out := by
  obtain ⟨hpre, obj, hmem, hdigest⟩ := ho
  exact ⟨hpre, obj, List.IsSuffix.subset hh hmem, hdigest⟩

lemma holds_noReceipt {α : Type} {m : Routine α} (hm : Budgeted.Emits (Avoids q .receipt) m) :
    Holds (knowing (Receipted q c outputs)) m (fun _ _ => True) h :=
  holds_of_asks hm.prog fun _ hr _ _ s j body digest heq =>
    absurd (congrArg Op.store heq) (hr s j body digest)

lemma safe_payloadBytes : Safe (recording (Receipted q c outputs)) growing (· <:+ ·) c.payloadBytes
    (fun r h' => ∀ bytes, r = .ok bytes → PayloadSeen h' c bytes) h := by
  unfold Claim.payloadBytes PayloadSeen
  cases c.payload with
  | inline b => exact fun _ _ _ bytes hbytes => (Except.ok.inj hbytes).symm
  | detached key digest length =>
    refine Safe.map ((safe_ask (r := .get key) fun _ _ _ => nofun).mono fun answer h' _ hmem bytes hb => ?_)
    cases answer with
    | error e => cases hb
    | ok obj =>
      dsimp only at hb
      split_ifs at hb with hlength hdigest
      cases hb
      exact ⟨⟨obj, hmem, rfl⟩, not_not.mp hdigest, not_not.mp hlength⟩

lemma holds_verifyOutput (out : CommittedOutput) (hinv : Licensed (Receipted q c outputs) h) :
    Holds (knowing (Receipted q c outputs)) (q.verifyOutput c out)
      (OnOk fun _ h' => OutputSeen q h' c out) h := by
  unfold Queue.verifyOutput
  split
  · exact holds_fail
  · next hpre =>
      have hown : q.outputsPrefix c.jobId <+: out.key := by simpa using hpre
      refine (holds_readRetrying (fun _ _ _ => nofun) hinv).attempt.andThen fun r h1 _ _ hr => ?_
      cases r with
      | ok obj =>
        dsimp only
        split
        · next hdigest =>
            exact holds_pure fun h2 _ hh2 =>
              ⟨hown, obj, List.IsSuffix.subset hh2 (hr obj rfl), hdigest⟩
        · exact holds_fail
      | error e =>
        cases e with
        | store e => cases e <;> exact holds_fail
        | _ => exact holds_fail

lemma holds_verifyOutputs (outs : List CommittedOutput) (hinv : Licensed (Receipted q c outputs) h) :
    Holds (knowing (Receipted q c outputs))
      (Budgeted.foldM (fun _ out => q.verifyOutput c out) () outs)
      (OnOk fun _ h' => ∀ out ∈ outs, OutputSeen q h' c out) h := by
  induction outs generalizing h with
  | nil => exact holds_pure nofun
  | cons out outs ih =>
    refine (holds_verifyOutput out hinv).andThen fun _ h1 hi1 _ hout => ?_
    refine (ih hi1).mono fun r h2 _ hh2 hrest a ha out' hmem => ?_
    rcases List.mem_cons.mp hmem with rfl | hmem
    · exact hout.mono hh2
    · exact hrest a ha out' hmem

/-- **A receipt is written on evidence**, and an acknowledged job is known to have one. -/
theorem holds_ack (c : Claim) (outputs : List CommittedOutput) :
    Holds (knowing (Receipted q c outputs)) (q.ack c outputs) (OnOk fun out h' =>
      out ≠ .supersededByDead → Placed (q.absolute (.receipt c.shard c.jobId)) h') h := by
  refine holds_spend (holds_spend ?_)
  refine Holds.lift (D := knowing (Receipted q c outputs))
    (safe_join (safe_ask fun _ _ _ => nofun) safe_payloadBytes) fun out h1 hi1 _ hout => ?_
  obtain ⟨dead, payload⟩ := out
  change StoreResult Meta at dead
  cases dead with
  | ok info => exact holds_pure fun _ _ _ hne => absurd rfl hne
  | error e =>
    cases e with
    | notFound =>
      refine holds_ofExcept fun bytes hbytes => ?_
      refine (holds_verifyOutputs outputs hi1).andThen fun _ h2 hi2 hh2 houts => holds_spend ?_
      -- the receipt may be created now
      have hput : Holds (knowing (Receipted q c outputs)) (q.putRecord (.receipt c.shard c.jobId)
          (.receipt (q.receiptRecord c (Sha256.digest bytes) outputs)))
          (OnOk (Resolves q (.receipt c.shard c.jobId)
            (.receipt (q.receiptRecord c (Sha256.digest bytes) outputs)))) h2 := by
        refine holds_putRecord (fun h3 hh3 _ s j body sha256 heq => ?_) (fun _ _ _ => nofun)
          (fun _ _ _ => nofun) hi2
        injection heq with hkey hbody
        cases q.site.absolute_inj.mp hkey
        exact ⟨rfl, rfl, bytes, hbody.symm, (hout.2 bytes hbytes).mono (hh2.trans hh3),
          fun out hmem => (houts out hmem).mono hh3⟩
      refine hput.andThen fun resolved h3 hi3 _ hresolves => ?_
      have hread : Holds (knowing (Receipted q c outputs)) (do
          let obj ← Queue.readRetrying (q.absolute (.receipt c.shard c.jobId))
          let found ← Routine.ofRecord (q.decodeAt (.receipt c.shard c.jobId) obj.body)
          Budgeted.ofExcept (Queue.receiptEvidence c (Sha256.digest bytes) outputs found))
          (OnOk fun out h' => out ≠ .supersededByDead → Placed (q.absolute (.receipt c.shard c.jobId)) h') h3 := by
        refine (holds_readRetrying (fun _ _ _ => nofun) hi3).andThen fun obj h4 _ _ hmem => ?_
        refine holds_ofRecord fun found _ => Holds.ofExcept fun h5 hh5 _ out _ _ => ?_
        exact .inr (.inr ⟨obj, List.IsSuffix.subset hh5 hmem⟩)
      have hindex : Budgeted.Emits (Avoids q .receipt) (q.writeTermidx .receipt c.shard c.jobId) :=
        Footprint.writeTermidx reading_avoids.tame (fun _ => avoids_put nofun) nofun
          fun _ => avoids_put nofun
      cases resolved with
      | committed =>
        exact holds_after (holds_noReceipt hindex) fun _ _ _ hh4 =>
          holds_pure fun _ _ hh5 _ => (hresolves.2 nofun).mono (List.IsSuffix.trans hh4 hh5)
      | lost => exact hread
      | notCommitted => exact hread
    | _ => exact holds_fail

/-! ## Calls -/

/-- What calls ask for: receipts on evidence. -/
def asks (call : Call) : List Exchange → Request → Prop :=
  match call.action with
  | .ack c outputs => Receipted call.queue c outputs
  | _ => Unasked

/-- Where a handle comes from: a scan that read the job, or the renewal of a handle; and the
claim record it names. -/
def Hands (call : Call) (c : Claim) (h : List Exchange) : Prop :=
  ((∃ opts, (call.action = .claim opts ∨ ∃ max, call.action = .claimMany opts max) ∧ Obtained call.queue h c) ∨
  ∃ c0, call.action = .renew c0 ∧ Continues c c0) ∧ Named call.queue h c

/-- What calls return: handles on evidence. -/
def hands (call : Call) (r : Except Error Output) (h : List Exchange) : Prop :=
  ∀ out, r = .ok out → ∀ c ∈ out.handles, Hands call c h

lemma obtained_of_scan {call : Call} (opts : ClaimOptions)
    (hscan : call.action = .claim opts ∨ ∃ max, call.action = .claimMany opts max)
    (hhands : Hands call c h) : Obtained call.queue h c := by
  rcases hhands.1 with ⟨_, -, hobtained⟩ | ⟨c0, hrenew, -⟩
  · exact hobtained
  · rcases hscan with hscan | ⟨max, hscan⟩ <;> cases hscan.symm.trans hrenew

lemma holds_asks (call : Call) : Holds (knowing (asks call)) (call.action.task call.queue) (hands call) [] := by
  obtain ⟨q, action, budget⟩ := call
  have hscan : ∀ opts, (action = .claim opts ∨ ∃ max, action = .claimMany opts max) →
      Holds (knowing Unasked) (action.task q) (hands ⟨q, action, budget⟩) [] :=
    fun opts h => (holds_scan ⟨q, action, budget⟩ h).mono
      fun r h' _ _ hr out hout c hc => ⟨.inl ⟨opts, h, (hr out hout c hc).1⟩, (hr out hout c hc).2⟩
  -- the others hand nothing out
  have hother : ∀ {A : List Exchange → Request → Prop} {α : Type} {m : Routine α} {f : α → Output},
      (∀ a, (f a).handles = []) → Holds (knowing A) m (fun _ _ => True) [] →
      Holds (knowing A) (m >>= fun a => pure (f a)) (hands ⟨q, action, budget⟩) [] := by
    intro A α m f hf hm
    have htask : Holds (knowing A) (m >>= fun a => pure (f a)) (OnOk fun out _ => out.handles = []) [] :=
      holds_after hm fun a _ _ _ => holds_pure fun _ _ _ => hf a
    refine htask.mono fun r h' _ _ hr out hout c hc => ?_
    rw [hr out hout] at hc
    cases hc
  cases action with
  | claim opts => exact hscan opts (.inl rfl)
  | claimMany opts max => exact hscan opts (.inr ⟨max, rfl⟩)
  | renew c0 =>
    have htask := (holds_renew (q := q) (h := []) c0).andThen
      (Q := fun out h' => ∀ c ∈ out.handles, Continues c c0 ∧ Named q h' c)
      (f := fun out => pure (Output.renew out)) fun out _ _ _ hout => by
        refine holds_pure fun _ _ hh c hc => ?_
        cases out with
        | leaseLost => cases hc
        | renewed c' =>
          obtain rfl := List.mem_singleton.mp hc
          exact ⟨(hout _ rfl).1, (hout _ rfl).2.mono hh⟩
    exact htask.mono fun r h' _ _ hr out hout c hc =>
      ⟨.inr ⟨c0, rfl, (hr out hout c hc).1⟩, (hr out hout c hc).2⟩
  | ack c outputs =>
    exact hother (fun _ => rfl) ((holds_ack c outputs).mono fun _ _ _ _ _ => trivial)
  | nack c reason floorNs => exact hother (f := fun _ => Output.nack) (fun _ => rfl) (holds_unasked _)
  | advanceWatermark floorNs =>
    exact hother (f := fun _ => Output.advanceWatermark) (fun _ => rfl) (holds_unasked _)
  | _ => exact hother (fun _ => rfl) (holds_unasked _)

end Evidence

end Delivery
end StowQ
