import StowQ.Delivery.Convergence
import StowQ.Worker.Conduct

/-!
# What a report says about the store

A worker is judged by its history alone: its report is backed by answers it has got (`holds_deliverOne`).  What
those answers showed of the store lasts, since nobody deletes or replaces it (`Reported.lasts`), so a report
that was true when it was made is true ever after.  A receipt is backed in the same way, by the claim it was
written under, the payload that was read and the outputs that were seen in place (`receipts_grounded`).
-/

namespace StowQ
namespace Worker

open Data Concurrent Store Format StowQ.Core Interleaving Delivery Keys

variable {rel : Key} {r : Record}

/-- What is known of a store: which keys have an object, and what the objects hold. -/
structure Facts where
  there : Str → Prop
  reads : Str → Bytes → Prop

/-- The facts of a store. -/
def stored (objs : Objects) : Facts where
  there key := ∃ s, objs.get? key = some s
  reads key body := ∃ s, objs.get? key = some s ∧ s.body = body

/-- The facts that a history of requests shows. -/
def seen (h : List Exchange) : Facts where
  there key := Placed key h
  reads key body := (∃ obj, ⟨.get key, .ok obj⟩ ∈ h ∧ Object.body obj = body) ∨
    ∃ sha256 v, ⟨.putIfAbsent key body sha256, .ok (.committed v)⟩ ∈ h

/-- The second store has what is known of the first. -/
def Facts.Lasts (S : Site) (K K' : Facts) : Prop :=
  ∀ key, Protected S key → (K.there key → K'.there key) ∧ ∀ body, K.reads key body → K'.reads key body

/-! ## Reports -/

section Reports

variable [Sha256] (q : Queue) (exec : Executor) (h : List Exchange) (K : Facts)

/-- The record at a key of the queue. -/
def Facts.record (rel : Key) (r : Record) : Prop :=
  ∃ body, K.reads (q.absolute rel) body ∧ q.decodeAt rel body = .ok r

/-- A claim that a worker has made by the requests of its history: it has read the job whose payload the claim
refers to, and it has itself asked for the claim record, in its own name, and won it. -/
def Owned (c : Claim) (h : List Exchange) : Prop := Obtained q h c ∧ Named q h c

/-- A claim that the worker whose requests are `h` has made, and that the store knows of: the record of the job, and
that of the claim, with the worker's id and the attempt and token of the handle. -/
def Held (c : Claim) : Prop :=
  Owned q c h ∧ (∃ job, K.record q (.job c.shard c.jobId) (.job job) ∧ q.payloadRef job = some c.payload) ∧
    ∃ r, K.record q (.claim c.shard c.jobId c.generation.toUInt32) (.claim r) ∧ r.workerId = q.opts.workerId ∧
      r.attempt = c.attempt ∧ r.workerToken = c.workerToken

/-- The bytes a claim delivers; those of a detached payload have its digest. -/
def PayloadOf (c : Claim) (bytes : Bytes) : Prop :=
  match c.payload with
  | .inline b => bytes = b
  | .detached _ digest _ => Sha256.digest bytes = digest

/-- The output is in the store, at the key derived from its job and with the digest of its body. -/
def Committed (c : Claim) (out : ExecutorOutput) (o : CommittedOutput) : Prop :=
  o.key = q.outputsPrefix c.jobId ++ out.name ∧ o.digest = Sha256.digest out.body ∧
    ∃ body, K.reads o.key body ∧ Sha256.digest body = o.digest

/-- The object that settles a failed attempt. -/
def settledAt (c : Claim) : ExecutionFailure → Bool → Key
  | .retryable _, _ => .fail c.shard c.jobId c.generation.toUInt32
  | .permanent _, true => .dead c.shard c.jobId
  | .permanent _, false => .receipt c.shard c.jobId

/-- What the receipt of a delivered claim holds. -/
def Receipt (c : Claim) (bytes : Bytes) (outputs : List CommittedOutput) : Prop :=
  ∃ r, K.record q (.receipt c.shard c.jobId) (.receipt r) ∧ r.payloadDigest = Sha256.digest bytes ∧
    r.outputDigests = outputs.map CommittedOutput.digest

/-- The records that end a lease: the job has ended, or the next generation is taken. -/
def ends (c : Claim) : List Key :=
  [.receipt c.shard c.jobId, .dead c.shard c.jobId, .claim c.shard c.jobId (c.generation + 1).toUInt32]

/-- What a report says of the store and of the requests that its worker has made.  Each report but `noWork` is about
a claim of that worker: the payload of the claim has been executed with the reported result and the record that
settles it is there, or a record that ends the lease of the claim. -/
def Reported : DeliveryReport → Prop
  | .noWork => True
  | .delivered outputs => ∃ c bytes outs, Held q h K c ∧ PayloadOf c bytes ∧ exec.run c.jobId bytes = .ok outs ∧
      Receipt q K c bytes outputs ∧ List.Forall₂ (Committed q K c) outs outputs
  | .failed failure buried => ∃ c bytes, Held q h K c ∧ PayloadOf c bytes ∧ exec.run c.jobId bytes = .error failure ∧
      K.there (q.absolute (settledAt c failure buried))
  | .lostLease => ∃ c, Held q h K c ∧ ∃ rel ∈ ends c, K.there (q.absolute rel)

variable {q exec h K} {h' : List Exchange} {K' : Facts} {c : Claim}

omit [Sha256] in
lemma protected_absolute {S : Site} {k : Key} (hk : planeOf k ∈ authoritative) : Protected S (S.absolute k) :=
  protected_of_plane (plane_absolute S k) (authoritative_preserved hk)

omit [Sha256] in
lemma protected_output (jobId : ByteArr 16) (name : Str) : Protected q.site (q.outputsPrefix jobId ++ name) :=
  protected_of_plane (plane_output jobId name) (by decide)

lemma Facts.record.lasts (h : K.record q rel r) (hK : K.Lasts q.site K') (hrel : planeOf rel ∈ authoritative) :
    K'.record q rel r := by
  obtain ⟨body, hreads, hdec⟩ := h
  exact ⟨body, (hK _ (protected_absolute hrel)).2 body hreads, hdec⟩

lemma Owned.mono (ho : Owned q c h) (hh : h <:+ h') : Owned q c h' := ⟨ho.1.mono hh, ho.2.mono hh⟩

lemma Held.lasts (hc : Held q h K c) (hh : h <:+ h') (hK : K.Lasts q.site K') : Held q h' K' c := by
  obtain ⟨howned, ⟨job, hjob, hpayload⟩, r, hr, hrest⟩ := hc
  exact ⟨howned.mono hh, ⟨job, hjob.lasts hK (job_authoritative _ _), hpayload⟩, r,
    hr.lasts hK (by simp [planeOf, authoritative]), hrest⟩

lemma Committed.lasts {out : ExecutorOutput} {o : CommittedOutput} (h : Committed q K c out o)
    (hK : K.Lasts q.site K') : Committed q K' c out o := by
  obtain ⟨hkey, hout, body, hreads, hbody⟩ := h
  rw [hkey] at hreads
  exact ⟨hkey, hout, body, hkey ▸ (hK _ (protected_output _ _)).2 body hreads, hbody⟩

/-- **What a report says lasts**: the worker may go on, and the store keep or gain objects. -/
theorem Reported.lasts {report : DeliveryReport} (hr : Reported q exec h K report) (hh : h <:+ h')
    (hK : K.Lasts q.site K') : Reported q exec h' K' report := by
  have hthere : ∀ {rel}, planeOf rel ∈ authoritative → K.there (q.absolute rel) → K'.there (q.absolute rel) :=
    fun hrel => (hK _ (protected_absolute hrel)).1
  cases report with
  | noWork => trivial
  | delivered outputs =>
    obtain ⟨c, bytes, outs, hheld, hbytes, hexec, ⟨r, hr, hdigests⟩, houts⟩ := hr
    exact ⟨c, bytes, outs, hheld.lasts hh hK, hbytes, hexec, ⟨r, hr.lasts hK (receipt_authoritative _ _), hdigests⟩,
      houts.imp fun _ _ ho => ho.lasts hK⟩
  | failed failure buried =>
    obtain ⟨c, bytes, hheld, hbytes, hexec, hsettled⟩ := hr
    refine ⟨c, bytes, hheld.lasts hh hK, hbytes, hexec, hthere ?_ hsettled⟩
    cases failure <;> cases buried <;> simp [settledAt, planeOf, authoritative]
  | lostLease =>
    obtain ⟨c, hheld, rel, hmem, hrel⟩ := hr
    refine ⟨c, hheld.lasts hh hK, rel, hmem, hthere ?_ hrel⟩
    simp only [ends, List.mem_cons, List.not_mem_nil, or_false] at hmem
    rcases hmem with rfl | rfl | rfl <;> simp [planeOf, authoritative]

end Reports

/-! ## The evidence of a worker -/

section Evidence

variable [Sha256] {q : Queue} {exec : Executor} {c : Claim} {h h' : List Exchange} {bytes : Bytes}

/-- Whatever it is answered, the routine ends with a value that its history backs. -/
abbrev Shows {α : Type} (m : Routine α) (P : α → List Exchange → Prop) (h : List Exchange) : Prop :=
  Holds (knowing Unasked) m (OnOk P) h

omit [Sha256] in
lemma seen_lasts {S : Site} (hh : h <:+ h') : (seen h).Lasts S (seen h') := by
  refine fun key _ => ⟨fun hplaced => hplaced.mono hh, fun body hreads => ?_⟩
  rcases hreads with ⟨obj, hmem, hbody⟩ | ⟨sha256, v, hmem⟩
  · exact .inl ⟨obj, hh.subset hmem, hbody⟩
  · exact .inr ⟨sha256, v, hh.subset hmem⟩

lemma record_of_readBack (hread : ReadBack q rel r h) : (seen h).record q rel r := by
  obtain ⟨obj, hmem, hdec⟩ := hread
  exact ⟨obj.body, .inl ⟨obj, hmem, rfl⟩, hdec⟩

lemma record_of_won (hwon : Won q rel r h) (hr : r.WellFormed) : (seen h).record q rel r := by
  rcases hwon with ⟨v, hmem⟩ | hread
  · exact ⟨_, .inr ⟨_, v, hmem⟩, decode_encode r hr _ _⟩
  · exact record_of_readBack hread

lemma Owned.held (ho : Owned q c h) : Held q h (seen h) c := by
  obtain ⟨⟨job, hjob, hpayload⟩, -, r, ⟨-, hwon⟩, hworker, hattempt, htoken, -, hr⟩ := id ho
  exact ⟨ho, ⟨job, record_of_readBack hjob, hpayload⟩, r, record_of_won hwon hr, hworker, hattempt, htoken⟩

/-- The history shows that the report is true. -/
def Told (q : Queue) (exec : Executor) (report : DeliveryReport) (h : List Exchange) : Prop :=
  Reported q exec h (seen h) report

lemma Told.mono {report : DeliveryReport} (ht : Told q exec report h) (hh : h <:+ h') : Told q exec report h' :=
  ht.lasts hh (seen_lasts hh)

lemma PayloadOf.digest_eq {bytes' : Bytes} (hb : PayloadOf c bytes) (hb' : PayloadOf c bytes') :
    Sha256.digest bytes = Sha256.digest bytes' := by
  unfold PayloadOf at hb hb'
  cases hc : c.payload <;> rw [hc] at hb hb' <;> rw [hb, hb']

/-! ### Operations -/

omit [Sha256] in
lemma holds_looked : Shows (q.provenAbsent rel) (fun absent h' =>
    absent = false → Placed (q.absolute rel) h') h := by
  refine holds_spend (holds_ask (fun _ _ _ => trivial) fun answer h1 _ hmem _ => ?_)
  split
  · next info => exact holds_pure fun _ _ hh2 _ => .inr (.inl ⟨info, hh2.subset hmem⟩)
  · exact holds_pure nofun
  · exact holds_fail

lemma safe_payload : Safe (recording Unasked) growing (· <:+ ·) c.payloadBytes
    (fun r _ => ∀ bytes, r = .ok bytes → PayloadOf c bytes) h := by
  unfold Claim.payloadBytes PayloadOf
  cases c.payload with
  | inline b => exact fun _ _ _ bytes hbytes => (Except.ok.inj hbytes).symm
  | detached key digest length =>
    refine Safe.map ((safe_ask (r := .get key) fun _ _ _ => trivial).mono fun answer h' _ _ bytes hb => ?_)
    cases answer with
    | error e => cases hb
    | ok obj =>
      dsimp only at hb
      split_ifs at hb with _ hdigest
      exact Except.ok.inj hb ▸ not_not.mp hdigest

/-- The output that a commit is about. -/
def Commits (q : Queue) (c : Claim) (out : ExecutorOutput) : CommitOutcome → List Exchange → Prop
  | .committed o, h | .converged o, h => Committed q (seen h) c out o

lemma holds_commitOutput (out : ExecutorOutput) (hinv : Licensed Unasked h) :
    Shows (q.commitOutput c out.name out.body) (Commits q c out) h := by
  unfold Queue.commitOutput
  split
  · exact holds_fail
  refine holds_retrying hinv fun h1 _ _ => holds_spend ?_
  -- bytes that are there already
  have hfound : ∀ {h2 : List Exchange} {obj : Object}, ⟨.get (q.outputsPrefix c.jobId ++ out.name), .ok obj⟩ ∈ h2 →
      Shows (do
        let outcome ← Budgeted.ofExcept (classifyOutput obj.body
          ⟨q.outputsPrefix c.jobId ++ out.name, Sha256.digest out.body⟩)
        pure (some outcome)) (fun r h' => ∀ v, r = some v → Commits q c out v h') h2 := by
    intro h2 obj hmem
    unfold classifyOutput
    split
    · next hdigest =>
        refine holds_ofExcept fun outcome heq => holds_pure fun h3 _ hh3 _ hv => ?_
        cases heq
        cases hv
        exact ⟨rfl, rfl, obj.body, .inl ⟨obj, hh3.subset hmem, rfl⟩, hdigest⟩
    · exact holds_fail
  refine holds_ask (fun _ _ _ => trivial) fun answer h2 _ hmem hi2 => ?_
  split
  · next v =>
      refine holds_pure fun h3 _ hh3 _ hv => ?_
      cases hv
      exact ⟨rfl, rfl, out.body, .inr ⟨_, v, hh3.subset hmem⟩, rfl⟩
  · exact (holds_readRetrying (fun _ _ _ => trivial) hi2).andThen fun obj _ _ _ hobj => hfound hobj
  · exact holds_pure nofun
  · refine (holds_readRetrying (fun _ _ _ => trivial) hi2).attempt.andThen fun r h3 _ _ hr => ?_
    split
    · exact hfound (hr _ rfl)
    · exact holds_pure nofun
    · exact holds_fail
  · exact holds_fail

lemma holds_commitOutputs (outs : List ExecutorOutput) {front : List ExecutorOutput}
    {outputs : List CommittedOutput} (hinv : Licensed Unasked h)
    (hfront : List.Forall₂ (Committed q (seen h) c) front outputs) :
    Shows (commitOutputs q c outputs outs)
      (fun outputs h' => List.Forall₂ (Committed q (seen h') c) (front ++ outs) outputs) h := by
  induction outs generalizing h front outputs with
  | nil =>
    rw [List.append_nil]
    exact holds_pure fun h1 _ hh1 => hfront.imp fun _ _ ho => ho.lasts (seen_lasts hh1)
  | cons out outs ih =>
    refine (holds_commitOutput out hinv).andThen fun outcome h1 hi1 hh1 houtcome => ?_
    have hnext : ∀ o, Committed q (seen h1) c out o → Shows (commitOutputs q c (outputs ++ [o]) outs)
        (fun outputs h' => List.Forall₂ (Committed q (seen h') c) (front ++ out :: outs) outputs) h1 := by
      intro o ho
      have hfront1 : List.Forall₂ (Committed q (seen h1) c) (front ++ [out]) (outputs ++ [o]) :=
        List.rel_append (hfront.imp fun _ _ hf => hf.lasts (seen_lasts hh1)) (.cons ho .nil)
      rw [List.append_cons front]
      exact ih hi1 hfront1
    cases outcome with
    | committed o => exact hnext o houtcome
    | converged o => exact hnext o houtcome

/-- What an acknowledgment comes to. -/
def Acks (q : Queue) (c : Claim) (bytes : Bytes) (outputs : List CommittedOutput) :
    AckOutcome → List Exchange → Prop
  | .supersededByDead, h => Placed (q.absolute (.dead c.shard c.jobId)) h
  | _, h => Receipt q (seen h) c bytes outputs

lemma holds_acked (outputs : List CommittedOutput) (hbytes : PayloadOf c bytes) (hfits : outputs.length < 2 ^ 64) :
    Shows (q.ack c outputs) (Acks q c bytes outputs) h := by
  refine holds_spend (holds_spend ?_)
  refine Holds.lift (D := knowing Unasked)
    (safe_join (safe_ask fun _ _ _ => trivial) safe_payload) fun out h1 hi1 _ hout => ?_
  obtain ⟨dead, payload⟩ := out
  change StoreResult Meta at dead
  cases dead with
  | ok info => exact holds_pure fun h2 _ hh2 => .inr (.inl ⟨info, hh2.subset hout.1⟩)
  | error e =>
    cases e with
    | notFound =>
      refine holds_ofExcept fun bytes' hbytes' => ?_
      have hsame := (hout.2 bytes' hbytes').digest_eq hbytes
      refine holds_after (holds_unasked _) fun _ h2 hi2 _ => holds_spend ?_
      refine holds_putUnasked.andThen fun resolved h3 hi3 _ hresolves => ?_
      have hread : Shows (do
          let obj ← Queue.readRetrying (q.absolute (.receipt c.shard c.jobId))
          let found ← Routine.ofRecord (q.decodeAt (.receipt c.shard c.jobId) obj.body)
          Budgeted.ofExcept (Queue.receiptEvidence c (Sha256.digest bytes') outputs found))
          (Acks q c bytes outputs) h3 := by
        refine (holds_readRetrying (fun _ _ _ => trivial) hi3).andThen fun obj h4 _ _ hmem => ?_
        refine holds_ofRecord fun found hfound => Holds.ofExcept fun h5 hh5 _ out hout => ?_
        cases found with
        | receipt r =>
          dsimp only [Queue.receiptEvidence] at hout
          split_ifs at hout with hevidence
          cases hout
          obtain ⟨-, -, -, hdigest, hdigests⟩ := hevidence
          exact ⟨r, record_of_readBack ⟨obj, hh5.subset hmem, hfound⟩, hdigest.trans hsame, hdigests⟩
        | _ => cases hout
      cases resolved with
      | committed =>
        refine holds_after (holds_unasked _) fun _ _ _ hh4 => holds_pure fun _ _ hh5 => ?_
        have hwon := (hresolves.1 rfl).mono (hh4.trans hh5)
        exact ⟨_, record_of_won hwon ⟨q.opts.workerIdFits, by simpa [Queue.receiptRecord]⟩, hsame, rfl⟩
      | lost => exact hread
      | notCommitted => exact hread
    | _ => exact holds_fail

lemma holds_receiptFor (hinv : Licensed Unasked h) : Shows (q.receiptFor c) (fun found h' => ∀ r, found = some r →
      (seen h').record q (.receipt c.shard c.jobId) (.receipt r)) h := by
  refine (holds_readRetrying (fun _ _ _ => trivial) hinv).attempt.andThen fun r h1 _ _ hr => ?_
  split
  · refine holds_ofRecord fun record hrecord => ?_
    split
    · refine holds_pure fun h2 _ hh2 r hr' => ?_
      cases hr'
      exact record_of_readBack ⟨_, hh2.subset (hr _ rfl), hrecord⟩
    · exact holds_fail
  · exact holds_pure nofun
  · exact holds_fail

lemma holds_buried (reason : UInt64) : Shows (q.bury c reason) (fun out h' =>
    out = .supersededByReceipt → Placed (q.absolute (.receipt c.shard c.jobId)) h') h := by
  refine holds_looked.andThen fun absent h1 _ _ habsent => ?_
  split
  · next hfalse =>
      have hplaced := habsent (by simpa using hfalse)
      exact holds_pure fun _ _ hh2 _ => hplaced.mono hh2
  refine holds_spend (holds_after (holds_unasked _) fun resolved h2 _ _ => ?_)
  cases resolved with
  | committed => exact holds_after (holds_unasked _) fun _ _ _ _ => holds_pure nofun
  | lost =>
    refine holds_after (holds_unasked _) fun obj h3 _ _ => ?_
    refine holds_ofRecord fun found _ => Holds.ofExcept fun h4 _ _ out hout hreceipt => ?_
    subst hreceipt
    unfold Queue.deadEvidence at hout
    split at hout
    · split_ifs at hout
      cases hout
    · cases hout
  | notCommitted => exact holds_fail

lemma holds_resolved {record : Record} (hinv : Licensed Unasked h) :
    Shows (q.putRecord rel record) (fun res _ => res ≠ .notCommitted) h := by
  refine holds_retrying hinv fun h1 _ _ => holds_spend ?_
  refine holds_ask (fun _ _ _ => trivial) fun answer h2 _ _ _ => ?_
  split
  · exact holds_pure fun _ _ _ _ hv => by cases hv; simp
  · exact holds_pure fun _ _ _ _ hv => by cases hv; simp
  · exact holds_pure nofun
  · refine holds_after (holds_unasked _) fun found h3 _ _ => ?_
    split
    · exact holds_pure fun _ _ _ _ hv => by cases hv; simp
    · exact holds_pure fun _ _ _ _ hv => by cases hv; simp
    · exact holds_pure nofun
  · exact holds_fail

/-- A lost lease has been ended. -/
def Lapses (q : Queue) (c : Claim) (out : RenewOutcome) (h : List Exchange) : Prop :=
  out = .leaseLost → ∃ rel ∈ ends c, Placed (q.absolute rel) h

lemma holds_lost (c : Claim) : Shows (q.renew c) (Lapses q c) h := by
  have hended : ∀ {rel h1}, rel ∈ ends c → Placed (q.absolute rel) h1 → Shows (pure .leaseLost) (Lapses q c) h1 :=
    fun hrel hplaced => holds_pure fun _ _ hh _ => ⟨_, hrel, hplaced.mono hh⟩
  unfold Queue.renew
  split
  · exact holds_fail
  refine holds_looked.andThen fun absent h1 _ _ habsent => ?_
  split
  · next hfalse => exact hended (by simp [ends]) (habsent (by simpa using hfalse))
  refine holds_looked.andThen fun absent h2 hi2 _ habsent => ?_
  split
  · next hfalse => exact hended (by simp [ends]) (habsent (by simpa using hfalse))
  refine holds_spend ((holds_putUnasked.and (holds_resolved hi2)).andThen fun resolved h3 _ _ hresolves => ?_)
  have hplaced := hresolves.1.2 hresolves.2
  split
  · exact holds_after (holds_unasked _) fun _ _ _ _ => holds_pure nofun
  · exact hended (by simp [ends]) hplaced

/-! ### Deliveries -/

lemma holds_finishDelivery (howned : Owned q c h) (hbytes : PayloadOf c bytes) (hinv : Licensed Unasked h) :
    Shows (finishDelivery q c (exec.run c.jobId bytes) (Sha256.digest bytes)) (Told q exec) h := by
  have hheld : ∀ {h'}, h <:+ h' → Held q h' (seen h') c := fun hh => (howned.mono hh).held
  unfold finishDelivery
  split
  · next outs hrun =>
      refine (holds_commitOutputs (q := q) (c := c) outs hinv .nil).andThen fun outputs h1 _ hh1 houts => ?_
      -- with a receipt in sight the job has been delivered
      have hdelivered : ∀ {h2}, h1 <:+ h2 → Receipt q (seen h2) c bytes outputs →
          Shows (pure (.delivered outputs)) (Told q exec) h2 := by
        rintro h2 hh2 ⟨r, hr, hdigests⟩
        refine holds_pure fun h3 _ hh3 => ⟨c, bytes, outs, hheld (hh1.trans (hh2.trans hh3)), hbytes, hrun,
          ⟨r, hr.lasts (seen_lasts hh3) (receipt_authoritative _ _), hdigests⟩, ?_⟩
        exact houts.imp fun _ _ ho => ho.lasts (seen_lasts (hh2.trans hh3))
      have hfits : outputs.length < 2 ^ 64 := houts.length_eq ▸ exec.fits _ _ _ hrun
      refine (holds_acked outputs hbytes hfits).attempt.andThen fun r h2 hi2 hh2 hr => ?_
      split
      · exact hdelivered hh2 (hr _ rfl)
      · exact hdelivered hh2 (hr _ rfl)
      · have hdead : Placed (q.absolute (.dead c.shard c.jobId)) h2 := hr _ rfl
        exact holds_pure fun h3 _ hh3 => ⟨c, hheld (hh1.trans (hh2.trans hh3)), .dead c.shard c.jobId,
          by simp [ends], hdead.mono hh3⟩
      · refine (holds_receiptFor hi2).andThen fun found h3 _ hh3 hfound => ?_
        split
        · split
          · next hdigests => exact hdelivered (hh2.trans hh3) ⟨_, hfound _ rfl, hdigests⟩
          · exact holds_fail
        · exact holds_fail
      · exact holds_fail
  · next reason hrun =>
      refine holds_after (holds_unasked _) fun floorNs h1 hi1 hh1 => ?_
      refine (holds_nack reason floorNs hi1).andThen fun _ h2 _ hh2 hplaced => holds_pure fun h3 _ hh3 => ?_
      exact ⟨c, bytes, hheld (hh1.trans (hh2.trans hh3)), hbytes, hrun, hplaced.mono hh3⟩
  · next reason hrun =>
      refine ((holds_bury reason).and (holds_buried reason)).andThen fun out h1 _ hh1 hout => ?_
      split
      · exact holds_pure fun h2 _ hh2 => ⟨c, bytes, hheld (hh1.trans hh2), hbytes, hrun, (hout.1 rfl).mono hh2⟩
      · exact holds_pure fun h2 _ hh2 => ⟨c, bytes, hheld (hh1.trans hh2), hbytes, hrun, (hout.2 rfl).mono hh2⟩

/-- The claim of a worker, with the payload it has read. -/
def Working (q : Queue) (bytes : Bytes) (c : Claim) (h : List Exchange) : Prop :=
  Owned q c h ∧ PayloadOf c bytes

lemma holds_deliveryRound (hworking : Working q bytes c h) :
    Shows (deliveryRound q exec bytes c) (Round (Working q bytes) (Told q exec)) h := by
  obtain ⟨howned, hbytes⟩ := hworking
  refine Holds.lift (D := knowing Unasked) (M := fun _ _ => True) (fun _ _ _ _ => trivial)
    fun finished h1 hi1 hh1 _ => ?_
  split
  · exact (holds_finishDelivery (howned.mono hh1) hbytes hi1).andThen fun report h2 _ _ hreport =>
      holds_pure fun _ _ hh3 => hreport.mono hh3
  · refine ((holds_renew c).and (holds_lost c)).andThen fun out h2 _ hh2 hout => ?_
    split
    · next c' =>
        obtain ⟨⟨hshard, hjob, hpayload⟩, hnamed'⟩ := hout.1 c' rfl
        refine holds_pure fun h3 _ hh3 => ⟨⟨?_, hnamed'.mono hh3⟩, ?_⟩
        · have hlater := howned.1.mono (hh1.trans (hh2.trans hh3))
          unfold Obtained at hlater ⊢
          rwa [hshard, hjob, hpayload]
        · unfold PayloadOf at hbytes ⊢
          rwa [hpayload]
    · obtain ⟨rel, hrel, hplaced⟩ := hout.2 rfl
      exact holds_pure fun h3 _ hh3 => ⟨c, (howned.mono (hh1.trans (hh2.trans hh3))).held, rel, hrel, hplaced.mono hh3⟩

/-- A claim is delivered, lost or given up, on evidence. -/
lemma holds_deliverOne (howned : Owned q c h) : Shows (deliverOne q exec c) (Told q exec) h := by
  refine Holds.lift (D := knowing Unasked) safe_payload fun r h1 hi1 hh1 hr => ?_
  refine holds_ofExcept fun bytes hbytes => ?_
  exact holds_loop (fun c' h2 _ _ hworking => holds_deliveryRound hworking)
    ⟨howned.mono hh1, hr bytes hbytes⟩ hi1

lemma holds_runDelivery (msg : DoorbellMsg) (leaseNs : UInt64) :
    Shows (runDelivery q msg exec leaseNs) (Told q exec) h := by
  refine holds_after (holds_unasked _) fun floorNs h1 hi1 _ => ?_
  have hfirst : ∀ (shards : List UInt16) {h}, Licensed Unasked h → Shows (claimFirst q floorNs leaseNs shards)
        (fun found h' => ∀ c, found = some c → Owned q c h') h := by
    intro shards
    induction shards with
    | nil => exact fun _ => holds_pure nofun
    | cons shard shards ih =>
      intro h hinv
      have hclaim := (takesSafely_unasked (q := q) ⟨shard, floorNs, leaseNs⟩).probesSafely.scansSafely.holds_claim hinv
      refine hclaim.andThen fun outcome h2 hi2 _ hout => ?_
      split
      · refine holds_pure fun h3 _ hh3 c hc => ?_
        cases hc
        exact Owned.mono (hout _ rfl) hh3
      · exact ih hi2
  refine (hfirst (hinted q msg) hi1).andThen fun found h2 hi2 _ hfound => ?_
  split
  · exact holds_deliverOne (hfound _ rfl)
  · exact holds_pure fun _ _ _ => trivial

lemma holds_claimBatch (floorNs leaseNs : UInt64) (batch : Nat) (shards : List UInt16) {claims : List Claim}
    (hinv : Licensed Unasked h) (hclaims : ∀ c ∈ claims, Owned q c h) :
    Shows (claimBatch q floorNs leaseNs batch claims shards)
      (fun claims h' => ∀ c ∈ claims, Owned q c h') h := by
  induction shards generalizing h claims with
  | nil => exact holds_pure fun _ _ hh c hc => (hclaims c hc).mono hh
  | cons shard shards ih =>
    unfold claimBatch
    split
    · exact holds_pure fun _ _ hh c hc => (hclaims c hc).mono hh
    · have hmany := (takesSafely_unasked (q := q) ⟨shard, floorNs, leaseNs⟩).probesSafely.scansSafely.holds_claimMany
        (batch - claims.length) hinv
      refine hmany.andThen fun more h1 hi1 hh1 hmore => ih hi1 fun c hc => ?_
      rcases List.mem_append.mp hc with hc | hc
      · exact (hclaims c hc).mono hh1
      · exact hmore c hc

omit [Sha256] in
lemma forall_of_mapM {ι α β ε : Type} {P : α → Prop} {xs : List ι} {results : List (Except ε α × β)}
    (hall : List.Forall₂ (fun _ r => ∀ a, r.1 = .ok a → P a) xs results) {values : List α}
    (h : results.mapM Prod.fst = .ok values) : ∀ a ∈ values, P a := by
  induction hall generalizing values with
  | nil =>
    cases h
    exact nofun
  | @cons _ r _ results hr _ ih =>
    rw [List.mapM_cons] at h
    obtain ⟨e | a, left⟩ := r
    · cases h
    · cases hrest : results.mapM Prod.fst with
      | error e => rw [hrest] at h; cases h
      | ok rest =>
        rw [hrest] at h
        cases h
        exact List.forall_mem_cons.mpr ⟨hr a rfl, ih hrest⟩

lemma holds_runBatch (msg : DoorbellMsg) (leaseNs : UInt64) (batch : Nat) :
    Shows (runBatch q msg exec leaseNs batch)
      (fun reports h' => ∀ report ∈ reports, Told q exec report h') h := by
  refine holds_after (holds_unasked _) fun floorNs h1 hi1 _ => ?_
  refine (holds_claimBatch floorNs leaseNs batch (hinted q msg) hi1 fun _ hc => by cases hc).andThen
    fun claims h2 _ _ hclaims => ?_
  have hall := Safe.joinAll (S := recording Unasked) (D := fun _ => growing) (G := fun _ a b => a <:+ b)
    (f := fun c => deliverOne q exec c deliveryBudgetOps) claims
    (fun c hc => holds_deliverOne (hclaims c hc) deliveryBudgetOps)
    (List.pairwise_of_forall fun _ _ => ⟨fun _ _ _ _ hg => hg, fun _ _ _ _ hg => hg⟩)
  refine Holds.lift (D := knowing Unasked) (hall.weaken (fun _ _ hr _ _ => hr) fun _ _ hg => hg.elim fun _ hx => hx.2)
    fun results h3 _ _ hresults => Holds.ofExcept fun h4 hh4 _ reports hreports report hmem => ?_
  exact Told.mono (forall_of_mapM hresults hreports report hmem) hh4

end Evidence

/-! ## What a receipt says -/

/-- Calls as in `working`, while outside of them only time passes. -/
def secluded (S : Site) (F : FormatRecord) : Terms :=
  { working S F with env := fun _ e => ∃ clock, e = .tick clock }

/-- **Receipts are grounded**: one that any interleaving of calls, with any faults, has left in the store is that
of a claim on the job's record and payload, and every output it lists is in the store. -/
theorem receipts_grounded [Sha256] {S : Site} {F : FormatRecord} {w : World} {cfg : Calls} (hfresh : Fresh S w)
    (hrun : machine.Run (secluded S F) (Machine.initial w) cfg) {shard : UInt16} {jobId : ByteArr 16} {stored : Stored}
    (hget : cfg.world.objects.get? (S.absolute (.receipt shard jobId)) = some stored) :
    ∃ (q : Queue) (c : Claim) (bytes : Bytes) (outputs : List CommittedOutput), q.site = S ∧ c.shard = shard ∧
      c.jobId = jobId ∧ Backed S cfg.world.objects c ∧ PayloadOf c bytes ∧
      stored.body = q.encodeAt (.receipt shard jobId) (.receipt (q.receiptRecord c (Sha256.digest bytes) outputs)) ∧
      OutputsCommitted q c outputs cfg.world.objects := by
  have hstart : ∀ cfg i call, (secluded S F).start cfg i call → (working S F).start cfg i call := fun _ _ _ h => h
  have henv : ∀ w e, (secluded S F).env w e → (working S F).env w e := by
    rintro _ _ ⟨clock, rfl⟩ k _
    trivial
  have hworking := hrun.mono hstart (fun _ _ _ _ _ h => h) henv
  have hk := receipt_authoritative shard jobId
  obtain ⟨i, call, at_, hc⟩ := (lasting hk).origin working_acts hfresh.log (hfresh.absent _ hk) hworking hget
  obtain ⟨_, rfl, -⟩ := hc.admitted
  obtain ⟨c, outputs, -, haction, rfl, rfl, -⟩ := hc.listed.2.receipt_inv
  -- the evidence the acknowledgment had
  obtain ⟨k, hthread⟩ := hc.thread
  have hasks := run_asks (fun _ _ call _ => holds_asks call) hfresh.log hc.run hthread
  unfold asks at hasks
  rw [haction] at hasks
  obtain ⟨-, -, bytes, hbody, hseen, houts⟩ := hasks _ _ _ _ rfl
  have hpayload : PayloadOf c bytes := by
    unfold PayloadSeen at hseen
    unfold PayloadOf
    cases hc : c.payload <;> rw [hc] at hseen
    · exact hseen
    · exact hseen.2.1
  obtain ⟨p, hp⟩ := run_started hfresh.log hworking hc.started
  have hbacked := run_given hfresh.log hworking i _ c hp (by rw [haction]; rfl)
  refine ⟨call.queue, c, bytes, outputs, rfl, rfl, rfl, hbacked, hpayload, hbody, fun out hout => ?_⟩
  obtain ⟨⟨name, hname⟩, obj, hmem, hdigest⟩ := houts out hout
  have hlasting : Lasting (secluded call.queue.site F) out.key := by
    refine ⟨fun _ _ call' h => ?_, fun _ e he => ?_⟩
    · rw [← hname]
      exact (Call.within h.2.2.1).mono fun _ ho => ho.preserves_key (h.1.symm ▸ protected_output _ _)
    · obtain ⟨clock, rfl⟩ := he
      trivial
  obtain ⟨s, hs, rfl⟩ := hlasting.got hfresh.log hrun ((own_suffix hc.earlier).subset hmem)
  exact ⟨⟨name, hname⟩, s, hs, hdigest⟩

section Acked

open Scenario

/-- The worker stores an output of two bytes. -/
def storing : Call := ⟨demo, .commitOutput firstClaim ['o'] [1, 2], 5⟩

/-- What it was told to have stored. -/
def result [Sha256] : CommittedOutput := ⟨demo.outputsPrefix jobZero ++ ['o'], Sha256.digest [1, 2]⟩

/-- It acknowledges the claim with that output. -/
def acking [Sha256] : Call := ⟨demo, .ack firstClaim [result], 9⟩

/-- The small job, claimed by call 1 and acknowledged by call 3 with the output that call 2 stored. -/
theorem receipts_grounded_acked : ∃ (_ : Sha256) (cfg : Calls) (stored : Stored) (r : ReceiptRecord) (q : Queue)
    (c : Claim) (bytes : Bytes) (outputs : List CommittedOutput),
    cfg.Returned 2 storing (.ok (.commitOutput (.committed result))) ∧ cfg.Returned 3 acking (.ok (.ack .acked)) ∧
    cfg.world.objects.get? receiptKey = some stored ∧
    recordAt demo.site cfg.world.objects (.receipt 0 jobZero) = some (.receipt r) ∧ r.outputDigests = [result.digest] ∧
    Backed demo.site cfg.world.objects c ∧
    stored.body = q.encodeAt (.receipt 0 jobZero) (.receipt (q.receiptRecord c (Sha256.digest bytes) outputs)) ∧
    OutputsCommitted q c outputs cfg.world.objects := by
  let hash := Sha256.zero
  let P := secluded demo.site demo.format
  let stored2 := play faultless 2 storing (once 1)
  let acked := play faultless 3 acking stored2
  have honce : machine.Run P (Machine.initial (blank 0)) (once 1) :=
    run_once ⟨fun _ => ⟨rfl, rfl, nofun, nofun⟩, fun _ _ _ _ => trivial⟩
      ⟨fun _ => ⟨rfl, rfl, nofun, nofun⟩, fun _ _ _ _ => trivial⟩
  have hclaim : (once 1).Returned 1 _ (.ok (.claim (.claimed firstClaim))) := (once_at (by decide)).2
  have hstart : ∀ {cfg : Calls} {i call}, cfg.Returned 1 (claiming 0 1) (.ok (.claim (.claimed firstClaim))) →
      call.queue = demo → (∀ a b c, call.action ≠ .gc a b c) → call.action.handle = some firstClaim →
      P.start cfg i call := by
    intro cfg i call hret hqueue hgc hhandle
    refine ⟨congrArg Queue.site hqueue, congrArg Queue.format hqueue, hgc, fun c hc => ?_⟩
    cases hhandle.symm.trans hc
    exact ⟨1, _, _, hret, List.mem_singleton_self _⟩
  have hrun : machine.Run P (Machine.initial (blank 0)) acked :=
    (honce.trans (run_plainly (hstart hclaim rfl (fun _ _ _ h => by cases h) rfl) (fun _ _ => trivial)
      (once_free (le_refl 2)))).trans
      (run_plainly (hstart ((play_threads (by decide)).trans hclaim) rfl nofun rfl)
        (fun _ _ => trivial) ((play_threads (by decide)).trans (once_free (by decide))))
  have hstored : stored2.Returned 2 storing (.ok (.commitOutput (.committed result))) := play_returned (by decide +kernel)
  have hthere : (acked.world.objects.get? receiptKey).isSome := by decide +kernel
  obtain ⟨stored, hget⟩ := Option.isSome_iff_exists.mp hthere
  have hrecord : recordAt demo.site acked.world.objects (.receipt 0 jobZero) = some (.receipt
      ⟨jobZero, 1, 1, [], tokenAt 8, Sha256.digest [], [result.digest]⟩) := by decide +kernel
  obtain ⟨q, c, bytes, outputs, -, -, -, hbacked, -, hbody, houts⟩ := receipts_grounded ⟨rfl, fun _ _ => rfl⟩ hrun hget
  exact ⟨hash, acked, stored, _, q, c, bytes, outputs, (play_threads (by decide)).trans hstored,
    play_returned (by decide +kernel), hget, hrecord, rfl, hbacked, hbody, houts⟩

end Acked

end Worker
end StowQ
