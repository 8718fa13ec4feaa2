import StowQ.Concurrent.Solo
import StowQ.Core.Gc

/-!
# Evaluating operations

What the operations do when the answers to their requests are known.  `Serves h s r ans s'`
says that a handler answers request `r` with `ans`; each lemma takes the answers an
operation meets on one of its paths and gives its result.
-/

namespace StowQ
namespace Core

open Data Concurrent Store Format Keys
open Budgeted (Evals)

variable {b' b0 : Nat} {v : Version} {jobId : ByteArr 16} {stop : Bool} {r : Request}
  {ans : StoreResult r.Answer} {obj : Object} {shard : UInt16} {info : Meta} {input : EnqueueInput}
  {key : Str} {cutoff : UInt64}

variable {σ α β : Type} {h : Handler Op Res σ} {b : Nat} {s s' : σ}

/-- A store request is answered with `ans`. -/
def Serves (h : Handler Op Res σ) (s : σ) (r : Request) (ans : StoreResult r.Answer) (s' : σ) :
    Prop :=
  h (.store r) s = (ans, s')

lemma Serves.evals (hs : Serves h s r ans s') : Evals h (Routine.store r) b s (.ok ans) b s' :=
  congrArg (fun p : Res (.store r) × σ => ((Except.ok p.1, b), p.2)) hs

lemma Serves.run (hs : Serves h s r ans s') : (Prog.request (Op.store r)).run h s = (ans, s') := hs

/-! Requests under an interruption: after it, at it, and before it. -/

section Interrupted

variable {f : σ → σ} {stop : Option σ} {r : Request} {ans : StoreResult r.Answer}

lemma Serves.past (hs : Serves h s r ans s') : Serves (interrupted h f) ⟨s, 0, stop⟩ r ans ⟨s', 0, stop⟩ :=
  congrArg (fun p : Res (.store r) × σ => (p.1, (⟨p.2, 0, stop⟩ : Watched σ))) hs

lemma Serves.struck (hs : Serves h s r ans s') : Serves (interrupted h f) ⟨s, 1, stop⟩ r ans ⟨f s', 0, some s'⟩ :=
  congrArg (fun p : Res (.store r) × σ => (p.1, (⟨f p.2, 0, some p.2⟩ : Watched σ))) hs

lemma Serves.ahead {n : Nat} (hs : Serves h s r ans s') :
    Serves (interrupted h f) ⟨s, n + 2, stop⟩ r ans ⟨s', n + 1, stop⟩ :=
  congrArg (fun p : Res (.store r) × σ => (p.1, (⟨p.2, n + 1, stop⟩ : Watched σ))) hs

end Interrupted

lemma evals_spend {f : Unit → Routine β} {r : Except Error β} (hf : Evals h (f ()) b s r b' s') :
    Evals h (Routine.spend >>= f) (b + 1) s r b' s' :=
  (Evals.spend _).bind hf

lemma evals_store {s1 : σ} {f : StoreResult r.Answer → Routine β} {out : Except Error β}
    (hs : Serves h s r ans s1) (hf : Evals h (f ans) b s1 out b' s') :
    Evals h (Routine.store r >>= f) b s out b' s' :=
  hs.evals.bind hf

lemma evals_request {o : Op} {a : Res o} (hs : h o s = (a, s')) :
    Evals h (Budgeted.request o : Routine (Res o)) b s (.ok a) b s' :=
  congrArg (fun p : Res o × σ => ((Except.ok p.1, b), p.2)) hs

lemma evals_trySpend : Evals h Routine.trySpend (b + 1) s (.ok true) b s :=
  (Evals.attempt (Evals.spend _)).bind (Evals.pure true)

lemma evals_trySpend_zero : Evals h Routine.trySpend 0 s (.ok false) 0 s :=
  (Evals.attempt rfl).bind (Evals.pure false)

/-! ## Reads and writes -/

lemma evals_readRetrying {abs : Str} (hs : Serves h s (.get abs) (.ok obj) s') :
    Evals h (Queue.readRetrying abs) (b + 1) s (.ok obj) b s' :=
  Evals.retry (evals_spend (evals_store hs (Evals.pure _)))

lemma evals_readRetrying_absent {abs : Str}
    (hs : Serves h s (.get abs) (.error .notFound) s') :
    Evals h (Queue.readRetrying abs) (b + 1) s (.error (.store .notFound)) b s' :=
  Evals.retry_error (evals_spend (evals_store hs (Evals.fail _)))

variable [Sha256] {q : Queue} {s1 s2 : σ}

lemma evals_putRecord {rel : Key} {record : Record}
    (hs : Serves h s (.putIfAbsent (q.absolute rel) (q.encodeAt rel record)
      (Sha256.digest (q.encodeAt rel record))) (.ok (.committed v)) s') :
    Evals h (q.putRecord rel record) (b + 1) s (.ok .committed) b s' :=
  Evals.retry (evals_spend (evals_store hs (Evals.pure _)))

/-- The index entry of a terminal record is skipped when the budget is used up. -/
lemma evals_writeTermidx_zero {kind : TermKind} : Evals h (q.writeTermidx kind shard jobId) 0 s (.ok ()) 0 s :=
  evals_trySpend_zero.bind (Evals.pure ())

/-! ## The watermark -/

lemma evals_watermark {r : WatermarkRecord} (hs : Serves h s (.get (q.absolute .watermark)) (.ok obj) s')
    (hdec : q.decodeAt .watermark obj.body = .ok (.watermark r)) :
    Evals h q.watermark (b + 1) s (.ok (some r)) b s' := by
  refine (Evals.attempt (evals_readRetrying hs)).bind ?_
  show Evals h (Routine.ofRecord (q.decodeAt .watermark obj.body) >>= _) b s' _ b s'
  rw [hdec]
  exact (Evals.pure _).bind (Evals.pure _)

lemma evals_watermark_absent
    (hs : Serves h s (.get (q.absolute .watermark)) (.error .notFound) s') :
    Evals h q.watermark (b + 1) s (.ok none) b s' :=
  (Evals.attempt (evals_readRetrying_absent hs)).bind (Evals.pure _)

/-- An advance over a smaller bucket: GET, HEAD, CAS. -/
lemma evals_advanceWatermark {floorNs bucket : UInt64} {r : WatermarkRecord} {s3 : σ}
    (hbucket : Math.bucketNumber floorNs q.format.delayedBucketWidthNs = some bucket)
    (hlt : ¬ bucket ≤ r.highestObservedWallBucket)
    (hget : Serves h s (.get (q.absolute .watermark)) (.ok obj) s1)
    (hdec : q.decodeAt .watermark obj.body = .ok (.watermark r))
    (hhead : Serves h s1 (.head (q.absolute .watermark)) (.ok info) s2)
    (hcas : Serves h s2 (.cas (q.absolute .watermark)
      (q.encodeAt .watermark (.watermark ⟨bucket, r.sequence + 1⟩))
      (Sha256.digest (q.encodeAt .watermark (.watermark ⟨bucket, r.sequence + 1⟩))) info.version)
      (.ok (.committed v)) s3) : Evals h (q.advanceWatermark floorNs) (b + 3) s (.ok ()) b s3 := by
  have hwrite : Evals h (q.writeWatermark (some r) ⟨bucket, r.sequence + 1⟩) (b + 2) s1
      (.ok (.ok (.committed v))) b s3 :=
    evals_spend (evals_spend (evals_store hhead ((Evals.pure _).bind hcas.evals)))
  have hround : Evals h (q.advanceRound bucket) (b + 3) s (.ok true) b s3 := by
    have hnext : Queue.nextWatermark bucket (some r) = some ⟨bucket, r.sequence + 1⟩ := if_neg hlt
    refine (evals_watermark hget hdec).bind ?_
    rw [hnext]
    exact hwrite.bind (Evals.pure _)
  unfold Queue.advanceWatermark
  rw [hbucket]
  exact Evals.loop_done (hround.bind (Evals.pure _))

/-! ## Enqueue -/

lemma evals_placePayload_inline (hinline : q.inlines input.payload = true) :
    Evals h (q.placePayload input jobId) b s (.ok ()) b s := by
  unfold Queue.placePayload
  rw [if_pos hinline]
  exact Evals.pure _

lemma evals_placePayload_present (hdetached : q.inlines input.payload = false)
    (hs : Serves h s (.putIfAbsent (q.absolute (.payload jobId (Sha256.digest input.payload)))
      input.payload (Sha256.digest input.payload)) (.ok .rejected) s') :
    Evals h (q.placePayload input jobId) (b + 1) s (.ok ()) b s' := by
  unfold Queue.placePayload
  rw [hdetached]
  exact Evals.retry (evals_spend (evals_store hs (Evals.pure _)))

/-- The enqueue under a free id, once the payload is in place. -/
lemma evals_enqueue (hmax : input.maximumAttempts ≠ 0) (hid : input.jobId = some jobId)
    (hshard : q.shardOf jobId = shard) (hdelay : input.notBeforeNs = none)
    (hplace : Evals h (q.placePayload input jobId) b0 s (.ok ()) (b + 2) s1)
    (hs : Serves h s1 (.putIfAbsent (q.absolute (.job shard jobId))
      (q.encodeAt (.job shard jobId) (.job (q.jobRecord input jobId)))
      (Sha256.digest (q.encodeAt (.job shard jobId) (.job (q.jobRecord input jobId)))))
      (.ok (.committed v)) s') : Evals h (q.enqueue input) b0 s (.ok (.committed jobId)) b s' := by
  subst hshard
  have hpick : Evals h (Queue.pickJobId input) b0 s (.ok jobId) b0 s := by
    unfold Queue.pickJobId
    rw [hid]
    exact Evals.pure _
  have hindex : Evals h (q.indexDelay input.notBeforeNs (q.shardOf jobId) jobId) b s' (.ok ()) b
      s' := by
    rw [hdelay]
    exact Evals.pure _
  unfold Queue.enqueue
  rw [if_neg hmax]
  exact hpick.bind <| hplace.bind <| evals_spend <| (evals_putRecord hs).bind <|
    hindex.bind (Evals.pure _)

/-! ## Listings -/

section Listings

variable {ι : Type} {pre : Str} {limit : Nat} {item : ι → Listing → Routine ι} {x x' : ι} {s1 : σ}

omit [Sha256] in
lemma evals_pages_nil (hs : Serves h s (.list pre none limit) (.ok ⟨[], none⟩) s') :
    Evals h (Routine.pages stop pre limit item x) (b + 1) s (.ok x) b s' := by
  cases stop with
  | true => exact Evals.loop_done (evals_spend (evals_store hs (Evals.pure _)))
  | false =>
    exact Evals.loop_done (evals_spend (evals_store hs
      ((Evals.pure _).bind (Evals.foldM_nil.bind (Evals.pure _)))))

omit [Sha256] in
lemma evals_pages_one {listed : Listing} (hs : Serves h s (.list pre none limit) (.ok ⟨[listed], none⟩) s1)
    (hitem : Evals h (item x listed) b s1 (.ok x') b' s') :
    Evals h (Routine.pages stop pre limit item x) (b + 1) s (.ok x') b' s' := by
  cases stop <;> exact Evals.loop_done (evals_spend (evals_store hs
    ((Evals.pure _).bind ((Evals.foldM_cons hitem Evals.foldM_nil).bind (Evals.pure _)))))

omit [Sha256] in
lemma evals_pages_last {items : List Listing} (hne : items ≠ [])
    (hs : Serves h s (.list pre none limit) (.ok ⟨items, none⟩) s1)
    (hitems : Evals h (Budgeted.foldM item x items) b s1 (.ok x') b' s') :
    Evals h (Routine.pages stop pre limit item x) (b + 1) s (.ok x') b' s' := by
  have hmore : ¬ ((stop && items.isEmpty) = true) := by simp [hne]
  refine Evals.loop_done (evals_spend (evals_store hs ((Evals.pure _).bind ?_)))
  dsimp only
  rw [if_neg hmore]
  exact hitems.bind (Evals.pure _)

omit [Sha256] in
/-- Walking a directory, up to an item that fails. -/
lemma evals_pages_error {page : Page} {e : Error} (hne : page.items ≠ [])
    (hs : Serves h s (.list pre none limit) (.ok page) s1)
    (hitems : Evals h (Budgeted.foldM item x page.items) b s1 (.error e) b' s') :
    Evals h (Routine.pages stop pre limit item x) (b + 1) s (.error e) b' s' := by
  have hmore : ¬ ((stop && page.items.isEmpty) = true) := by simp [hne]
  refine Evals.loop_error (evals_spend (evals_store hs ((Evals.pure _).bind ?_)))
  rw [if_neg hmore]
  exact hitems.bind_error

end Listings

/-! ## Floors and terminal records -/

lemma evals_beacon {nonce : ByteArr 16} (htoken : h .freshToken s = (nonce, s1))
    (hput : Serves h s1 (.putIfAbsent (q.absolute (.beacon nonce)) [] (Sha256.digest []))
      (.ok (.committed v)) s2) (hhead : Serves h s2 (.head (q.absolute (.beacon nonce))) (.ok info) s') :
    Evals h q.beacon (b + 2) s (.ok (some info.storeTimeNs)) b s' :=
  (evals_request htoken).bind <| evals_spend <| evals_store hput <| evals_spend <|
    evals_store hhead <| (Evals.pure _).bind (Evals.pure _)

/-- A handle without a floor, on a queue without a watermark. -/
lemma evals_establishFloor {raw : UInt64} {s3 : σ} (hcached : h (.cachedFloor q.handle) s = (none, s1))
    (hbeacon : Evals h q.beacon b0 s1 (.ok (some raw)) (b + 1) s2) (hraw : raw ≠ 0)
    (hwatermark : Serves h s2 (.get (q.absolute .watermark)) (.error .notFound) s3)
    (hcache : h (.cacheFloor q.handle raw) s3 = ((), s')) : Evals h q.establishFloor b0 s (.ok raw) b s' := by
  refine (evals_request hcached).bind ((Evals.retry hbeacon).bind ?_)
  rw [if_neg hraw]
  exact (evals_watermark_absent hwatermark).bind <| (Evals.pure _).bind <|
    (evals_request hcache).bind (Evals.pure _)

lemma evals_writeTermidx {kind : TermKind} {floorNs bucket : UInt64} {ans : StoreResult PutOutcome}
    (hfloor : Evals h q.establishFloor b0 s (.ok floorNs) (b + 1) s1)
    (hbucket : Math.bucketNumber floorNs q.format.terminalBucketWidthNs = some bucket)
    (hput : Serves h s1 (.putIfAbsent (q.absolute (.termIndex bucket kind shard jobId)) []
      (Sha256.digest [])) ans s') : Evals h (q.writeTermidx kind shard jobId) (b0 + 1) s (.ok ()) b s' := by
  refine evals_trySpend.bind ((Evals.attempt hfloor).bind ?_)
  dsimp only
  rw [hbucket]
  exact evals_trySpend.bind (evals_store hput (Evals.pure _))

lemma evals_bury {claim : Claim} {reason : UInt64}
    (hreceipt : Serves h s (.head (q.absolute (.receipt claim.shard claim.jobId))) (.error .notFound) s1)
    (hput : Serves h s1 (.putIfAbsent (q.absolute (.dead claim.shard claim.jobId))
      (q.encodeAt (.dead claim.shard claim.jobId)
        (.dead ⟨claim.jobId, claim.generation, claim.attempt, reason⟩))
      (Sha256.digest (q.encodeAt (.dead claim.shard claim.jobId)
        (.dead ⟨claim.jobId, claim.generation, claim.attempt, reason⟩)))) (.ok (.committed v)) s2)
    (hindex : Evals h (q.writeTermidx .dead claim.shard claim.jobId) b0 s2 (.ok ()) b s') :
    Evals h (q.bury claim reason) (b0 + 3) s (.ok .buried) b s' := by
  have habsent : Evals h (q.provenAbsent (.receipt claim.shard claim.jobId)) (b0 + 3) s (.ok true)
      (b0 + 2) s1 := evals_spend (evals_store hreceipt (Evals.pure _))
  exact habsent.bind <| evals_spend <| (evals_putRecord hput).bind <| hindex.bind (Evals.pure _)

/-! ## Collection -/

omit [Sha256] in
lemma evals_discard {ans : StoreResult Unit} (hs : Serves h s (.delete key) ans s') :
    Evals h (Queue.discard key) (b + 1) s (.ok ()) b s' :=
  evals_spend (evals_store hs (Evals.pure _))

omit [Sha256] in
lemma evals_discardEntry {pat : Str} {ans : StoreResult Unit} (hmatch : containsStr key pat = true)
    (hs : Serves h s (.delete key) ans s') :
    Evals h (if containsStr key pat then Queue.discard key else pure ()) (b + 1) s (.ok ()) b s' := by
  rw [if_pos hmatch]
  exact evals_discard hs

omit [Sha256] in
/-- An old object without a job record that has not changed since it was listed. -/
lemma evals_collectOrphan {item : Listing} {jobRel : Key} {now : Meta} {ans : StoreResult Unit}
    (hold : ¬ cutoff ≤ item.info.storeTimeNs)
    (hjob : Serves h s (.head (q.absolute jobRel)) (.error .notFound) s1)
    (hhead : Serves h s1 (.head item.key) (.ok now) s2) (hsame : now.storeTimeNs = item.info.storeTimeNs)
    (hdelete : Serves h s2 (.delete item.key) ans s') :
    Evals h (q.collectOrphan cutoff item jobRel) (b + 3) s (.ok true) b s' := by
  unfold Queue.collectOrphan
  rw [if_neg hold]
  have habsent : Evals h (q.provenAbsent jobRel) (b + 3) s (.ok true) (b + 2) s1 :=
    evals_spend (evals_store hjob (Evals.pure _))
  refine habsent.bind (evals_spend (evals_store hhead ?_))
  dsimp only
  rw [if_pos hsame]
  exact (evals_discard hdelete).bind (Evals.pure _)

lemma evals_gcPayload {report : GcReport} {item : Listing} {digest : Digest} (jobId : ByteArr 16)
    (hparse : q.parseRel item.key = some (.payload jobId digest))
    (horphan : Evals h (q.collectOrphan cutoff item (.job (q.payloadShard jobId) jobId)) b s
      (.ok true) b' s') :
    Evals h (q.gcPayload cutoff report item) b s
      (.ok { report with orphansDeleted := report.orphansDeleted + 1 }) b' s' := by
  unfold Queue.gcPayload
  rw [hparse]
  exact horphan.bind (Evals.pure _)

omit [Sha256] in
lemma evals_gcTerminal {report : GcReport} {listed : Meta} (kind : TermKind) (shard : UInt16)
    (jobId : ByteArr 16) {r : Except Error GcReport}
    (hparse : parseTermEntry (if q.root.isPrefixOf key then key.drop q.root.length
      else []) = some (kind, shard, jobId))
    (hhead : Serves h s (.head (q.absolute (Queue.terminalRel kind shard jobId))) (.ok info) s1)
    (hold : ¬ cutoff ≤ info.storeTimeNs)
    (hgraph : Evals h (q.deleteTerminalGraph shard jobId (Queue.terminalRel kind shard jobId) key >>=
      fun deleted => if deleted then pure { report with jobsDeleted := report.jobsDeleted + 1 } else pure report)
      b s1 r b' s') : Evals h (q.gcTerminal cutoff report ⟨key, listed⟩) (b + 1) s r b' s' := by
  unfold Queue.gcTerminal
  dsimp only
  rw [hparse]
  refine evals_spend (evals_store hhead ?_)
  dsimp only
  rw [if_neg hold]
  exact hgraph

end Core
end StowQ
