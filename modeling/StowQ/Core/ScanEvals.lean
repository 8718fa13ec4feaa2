import StowQ.Core.Evals

/-!
# Evaluating claims and what is done with them

The paths of a claim scan over a shard with one job, without tail hints, and of the
operations on a claim.
-/

namespace StowQ
namespace Core

open Data Concurrent Store Format
open Budgeted (Evals)

variable {info : Meta} {b' : Nat} {generation : UInt64} {tail : Tail} {key : Str} {job : JobRecord}
  {obj : Object} {v : Version}

variable {σ : Type} {h : Handler Op Res σ} {b : Nat} {s s' : σ} [Sha256] {q : Queue}
  {shard : UInt16} {jobId : ByteArr 16} {opts : ClaimOptions} {s1 s2 s3 s4 : σ}

/-! ## The tail -/

section Tail

variable (hints : q.hintsEnabled = false)

include hints

lemma evals_gatherTail {found : Option (UInt64 × Meta)}
    (hlist : Evals h (q.listTail shard jobId) b s (.ok found) b' s') :
    Evals h (q.gatherTail shard jobId) b s (.ok ⟨found, none, none⟩) b' s' := by
  unfold Queue.gatherTail
  rw [hints]
  exact hlist.bind (Evals.pure _)

lemma evals_writeTailHint {known : Option (Version × UInt64)} :
    Evals h (q.writeTailHint shard jobId generation known) b s (.ok ()) b s := by
  unfold Queue.writeTailHint
  rw [hints]
  exact Evals.pure _

lemma evals_updateTailHint : Evals h (q.updateTailHint shard jobId generation) b s (.ok ()) b s := by
  unfold Queue.updateTailHint
  rw [hints]
  exact Evals.pure _

end Tail

omit [Sha256] in
lemma evals_listTail_nil
    (hs : Serves h s (.list (q.claimsPrefix shard jobId) none 64) (.ok ⟨[], none⟩) s') :
    Evals h (q.listTail shard jobId) (b + 1) s (.ok none) b s' :=
  evals_pages_nil hs

omit [Sha256] in
lemma evals_listTail_one (hparse : parseGeneration key = some generation)
    (hs : Serves h s (.list (q.claimsPrefix shard jobId) none 64) (.ok ⟨[⟨key, info⟩], none⟩) s') :
    Evals h (q.listTail shard jobId) (b + 1) s (.ok (some (generation, info))) b s' := by
  refine evals_pages_one hs ?_
  dsimp only
  rw [hparse]
  exact Evals.pure _

lemma evals_tailOf_nil {known : Option ClaimRecord} :
    Evals h (q.tailOf shard jobId none known) b s (.ok ⟨0, emptyMeta, 0, 0⟩) b s :=
  Evals.pure _

lemma evals_tailOf_some {r : ClaimRecord} (hgen : generation ≠ 0)
    (hs : Serves h s (.get (q.absolute (.claim shard jobId generation.toUInt32))) (.ok obj) s')
    (hdec : q.decodeAt (.claim shard jobId generation.toUInt32) obj.body = .ok (.claim r)) :
    Evals h (q.tailOf shard jobId (some (generation, info)) none) (b + 1) s
      (.ok ⟨generation, info, r.attempt, r.leaseDurationNs⟩) b s' := by
  have hrecord : Evals h (q.tailRecord shard jobId generation) (b + 1) s
      (.ok (r.attempt, r.leaseDurationNs)) b s' := by
    refine evals_spend (evals_store hs ((Evals.pure obj).bind ?_))
    rw [hdec]
    exact (Evals.pure _).bind (Evals.pure _)
  show Evals h (if generation = 0 then _ else _) _ _ _ _ _
  rw [if_neg hgen]
  exact hrecord.bind (Evals.pure _)

/-! ## One pass -/

lemma evals_backoffPassed_first (hgen : tail.generation = 0) :
    Evals h (q.backoffPassed shard jobId opts tail) b s (.ok true) b s := by
  unfold Queue.backoffPassed
  rw [if_pos hgen]
  exact Evals.pure _

lemma evals_backoffPassed_absent (hgen : tail.generation ≠ 0)
    (hs : Serves h s (.get (q.absolute (.fail shard jobId tail.generation.toUInt32)))
      (.error .notFound) s') : Evals h (q.backoffPassed shard jobId opts tail) (b + 1) s (.ok true) b s' := by
  unfold Queue.backoffPassed
  rw [if_neg hgen]
  exact evals_spend (evals_store hs (Evals.pure _))

lemma evals_readJob (hs : Serves h s (.get (q.absolute (.job shard jobId))) (.ok obj) s')
    (hdec : q.decodeAt (.job shard jobId) obj.body = .ok (.job job)) :
    Evals h (q.readJob shard jobId) (b + 1) s (.ok (some job)) b s' := by
  refine evals_spend (evals_store hs ?_)
  show Evals h (Routine.ofRecord (q.decodeAt (.job shard jobId) obj.body) >>= _) b s' _ b s'
  rw [hdec]
  exact (Evals.pure _).bind (Evals.pure _)

/-- A pass over a ready job whose attempts are not used up appends a claim. -/
lemma evals_claimPass_takeover {token : ByteArr 16} {hint : Option (Version × UInt64)}
    {again : Option (Tail → Routine (Option Claim))} {claim : Claim} {b1 b2 : Nat}
    (hbackoff : Evals h (q.backoffPassed shard jobId opts tail) b s (.ok true) b1 s1)
    (hexpired : q.expired opts tail = true)
    (hjob : Evals h (q.readJob shard jobId) b1 s1 (.ok (some job)) (b2 + 2) s2)
    (hdue : ¬ opts.floorNs < job.notBeforeNs.getD 0) (hattempts : ¬ job.maximumAttempts < tail.attempt + 1)
    (hgen : ¬ UInt64.ofNat u32Max.toNat ≤ tail.generation) (htoken : h .freshToken s2 = (token, s2))
    (hput : Serves h s2 (.putIfAbsent
      (q.absolute (.claim shard jobId (tail.generation + 1).toUInt32))
      (q.encodeAt (.claim shard jobId (tail.generation + 1).toUInt32)
        (.claim (q.takeoverRecord jobId opts tail token)))
      (Sha256.digest (q.encodeAt (.claim shard jobId (tail.generation + 1).toUInt32)
        (.claim (q.takeoverRecord jobId opts tail token))))) (.ok (.committed v)) s3)
    (hhandle : Evals h (q.takeoverHandle shard jobId opts tail job token hint) b2 s3 (.ok claim) b'
      s') : Evals h (q.claimPass shard jobId opts hint again tail) b s (.ok (some claim)) b' s' := by
  have hfresh : Evals h Routine.freshToken (b2 + 2) s2 (.ok token) (b2 + 2) s2 := evals_request htoken
  unfold Queue.claimPass
  refine hbackoff.bind ?_
  rw [hexpired]
  refine hjob.bind ?_
  dsimp only
  rw [if_neg hdue, if_neg hattempts, if_neg hgen]
  exact hfresh.bind (evals_spend ((evals_putRecord hput).bind (hhandle.bind (Evals.pure _))))

/-- Reading the store time of a committed claim back, and its lease index entry. -/
lemma evals_takeoverHandle (info : Meta) (hints : q.hintsEnabled = false) {token : ByteArr 16}
    {hint : Option (Version × UInt64)} {payload : PayloadRef} {bucket : UInt64} {ans : StoreResult PutOutcome}
    (hpayload : q.payloadRef job = some payload)
    (hbucket : Math.bucketNumber (satAdd info.storeTimeNs opts.leaseDurationNs)
      q.format.leaseBucketWidthNs = some bucket)
    (hhead : Serves h s (.head (q.absolute (.claim shard jobId (tail.generation + 1).toUInt32)))
      (.ok info) s1) (hindex : Serves h s1 (.putIfAbsent
      (q.absolute (.leaseIndex bucket shard jobId (tail.generation + 1).toUInt32)) []
      (Sha256.digest [])) ans s') :
    Evals h (q.takeoverHandle shard jobId opts tail job token hint) (b + 2) s
      (.ok { jobId, shard, generation := tail.generation + 1, attempt := tail.attempt + 1,
             workerToken := token, leaseDurationNs := opts.leaseDurationNs,
             claimStoreTimeNs := info.storeTimeNs, payload }) b s' := by
  have hlease : Evals h (q.writeLeaseIndex shard jobId
      (satAdd info.storeTimeNs opts.leaseDurationNs) (tail.generation + 1)) (b + 1) s1 (.ok ()) b
      s' := by
    unfold Queue.writeLeaseIndex
    rw [hbucket]
    exact evals_spend (evals_store hindex (Evals.pure _))
  refine evals_spend (evals_store hhead ((Evals.pure info).bind ?_))
  rw [hpayload]
  exact (evals_writeTailHint hints).bind (hlease.bind (Evals.pure _))

lemma evals_tryClaim {version : Version} {found : Option (UInt64 × Meta)}
    {result : Except Error (Option Claim)} {b1 b2 : Nat} (hints : q.hintsEnabled = false)
    (hreceipt : Serves h s (.head (q.absolute (.receipt shard jobId))) (.error .notFound) s1)
    (hdead : Serves h s1 (.head (q.absolute (.dead shard jobId))) (.error .notFound) s2)
    (hlist : Evals h (q.listTail shard jobId) b s2 (.ok found) b1 s3)
    (htail : Evals h (q.tailOf shard jobId found none) b1 s3 (.ok tail) b2 s4)
    (hpass : Evals h (q.claimPass shard jobId opts none none tail) b2 s4 result b' s') :
    Evals h (q.tryClaim opts shard jobId version) (b + 3) s result b' s' := by
  have hprobes : (Prog.join (Prog.request (Op.store (.head (q.absolute (.receipt shard jobId)))))
      (Prog.request (Op.store (.head (q.absolute (.dead shard jobId)))))).run h s =
      ((.error .notFound, .error .notFound), s2) := by
    rw [Prog.run_join, hreceipt.run, hdead.run]
  refine evals_spend (evals_spend (evals_spend ?_))
  refine (Evals.beside hprobes (evals_gatherTail hints hlist)).bind ?_
  exact (Evals.pure _).bind (htail.bind hpass)

/-! ## The scan -/

/-- A scan that finds one job in its shard: the first round lists the job, the second probes
it. -/
lemma evals_claimMany_one {claims : List Claim} (hparse : q.parseRel key = some (.job shard jobId))
    (hmemo : h (.isMemoizedTerminal q.handle shard jobId info.version) s1 = (false, s2))
    (hlist : Serves h s (.list (q.jobsPrefix opts.shard) none 1024) (.ok ⟨[⟨key, info⟩], none⟩) s1)
    (hwaves : Evals h (q.probeWaves opts 1 [⟨shard, jobId, info.version⟩] []) b s2
      (.ok (.answer (.ok claims))) b' s') : Evals h (q.claimMany opts 1) (b + 1) s (.ok claims) b' s' := by
  have hadd : Evals h (q.addCandidate [] ⟨key, info⟩) b s1
      (.ok [⟨shard, jobId, info.version⟩]) b s2 := by
    have hask : Evals h (q.isMemoizedTerminal shard jobId info.version) b s1 (.ok false) b s2 := evals_request hmemo
    unfold Queue.addCandidate
    rw [hparse]
    exact hask.bind (Evals.pure _)
  have hcandidates : Evals h (q.pageCandidates [⟨key, info⟩]) b s1
      (.ok [⟨shard, jobId, info.version⟩]) b s2 := Evals.foldM_cons hadd Evals.foldM_nil
  have hfirst : Evals h (q.scanRound opts 1 ⟨[], [], none, false⟩) (b + 1) s
      (.ok (.inl ⟨[⟨shard, jobId, info.version⟩], [], none, true⟩)) b s2 := by
    have hwaves : Evals h (q.probeWaves opts 1 [] []) (b + 1) s (.ok (.ranOut [])) (b + 1) s :=
      Evals.iterate_done (Evals.pure _)
    refine hwaves.bind (evals_trySpend.bind (evals_store hlist ?_))
    exact hcandidates.bind (Evals.pure _)
  have hsecond : Evals h (q.scanRound opts 1 ⟨[⟨shard, jobId, info.version⟩], [], none, true⟩) b s2
      (.ok (.inr claims)) b' s' :=
    hwaves.bind ((Evals.pure _).bind (Evals.pure _))
  exact Evals.iterate_next hfirst (Evals.iterate_done hsecond)

lemma evals_claim_one (key : Str) {claim : Claim} (hparse : q.parseRel key = some (.job shard jobId))
    (hmemo : h (.isMemoizedTerminal q.handle shard jobId info.version) s1 = (false, s1))
    (hlist : Serves h s (.list (q.jobsPrefix opts.shard) none 1024) (.ok ⟨[⟨key, info⟩], none⟩) s1)
    (htry : Evals h (q.tryClaim opts shard jobId info.version) b s1 (.ok (some claim)) b' s') :
    Evals h (q.claim opts) (b + 1) s (.ok (.claimed claim)) b' s' := by
  have hwaves : Evals h (q.probeWaves opts 1 [⟨shard, jobId, info.version⟩] []) b s1
      (.ok (.answer (.ok [claim]))) b' s' :=
    Evals.iterate_done ((Evals.joinSplit_one htry).bind (Evals.pure _))
  exact (evals_claimMany_one hparse hmemo hlist hwaves).bind (Evals.pure _)

/-- The job is dead, and the budget of the scan is used up. -/
lemma evals_claimMany_dead {dead : Meta} (hints : q.hintsEnabled = false)
    (hparse : q.parseRel key = some (.job shard jobId))
    (hjobs : Serves h s (.list (q.jobsPrefix opts.shard) none 1024) (.ok ⟨[⟨key, info⟩], none⟩) s1)
    (hmemo : h (.isMemoizedTerminal q.handle shard jobId info.version) s1 = (false, s1))
    (hreceipt : Serves h s1 (.head (q.absolute (.receipt shard jobId))) (.error .notFound) s2)
    (hdead : Serves h s2 (.head (q.absolute (.dead shard jobId))) (.ok dead) s3)
    (hclaims : Serves h s3 (.list (q.claimsPrefix shard jobId) none 64) (.ok ⟨[], none⟩) s4)
    (hmark : h (.memoizeTerminal q.handle shard jobId info.version) s4 = ((), s')) :
    Evals h (q.claimMany opts 1) 5 s (.ok []) 0 s' := by
  have hprobes : (Prog.join (Prog.request (Op.store (.head (q.absolute (.receipt shard jobId)))))
      (Prog.request (Op.store (.head (q.absolute (.dead shard jobId)))))).run h s1 =
      ((.error .notFound, .ok dead), s3) := by
    rw [Prog.run_join, hreceipt.run, hdead.run]
  have htry : Evals h (q.tryClaim opts shard jobId info.version) 4 s1 (.ok none) 0 s' := by
    refine evals_spend (evals_spend (evals_spend ?_))
    refine (Evals.beside hprobes (evals_gatherTail hints (evals_listTail_nil hclaims))).bind ?_
    exact (evals_request hmark).bind (Evals.pure none)
  have hwaves : Evals h (q.probeWaves opts 1 [⟨shard, jobId, info.version⟩] []) 4 s1
      (.ok (.answer (.ok []))) 0 s' :=
    Evals.iterate_done ((Evals.joinSplit_one htry).bind (Evals.remaining.bind (Evals.pure _)))
  exact evals_claimMany_one hparse hmemo hjobs hwaves

/-- The attempts of the job are used up, and so is the budget of the scan. -/
lemma evals_claim_exhausted {ckey : Str} {cinfo : Meta} {jobj : Object} {r : ClaimRecord} {s5 s6 s7 s8 : σ}
    (hints : q.hintsEnabled = false) (hparse : q.parseRel key = some (.job shard jobId))
    (hjobs : Serves h s (.list (q.jobsPrefix opts.shard) none 1024) (.ok ⟨[⟨key, info⟩], none⟩) s1)
    (hmemo : h (.isMemoizedTerminal q.handle shard jobId info.version) s1 = (false, s2))
    (hreceipt : Serves h s2 (.head (q.absolute (.receipt shard jobId))) (.error .notFound) s3)
    (hdead : Serves h s3 (.head (q.absolute (.dead shard jobId))) (.error .notFound) s4)
    (hclaims : Serves h s4 (.list (q.claimsPrefix shard jobId) none 64)
      (.ok ⟨[⟨ckey, cinfo⟩], none⟩) s5) (hgeneration : parseGeneration ckey = some generation)
    (hgen : generation ≠ 0)
    (hclaim : Serves h s5 (.get (q.absolute (.claim shard jobId generation.toUInt32))) (.ok obj) s6)
    (hdec : q.decodeAt (.claim shard jobId generation.toUInt32) obj.body = .ok (.claim r))
    (hfail : Serves h s6 (.get (q.absolute (.fail shard jobId generation.toUInt32)))
      (.error .notFound) s7) (hjob : Serves h s7 (.get (q.absolute (.job shard jobId))) (.ok jobj) s8)
    (hjobdec : q.decodeAt (.job shard jobId) jobj.body = .ok (.job job))
    (hexpired : q.expired opts ⟨generation, cinfo, r.attempt, r.leaseDurationNs⟩ = true)
    (hdue : ¬ opts.floorNs < job.notBeforeNs.getD 0) (hattempts : job.maximumAttempts < r.attempt + 1)
    (hput : Serves h s8 (.putIfAbsent (q.absolute (.dead shard jobId))
      (q.encodeAt (.dead shard jobId) (.dead ⟨jobId, generation, r.attempt, 4⟩))
      (Sha256.digest (q.encodeAt (.dead shard jobId) (.dead ⟨jobId, generation, r.attempt, 4⟩))))
      (.ok (.committed v)) s') : Evals h (q.claim opts) 10 s (.ok .empty) 0 s' := by
  have hrecord : Evals h (q.putRecord (.dead shard jobId) (.dead ⟨jobId, generation, r.attempt, 4⟩)) 1
      s8 (.ok .committed) 0 s' := evals_putRecord hput
  have hbury : Evals h (q.buryExhausted shard jobId ⟨generation, cinfo, r.attempt, r.leaseDurationNs⟩)
      2 s8 (.ok ()) 0 s' := evals_spend (hrecord.bind evals_writeTermidx_zero)
  have hbackoff : Evals h (q.backoffPassed shard jobId opts
      ⟨generation, cinfo, r.attempt, r.leaseDurationNs⟩) 4 s6 (.ok true) 3 s7 :=
    evals_backoffPassed_absent hgen hfail
  have hpass : Evals h (q.claimPass shard jobId opts none none
      ⟨generation, cinfo, r.attempt, r.leaseDurationNs⟩) 4 s6 (.ok none) 0 s' := by
    unfold Queue.claimPass
    refine hbackoff.bind ?_
    rw [hexpired]
    refine (evals_readJob hjob hjobdec).bind ?_
    dsimp only
    rw [if_neg hdue, if_pos hattempts]
    exact hbury.bind (Evals.pure _)
  have htry : Evals h (q.tryClaim opts shard jobId info.version) 9 s2 (.ok none) 0 s' :=
    evals_tryClaim hints hreceipt hdead (evals_listTail_one hgeneration hclaims)
      (evals_tailOf_some hgen hclaim hdec) hpass
  have hwaves : Evals h (q.probeWaves opts 1 [⟨shard, jobId, info.version⟩] []) 9 s2
      (.ok (.answer (.ok []))) 0 s' :=
    Evals.iterate_done ((Evals.joinSplit_one htry).bind (Evals.remaining.bind (Evals.pure _)))
  exact (evals_claimMany_one hparse hmemo hjobs hwaves).bind (Evals.pure _)

/-! ## Renewal -/

omit [Sha256] in
lemma evals_provenAbsent {rel : Keys.Key}
    (hs : Serves h s (.head (q.absolute rel)) (.error .notFound) s') :
    Evals h (q.provenAbsent rel) (b + 1) s (.ok true) b s' :=
  evals_spend (evals_store hs (Evals.pure _))

lemma evals_renew {c : Claim} (hspace : ¬ UInt64.ofNat u32Max.toNat ≤ c.generation)
    (hreceipt : Serves h s (.head (q.absolute (.receipt c.shard c.jobId))) (.error .notFound) s1)
    (hdead : Serves h s1 (.head (q.absolute (.dead c.shard c.jobId))) (.error .notFound) s2)
    (hput : Serves h s2 (.putIfAbsent (q.absolute (.claim c.shard c.jobId
        (c.generation + 1).toUInt32))
      (q.encodeAt (.claim c.shard c.jobId (c.generation + 1).toUInt32)
        (.claim (q.continuationRecord c)))
      (Sha256.digest (q.encodeAt (.claim c.shard c.jobId (c.generation + 1).toUInt32)
        (.claim (q.continuationRecord c))))) (.ok (.committed v)) s3)
    (hhead : Serves h s3 (.head (q.absolute (.claim c.shard c.jobId (c.generation + 1).toUInt32)))
      (.ok info) s4) (hhint : Evals h (q.updateTailHint c.shard c.jobId (c.generation + 1)) b s4 (.ok ()) b' s') :
    Evals h (q.renew c) (b + 5) s (.ok (.renewed { c with
      generation := c.generation + 1, claimStoreTimeNs := info.storeTimeNs })) b' s' := by
  have hhandle : Evals h (q.renewedHandle c) (b + 1) s3 (.ok { c with
      generation := c.generation + 1, claimStoreTimeNs := info.storeTimeNs }) b' s' :=
    evals_spend (evals_store hhead ((Evals.pure info).bind (hhint.bind (Evals.pure _))))
  unfold Queue.renew
  rw [if_neg hspace]
  refine (evals_provenAbsent hreceipt).bind ((evals_provenAbsent hdead).bind ?_)
  exact evals_spend ((evals_putRecord hput).bind (hhandle.bind (Evals.pure _)))

end Core
end StowQ
