import StowQ.Core.Spending
import StowQ.Planes
import StowQ.Worker.Basic

/-!
# The conduct of a worker

A worker only combines operations of the queue: it claims, runs the executor, commits outputs and ends the job.
Whatever every operation keeps to, the worker keeps to as well, so its bounds follow from those of the
operations, and a pass of the sweeper tidies up because its parts do (`sweep_tidies`).  There is one exception:
a worker reads a detached payload without paying for it, so a delivery performs at most one store operation more
than its budget has (`delivery_bounds_work`).
-/

namespace StowQ
namespace Worker

open Data Concurrent Store Format StowQ.Core Interleaving
open Budgeted (Keeps Yields)

/-- The operations a worker uses. -/
def uses : Action → Bool
  | .claim .. | .claimMany .. | .renew .. | .commitOutput .. | .ack .. | .nack .. | .bury ..
  | .establishFloor | .sweepExpiredLeases .. | .sweepDelayed .. => true
  | _ => false

variable [Sha256] {q : Queue}

section Keeps

variable {T : Regime Op Res Error} [Footprint.Fair T] {A : Op → Prop} {α β : Type}

omit [Sha256] [Footprint.Fair T] in
lemma keeps_inside {m : Routine α} {f : α → β} (h : Keeps T A 0 (m >>= fun a => pure (f a))) : Keeps T A 0 m := by
  have hprog : ∀ {p : Prog Op Res (Except Error α × Nat)} {g : Except Error α × Nat → Prog Op Res (Except Error β × Nat)}
      {n : Nat}, (∀ out n, (g out).Keeps T.cost T.valid A (fun o => T.Ends (fun _ => True) o.1) Prod.snd n →
        T.Ends (fun _ => True) out.1 ∧ out.2 ≤ n) →
      (p.bind g).Keeps T.cost T.valid A (fun o => T.Ends (fun _ => True) o.1) Prod.snd n →
      p.Keeps T.cost T.valid A (fun o => T.Ends (fun _ => True) o.1) Prod.snd n := by
    intro p g n hg h
    induction p generalizing n with
    | ret out => exact hg out n h
    | op o k ih => exact ⟨h.1, h.2.1, fun r hr => ih r (h.2.2 r hr)⟩
    | amb k ih => exact fun b => ih b (h b)
  refine fun b => hprog ?_ (h b)
  rintro ⟨r, left⟩ n h
  cases r <;> exact h

variable (hq : ∀ action, uses action → Keeps T A 0 (action.task q)) (hget : ∀ key, A (.store (.get key)))

include hget in
lemma keeps_receiptFor (claim : Claim) : Keeps T A 0 (q.receiptFor claim) := by
  refine (Footprint.readRetrying (hget _)).attempt.bind fun r hr => ?_
  split
  · refine (Footprint.ofRecord _).bind fun record => ?_
    split
    · exact Keeps.pure _
    · exact Footprint.settled rfl
  · exact Keeps.pure _
  · exact Yields.fail hr

include hq

omit [Footprint.Fair T] in
lemma keeps_commitOutputs (claim : Claim) (outputs : List ExecutorOutput) (committed : List CommittedOutput) :
    Keeps T A 0 (commitOutputs q claim committed outputs) := by
  induction outputs generalizing committed with
  | nil => exact Keeps.pure _
  | cons out outputs ih =>
    refine (keeps_inside (hq (.commitOutput claim out.name out.body) rfl)).bind fun outcome => ?_
    split <;> exact ih _

include hget

lemma keeps_finishDelivery (claim : Claim) (executed : Except ExecutionFailure (List ExecutorOutput))
    (digest : Digest) : Keeps T A 0 (finishDelivery q claim executed digest) := by
  unfold finishDelivery
  split
  · refine (keeps_commitOutputs hq claim _ []).bind fun committed => ?_
    refine (keeps_inside (hq (.ack claim committed) rfl)).attempt.bind fun r hr => ?_
    split
    · exact Keeps.pure _
    · exact Keeps.pure _
    · exact Keeps.pure _
    · refine (keeps_receiptFor hget claim).bind fun found => ?_
      split
      · split
        · exact Keeps.pure _
        · exact Footprint.settled rfl
      · exact Footprint.settled rfl
    · exact Yields.fail hr
  · refine (keeps_inside (hq .establishFloor rfl)).bind fun floorNs => ?_
    exact (keeps_inside (hq (.nack claim _ floorNs) rfl)).bind fun _ => Keeps.pure _
  · refine (keeps_inside (hq (.bury claim _) rfl)).bind fun outcome => ?_
    split <;> exact Keeps.pure _

lemma keeps_deliveryRound (exec : Executor) (payload : Bytes) (claim : Claim) :
    Keeps T A 0 (deliveryRound q exec payload claim) := by
  have hchoice : Keeps T A 0 (Budgeted.lift (.amb .ret) : Routine Bool) :=
    Yields.lift fun _ => ⟨trivial, Nat.le_refl _⟩
  refine hchoice.bind fun finished => ?_
  split
  · exact (keeps_finishDelivery hq hget claim _ _).bind fun _ => Keeps.pure _
  · refine (keeps_inside (hq (.renew claim) rfl)).bind fun outcome => ?_
    split <;> exact Keeps.pure _

/-- A delivery reads one payload that it has not paid for. -/
lemma keeps_deliverOne (exec : Executor) (claim : Claim) : Keeps T A 1 (deliverOne q exec claim) := by
  refine (Yields.lift (Footprint.payloadBytes fun key _ _ _ => hget key)).andThen (k := 0) fun r hr => ?_
  refine (Yields.ofExcept hr).bind fun payload _ => ?_
  exact Keeps.loop (Footprint.Fair.settled _ rfl) (keeps_deliveryRound hq hget exec payload) claim

omit [Footprint.Fair T] hget in
lemma keeps_claimFirst (floorNs leaseNs : UInt64) (shards : List UInt16) :
    Keeps T A 0 (claimFirst q floorNs leaseNs shards) := by
  induction shards with
  | nil => exact Keeps.pure _
  | cons shard shards ih =>
    refine (keeps_inside (hq (.claim ⟨shard, floorNs, leaseNs⟩) rfl)).bind fun outcome => ?_
    split
    · exact Keeps.pure _
    · exact ih

lemma keeps_runDelivery (msg : DoorbellMsg) (exec : Executor) (leaseNs : UInt64) :
    Keeps T A 1 (runDelivery q msg exec leaseNs) := by
  refine (keeps_inside (hq .establishFloor rfl)).bind fun floorNs => ?_
  refine (keeps_claimFirst hq floorNs leaseNs _).bind fun found => ?_
  split
  · exact keeps_deliverOne hq hget exec _
  · exact Keeps.pure _

omit [Footprint.Fair T] hget in
lemma keeps_claimBatch (floorNs leaseNs : UInt64) (batch : Nat) (claims : List Claim) (shards : List UInt16) :
    Keeps T A 0 (claimBatch q floorNs leaseNs batch claims shards) := by
  induction shards generalizing claims with
  | nil => exact Keeps.pure _
  | cons shard shards ih =>
    unfold claimBatch
    split
    · exact Keeps.pure _
    · exact (keeps_inside (hq (.claimMany ⟨shard, floorNs, leaseNs⟩ _) rfl)).bind fun more => ih _

omit [Footprint.Fair T] hget hq in
lemma keeps_sweepOnce (hfloor : Keeps T A 0 q.establishFloor)
    (hleases : ∀ floorNs, Keeps T A 0 (q.sweepExpiredLeases floorNs))
    (hdelayed : ∀ floorNs, Keeps T A 0 (q.sweepDelayed floorNs)) : Keeps T A 0 (sweepOnce q) :=
  hfloor.bind fun floorNs => (hleases floorNs).bind fun _ => (hdelayed floorNs).bind fun _ => Keeps.pure _

omit [Footprint.Fair T] hget in
lemma keeps_sweeping : Keeps T A 0 (sweepOnce q) := keeps_sweepOnce (keeps_inside (hq .establishFloor rfl))
    (fun floorNs => keeps_inside (hq (.sweepExpiredLeases floorNs) rfl))
    fun floorNs => keeps_inside (hq (.sweepDelayed floorNs) rfl)

end Keeps

/-! ## Work -/

/-- **A delivery performs at most one store operation more than its budget has**, whatever the store
answers and whenever the executor finishes, and so does each of the deliveries of a batch; a pass of the
sweeper performs no more than its budget has. -/
theorem delivery_bounds_work (q : Queue) (msg : DoorbellMsg) (exec : Executor) (leaseNs : UInt64) :
    (∀ os rest, Prog.Issues (fun _ _ => True) (runDelivery q msg exec leaseNs deliveryBudgetOps) os rest →
      (os.map storeOps).sum ≤ deliveryBudgetOps + 1) ∧
    (∀ (claims : List Claim) os rest, Prog.Issues (fun _ _ => True)
        (Prog.joinAll (claims.map fun c => deliverOne q exec c deliveryBudgetOps)) os rest →
      (os.map storeOps).sum ≤ (deliveryBudgetOps + 1) * claims.length) ∧
    ∀ budget os rest, Prog.Issues (fun _ _ => True) (sweepOnce q budget) os rest → (os.map storeOps).sum ≤ budget := by
  have hq : ∀ action, uses action → Keeps (Spending.counted fun _ _ => True) (fun _ => True) 0 (action.task q) :=
    fun action huses => Spending.pays_task fun shard heq => by
      subst heq
      cases huses
  refine ⟨fun os rest hissues => ?_, fun claims os rest hissues => ?_, fun budget os rest hissues => ?_⟩
  · exact ((keeps_runDelivery hq (fun _ => trivial) msg exec leaseNs deliveryBudgetOps).issues hissues).1
  · rw [← List.length_map (f := fun c => deliverOne q exec c deliveryBudgetOps)]
    have hone := fun c => keeps_deliverOne hq (fun _ => trivial) exec c deliveryBudgetOps
    exact ((Prog.Keeps.joinAll (List.forall_mem_map.mpr fun c _ => hone c)).issues hissues).1
  · exact ((keeps_sweeping hq budget).issues hissues).1

/-- The requests of a sweeper: reads, clock objects put in place, and deletes in the lease and delay indexes. -/
def Tidies (q : Queue) : Op → Prop
  | .store (.putIfAbsent key body _) => (∃ nonce, key = q.absolute (.beacon nonce)) ∧ body = []
  | .store (.cas ..) => False
  | .store (.delete key) => ∃ plane ∈ swept, q.site.plane key = some plane
  | _ => True

/-- **A sweeper only tidies up.**  Whatever its requests are answered, a pass creates nothing but empty clock
objects, each under a nonce of its own, overwrites nothing at all, and deletes nothing outside the lease and
delay indexes.  Jobs, claims and records are out of its reach, so a pass too many does no harm. -/
theorem sweep_tidies (q : Queue) (budget : Nat) : (sweepOnce q budget).Emits (Tidies q) := by
  have htame : Tame (Tidies q) := by
    constructor <;> intros <;> trivial
  have hread : Footprint.Reading (Tidies q) := ⟨htame, fun _ => trivial⟩
  refine Budgeted.Emits.prog (keeps_sweepOnce ?_ (fun floorNs => ?_) fun floorNs => ?_) budget
  · exact Footprint.establishFloor htame (fun nonce => ⟨⟨nonce, rfl⟩, rfl⟩) trivial
  · exact Footprint.sweepExpiredLeases hread (swept_of_dir (by decide))
  · exact Footprint.sweepDelayed hread (swept_of_dir (by decide))

end Worker
end StowQ
