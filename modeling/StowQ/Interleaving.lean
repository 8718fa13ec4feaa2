import StowQ.Concurrent.Machine
import StowQ.Core.Repair

/-!
# Interleaved calls

Any number of calls of the queue's operations, by any number of handles, over one
store.  A call runs request by request; between two of its requests every other call
may move, and a call may stop for good at any point.

The world holds the objects of the store, the store's clock, the two caches of every
handle, and a log of everything that happened, newest first.  What the outside decides
about a request (its fault, the version and time the store assigns, a random draw, the
reading of the local clock) is a `Choice`.
-/

namespace StowQ
namespace Interleaving

open Data Concurrent Store Format StowQ.Core

/-! ## Calls -/

/-- One public operation with its arguments. -/
inductive Action
  | enqueue (input : EnqueueInput)
  | claim (opts : ClaimOptions)
  | claimMany (opts : ClaimOptions) (max : Nat)
  | renew (claim : Claim)
  | commitOutput (claim : Claim) (name : Str) (body : Bytes)
  | ack (claim : Claim) (outputs : List CommittedOutput)
  | nack (claim : Claim) (reason floorNs : UInt64)
  | bury (claim : Claim) (reason : UInt64)
  | establishFloor
  | advanceWatermark (floorNs : UInt64)
  | sweepExpiredLeases (floorNs : UInt64)
  | sweepDelayed (floorNs : UInt64)
  | repairScan (startShard : UInt16)
  | gc (nowNs retentionNs orphanHorizonNs : UInt64)

/-- What an operation returns. -/
inductive Output
  | enqueue (outcome : EnqueueOutcome)
  | claim (outcome : ClaimOutcome)
  | claimMany (claims : List Claim)
  | renew (outcome : RenewOutcome)
  | commitOutput (outcome : CommitOutcome)
  | ack (outcome : AckOutcome)
  | nack
  | bury (outcome : BuryOutcome)
  | establishFloor (floorNs : UInt64)
  | advanceWatermark
  | sweepExpiredLeases (report : SweepReport)
  | sweepDelayed (report : SweepReport)
  | repairScan (report : RepairReport) (resume : Option UInt16)
  | gc (report : GcReport)
  deriving DecidableEq

/-- An operation on an open queue, with the budget it may spend. -/
structure Call where
  queue : Queue
  action : Action
  budget : Nat

/-- The claim handles an operation was given. -/
def Action.handle : Action → Option Claim
  | .renew c | .commitOutput c _ _ | .ack c _ | .nack c _ _ | .bury c _ => some c
  | _ => none

/-- The claim handles an operation hands out. -/
def Output.handles : Output → List Claim
  | .claim (.claimed c) => [c]
  | .claimMany claims => claims
  | .renew (.renewed c) => [c]
  | _ => []

section Programs

variable [Sha256]

/-- The program of an operation. -/
def Action.task (q : Queue) : Action → Routine Output
  | .enqueue input => do pure (.enqueue (← q.enqueue input))
  | .claim opts => do pure (.claim (← q.claim opts))
  | .claimMany opts max => do pure (.claimMany (← q.claimMany opts max))
  | .renew c => do pure (.renew (← q.renew c))
  | .commitOutput c name body => do pure (.commitOutput (← q.commitOutput c name body))
  | .ack c outputs => do pure (.ack (← q.ack c outputs))
  | .nack c reason floorNs => do
    q.nack c reason floorNs
    pure .nack
  | .bury c reason => do pure (.bury (← q.bury c reason))
  | .establishFloor => do pure (.establishFloor (← q.establishFloor))
  | .advanceWatermark floorNs => do
    q.advanceWatermark floorNs
    pure .advanceWatermark
  | .sweepExpiredLeases floorNs => do
    pure (.sweepExpiredLeases (← q.sweepExpiredLeases floorNs))
  | .sweepDelayed floorNs => do pure (.sweepDelayed (← q.sweepDelayed floorNs))
  | .repairScan startShard => do
    let (report, resume) ← q.repairScan startShard
    pure (.repairScan report resume)
  | .gc nowNs retentionNs orphanHorizonNs => do
    pure (.gc (← q.gc nowNs retentionNs orphanHorizonNs))

def Call.prog (call : Call) : Prog Op Res (Except Error Output) :=
  (call.action.task call.queue call.budget).map Prod.fst

end Programs

/-! ## Worlds -/

/-- One entry of the log.  A store request is logged with its answer and the objects before
and after it. -/
inductive Event
  | started (caller : Nat) (call : Call)
  | did (caller : Nat) (r : Request) (answer : StoreResult r.Answer) (before after : Objects)
  | returned (caller : Nat) (out : Except Error Output)

lemma Event.started_ne_did (caller : Nat) (call : Call) (i : Nat) (r : Request)
    (answer : StoreResult r.Answer) (before after : Objects) :
    Event.started caller call ≠ .did i r answer before after := by
  intro h
  cases h

lemma Event.returned_ne_did (caller : Nat) (out : Except Error Output) (i : Nat) (r : Request)
    (answer : StoreResult r.Answer) (before after : Objects) :
    Event.returned caller out ≠ .did i r answer before after := by
  intro h
  cases h

/-- The two caches of a handle. -/
structure HandleState where
  floorNs : UInt64 := 0
  establishedAtNs : UInt64 := 0
  terminalMemo : List ((UInt16 × ByteArr 16) × (Version × UInt64)) := []
  deriving DecidableEq

structure World where
  objects : Objects
  clock : UInt64
  handles : Nat → HandleState
  log : List Event

/-- What the outside decides about one request. -/
structure Choice where
  fault : Option Fault
  stamp : Stamp
  token : ByteArr 16
  /-- Reading of the caller's local clock. -/
  elapsedNs : UInt64

/-- Spontaneous events: time passes; someone outside the protocol writes or deletes an
object. -/
inductive Outside
  | tick (clock : UInt64)
  | write (key : Str) (stored : Stored)
  | delete (key : Str)

namespace HandleState

def cachedFloor (h : HandleState) (elapsedNs : UInt64) : Option UInt64 :=
  if 0 < h.floorNs ∧ satSub elapsedNs h.establishedAtNs < floorStalenessNs then some h.floorNs
  else none

def isMemoizedTerminal (h : HandleState) (shard : UInt16) (jobId : ByteArr 16)
    (version : Version) (elapsedNs : UInt64) : Bool :=
  match h.terminalMemo.lookup (shard, jobId) with
  | some (v, at_) => v = version && satSub elapsedNs at_ < terminalMemoTtlNs
  | none => false

/-- On overflow the memo is cleared wholesale. -/
def memoizeTerminal (h : HandleState) (shard : UInt16) (jobId : ByteArr 16)
    (version : Version) (elapsedNs : UInt64) : HandleState :=
  let memo := if terminalMemoCap ≤ h.terminalMemo.length then [] else h.terminalMemo
  { h with
    terminalMemo := ((shard, jobId), (version, elapsedNs)) ::
      memo.filter fun e => e.1 ≠ (shard, jobId) }

end HandleState

namespace World

/-- Log an event. -/
def record (w : World) (e : Event) : World := { w with log := e :: w.log }

/-- Replace the state of one handle. -/
def setHandle (w : World) (handle : Nat) (h : HandleState) : World :=
  { w with handles := Function.update w.handles handle h }

variable [Sha256]

/-- The effect of a store request: the store answers at the stamp's time. -/
def request (w : World) (caller : Nat) (r : Request) (c : Choice) : World :=
  let objects := (inject c.fault w.objects c.stamp r).2
  { w with
    objects
    clock := max w.clock c.stamp.timeNs
    log := .did caller r (inject c.fault w.objects c.stamp r).1 w.objects objects ::
      w.log }

/-- The effect of one request of a call. -/
def exec (w : World) (caller : Nat) : (o : Op) → Choice → Res o × World
  | .store r, c => ((inject c.fault w.objects c.stamp r).1, w.request caller r c)
  | .freshToken, c => (c.token, w)
  | .cachedFloor handle, c => ((w.handles handle).cachedFloor c.elapsedNs, w)
  | .cacheFloor handle floorNs, c =>
    ((), w.setHandle handle
      { w.handles handle with floorNs, establishedAtNs := c.elapsedNs })
  | .isMemoizedTerminal handle shard jobId version, c =>
    ((w.handles handle).isMemoizedTerminal shard jobId version c.elapsedNs, w)
  | .memoizeTerminal handle shard jobId version, c =>
    ((), w.setHandle handle
      ((w.handles handle).memoizeTerminal shard jobId version c.elapsedNs))

/-- The effect of a spontaneous event. -/
def outside (w : World) : Outside → World
  | .tick clock => { w with clock := max w.clock clock }
  | .write key stored => { w with objects := w.objects.insert key stored }
  | .delete key => { w with objects := w.objects.erase key }

omit [Sha256] in
@[simp] lemma outside_log (w : World) (e : Outside) : (w.outside e).log = w.log := by
  cases e <;> rfl

/-- The call numbered `caller` has returned. -/
def hasReturned (w : World) (caller : Nat) : Bool :=
  w.log.any fun
    | .returned i _ => i = caller
    | _ => false

end World

/-- Calls interleaving over a world. -/
def machine [Sha256] : Machine World Op Res Choice Outside Call (Except Error Output) where
  exec i o c w := some (w.exec i o c)
  env e w := some (w.outside e)
  start i call w := some (w.record (.started i call))
  finish i out w := if w.hasReturned i then none else some (w.record (.returned i out))
  prog := Call.prog

lemma answers_iff [Sha256]
    {P : Profile World Op Res Choice Outside Call (Except Error Output)} {inv : World → Prop}
    {i : Nat} {call : Call} {o : Op} {w1 w2 : World} {r : Res o} :
    (machine.service P inv i call).answers o w1 r w2 ↔
      ∃ c, P.step w1 i call o c ∧ r = (w1.exec i o c).1 ∧ w2 = (w1.exec i o c).2 := by
  constructor
  · rintro ⟨c, hc, hexec⟩
    have hpair := Option.some.inj hexec
    exact ⟨c, hc, by rw [hpair], by rw [hpair]⟩
  · rintro ⟨c, hc, rfl, rfl⟩
    exact ⟨c, hc, rfl⟩

lemma finish_eq_some [Sha256] {i : Nat} {out : Except Error Output} {w w' : World}
    (h : machine.finish i out w = some w') : w' = w.record (.returned i out) := by
  simp only [machine, Option.ite_none_left_eq_some, Option.some.injEq] at h
  exact h.2.symm

/-- What the outside may do to calls of the queue. -/
abbrev Terms := Profile World Op Res Choice Outside Call (Except Error Output)

/-- All calls of a run with what is left of them. -/
abbrev Calls := Config World Op Res Call (Except Error Output)

/-- What a step of the machine does to the objects and the log.  Starts and returns are noted in the log, a store
request goes through `World.request` and is noted with its answer, the outside acts on its own, and everything else
a call does leaves both as they are.  The invariants of a run are proved by these four cases. -/
inductive Happens [Sha256] (P : Terms) (cfg cfg' : Calls) : Prop
  | noted (e : Event) (he : ∀ i r answer before after, e ≠ .did i r answer before after)
      (hworld : cfg'.world = cfg.world.record e)
  | asked (i : Nat) (call : Call) (r : Request) (k : Res (.store r) → Prog Op Res (Except Error Output))
      (c : Choice) (hthread : cfg.threads i = some ⟨call, .op (.store r) k⟩)
      (hadm : P.step cfg.world i call (.store r) c)
      (hcfg : cfg' = cfg.set (cfg.world.request i r c) i ⟨call, k (cfg.world.exec i (.store r) c).1⟩)
  | moved (e : Outside) (hadm : P.env cfg.world e) (hworld : cfg'.world = cfg.world.outside e)
  | silent (hobjs : cfg'.world.objects = cfg.world.objects) (hlog : cfg'.world.log = cfg.world.log)

lemma step_happens [Sha256] {P : Terms} {cfg cfg' : Calls} (hstep : machine.Step P cfg cfg') :
    Happens P cfg cfg' := by
  cases hstep with
  | start i call w' hfree hadm hrun => exact .noted _ (Event.started_ne_did i call) (Option.some.inj hrun).symm
  | step i call o k c r w' hthread hadm hrun =>
    obtain ⟨rfl, rfl⟩ := Prod.mk.inj (Option.some.inj hrun)
    cases o with
    | store r => exact .asked i call r k c hthread hadm rfl
    | _ => exact .silent rfl rfl
  | choose i call k b hthread => exact .silent rfl rfl
  | finish i call out w' hret hrun => exact .noted _ (Event.returned_ne_did i out) (finish_eq_some hrun)
  | env e w' hadm hrun => exact .moved e hadm (Option.some.inj hrun).symm

end Interleaving
end StowQ
