import StowQ.Concurrent.Conduct
import StowQ.Core.Space

/-!
# Footprints

Which requests each operation can issue, and on which terms.  A footprint lemma asks of a set
`A` of requests what the operation needs, so one lemma serves every discipline.  Local steps,
heads and listings are in every set considered; reads of bodies and writes are named.

Under `Fair` terms a store request costs at most one operation, and every error may leave but
a transport failure or an unknown outcome of a conditional write.  The same lemma then says
that the operation pays for each request before it issues it, and that it keeps such outcomes
to itself.
-/

namespace StowQ
namespace Core

open Data Concurrent Store Format

variable {shard : UInt16} {jobId : ByteArr 16} {r : Request} {rel : Keys.Key} {abs : Str}
  {floorNs generation : UInt64} {e : Error} {body : Bytes} {tail : Tail}

/-- A create with the body's own digest. -/
abbrev Op.put [Sha256] (key : Str) (body : Bytes) : Op :=
  .store (.putIfAbsent key body (Sha256.digest body))

/-- A store request is one operation; tokens and the caches of the handle are none. -/
def storeOps : Op → Nat
  | .store _ => 1
  | .freshToken | .cachedFloor _ | .cacheFloor .. | .isMemoizedTerminal .. | .memoizeTerminal .. => 0

/-- An error that leaves the caller with the outcome of a request. -/
def Sealing.escapes : Error → Bool
  | .store e => retryable e
  | _ => false

/-- The conditional writes. -/
def Sealing.conditional : Request → Bool
  | .putIfAbsent .. | .cas .. => true
  | .get _ | .head _ | .list .. | .delete _ => false

/-- The requests that are in every footprint. -/
structure Tame (A : Op → Prop) : Prop where
  freshToken : A .freshToken
  cachedFloor : ∀ h, A (.cachedFloor h)
  cacheFloor : ∀ h f, A (.cacheFloor h f)
  isMemoizedTerminal : ∀ h s j v, A (.isMemoizedTerminal h s j v)
  head : ∀ k, A (.store (.head k))
  list : ∀ p a n, A (.store (.list p a n))

namespace Footprint

open Budgeted (Emits Keeps Yields)
open Sealing (escapes conditional)

/-- Only store requests cost; what is settled may leave, and so may the errors of a read. -/
class Fair (T : Regime Op Res Error) : Prop where
  cost : ∀ o, T.cost o ≤ storeOps o
  settled : ∀ e, escapes e = false → T.raises e
  answered : ∀ r e, conditional r = false → T.valid (.store r) (.error e) → T.raises (.store e)

instance : Fair Regime.free := ⟨fun _ => Nat.zero_le _, fun _ _ => trivial, fun _ _ _ _ => trivial⟩

variable {T : Regime Op Res Error} [Fair T] {A : Op → Prop} {α β : Type} {k : Nat} {Q : β → Prop}

/-! ## Payments and requests -/

lemma spend {f : Unit → Routine β} (hf : Yields T A (k + 1) Q (f ())) : Yields T A k Q (Routine.spend >>= f) :=
  Yields.spend (Fair.settled _ rfl) hf

lemma overpaid {f : Unit → Routine β} (hf : Yields T A k Q (f ())) : Yields T A k Q (Routine.spend >>= f) :=
  spend (hf.mono (Nat.le_succ k))

omit [Fair T] in
/-- A payment if there is budget left: only then it is credit. -/
lemma tryPaid {f : Bool → Routine β} (htrue : Yields T A (k + 1) Q (f true)) (hfalse : Yields T A k Q (f false)) :
    Yields T A k Q (Routine.trySpend >>= f) := by
  intro b
  cases b with
  | zero => exact hfalse 0
  | succ b =>
    refine (htrue b).mono ?_
    omega

lemma ask {f : StoreResult r.Answer → Routine β} (h : A (.store r))
    (hf : ∀ a, T.valid (.store r) a → Yields T A k Q (f a)) : Yields T A (k + 1) Q (Routine.store r >>= f) :=
  (Yields.request (o := Op.store r) h hf).mono (Nat.add_le_add_left (Fair.cost _) k)

lemma paid {f : StoreResult r.Answer → Routine β} (h : A (.store r))
    (hf : ∀ a, T.valid (.store r) a → Yields T A k Q (f a)) :
    Yields T A k Q (Routine.spend >>= fun _ => Routine.store r >>= f) :=
  spend (ask h hf)

lemma last {Q : StoreResult r.Answer → Prop} (h : A (.store r)) (hQ : ∀ a, T.valid (.store r) a → Q a) :
    Yields T A 1 Q (Routine.store r) :=
  ask (k := 0) h fun a ha => Yields.pure (hQ a ha)

lemma store (h : A (.store r)) : Emits A (Routine.store r) := Emits.request h

lemma step {o : Op} {f : Res o → Routine β} (ho : storeOps o = 0) (h : A o) (hf : ∀ r, Yields T A k Q (f r)) :
    Yields T A k Q (Budgeted.request o >>= f) := by
  have hcost : T.cost o = 0 := Nat.le_zero.mp (ho ▸ Fair.cost o)
  have hrequest := Yields.request (k := k) (T := T) h fun r _ => hf r
  rwa [hcost] at hrequest

lemma token (ht : Tame A) : Keeps T A k Routine.freshToken := step rfl ht.freshToken fun _ => Keeps.pure _

/-! ## Errors -/

/-- A computation whose error is not the outcome of a request. -/
def Settled (r : Except Error α) : Prop := ∀ e, r = .error e → escapes e = false

lemma computed {r : Except Error α} (h : Settled r) : Keeps T A k (Budgeted.ofExcept r) :=
  Keeps.ofExcept fun e he => Fair.settled e (h e he)

lemma settled (h : escapes e = false) : Yields T A k Q (Budgeted.fail e : Routine β) :=
  Yields.fail (Fair.settled e h)

lemma refused {e : StoreError} (hr : conditional r = false) (h : T.valid (.store r) (.error e)) :
    Yields T A k Q (Budgeted.fail (.store e) : Routine β) :=
  Yields.fail (Fair.answered r e hr h)

lemma passedOn {e : StoreError} (htransport : e ≠ .transport) (hunknown : ∀ why, e ≠ .outcomeUnknown why) :
    Yields T A k Q (Budgeted.fail (.store e) : Routine β) := by
  cases e with
  | transport => exact absurd rfl htransport
  | outcomeUnknown why => exact absurd rfl (hunknown why)
  | _ => exact settled rfl

lemma ofStore {a : StoreResult r.Answer} (hr : conditional r = false) (h : T.valid (.store r) a) :
    Keeps T A k (Routine.ofStore a) := by
  cases a with
  | error e => exact refused hr h
  | ok a => exact Keeps.pure a

lemma ofRecord (r : Except RecordError α) : Keeps T A k (Routine.ofRecord r) := by
  cases r with
  | error e => exact settled rfl
  | ok a => exact Keeps.pure a

lemma retrying {a : Routine (Option α)} (h : Keeps T A 0 a) : Keeps T A 0 (Routine.retrying a) :=
  Keeps.retry (Fair.settled _ rfl) h _

lemma retryOrFail (e : StoreError) :
    Keeps T A k (if retryable e then pure none else Budgeted.fail (.store e) : Routine (Option α)) := by
  split
  · exact Keeps.pure _
  · next h => exact settled (Bool.not_eq_true _ ▸ h)

/-- An invariant of a walk, whose items are those of the answers. -/
lemma yields_pages {σ : Type} {stop : Bool} {pre : Str} {limit : Nat} {item : σ → Listing → Routine σ}
    {P : Listing → Prop} {I : σ → Prop} {s : σ} (hlist : ∀ a, A (.store (.list pre a limit)))
    (hpage : ∀ after page, T.valid (.store (.list pre after limit)) (.ok page) → ∀ x ∈ page.items, P x)
    (hitem : ∀ s x, P x → I s → Yields T A 0 I (item s x)) (hs : I s) :
    Yields T A 0 I (Routine.pages stop pre limit item s) := by
  refine Yields.loop (I := fun x : σ × Option Str => I x.1) (Fair.settled _ rfl) (fun x hx => ?_) hs
  obtain ⟨s, after⟩ := x
  refine paid (hlist after) fun a ha => ?_
  cases a with
  | error e => exact Yields.bind (P := fun _ => False) (refused rfl ha) fun _ h => h.elim
  | ok page =>
    refine Yields.bind (P := fun p => p = page) (Yields.pure rfl) fun p hp => ?_
    subst hp
    split
    · exact Yields.pure hx
    · refine (Yields.foldM (fun s x hmem => hitem s x (hpage after p ha x hmem)) hx).bind fun s hs => ?_
      cases p.nextAfter <;> exact Yields.pure hs

lemma pages {σ : Type} {stop : Bool} {pre : Str} {limit : Nat} {item : σ → Listing → Routine σ}
    (hlist : ∀ a, A (.store (.list pre a limit))) (hitem : ∀ s x, Keeps T A 0 (item s x)) (s : σ) :
    Keeps T A 0 (Routine.pages stop pre limit item s) :=
  yields_pages (P := fun _ => True) hlist (fun _ _ _ _ _ => trivial) (fun s x _ _ => hitem s x) trivial

/-! ## Resolution -/

lemma resolvePresence (hhead : A (.store (.head abs))) : Keeps T A 0 (Queue.resolvePresence abs) := by
  refine retrying (paid hhead fun r _ => ?_)
  split
  · exact Keeps.pure _
  · exact Keeps.pure _
  · exact retryOrFail _

lemma readRetrying (hget : A (.store (.get abs))) : Keeps T A 0 (Queue.readRetrying abs) := by
  refine retrying (paid hget fun r _ => ?_)
  split
  · exact Keeps.pure _
  · exact retryOrFail _

lemma putBytesResolving {digest : Digest} (hput : A (.store (.putIfAbsent abs body digest)))
    (hhead : A (.store (.head abs))) : Keeps T A 0 (Queue.putBytesResolving abs body digest) := by
  refine retrying (paid hput fun r _ => ?_)
  split
  · exact Keeps.pure _
  · exact Keeps.pure _
  · refine (resolvePresence hhead).bind fun present => ?_
    split <;> exact Keeps.pure _
  · next htransport hunknown _ => exact passedOn htransport hunknown

variable [Sha256] {q : Queue}

lemma resolveUnknown {intended : Record} (hhead : A (.store (.head abs))) (hget : A (.store (.get abs))) :
    Keeps T A 0 (q.resolveUnknown abs intended rel) := by
  refine retrying (paid hhead fun r _ => ?_)
  split
  · exact (readRetrying hget).bind fun _ => Keeps.pure _
  · exact Keeps.pure _
  · exact retryOrFail _

/-- A conditional write puts its record and reads the key back. -/
lemma putRecord {record : Record} (hput : A (.put (q.absolute rel) (q.encodeAt rel record)))
    (hhead : A (.store (.head (q.absolute rel)))) (hget : A (.store (.get (q.absolute rel)))) :
    Keeps T A 0 (q.putRecord rel record) := by
  refine retrying (paid hput fun r _ => ?_)
  split
  · exact Keeps.pure _
  · exact Keeps.pure _
  · exact Keeps.pure _
  · refine (resolveUnknown hhead hget).bind fun resolved => ?_
    cases resolved <;> exact Keeps.pure _
  · next htransport hunknown _ => exact passedOn htransport hunknown

/-! ## Floors and the watermark -/

lemma watermark (hget : A (.store (.get (q.absolute .watermark)))) : Keeps T A 0 q.watermark := by
  refine (readRetrying hget).attempt.bind fun r hr => ?_
  split
  · refine (ofRecord _).bind fun record => ?_
    split
    · exact Keeps.pure _
    · exact settled rfl
  · exact Keeps.pure _
  · exact Yields.fail hr

lemma beacon (ht : Tame A) (hput : ∀ n, A (.put (q.absolute (.beacon n)) [])) : Keeps T A 0 q.beacon := by
  refine (token ht).bind fun nonce => paid (hput nonce) fun r _ => ?_
  split
  · exact paid (ht.head _) fun r hr => (ofStore rfl hr).bind fun _ => Keeps.pure _
  · exact Keeps.pure _
  · exact retryOrFail _

omit [Sha256] in
lemma settled_gateFloor {current : Option WatermarkRecord} : Settled (q.gateFloor floorNs current) := by
  intro e he
  unfold Queue.gateFloor at he
  split at he
  · cases he
  · dsimp only at he
    split at he
    · exact Except.error.inj he ▸ rfl
    · split at he
      · cases he
      · exact Except.error.inj he ▸ rfl

lemma establishFloor (ht : Tame A) (hput : ∀ n, A (.put (q.absolute (.beacon n)) []))
    (hget : A (.store (.get (q.absolute .watermark)))) : Keeps T A 0 q.establishFloor := by
  refine step rfl (ht.cachedFloor _) fun cached => ?_
  split
  · exact Keeps.pure _
  · refine (retrying (beacon ht hput)).bind fun raw => ?_
    split
    · exact settled rfl
    · exact (watermark hget).bind fun _ => (computed settled_gateFloor).bind fun floorNs =>
        step rfl (ht.cacheFloor _ _) fun _ => Keeps.pure _

/-- What the write of the watermark returns is the answer to a conditional write. -/
lemma writeWatermark {current : Option WatermarkRecord} {next : WatermarkRecord}
    {P : StoreResult PutOutcome → Prop} (hhead : A (.store (.head (q.absolute .watermark))))
    (hput : A (.put (q.absolute .watermark) (q.encodeAt .watermark (.watermark next))))
    (hcas : ∀ v, A (.store (.cas (q.absolute .watermark) (q.encodeAt .watermark (.watermark next))
      (Sha256.digest (q.encodeAt .watermark (.watermark next))) v)))
    (hP : ∀ key body digest answer, T.valid (.store (.putIfAbsent key body digest)) answer → P answer)
    (hP' : ∀ key body digest v answer, T.valid (.store (.cas key body digest v)) answer → P answer) :
    Yields T A 0 P (q.writeWatermark current next) := by
  refine spend ?_
  cases current with
  | none => exact last hput (hP _ _ _)
  | some w =>
    exact spend (ask hhead fun r hr => (ofStore rfl hr).bind fun _ => last (hcas _) (hP' _ _ _ _))

/-- An advance writes records of its own bucket.  It does not retry after a transport failure. -/
lemma advanceWatermark (hget : A (.store (.get (q.absolute .watermark))))
    (hhead : A (.store (.head (q.absolute .watermark)))) (hput : ∀ bucket sequence,
      Math.bucketNumber floorNs q.format.delayedBucketWidthNs = some bucket →
      A (.put (q.absolute .watermark) (q.encodeAt .watermark (.watermark ⟨bucket, sequence⟩))))
    (hcas : ∀ bucket sequence v, Math.bucketNumber floorNs q.format.delayedBucketWidthNs = some bucket →
      A (.store (.cas (q.absolute .watermark)
        (q.encodeAt .watermark (.watermark ⟨bucket, sequence⟩))
        (Sha256.digest (q.encodeAt .watermark (.watermark ⟨bucket, sequence⟩))) v)))
    (hlost : ∀ r, T.valid (.store r) (.error .transport) → T.raises (.store .transport)) :
    Keeps T A 0 (q.advanceWatermark floorNs) := by
  unfold Queue.advanceWatermark
  split
  · exact settled rfl
  next bucket hbucket =>
  refine Keeps.loop (Fair.settled _ rfl) (fun _ => Keeps.bind ?_ fun done => ?_) _
  · refine (watermark hget).bind fun current => ?_
    split
    · exact Keeps.pure _
    next next hnext =>
    obtain ⟨sequence, rfl⟩ := Queue.nextWatermark_eq hnext
    refine (writeWatermark (P := fun answer => answer = .error .transport → T.raises (.store .transport)) hhead
      (hput bucket sequence hbucket) (hcas bucket sequence · hbucket)
      (fun key body digest answer h heq => hlost (.putIfAbsent key body digest) (heq ▸ h))
      fun key body digest v answer h heq => hlost (.cas key body digest v) (heq ▸ h)).bind fun answer hanswer => ?_
    split
    · exact Keeps.pure _
    · exact Keeps.pure _
    · refine (watermark hget).bind fun current => ?_
      cases current <;> exact Keeps.pure _
    · next e hunknown =>
        by_cases he : e = .transport
        · exact Yields.fail (he ▸ hanswer (he ▸ rfl))
        · exact passedOn he hunknown
  · cases done <;> exact Keeps.pure _

lemma writeTermidx {kind : Keys.TermKind} (ht : Tame A) (hbeacon : ∀ n, A (.put (q.absolute (.beacon n)) []))
    (hget : A (.store (.get (q.absolute .watermark))))
    (hput : ∀ b, A (.put (q.absolute (.termIndex b kind shard jobId)) [])) :
    Keeps T A 0 (q.writeTermidx kind shard jobId) := by
  refine tryPaid (Yields.mono ?_ (Nat.zero_le 1)) (Keeps.pure _)
  refine (establishFloor ht hbeacon hget).attempt.bind fun r _ => ?_
  split
  · exact Keeps.pure _
  · split
    · exact Keeps.pure _
    · exact tryPaid (ask (hput _) fun _ _ => Keeps.pure _) (Keeps.pure _)

/-! ## Enqueue -/

lemma delayIndexEntry {nb : UInt64} {m : Routine Unit}
    (hput : ∀ b, A (.put (q.absolute (.delayIndex b shard jobId)) []))
    (h : q.delayIndexEntry nb shard jobId = some m) : Keeps T A 0 m := by
  unfold Queue.delayIndexEntry at h
  obtain ⟨b, -, rfl⟩ := Option.map_eq_some_iff.mp h
  exact paid (hput b) fun _ _ => Keeps.pure _

/-- An enqueue puts the payload, the job record and an index entry of one job. -/
lemma enqueue {input : EnqueueInput} (ht : Tame A)
    (hpayload : ∀ j, A (.put (q.absolute (.payload j (Sha256.digest input.payload))) input.payload))
    (hjob : ∀ j, A (.put (q.absolute (.job (q.shardOf j) j))
      (q.encodeAt (.job (q.shardOf j) j) (.job (q.jobRecord input j)))))
    (hget : ∀ j, A (.store (.get (q.absolute (.job (q.shardOf j) j)))))
    (hdelay : ∀ b s j, A (.put (q.absolute (.delayIndex b s j)) [])) :
    Keeps T A 0 (q.enqueue input) := by
  unfold Queue.enqueue
  split
  · exact settled rfl
  refine Keeps.bind ?_ fun jobId => Keeps.bind ?_ fun _ => overpaid <|
    (putRecord (hjob jobId) (ht.head _) (hget jobId)).bind fun resolved => ?_
  · unfold Queue.pickJobId
    split
    · exact Keeps.pure _
    · exact token ht
  · unfold Queue.placePayload
    split
    · exact Keeps.pure _
    · exact putBytesResolving (hpayload jobId) (ht.head _)
  · cases resolved with
    | notCommitted => exact settled rfl
    | committed =>
      refine Keeps.bind ?_ fun _ => Keeps.pure _
      unfold Queue.indexDelay
      split
      · exact Keeps.pure _
      · split
        · next h => exact delayIndexEntry (fun b => hdelay b _ _) h
        · exact settled rfl
    | lost =>
      refine (readRetrying (hget jobId)).bind fun obj => ?_
      split <;> exact Keeps.pure _

/-! ## Tail hints and the tail -/

lemma writeTailHint {known : Option (Version × UInt64)}
    (hput : ∀ body, A (.put (q.absolute (.tail shard jobId)) body))
    (hcas : ∀ body v, A (.store (.cas (q.absolute (.tail shard jobId)) body (Sha256.digest body) v))) :
    Keeps T A 0 (q.writeTailHint shard jobId generation known) := by
  unfold Queue.writeTailHint
  split
  · cases known with
    | none => exact tryPaid (ask (hput _) fun _ _ => Keeps.pure _) (Keeps.pure _)
    | some k =>
      dsimp only
      split
      · exact Keeps.pure _
      · exact tryPaid (ask (hcas _ _) fun _ _ => Keeps.pure _) (Keeps.pure _)
  · exact Keeps.pure _

omit [Sha256] in
lemma readTailHint (hget : A (.store (.get (q.absolute (.tail shard jobId))))) :
    Keeps T A 0 (q.readTailHint shard jobId) := by
  refine paid hget fun r hr => ?_
  split
  · dsimp only
    split <;> exact Keeps.pure _
  · exact Keeps.pure _
  · exact refused rfl hr

lemma updateTailHint (hget : A (.store (.get (q.absolute (.tail shard jobId)))))
    (hput : ∀ body, A (.put (q.absolute (.tail shard jobId)) body))
    (hcas : ∀ body v, A (.store (.cas (q.absolute (.tail shard jobId)) body (Sha256.digest body) v))) :
    Keeps T A 0 (q.updateTailHint shard jobId generation) := by
  unfold Queue.updateTailHint
  split
  · refine (readTailHint hget).attempt.bind fun r _ => ?_
    split
    · exact writeTailHint hput hcas
    · exact Keeps.pure _
  · exact Keeps.pure _

lemma writeLeaseIndex {expiry : UInt64} (hput : ∀ b g, A (.put (q.absolute (.leaseIndex b shard jobId g)) [])) :
    Keeps T A 0 (q.writeLeaseIndex shard jobId expiry generation) := by
  unfold Queue.writeLeaseIndex
  split
  · exact Keeps.pure _
  · exact paid (hput _ _) fun _ _ => Keeps.pure _

lemma buryExhausted (ht : Tame A) (hbeacon : ∀ n, A (.put (q.absolute (.beacon n)) []))
    (hwatermark : A (.store (.get (q.absolute .watermark))))
    (hindex : ∀ b, A (.put (q.absolute (.termIndex b .dead shard jobId)) []))
    (hdead : A (.put (q.absolute (.dead shard jobId)) (q.encodeAt (.dead shard jobId)
      (.dead ⟨jobId, tail.generation, tail.attempt, 4⟩))))
    (hget : A (.store (.get (q.absolute (.dead shard jobId))))) :
    Keeps T A 0 (q.buryExhausted shard jobId tail) := by
  refine overpaid <| (putRecord hdead (ht.head _) hget).bind fun resolved => ?_
  cases resolved with
  | committed => exact writeTermidx ht hbeacon hwatermark hindex
  | lost => exact Keeps.pure _
  | notCommitted => exact Keeps.pure _

/-! ## Claim -/

section Claim

/-- What a scan creates when it probes a job. -/
inductive ProbePut (q : Queue) (shard : UInt16) (jobId : ByteArr 16) : Keys.Key → Bytes → Prop
  | claim (opts : ClaimOptions) (tail : Tail) (token : ByteArr 16) :
      ProbePut q shard jobId (.claim shard jobId (tail.generation + 1).toUInt32)
        (q.encodeAt (.claim shard jobId (tail.generation + 1).toUInt32)
          (.claim (q.takeoverRecord jobId opts tail token)))
  | lease (b : UInt64) (g : UInt32) : ProbePut q shard jobId (.leaseIndex b shard jobId g) []
  | tail (body : Bytes) : ProbePut q shard jobId (.tail shard jobId) body
  | dead (d : DeadRecord) : ProbePut q shard jobId (.dead shard jobId)
      (q.encodeAt (.dead shard jobId) (.dead d))
  | index (b : UInt64) : ProbePut q shard jobId (.termIndex b .dead shard jobId) []
  | beacon (n : ByteArr 16) : ProbePut q shard jobId (.beacon n) []

/-- What the reading part of a probe issues: any read. -/
structure Reading (A : Op → Prop) : Prop where
  tame : Tame A
  get : ∀ k, A (.store (.get k))

/-- Anything but a create. -/
def NoCreate (o : Op) : Prop := ∀ key body digest, o ≠ .store (.putIfAbsent key body digest)

omit [Sha256] in
lemma reading_noCreate : Reading NoCreate := by
  refine ⟨?_, fun _ => nofun⟩
  constructor <;> intros <;> nofun

/-- Requests that create no record of one kind, the record of a job at `key`. -/
def Avoids (q : Queue) (key : UInt16 → ByteArr 16 → Keys.Key) (o : Op) : Prop :=
  ∀ s j body digest, o ≠ .store (.putIfAbsent (q.absolute (key s j)) body digest)

omit [Sha256] in
lemma reading_avoids {key : UInt16 → ByteArr 16 → Keys.Key} : Reading (Avoids q key) := by
  refine ⟨?_, fun _ => nofun⟩
  constructor <;> intros <;> nofun

lemma avoids_put {key : UInt16 → ByteArr 16 → Keys.Key} {k : Keys.Key} {body : Bytes} (hk : ∀ s j, k ≠ key s j) :
    Avoids q key (.put (q.absolute k) body) := by
  intro s j body' digest heq
  injection heq with heq
  injection heq with heq
  exact hk s j (q.site.absolute_inj.mp heq)

/-- What the probe of a job issues: any read, creates, and overwrites of its tail hint. -/
structure Probing (A : Op → Prop) (q : Queue) (shard : UInt16) (jobId : ByteArr 16) : Prop
    extends Reading A where
  put : ∀ k body, ProbePut q shard jobId k body → A (.put (q.absolute k) body)
  cas : ∀ body v, A (.store (.cas (q.absolute (.tail shard jobId)) body (Sha256.digest body) v))

variable {opts : ClaimOptions} {shard : UInt16} {jobId : ByteArr 16}

section Read

variable (hs : Reading A)

include hs

omit [Sha256] in
lemma listTail : Keeps T A 0 (q.listTail shard jobId) :=
  pages (fun a => hs.tame.list _ a _) (fun _ _ => Keeps.pure _) _

lemma gatherTail : Keeps T A 0 (q.gatherTail shard jobId) := by
  have hlist : ∀ hint known, Keeps T A 0 (do pure (⟨← q.listTail shard jobId, hint, known⟩ : Gathered)) :=
    fun _ _ => (listTail hs).bind fun _ => Keeps.pure _
  unfold Queue.gatherTail
  split
  · refine (readTailHint (hs.get _)).bind fun found => ?_
    split
    · exact hlist _ _
    · split
      · refine paid (hs.get _) fun r hr => ?_
        split
        · split
          · exact Keeps.pure _
          · exact hlist _ _
        · exact hlist _ _
        · exact refused rfl hr
      · exact hlist _ _
  · exact hlist _ _

lemma tailOf {found : Option (UInt64 × Meta)} {known : Option ClaimRecord} :
    Keeps T A 0 (q.tailOf shard jobId found known) := by
  unfold Queue.tailOf
  dsimp only
  split
  · exact Keeps.pure _
  cases known with
  | some c => exact Keeps.pure _
  | none =>
    refine Keeps.bind ?_ fun _ => Keeps.pure _
    refine paid (hs.get _) fun r hr => (ofStore rfl hr).bind fun obj => (ofRecord _).bind fun record => ?_
    cases record <;> first | exact Keeps.pure _ | exact settled rfl

lemma rediscoverTail : Keeps T A 0 (q.rediscoverTail shard jobId) := (listTail hs).bind fun _ => tailOf hs

lemma backoffPassed : Keeps T A 0 (q.backoffPassed shard jobId opts tail) := by
  unfold Queue.backoffPassed
  split
  · exact Keeps.pure _
  refine paid (hs.get _) fun r hr => ?_
  split
  · refine (ofRecord _).bind fun record => ?_
    cases record <;> first | exact Keeps.pure _ | exact settled rfl
  · exact Keeps.pure _
  · exact refused rfl hr

lemma readJob : Keeps T A 0 (q.readJob shard jobId) := by
  refine paid (hs.get _) fun r hr => ?_
  split
  · refine (ofRecord _).bind fun record => ?_
    cases record <;> first | exact Keeps.pure _ | exact settled rfl
  · exact Keeps.pure _
  · exact refused rfl hr

end Read

lemma takeoverHandle {job : JobRecord} {token : ByteArr 16} {hint : Option (Version × UInt64)} (ht : Tame A)
    (hlease : ∀ b g, A (.put (q.absolute (.leaseIndex b shard jobId g)) []))
    (hput : ∀ body, A (.put (q.absolute (.tail shard jobId)) body))
    (hcas : ∀ body v, A (.store (.cas (q.absolute (.tail shard jobId)) body (Sha256.digest body) v))) :
    Keeps T A 0 (q.takeoverHandle shard jobId opts tail job token hint) := by
  refine paid (ht.head _) fun r hr => (ofStore rfl hr).bind fun info => ?_
  split
  · exact settled rfl
  · exact (writeTailHint hput hcas).bind fun _ => (writeLeaseIndex hlease).bind fun _ => Keeps.pure _

section Probe

variable (hs : Probing A q shard jobId)

include hs

lemma claimPass {hint : Option (Version × UInt64)}
    {again : Option (Tail → Routine (Option Claim))}
    (hagain : ∀ pass, again = some pass → ∀ t, Keeps T A 0 (pass t)) (tail : Tail) :
    Keeps T A 0 (q.claimPass shard jobId opts hint again tail) := by
  have hsecond : ∀ pass, again = some pass → Keeps T A 0 (do pass (← q.rediscoverTail shard jobId)) :=
    fun pass hpass => (rediscoverTail hs.toReading).bind (hagain pass hpass)
  refine (backoffPassed hs.toReading).bind fun passed => ?_
  split
  · exact Keeps.pure _
  split
  · exact Keeps.pure _
  refine (readJob hs.toReading).bind fun found => ?_
  split
  · exact Keeps.pure _
  split
  · exact Keeps.pure _
  split
  · cases again with
    | some pass => exact hsecond pass rfl
    | none =>
      exact (buryExhausted hs.tame (fun n => hs.put _ _ (.beacon n)) (hs.get _)
        (fun b => hs.put _ _ (.index b)) (hs.put _ _ (.dead _)) (hs.get _)).bind fun _ => Keeps.pure _
  split
  · exact settled rfl
  refine (token hs.tame).bind fun token => overpaid <|
    (putRecord (hs.put _ _ (.claim _ _ _)) (hs.tame.head _) (hs.get _)).bind fun resolved => ?_
  cases resolved with
  | committed =>
    exact (takeoverHandle hs.tame (fun b g => hs.put _ _ (.lease b g)) (fun _ => hs.put _ _ (.tail _))
      hs.cas).bind fun _ => Keeps.pure _
  | _ =>
    cases again with
    | some pass => exact hsecond pass rfl
    | none => exact Keeps.pure _

lemma claimFrom {gathered : Gathered} : Keeps T A 0 (q.claimFrom opts shard jobId gathered) := by
  refine (tailOf hs.toReading).bind fun tail => claimPass hs (fun pass hpass t => ?_) tail
  split at hpass
  · cases hpass
    exact claimPass hs (fun _ h => by cases h) t
  · cases hpass

omit hs [Sha256] in
/-- A request of a branch that runs beside others. -/
lemma probe (h : A (.store r)) : (Prog.request (Op.store r) : Prog Op Res _).Keeps T.cost T.valid A
    (T.valid (.store r)) (fun _ => 0) 1 :=
  ⟨h, Fair.cost _, fun _ hr => ⟨hr, Nat.zero_le _⟩⟩

/-- Three operations are paid before the two terminal probes and the tail branch start.  A probe also
memoizes a job that has a terminal record. -/
lemma tryClaim {version : Version} (hmemo : ∀ h s j v, A (.memoizeTerminal h s j v)) :
    Keeps T A 0 (q.tryClaim opts shard jobId version) := by
  refine spend (spend (overpaid ?_))
  refine (Yields.beside ((probe (hs.tame.head _)).join (probe (hs.tame.head _))) (gatherTail hs.toReading)).andThen
    (k := 0) fun out hout => ?_
  obtain ⟨⟨receipt, dead⟩, tail⟩ := out
  obtain ⟨⟨hreceipt, hdead⟩, htail⟩ := hout
  dsimp only
  split
  · exact (Yields.ofExcept htail).bind fun gathered _ => claimFrom hs
  · exact step rfl (hmemo _ _ _ _) fun _ => Keeps.pure _
  · exact step rfl (hmemo _ _ _ _) fun _ => Keeps.pure _
  · exact refused rfl hdead
  · exact refused rfl hreceipt

end Probe

omit [Sha256] [Fair T] in
/-- A batch that is not empty hides the error. -/
lemma ends_partialBatch {claims : List Claim} (he : T.raises e) :
    T.Ends (fun _ => True) (Queue.partialBatch e claims) := by
  unfold Queue.partialBatch
  split
  · exact he
  · trivial

omit [Sha256] [Fair T] in
/-- The error of a wave is the error of a probe. -/
lemma raises_waveError {results : List (Except Error (Option Claim))} {P : Option Claim → Prop}
    (h : ∀ r ∈ results, T.Ends P r) (he : Queue.waveError results = some e) : T.raises e := by
  have hprobe : ∀ f : Except Error (Option Claim) → Option Error, (∀ found, f (.ok found) = none) →
      (∀ e, f (.error e) = some e) → ∀ e ∈ results.filterMap f, T.raises e := by
    intro f hok herror e he
    obtain ⟨r, hr, he⟩ := List.mem_filterMap.mp he
    cases r with
    | ok found =>
      rw [hok] at he
      cases he
    | error e' =>
      rw [herror] at he
      cases he
      exact h _ hr
  unfold Queue.waveError at he
  dsimp only at he
  split at he
  · next e' hfind =>
      cases he
      exact hprobe _ (fun _ => rfl) (fun _ => rfl) _ (List.mem_of_find?_eq_some hfind)
  · exact hprobe _ (fun _ => rfl) (fun _ => rfl) _ (List.mem_of_head? he)

/-- What the waves answer. -/
def EndsWave (T : Regime Op Res Error) : Queue.Waved → Prop
  | .answer result => T.Ends (fun _ => True) result
  | .ranOut _ => True

variable (hs : ∀ shard jobId, Probing A q shard jobId) (hmemo : ∀ h s j v, A (.memoizeTerminal h s j v))

include hs hmemo

lemma probeWaves {max : Nat} {pending : List Queue.Candidate} {claims : List Claim} :
    Yields T A 0 (EndsWave T) (q.probeWaves opts max pending claims) := by
  refine Yields.iterate (I := fun _ => True) (Fair.settled _ rfl) (fun s _ => ?_) _ trivial
  obtain ⟨pending, claims⟩ := s
  dsimp only
  split
  · exact Yields.pure trivial
  refine (Yields.joinSplit (P := fun _ => True) fun m hm => ?_).bind fun results hresults => ?_
  · obtain ⟨c, -, rfl⟩ := List.mem_map.mp hm
    exact tryClaim (hs _ _) hmemo
  · split
    · exact Yields.pure trivial
    split
    · next e he => exact Yields.pure (ends_partialBatch (raises_waveError hresults he))
    refine Keeps.remaining.bind fun left => ?_
    split <;> exact Yields.pure trivial

lemma claimMany {max : Nat} : Keeps T A 0 (q.claimMany opts max) := by
  have ht : Tame A := (hs 0 (List.Vector.replicate 16 0)).tame
  have hbatch : ∀ {e claims}, T.raises e → Keeps T A 0 (Budgeted.ofExcept (Queue.partialBatch e claims)) :=
    fun he => Yields.ofExcept (ends_partialBatch he)
  refine Keeps.loop (Fair.settled _ rfl) (fun scan => (probeWaves hs hmemo).bind fun waved hwaved => ?_) _
  split
  · exact (Yields.ofExcept hwaved).bind fun _ _ => Keeps.pure _
  split
  · exact Keeps.pure _
  refine tryPaid (ask (ht.list _ _ _) fun r hr => ?_)
    ((hbatch (Fair.settled _ rfl)).bind fun _ => Keeps.pure _)
  split
  · exact (hbatch (Fair.answered _ _ rfl hr)).bind fun _ => Keeps.pure _
  split
  · exact Keeps.pure _
  refine (Keeps.foldM _ (fun pending item _ => ?_) _).bind fun pending => ?_
  · unfold Queue.addCandidate
    split
    · refine step rfl (ht.isMemoizedTerminal _ _ _ _) fun known => ?_
      split <;> exact Keeps.pure _
    · exact Keeps.pure _
  · split <;> exact Keeps.pure _

lemma claim : Keeps T A 0 (q.claim opts) := by
  refine (claimMany hs hmemo).bind fun claims => ?_
  split <;> exact Keeps.pure _

end Claim

/-! ## Operations on a claim -/

omit [Sha256] in
lemma provenAbsent (ht : Tame A) : Keeps T A 0 (q.provenAbsent rel) := by
  refine paid (ht.head _) fun r hr => ?_
  split
  · exact Keeps.pure _
  · exact Keeps.pure _
  · exact refused rfl hr

lemma renew {claim : Claim} (ht : Tame A)
    (hclaim : A (.put (q.absolute (.claim claim.shard claim.jobId (claim.generation + 1).toUInt32))
      (q.encodeAt (.claim claim.shard claim.jobId (claim.generation + 1).toUInt32)
        (.claim (q.continuationRecord claim)))))
    (hget : ∀ k, A (.store (.get k)))
    (hput : ∀ body, A (.put (q.absolute (.tail claim.shard claim.jobId)) body))
    (hcas : ∀ body v, A (.store (.cas (q.absolute (.tail claim.shard claim.jobId)) body
      (Sha256.digest body) v))) : Keeps T A 0 (q.renew claim) := by
  unfold Queue.renew
  split
  · exact settled rfl
  refine (provenAbsent ht).bind fun absent => ?_
  split
  · exact Keeps.pure _
  refine (provenAbsent ht).bind fun absent => ?_
  split
  · exact Keeps.pure _
  refine overpaid <| (putRecord hclaim (ht.head _) (hget _)).bind fun resolved => ?_
  cases resolved with
  | committed =>
    refine Keeps.bind ?_ fun _ => Keeps.pure _
    exact paid (ht.head _) fun r hr => (ofStore rfl hr).bind fun _ =>
      (updateTailHint (hget _) hput hcas).bind fun _ => Keeps.pure _
  | lost => exact Keeps.pure _
  | notCommitted => exact Keeps.pure _

lemma settled_classifyOutput {out : CommittedOutput} : Settled (classifyOutput body out) := by
  intro e he
  unfold classifyOutput at he
  split at he
  · cases he
  · exact Except.error.inj he ▸ rfl

lemma commitOutput {claim : Claim} {name : Str} (hput : A (.put (q.outputsPrefix claim.jobId ++ name) body))
    (hget : A (.store (.get (q.outputsPrefix claim.jobId ++ name)))) :
    Keeps T A 0 (q.commitOutput claim name body) := by
  unfold Queue.commitOutput
  split
  · exact settled rfl
  refine retrying (paid hput fun r _ => ?_)
  split
  · exact Keeps.pure _
  · exact (readRetrying hget).bind fun _ => (computed settled_classifyOutput).bind fun _ => Keeps.pure _
  · exact Keeps.pure _
  · refine (readRetrying hget).attempt.bind fun r hr => ?_
    split
    · exact (computed settled_classifyOutput).bind fun _ => Keeps.pure _
    · exact Keeps.pure _
    · exact Yields.fail hr
  · next htransport hunknown _ => exact passedOn htransport hunknown

lemma verifyOutput {claim : Claim} {out : CommittedOutput} (hget : A (.store (.get out.key))) :
    Keeps T A 0 (q.verifyOutput claim out) := by
  unfold Queue.verifyOutput
  split
  · exact settled rfl
  refine (readRetrying hget).attempt.bind fun r hr => ?_
  split
  · split
    · exact Keeps.pure _
    · exact settled rfl
  · exact settled rfl
  · exact Yields.fail hr

lemma payloadBytes {claim : Claim}
    (hget : ∀ k d n, claim.payload = .detached k d n → A (.store (.get k))) :
    claim.payloadBytes.Keeps T.cost T.valid A (T.Ends fun _ => True) (fun _ => 0) 1 := by
  unfold Claim.payloadBytes
  split
  · exact ⟨trivial, Nat.zero_le 1⟩
  · next k d n hp =>
      refine Prog.Keeps.map (probe (hget k d n hp)) (fun r hr => ?_) fun _ => Nat.le_refl _
      change StoreResult Object at r
      cases r with
      | error err => exact Fair.answered (.get k) err rfl hr
      | ok obj =>
        dsimp only
        split
        · exact Fair.settled _ rfl
        · split
          · exact Fair.settled _ rfl
          · trivial

omit [Sha256] in
lemma settled_receiptEvidence {claim : Claim} {digest : Digest} {outputs : List CommittedOutput} {found : Record} :
    Settled (Queue.receiptEvidence claim digest outputs found) := by
  intro e he
  unfold Queue.receiptEvidence at he
  split at he
  · split at he
    · cases he
    · exact Except.error.inj he ▸ rfl
  · exact Except.error.inj he ▸ rfl

lemma ack {claim : Claim} {outputs : List CommittedOutput} (ht : Tame A)
    (hget : ∀ k, A (.store (.get k)))
    (hreceipt : ∀ digest, A (.put (q.absolute (.receipt claim.shard claim.jobId))
      (q.encodeAt (.receipt claim.shard claim.jobId)
        (.receipt (q.receiptRecord claim digest outputs)))))
    (hbeacon : ∀ n, A (.put (q.absolute (.beacon n)) []))
    (hindex : ∀ b, A (.put (q.absolute (.termIndex b .receipt claim.shard claim.jobId)) [])) :
    Keeps T A 0 (q.ack claim outputs) := by
  have hlost : ∀ rel digest, Keeps T A 0 (do
      let obj ← Queue.readRetrying (q.absolute rel)
      let found ← Routine.ofRecord (q.decodeAt rel obj.body)
      Budgeted.ofExcept (Queue.receiptEvidence claim digest outputs found)) := fun rel digest =>
    (readRetrying (hget _)).bind fun _ => (ofRecord _).bind fun _ => computed settled_receiptEvidence
  refine spend (spend ?_)
  refine (Yields.lift ((probe (ht.head _)).join (payloadBytes fun k _ _ _ => hget k))).andThen (k := 0) fun out hout => ?_
  dsimp only
  split
  · exact Keeps.pure _
  · refine (Yields.ofExcept hout.2).bind fun payload _ => Keeps.bind ?_ fun _ => overpaid <|
      (putRecord (hreceipt _) (ht.head _) (hget _)).bind fun resolved => ?_
    · exact Keeps.foldM _ (fun _ out _ => verifyOutput (hget _)) _
    · cases resolved with
      | committed => exact (writeTermidx ht hbeacon (hget _) hindex).bind fun _ => Keeps.pure _
      | lost => exact hlost _ _
      | notCommitted => exact hlost _ _
  · next hdead => exact refused rfl (hdead ▸ hout.1)

lemma settled_retryFloor {claim : Claim} : Settled (q.retryFloor claim floorNs) := by
  intro e he
  obtain ⟨notBefore, hok⟩ | herror := Queue.retryFloor_cases he
  · cases hok
  · exact Except.error.inj herror ▸ rfl

lemma nack {claim : Claim} {reason : UInt64} (ht : Tame A)
    (hfail : ∀ notBefore, q.retryFloor claim floorNs = .ok notBefore →
      A (.put (q.absolute (.fail claim.shard claim.jobId claim.generation.toUInt32))
        (q.encodeAt (.fail claim.shard claim.jobId claim.generation.toUInt32)
          (.fail ⟨claim.jobId, claim.generation, reason, claim.attempt, notBefore⟩))))
    (hget : A (.store (.get (q.absolute (.fail claim.shard claim.jobId
      claim.generation.toUInt32)))))
    (hdelay : ∀ b, A (.put (q.absolute (.delayIndex b claim.shard claim.jobId)) [])) :
    Keeps T A 0 (q.nack claim reason floorNs) := by
  have hfloor : Yields T A 0 (fun notBefore => q.retryFloor claim floorNs = .ok notBefore)
      (Budgeted.ofExcept (q.retryFloor claim floorNs)) := by
    refine Yields.ofExcept ?_
    cases hr : q.retryFloor claim floorNs with
    | ok notBefore => exact rfl
    | error e => exact Fair.settled e (settled_retryFloor e hr)
  refine hfloor.bind fun notBefore hnotBefore => overpaid <|
    (putRecord (hfail _ hnotBefore) (ht.head _) hget).bind fun resolved => ?_
  cases resolved with
  | notCommitted => exact settled rfl
  | _ =>
    dsimp only
    split
    · next h => exact delayIndexEntry hdelay h
    · exact Keeps.pure _

omit [Sha256] in
lemma settled_deadEvidence {claim : Claim} {found : Record} : Settled (Queue.deadEvidence claim found) := by
  intro e he
  unfold Queue.deadEvidence at he
  split at he
  · split at he
    · cases he
    · exact Except.error.inj he ▸ rfl
  · exact Except.error.inj he ▸ rfl

lemma bury {claim : Claim} {reason : UInt64} (ht : Tame A)
    (hdead : A (.put (q.absolute (.dead claim.shard claim.jobId))
      (q.encodeAt (.dead claim.shard claim.jobId)
        (.dead ⟨claim.jobId, claim.generation, claim.attempt, reason⟩))))
    (hget : A (.store (.get (q.absolute (.dead claim.shard claim.jobId)))))
    (hwatermark : A (.store (.get (q.absolute .watermark))))
    (hbeacon : ∀ n, A (.put (q.absolute (.beacon n)) []))
    (hindex : ∀ b, A (.put (q.absolute (.termIndex b .dead claim.shard claim.jobId)) [])) :
    Keeps T A 0 (q.bury claim reason) := by
  refine (provenAbsent ht).bind fun absent => ?_
  split
  · exact Keeps.pure _
  refine overpaid <| (putRecord hdead (ht.head _) hget).bind fun resolved => ?_
  cases resolved with
  | committed => exact (writeTermidx ht hbeacon hwatermark hindex).bind fun _ => Keeps.pure _
  | lost => exact (readRetrying hget).bind fun _ => (ofRecord _).bind fun _ => computed settled_deadEvidence
  | notCommitted => exact settled rfl

/-! ## Collection -/

section Collection

variable (ht : Tame A) (hdelete : ∀ k, A (.store (.delete k)))

include ht hdelete

omit [Sha256] ht in
lemma discard (key : Str) : Keeps T A 0 (Queue.discard key) := paid (hdelete key) fun _ _ => Keeps.pure _

omit [Sha256] in
lemma discardAll (pre : Str) : Keeps T A 0 (Queue.discardAll pre) :=
  pages (fun a => ht.list _ a _) (fun _ item => discard hdelete item.key) _

omit [Sha256] in
lemma discardEntries (pre : Str) (shard : UInt16) (jobId : ByteArr 16) :
    Keeps T A 0 (Queue.discardEntries pre shard jobId) := by
  apply pages (fun a => ht.list _ a _)
  intro _ item
  split
  · exact discard hdelete item.key
  · exact Keeps.pure _

omit [Sha256] in
lemma collectOrphan {cutoff : UInt64} {item : Listing} : Keeps T A 0 (q.collectOrphan cutoff item rel) := by
  unfold Queue.collectOrphan
  split
  · exact Keeps.pure _
  refine (provenAbsent ht).bind fun absent => ?_
  split
  · exact Keeps.pure _
  refine paid (ht.head _) fun r hr => ?_
  split
  · split
    · exact (discard hdelete item.key).bind fun _ => Keeps.pure _
    · exact Keeps.pure _
  · exact Keeps.pure _
  · exact refused rfl hr

omit [Sha256] in
lemma deleteTerminalGraph {index : Str} : Keeps T A 0 (q.deleteTerminalGraph shard jobId rel index) :=
  (discardEntries ht hdelete _ shard jobId).bind fun _ =>
    (discardEntries ht hdelete _ shard jobId).bind fun _ => (discard hdelete _).bind fun _ =>
    (discard hdelete _).bind fun _ => (discardAll ht hdelete _).bind fun _ =>
    (discardAll ht hdelete _).bind fun _ => (discardAll ht hdelete _).bind fun _ =>
    (discard hdelete _).bind fun _ => (discard hdelete _).bind fun _ => Keeps.pure _

omit [Sha256] in
lemma gcTerminal {cutoff : UInt64} {report : GcReport} {item : Listing} :
    Keeps T A 0 (q.gcTerminal cutoff report item) := by
  unfold Queue.gcTerminal
  dsimp only
  split
  · exact Keeps.pure _
  refine paid (ht.head _) fun r hr => ?_
  split
  · exact (discard hdelete item.key).bind fun _ => Keeps.pure _
  · exact refused rfl hr
  · split
    · exact Keeps.pure _
    · refine (deleteTerminalGraph ht hdelete).bind fun deleted => ?_
      split <;> exact Keeps.pure _

lemma gc {nowNs retentionNs orphanHorizonNs : UInt64} : Keeps T A 0 (q.gc nowNs retentionNs orphanHorizonNs) := by
  have hlist : ∀ pre a, A (.store (.list pre a 64)) := fun pre a => ht.list pre a 64
  have horphan : ∀ cutoff item rel (counted kept : GcReport), Keeps T A 0 (do
      if ← q.collectOrphan cutoff item rel then pure counted else pure kept) := by
    intro cutoff item rel counted kept
    refine (collectOrphan ht hdelete).bind fun collected => ?_
    split <;> exact Keeps.pure _
  refine (pages (hlist _) (fun report item => ?_) _).bind fun report =>
    (pages (hlist _) (fun report item => ?_) _).bind fun report =>
    (pages (hlist _) (fun report item => ?_) _).bind fun report =>
    pages (hlist _) (fun _ _ => gcTerminal ht hdelete) _
  · unfold Queue.gcPayload
    split
    · exact horphan _ _ _ _ _
    · exact Keeps.pure _
  · unfold Queue.gcClaim
    split
    · exact horphan _ _ _ _ _
    · exact Keeps.pure _
  · unfold Queue.gcBeacon
    split
    · exact (discard hdelete item.key).bind fun _ => Keeps.pure _
    · exact Keeps.pure _

end Collection

end Footprint
end Core
end StowQ
