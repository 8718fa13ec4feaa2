import StowQ.Calm
import StowQ.Custody.Results
import StowQ.Delivery.Handles

/-!
# Repeating an acknowledgment, a burial or a negative acknowledgment

A call may be cut short at any request, before or after the one that counts, and its caller then repeats it.
Whatever earlier calls have left behind, a call that is left alone and can pay for its operations succeeds, and
once a call has succeeded, further ones find the evidence in the store and write nothing that is authoritative.

The first part evaluates each operation over a store that others may change elsewhere (`ends_ack`, `ends_bury`,
`ends_nack`); the second part reads off every run from a fresh store that what the operation needs is there.
`calls_converge` puts the two together.
-/

namespace StowQ
namespace Delivery

open Data StowQ.Core Store Format Concurrent Interleaving Calm

section Calls

variable [Sha256] {q : Queue} {c : Claim} {outputs : List CommittedOutput} {objs : Objects}
  {K : Set Str} {G : Rely Objects} {b : Nat} {bytes : Bytes}

/-! ## Acknowledging -/

/-- The keys an acknowledgment goes by. -/
def ackKeys (q : Queue) (c : Claim) (outputs : List CommittedOutput) : Set Str :=
  {key | key = q.absolute (.receipt c.shard c.jobId) ∨ key = q.absolute (.dead c.shard c.jobId) ∨
    (∃ digest length, c.payload = .detached key digest length) ∨ ∃ out ∈ outputs, out.key = key}

/-- The outputs are the job's own and hold their committed digests. -/
def OutputsCommitted (q : Queue) (c : Claim) (outputs : List CommittedOutput) (objs : Objects) : Prop :=
  ∀ out ∈ outputs, q.outputsPrefix c.jobId <+: out.key ∧
    ∃ stored, objs.get? out.key = some stored ∧ Sha256.digest stored.body = out.digest

/-- A receipt carries the evidence of the claim. -/
def Receipts (S : Site) (c : Claim) (outputs : List CommittedOutput) (digest : Digest) (body : Bytes) :
    Prop :=
  ∃ r, S.decodeAt (.receipt c.shard c.jobId) body = .ok (.receipt r) ∧ r.jobId = c.jobId ∧
    r.generation = c.generation ∧ r.attempt = c.attempt ∧ r.payloadDigest = digest ∧
    r.outputDigests = outputs.map CommittedOutput.digest

lemma safe_payload (hpayload : PayloadAt objs c bytes)
    (hK : ∀ key digest length, c.payload = .detached key digest length → key ∈ K) :
    Safe service (agree K) nowhere.rel c.payloadBytes
      (fun r objs' => r = .ok bytes ∧ (agree K).rel objs objs') objs := by
  unfold Claim.payloadBytes
  unfold PayloadAt at hpayload
  cases hc : c.payload with
  | inline b =>
    rw [hc] at hpayload
    subst hpayload
    exact fun objs' hobjs' _ => ⟨rfl, hobjs'⟩
  | detached key digest length =>
    rw [hc] at hpayload
    obtain ⟨⟨stored, hget, rfl⟩, hdigest, hlength⟩ := hpayload
    refine Safe.map ((safe_get (hK key digest length hc)).mono fun answer objs' _ ⟨hanswer, hobjs'⟩ => ?_)
    refine ⟨?_, hobjs'⟩
    have hok : answer = .ok ⟨stored.info, stored.body⟩ := by
      rw [hanswer, Store.get, hget]
      rfl
    subst hok
    simp [hlength, hdigest]

lemma ends_verifyOutputs (outs : List CommittedOutput) (houts : OutputsCommitted q c outs objs)
    (hK : ∀ out ∈ outs, out.key ∈ K) :
    Ends (calm K G) (Budgeted.foldM (fun _ out => q.verifyOutput c out) () outs) (b + outs.length)
      (fun r left objs' => r = .ok () ∧ left = b ∧ (agree K).rel objs objs') objs := by
  induction outs generalizing objs with
  | nil => exact Ends.pure fun _ hobjs' _ => ⟨rfl, rfl, hobjs'⟩
  | cons out outs ih =>
    obtain ⟨hpre, stored, hget, hdigest⟩ := houts out List.mem_cons_self
    have hverify : Ends (calm K G) (q.verifyOutput c out) (b + outs.length + 1) (fun r left objs' =>
        r = .ok () ∧ left = b + outs.length ∧ (agree K).rel objs objs') objs := by
      unfold Queue.verifyOutput
      have hown : (q.outputsPrefix c.jobId).isPrefixOf out.key = true := by simpa using hpre
      rw [hown]
      refine (ends_readBack (b := b + outs.length) (hK out List.mem_cons_self) hget).attempt.bind
        (fun r left objs' _ ⟨r', hr, hok, hleft, hobjs'⟩ => ?_)
        fun e _ _ _ ⟨r', hr, _⟩ => by cases hr
      cases hr
      subst hok hleft
      dsimp only
      rw [if_pos hdigest]
      exact Ends.pure fun _ hobjs'' _ => ⟨rfl, rfl, (agree K).trans hobjs' hobjs''⟩
    refine hverify.bind (fun _ left objs' _ ⟨_, hleft, hobjs'⟩ => ?_) fun e _ _ _ ⟨he, _⟩ => by cases he
    subst hleft
    have houts' : OutputsCommitted q c outs objs' := by
      intro out' hmem
      obtain ⟨hpre', stored', hget', hdigest'⟩ := houts out' (List.mem_cons_of_mem _ hmem)
      exact ⟨hpre', stored', (hobjs' _ (hK out' (List.mem_cons_of_mem _ hmem))).trans hget', hdigest'⟩
    exact (ih houts' fun out' hmem => hK out' (List.mem_cons_of_mem _ hmem)).mono
      fun _ _ _ _ _ ⟨hr, hleft, hobjs''⟩ => ⟨hr, hleft, (agree K).trans hobjs' hobjs''⟩

/-- What an acknowledgment that is left alone returns: it writes the receipt, or finds it. -/
lemma ends_ack (hdead : objs.get? (q.absolute (.dead c.shard c.jobId)) = none)
    (hpayload : PayloadAt objs c bytes) (houts : OutputsCommitted q c outputs objs)
    (hG : objs.get? (q.absolute (.receipt c.shard c.jobId)) = none → ∀ a b, G.rel a b)
    (hmatch : ∀ stored, objs.get? (q.absolute (.receipt c.shard c.jobId)) = some stored →
      Receipts q.site c outputs (Sha256.digest bytes) stored.body) :
    Ends (calm (ackKeys q c outputs) G) (q.ack c outputs) (b + outputs.length + 5) (fun r _ _ =>
      r = .ok (if (objs.get? (q.absolute (.receipt c.shard c.jobId))).isNone then .acked
        else .alreadyAcked)) objs := by
  have hreceiptKey : q.absolute (.receipt c.shard c.jobId) ∈ ackKeys q c outputs := .inl rfl
  have hdeadKey : q.absolute (.dead c.shard c.jobId) ∈ ackKeys q c outputs := .inr (.inl rfl)
  have hpayloadKey : ∀ key digest length, c.payload = .detached key digest length →
      key ∈ ackKeys q c outputs := fun key digest length h => .inr (.inr (.inl ⟨digest, length, h⟩))
  have houtKeys : ∀ out ∈ outputs, out.key ∈ ackKeys q c outputs :=
    fun out h => .inr (.inr (.inr ⟨out, h, rfl⟩))
  unfold Queue.ack
  refine ends_spend (b := b + outputs.length + 4) (ends_spend (b := b + outputs.length + 3) ?_)
  -- the look at the dead record and the payload read run side by side
  refine Ends.lift (D := calm (ackKeys q c outputs) G)
    (safe_join (safe_head hdeadKey) (safe_payload hpayload hpayloadKey)) fun out objs1 _ hout => ?_
  obtain ⟨dead, payload⟩ := out
  obtain ⟨⟨hd, -⟩, hp, hobjs1⟩ := hout
  obtain rfl : dead = .error .notFound := by
    rw [show dead = head objs (q.absolute (.dead c.shard c.jobId)) from hd, head, hdead]
    rfl
  obtain rfl : payload = .ok bytes := hp
  have houts1 : OutputsCommitted q c outputs objs1 := fun out hmem => by
    obtain ⟨hpre, stored, hget, hdigest⟩ := houts out hmem
    exact ⟨hpre, stored, (hobjs1 _ (houtKeys out hmem)).trans hget, hdigest⟩
  have hverified := ends_verifyOutputs (G := G) (b := b + 3) outputs houts1 houtKeys
  have hbudget : b + outputs.length + 3 = b + 3 + outputs.length := by omega
  rw [hbudget]
  refine Ends.ofOk (hverified.bind (fun _ left objs2 _ hafter => ?_) fun e _ _ _ he => by cases he.1)
  obtain ⟨-, rfl, hobjs2⟩ := hafter
  have hreceipt2 : objs2.get? (q.absolute (.receipt c.shard c.jobId)) =
      objs.get? (q.absolute (.receipt c.shard c.jobId)) :=
    (hobjs2 _ hreceiptKey).trans (hobjs1 _ hreceiptKey)
  refine ends_spend (b := b + 2) ?_
  cases hreceipt : objs.get? (q.absolute (.receipt c.shard c.jobId)) with
  | none =>
    have hany := hG hreceipt
    refine ends_putRecord (b := b + 1) hreceiptKey (hreceipt2.trans hreceipt) fun stamp =>
      ⟨fun _ _ => hany _ _, ?_⟩
    refine (ends_any hany succeeds_writeTermidx).bind (fun _ _ _ _ _ => ?_) fun e _ _ _ he => ?_
    · exact Ends.pure fun _ _ _ => rfl
    · obtain ⟨_, he⟩ := he
      cases he
  -- a receipt stands there: it is read back and compared field by field
  | some stored =>
    obtain ⟨r, hdec, hjob, hgen, hattempt, hdigest, houtputs⟩ := hmatch stored hreceipt
    refine ends_putRecord_present (b := b + 1) hreceiptKey (hreceipt2.trans hreceipt) ?_
    refine ends_readRetrying (b := b) hreceiptKey (hreceipt2.trans hreceipt) ?_
    have hrecord : Routine.ofRecord (q.decodeAt (.receipt c.shard c.jobId) stored.body) =
        (pure (.receipt r) : Routine Record) := by
      rw [show q.decodeAt (.receipt c.shard c.jobId) stored.body = _ from hdec]
      rfl
    have hevidence : Queue.receiptEvidence c (Sha256.digest bytes) outputs (.receipt r) =
        .ok .alreadyAcked := if_pos ⟨hjob, hgen, hattempt, hdigest, houtputs⟩
    dsimp only
    rw [hrecord]
    refine Ends.ofOk (a := Record.receipt r) ?_
    rw [hevidence]
    exact Ends.ofExcept fun _ _ _ => rfl

/-! ## Burying -/

/-- The keys a burial goes by. -/
def buryKeys (q : Queue) (c : Claim) : Set Str :=
  {q.absolute (.receipt c.shard c.jobId), q.absolute (.dead c.shard c.jobId)}

/-- A dead record carries the evidence of the claim. -/
def Buries (S : Site) (c : Claim) (body : Bytes) : Prop :=
  ∃ d, S.decodeAt (.dead c.shard c.jobId) body = .ok (.dead d) ∧ d.generation = c.generation ∧ d.attempt = c.attempt

lemma ends_bury (reason : UInt64)
    (hreceipt : objs.get? (q.absolute (.receipt c.shard c.jobId)) = none)
    (hG : objs.get? (q.absolute (.dead c.shard c.jobId)) = none → ∀ a b, G.rel a b)
    (hmatch : ∀ stored, objs.get? (q.absolute (.dead c.shard c.jobId)) = some stored →
      Buries q.site c stored.body) :
    Ends (calm (buryKeys q c) G) (q.bury c reason) (b + 4) (fun r _ _ => r = .ok .buried) objs := by
  have hdeadKey : q.absolute (.dead c.shard c.jobId) ∈ buryKeys q c := .inr rfl
  unfold Queue.bury
  refine ends_provenAbsent (b := b + 3) (.inl rfl) ?_
  rw [hreceipt]
  refine ends_spend (b := b + 2) ?_
  cases hdead : objs.get? (q.absolute (.dead c.shard c.jobId)) with
  | none =>
    have hany := hG hdead
    refine ends_putRecord (b := b + 1) hdeadKey hdead fun stamp => ⟨fun _ _ => hany _ _, ?_⟩
    refine (ends_any hany succeeds_writeTermidx).bind (fun _ _ _ _ _ => ?_)
      fun e _ _ _ ⟨_, he⟩ => by cases he
    exact Ends.pure fun _ _ _ => rfl
  | some stored =>
    obtain ⟨d, hdec, hgen, hattempt⟩ := hmatch stored hdead
    refine ends_putRecord_present (b := b + 1) hdeadKey hdead ?_
    refine ends_readRetrying (b := b) hdeadKey hdead ?_
    have hrecord : Routine.ofRecord (q.decodeAt (.dead c.shard c.jobId) stored.body) =
        (pure (.dead d) : Routine Record) := by
      rw [show q.decodeAt (.dead c.shard c.jobId) stored.body = _ from hdec]
      rfl
    have hevidence : Queue.deadEvidence c (.dead d) = .ok .buried := if_pos ⟨hgen, hattempt⟩
    dsimp only
    rw [hrecord]
    refine Ends.ofOk (a := Record.dead d) ?_
    rw [hevidence]
    exact Ends.ofExcept fun _ _ _ => rfl

/-! ## Giving up -/

/-- The key of the fail record. -/
def failKey (q : Queue) (c : Claim) : Str :=
  q.absolute (.fail c.shard c.jobId c.generation.toUInt32)

lemma ends_delayIndexEntry (notBefore : UInt64) (hdelay : ∀ objs bucket stored,
      G.rel objs (objs.insert (q.absolute (.delayIndex bucket c.shard c.jobId)) stored))
    (objs : Objects) : Ends (calm K G)
      (match q.delayIndexEntry notBefore c.shard c.jobId with
        | some put => put
        | none => pure ()) (b + 1) (fun r _ _ => r = .ok ()) objs := by
  unfold Queue.delayIndexEntry
  cases Math.bucketNumber notBefore q.format.delayedBucketWidthNs with
  | none => exact Ends.pure fun _ _ _ => rfl
  | some bucket =>
    refine ends_spend (b := b) (ends_store (r := .putIfAbsent _ [] _) fun objs2 stamp _ => ?_)
    refine ⟨?_, Ends.pure fun _ _ _ => rfl⟩
    rcases inject_put none objs2 stamp (q.absolute (.delayIndex bucket c.shard c.jobId)) []
      (Sha256.digest []) with hsame | ⟨-, hinsert⟩
    · rw [hsame]
      exact G.refl _
    · rw [hinsert]
      exact hdelay _ _ _

/-- What a negative acknowledgment that is left alone returns. -/
lemma ends_nack (reason : UInt64) {floorNs notBefore : UInt64} (hfloor : q.retryFloor c floorNs = .ok notBefore)
    (hG : objs.get? (failKey q c) = none → ∀ a b, G.rel a b)
    (hdelay : ∀ objs bucket stored,
      G.rel objs (objs.insert (q.absolute (.delayIndex bucket c.shard c.jobId)) stored)) :
    Ends (calm {failKey q c} G) (q.nack c reason floorNs) (b + 3) (fun r _ _ => r = .ok ()) objs := by
  unfold Queue.nack
  rw [hfloor]
  refine Ends.ofOk (ends_spend (b := b + 2) ?_)
  -- the index entry is written in any case
  have hindex := fun objs1 => ends_delayIndexEntry (b := b) (K := {failKey q c}) notBefore hdelay objs1
  cases hfail : objs.get? (failKey q c) with
  | none =>
    exact ends_putRecord (b := b + 1) rfl hfail fun stamp => ⟨fun _ _ => hG hfail _ _, hindex _⟩
  | some stored => exact ends_putRecord_present (b := b + 1) rfl hfail (hindex _)

end Calls

/-! ## What a call that succeeded knows -/

section Knowing

variable [Sha256] {q : Queue} {c : Claim} {h : List Exchange}

/-- The record that a successful call vouches for. -/
def vouched : Action → Output → Option Keys.Key
  | .ack c _, .ack .acked | .ack c _, .ack .alreadyAcked => some (.receipt c.shard c.jobId)
  | .bury c _, .bury .buried => some (.dead c.shard c.jobId)
  | .nack c _ _, .nack => some (.fail c.shard c.jobId c.generation.toUInt32)
  | _, _ => none

/-- The record is known to be in the store. -/
def Vouches (call : Call) : Except Error Output → List Exchange → Prop :=
  OnOk fun out h => ∀ rel, vouched call.action out = some rel → Placed (call.queue.absolute rel) h

lemma holds_bury (reason : UInt64) : Holds (knowing Unasked) (q.bury c reason)
    (OnOk fun out h' => out = .buried → Placed (q.absolute (.dead c.shard c.jobId)) h') h := by
  refine holds_after (holds_unasked _) fun absent h1 hi1 _ => ?_
  split
  · exact holds_pure nofun
  refine holds_spend ((holds_putRecord (fun _ _ _ => trivial) (fun _ _ _ => trivial)
    (fun _ _ _ => trivial) hi1).andThen fun resolved h2 hi2 _ hresolves => ?_)
  cases resolved with
  | committed =>
    refine holds_after (holds_unasked _) fun _ h3 _ hh3 => holds_pure fun _ _ hh4 _ => ?_
    exact (hresolves.2 nofun).mono (List.IsSuffix.trans hh3 hh4)
  | lost =>
    refine holds_after (holds_unasked _) fun obj h3 _ hh3 => ?_
    refine holds_ofRecord fun found _ => Holds.ofExcept fun h4 hh4 _ out _ _ => ?_
    exact (hresolves.2 nofun).mono (List.IsSuffix.trans hh3 hh4)
  | notCommitted => exact holds_fail

lemma holds_nack (reason floorNs : UInt64) (hinv : Licensed Unasked h) :
    Holds (knowing Unasked) (q.nack c reason floorNs)
    (OnOk fun _ h' => Placed (q.absolute (.fail c.shard c.jobId c.generation.toUInt32)) h') h := by
  refine holds_ofExcept fun notBefore _ => holds_spend ?_
  refine (holds_putRecord (fun _ _ _ => trivial) (fun _ _ _ => trivial) (fun _ _ _ => trivial)
    hinv).andThen fun resolved h2 hi2 _ hresolves => ?_
  have hindex : ∀ m : Routine Unit, resolved ≠ .notCommitted → Holds (knowing Unasked) m
      (OnOk fun _ h' => Placed (q.absolute (.fail c.shard c.jobId c.generation.toUInt32)) h') h2 :=
    fun m hne => (holds_unasked m).mono fun _ _ _ hh _ _ _ => (hresolves.2 hne).mono hh
  cases resolved with
  | committed => exact hindex _ (by decide)
  | lost => exact hindex _ (by decide)
  | notCommitted => exact holds_fail

lemma holds_vouches (call : Call) :
    Holds (knowing (asks call)) (call.action.task call.queue) (Vouches call) [] := by
  obtain ⟨q, action, budget⟩ := call
  -- the others vouch for nothing
  have hother : (∀ out, vouched action out = none) → ∀ {A : List Exchange → Request → Prop},
      Holds (knowing A) (action.task q) (fun _ _ => True) [] →
      Holds (knowing A) (action.task q) (Vouches ⟨q, action, budget⟩) [] :=
    fun hnone _ hm => hm.mono fun _ _ _ _ _ out _ rel hrel => by cases (hnone out).symm.trans hrel
  cases action with
  | ack c outputs =>
    refine (holds_ack c outputs).andThen fun out h' _ _ hout => holds_pure fun h2 _ hh2 rel hrel => ?_
    cases out with
    | supersededByDead => cases hrel
    | acked =>
      cases hrel
      exact (hout nofun).mono hh2
    | alreadyAcked =>
      cases hrel
      exact (hout nofun).mono hh2
  | bury c reason =>
    refine (holds_bury reason).andThen fun out h' _ _ hout => holds_pure fun h2 _ hh2 rel hrel => ?_
    cases out with
    | supersededByReceipt => cases hrel
    | buried =>
      cases hrel
      exact (hout rfl).mono hh2
  | nack c reason floorNs =>
    refine (holds_nack (h := []) reason floorNs trivial).andThen fun _ h' _ _ hplaced =>
      holds_pure fun h2 _ hh2 rel hrel => ?_
    cases hrel
    exact hplaced.mono hh2
  | _ => exact hother (fun _ => rfl) (holds_unasked _)

end Knowing

/-! ## Runs -/

section Runs

variable [Sha256]

/-- A store without authoritative objects. -/
structure Fresh (S : Site) (w : World) : Prop where
  log : w.log = []
  absent : ∀ k, planeOf k ∈ authoritative → w.objects.get? (S.absolute k) = none

/-- Call `j`, left alone at `K`, can return, returns nothing but what is good, and moves the
objects along `G`. -/
structure Settles (K : Set Str) (G : Rely Objects) (before : Calls) (j : Nat) (call : Call)
    (good : Output → Prop) : Prop where
  returns : ∃ after out, machine.Run (terms K j) (starting before j call) after ∧ after.Returned j call out
  result : ∀ after out, machine.Run (terms K j) (starting before j call) after →
    after.Returned j call out → ∃ o, out = .ok o ∧ good o
  moves : ∀ after, machine.Run (terms K j) (starting before j call) after →
    Moved G.rel j before.world.log after.world

/-- Everything but the delay index stays. -/
def unmoved (S : Site) : Rely Objects := agree {key | S.plane key ≠ some Keys.delayedSeg}

/-- Every receipt of the job so far was written by an acknowledgment of `c` with `outputs`. -/
def OwnReceipts (S : Site) (c : Claim) (outputs : List CommittedOutput) (log : List Event) : Prop :=
  ∀ i r answer before after, .did i r answer before after ∈ log →
    Fills (S.absolute (.receipt c.shard c.jobId)) (.did i r answer before after) →
    ∃ call, .started i call ∈ log ∧ call.action = .ack c outputs

/-- An acknowledgment that should succeed. -/
structure Ackable (S : Site) (cfg : Calls) (c : Claim) (outputs : List CommittedOutput) (q : Queue)
    (budget : Nat) : Prop where
  site : q.site = S
  budget : outputs.length + 5 ≤ budget
  /-- No list in memory is longer. -/
  fits : outputs.length < 2 ^ 64
  dead : cfg.world.objects.get? (S.absolute (.dead c.shard c.jobId)) = none
  committed : OutputsCommitted q c outputs cfg.world.objects
  receipts : OwnReceipts S c outputs cfg.world.log

/-- A burial that should succeed. -/
structure Buriable (S : Site) (cfg : Calls) (c : Claim) (q : Queue) (budget : Nat) : Prop where
  site : q.site = S
  budget : 4 ≤ budget
  receipt : cfg.world.objects.get? (S.absolute (.receipt c.shard c.jobId)) = none
  dead : ∀ d, recordAt S cfg.world.objects (.dead c.shard c.jobId) = some (.dead d) →
    d.generation = c.generation ∧ d.attempt = c.attempt

/-- A negative acknowledgment that should succeed. -/
structure Nackable (S : Site) (c : Claim) (floorNs : UInt64) (q : Queue) (budget : Nat) : Prop where
  site : q.site = S
  budget : 3 ≤ budget
  retry : q.retryFloor c floorNs ≠ .error (.internal "retry_not_before overflow")

/-- A call of the action has returned one of the outputs. -/
def Succeeded (cfg : Calls) (action : Action → Prop) (good : Output → Prop) : Prop :=
  ∃ i call out, cfg.Returned i call (.ok out) ∧ action call.action ∧ good out

/-- **What repeated calls with a claim come to** in the configuration `cfg`.  A call that should
succeed does, whatever became of earlier ones, and after a success it finds its evidence and
changes nothing authoritative. -/
structure Converges (S : Site) (F : FormatRecord) (c : Claim) (cfg : Calls) : Prop where
  ack : ∀ outputs q budget j, Ackable S cfg c outputs q budget →
    Settles (ackKeys q c outputs) anywhere cfg j ⟨q, .ack c outputs, budget⟩
      fun out => out = .ack .acked ∨ out = .ack .alreadyAcked
  ackAgain : ∀ outputs q budget j, Ackable S cfg c outputs q budget →
    Succeeded cfg (fun a => a = .ack c outputs) (fun out => out = .ack .acked ∨ out = .ack .alreadyAcked) →
    Settles (ackKeys q c outputs) (unmoved S) cfg j ⟨q, .ack c outputs, budget⟩
      fun out => out = .ack .alreadyAcked
  bury : ∀ reason q budget j, Buriable S cfg c q budget →
    Settles (buryKeys q c) anywhere cfg j ⟨q, .bury c reason, budget⟩ fun out => out = .bury .buried
  buryAgain : ∀ reason q budget j, Buriable S cfg c q budget →
    Succeeded cfg (fun a => ∃ r, a = .bury c r) (fun out => out = .bury .buried) →
    Settles (buryKeys q c) (unmoved S) cfg j ⟨q, .bury c reason, budget⟩ fun out => out = .bury .buried
  nack : ∀ reason floorNs q budget j, Nackable S c floorNs q budget →
    Settles {failKey q c} anywhere cfg j ⟨q, .nack c reason floorNs, budget⟩ fun out => out = .nack
  nackAgain : ∀ reason floorNs q budget j, Nackable S c floorNs q budget →
    Succeeded cfg (fun a => ∃ r f, a = .nack c r f) (fun out => out = .nack) →
    Settles {failKey q c} (unmoved S) cfg j ⟨q, .nack c reason floorNs, budget⟩ fun out => out = .nack
  /-- The first fail record stays. -/
  fail : ∀ stored, cfg.world.objects.get?
      (S.absolute (.fail c.shard c.jobId c.generation.toUInt32)) = some stored →
    ∀ cfg', machine.Run (working S F) cfg cfg' → cfg'.world.objects.get?
      (S.absolute (.fail c.shard c.jobId c.generation.toUInt32)) = some stored

variable {S : Site} {F : FormatRecord} {w : World} {cfg : Calls} {c : Claim}
  {outputs : List CommittedOutput} {q : Queue} {budget j : Nat} {K : Set Str} {G : Rely Objects}

lemma settles_of_ends {call : Call} {good : Output → Prop}
    (h : Ends (calm K G) (call.action.task call.queue) call.budget
      (fun r _ _ => ∃ o, r = .ok o ∧ good o) cfg.world.objects) : Settles K G cfg j call good where
  returns := run_returns call (fun _ _ => (if_pos rfl).mpr rfl) cfg
  result after out hrun hret := by
    obtain ⟨_, hgood⟩ := (run_ends h hrun).2 out hret
    exact hgood
  moves after hrun := (run_ends h hrun).1

omit [Sha256] in
lemma Fresh.intake (h : Fresh S w) : Intake.Fresh S w where
  log := h.log
  absent k hk := h.absent k (by
    simp only [Intake.planes, List.mem_cons, List.not_mem_nil, or_false] at hk
    rcases hk with hk | hk <;> rw [hk] <;> decide)

/-- The program of a call, as `Creates` lists it. -/
lemma working_acts (cfg : Calls) (i : Nat) (call : Call) (h : (working S F).start cfg i call) :
    call.prog.Emits (Acts call.queue call.action) :=
  ((call.action.acts h.2.2.1).prog call.budget).map

/-- The payload has one digest, however it was seen. -/
lemma digest_eq {objs : Objects} {h : List Exchange} {bytes bytes' : Bytes}
    (hp : PayloadAt objs c bytes) (hp' : PayloadSeen h c bytes') :
    Sha256.digest bytes' = Sha256.digest bytes := by
  unfold PayloadAt at hp
  unfold PayloadSeen at hp'
  cases hc : c.payload with
  | inline b =>
    rw [hc] at hp hp'
    rw [hp, hp']
  | detached key digest length =>
    rw [hc] at hp hp'
    exact hp'.2.1.trans hp.2.1.symm

lemma receipts_match (hfresh : Fresh S w) (hrun : machine.Run (working S F) (Machine.initial w) cfg)
    {bytes : Bytes} (hpayload : PayloadAt cfg.world.objects c bytes) (hfits : outputs.length < 2 ^ 64)
    (hown : OwnReceipts S c outputs cfg.world.log) {stored : Stored}
    (hget : cfg.world.objects.get? (S.absolute (.receipt c.shard c.jobId)) = some stored) :
    Receipts S c outputs (Sha256.digest bytes) stored.body := by
  have hk := receipt_authoritative c.shard c.jobId
  obtain ⟨i, call, at_, hc⟩ := (lasting hk).origin working_acts hfresh.log (hfresh.absent _ hk) hrun hget
  -- the call that filled the key
  obtain ⟨r, answer, before, after, hmem, hfills⟩ := hc.filled
  obtain ⟨call', hstarted', haction⟩ := hown i r answer before after hmem hfills
  obtain ⟨p, hp⟩ := run_started hfresh.log hrun hc.started
  obtain ⟨p', hp'⟩ := run_started hfresh.log hrun hstarted'
  obtain rfl : call' = call := (Thread.mk.inj (Option.some.inj (hp'.symm.trans hp))).1
  obtain ⟨_, rfl, -⟩ := hc.admitted
  -- the evidence it had
  obtain ⟨k, hthread⟩ := hc.thread
  have hasks := run_asks (fun _ _ call _ => holds_asks call) hfresh.log hc.run hthread
  unfold asks at hasks
  rw [haction] at hasks
  obtain ⟨-, -, bytes', hbody, hseen, -⟩ := hasks _ _ _ _ rfl
  refine ⟨call'.queue.receiptRecord c (Sha256.digest bytes') outputs, ?_, rfl, rfl, rfl,
    digest_eq hpayload hseen, rfl⟩
  rw [hbody]
  exact decode_encode (.receipt _) ⟨call'.queue.opts.workerIdFits, by simpa [Queue.receiptRecord]⟩ _ _

lemma dead_decodes (hfresh : Fresh S w) (hrun : machine.Run (working S F) (Machine.initial w) cfg)
    {stored : Stored} (hget : cfg.world.objects.get? (S.absolute (.dead c.shard c.jobId)) = some stored) :
    ∃ d, S.decodeAt (.dead c.shard c.jobId) stored.body = .ok (.dead d) := by
  have hk := dead_authoritative c.shard c.jobId
  obtain ⟨i, call, at_, hc⟩ := (lasting hk).origin working_acts hfresh.log (hfresh.absent _ hk) hrun hget
  obtain ⟨_, rfl, -⟩ := hc.admitted
  obtain ⟨d, hbody⟩ := hc.listed.2.dead_inv
  refine ⟨d, ?_⟩
  rw [hbody]
  exact decode_encode (.dead d) trivial _ _

/-- The record a successful call vouches for is there. -/
lemma run_vouched (hw : w.log = []) (hrun : machine.Run (working S F) (Machine.initial w) cfg)
    {i : Nat} {call : Call} {out : Output} (hret : cfg.Returned i call (.ok out)) {rel : Keys.Key}
    (hk : planeOf rel ∈ authoritative) (hrel : vouched call.action out = some rel) :
    ∃ stored, cfg.world.objects.get? (S.absolute rel) = some stored := by
  obtain ⟨-, ⟨_, rfl, -⟩, -⟩ := (run_accounted (A := fun _ _ => True) (fun _ _ _ _ => .any _) hw
    hrun).2 i _ hret
  have hplaced := run_answers (fun _ _ call _ => holds_vouches call) hw hrun hret out rfl rel hrel
  exact (lasting hk).placed hw hrun hplaced

/-- Whatever became of earlier acknowledgments, one that should succeed does. -/
lemma settles_ack (hfresh : Fresh S w) (hrun : machine.Run (working S F) (Machine.initial w) cfg)
    (hc : Handed cfg c) (hapart : Intake.PayloadsApart cfg.world.log)
    (h : Ackable S cfg c outputs q budget) (G : Rely Objects)
    (hG : cfg.world.objects.get? (S.absolute (.receipt c.shard c.jobId)) = none → ∀ a b, G.rel a b) :
    Settles (ackKeys q c outputs) G cfg j ⟨q, .ack c outputs, budget⟩ fun out =>
      out = .ack (if (cfg.world.objects.get? (S.absolute (.receipt c.shard c.jobId))).isNone then .acked
        else .alreadyAcked) := by
  obtain ⟨bytes, hpayload⟩ := run_payloadAt hfresh.intake hrun hc hapart
  obtain ⟨rfl, hbudget, hfits, hdead, houts, hown⟩ := h
  obtain ⟨b, rfl⟩ := Nat.exists_eq_add_of_le' hbudget
  have hends := ends_ack (G := G) (b := b) hdead hpayload houts hG
    fun stored hget => receipts_match hfresh hrun hpayload hfits hown hget
  refine settles_of_ends (hends.bind (fun out _ _ _ hout => ?_) nofun)
  exact Ends.pure fun _ _ _ => ⟨_, rfl, congrArg Output.ack (Except.ok.inj hout)⟩

lemma settles_bury (hfresh : Fresh S w) (hrun : machine.Run (working S F) (Machine.initial w) cfg)
    (reason : UInt64) (h : Buriable S cfg c q budget) (G : Rely Objects)
    (hG : cfg.world.objects.get? (S.absolute (.dead c.shard c.jobId)) = none → ∀ a b, G.rel a b) :
    Settles (buryKeys q c) G cfg j ⟨q, .bury c reason, budget⟩ fun out => out = .bury .buried := by
  obtain ⟨rfl, hbudget, hreceipt, hdead⟩ := h
  obtain ⟨b, rfl⟩ := Nat.exists_eq_add_of_le' hbudget
  have hends := ends_bury (G := G) (b := b) reason hreceipt hG fun stored hget => by
    obtain ⟨d, hdec⟩ := dead_decodes hfresh hrun hget
    exact ⟨d, hdec, hdead d (recordAt_of_decode hget hdec)⟩
  refine settles_of_ends (hends.bind (fun out _ _ _ hout => ?_) nofun)
  exact Ends.pure fun _ _ _ => ⟨_, rfl, congrArg Output.bury (Except.ok.inj hout)⟩

lemma settles_nack (reason : UInt64) {floorNs : UInt64} (h : Nackable S c floorNs q budget)
    (G : Rely Objects) (hG : cfg.world.objects.get?
      (S.absolute (.fail c.shard c.jobId c.generation.toUInt32)) = none → ∀ a b, G.rel a b)
    (hdelay : ∀ objs bucket stored,
      G.rel objs (objs.insert (S.absolute (.delayIndex bucket c.shard c.jobId)) stored)) :
    Settles {failKey q c} G cfg j ⟨q, .nack c reason floorNs, budget⟩ fun out => out = .nack := by
  obtain ⟨rfl, hbudget, hretry⟩ := h
  obtain ⟨b, rfl⟩ := Nat.exists_eq_add_of_le' hbudget
  obtain ⟨notBefore, hfloor⟩ := (Queue.retryFloor_cases rfl).resolve_right hretry
  have hends := ends_nack (G := G) (b := b) reason hfloor hG hdelay
  refine settles_of_ends (hends.bind (fun _ _ _ _ _ => ?_) nofun)
  exact Ends.pure fun _ _ _ => ⟨_, rfl, rfl⟩

/-- **Acknowledgments, burials and negative acknowledgments converge under retry.**  In every run from a fresh store,
whatever faults earlier calls with the claim have met and wherever they have stopped, a call that no record forbids,
that can pay and is left alone succeeds; after a success every further one reports it again and changes nothing but
the delay index.  Payloads with one digest are taken to be the same bytes. -/
theorem calls_converge (S : Site) (F : FormatRecord) (w : World) (hfresh : Fresh S w) (cfg : Calls)
    (hrun : machine.Run (working S F) (Machine.initial w) cfg) (c : Claim) (hc : Handed cfg c)
    (hapart : Intake.PayloadsApart cfg.world.log) : Converges S F c cfg where
  ack outputs q budget j h := by
    have hsettles := settles_ack (j := j) hfresh hrun hc hapart h anywhere fun _ _ _ => trivial
    refine ⟨hsettles.returns, fun after out hafter hret => ?_, hsettles.moves⟩
    obtain ⟨o, rfl, rfl⟩ := hsettles.result after out hafter hret
    refine ⟨_, rfl, ?_⟩
    split
    · exact .inl rfl
    · exact .inr rfl
  ackAgain outputs q budget j h hsucceeded := by
    obtain ⟨i, call, out, hret, haction, hout⟩ := hsucceeded
    obtain ⟨stored, hget⟩ := run_vouched hfresh.log hrun hret (receipt_authoritative c.shard c.jobId) (by
      rw [haction]
      rcases hout with rfl | rfl <;> rfl)
    have hsettles := settles_ack (j := j) hfresh hrun hc hapart h (unmoved S) fun hnone => by
      rw [hget] at hnone
      cases hnone
    rw [hget] at hsettles
    exact hsettles
  bury reason q budget j h := settles_bury hfresh hrun reason h anywhere fun _ _ _ => trivial
  buryAgain reason q budget j h hsucceeded := by
    obtain ⟨i, call, out, hret, ⟨_, haction⟩, rfl⟩ := hsucceeded
    obtain ⟨stored, hget⟩ := run_vouched hfresh.log hrun hret (dead_authoritative c.shard c.jobId) (by
      rw [haction]
      rfl)
    exact settles_bury hfresh hrun reason h (unmoved S) fun hnone => by
      rw [hget] at hnone
      cases hnone
  nack reason floorNs q budget j h :=
    settles_nack reason h anywhere (fun _ _ _ => trivial) fun _ _ _ => trivial
  nackAgain reason floorNs q budget j h hsucceeded := by
    obtain ⟨i, call, out, hret, ⟨_, _, haction⟩, rfl⟩ := hsucceeded
    obtain ⟨stored, hget⟩ := run_vouched hfresh.log hrun hret
      (fail_authoritative c.shard c.jobId c.generation.toUInt32) (by
        rw [haction]
        rfl)
    refine settles_nack reason h (unmoved S) (fun hnone => ?_) fun objs bucket stored key hkey => ?_
    · rw [hget] at hnone
      cases hnone
    · refine OrderedMap.get?_insert_of_ne _ _ ?_
      rintro rfl
      exact hkey (plane_absolute S _)
  fail stored hget cfg' hrun' := run_preserved (lasting (fail_authoritative _ _ _)) hfresh.log hrun hrun' hget

end Runs

/-! ## The first delivery of the small job -/

open Scenario

/-- Calls on the small queue that enqueue nothing but its job. -/
def workingDemo [Sha256] : Terms where
  start cfg i call := (working demo.site demo.format).start cfg i call ∧
    ∀ input, call.action = .enqueue input → input.payload = []
  step _ _ _ _ _ := True
  env := (working demo.site demo.format).env

/-- The worker acknowledges the first delivery. -/
def acking : Call := ⟨demo, .ack firstClaim [], 20⟩

/-- Call 2 writes the receipt and is not heard of again, and call 3 finds the receipt there. -/
def ackedTwice [Sha256] : Calls := play faultless 3 acking (pause 2 acking 2 (once 1))

/-- It is call 2 that fills the receipt's key. -/
def receiptByFirst [Sha256] : Event → Bool
  | .did i r answer before after => !decide (Fills receiptKey (.did i r answer before after)) || i == 2
  | _ => true

/-- After an acknowledgment that was cut off and one that succeeded, a further one is bound to succeed. -/
theorem calls_converge_delivered : ∃ _ : Sha256,
    ackedTwice.Returned 1 (claiming 0 1) (.ok (.claim (.claimed firstClaim))) ∧
      ackedTwice.Returned 3 acking (.ok (.ack .alreadyAcked)) ∧
      Ackable demo.site ackedTwice firstClaim [] demo 20 ∧ Converges demo.site demo.format firstClaim ackedTwice := by
  let hash := Sha256.zero
  have hstart : ∀ {cfg i call}, call.queue = demo → (∀ a b c, call.action ≠ .gc a b c) → call.action.handle = none →
      (∀ input, call.action = .enqueue input → input.payload = []) → workingDemo.start cfg i call := by
    intro cfg i call hqueue hgc hhandle hinput
    exact ⟨⟨congrArg Queue.site hqueue, congrArg Queue.format hqueue, hgc, by simp [hhandle]⟩, hinput⟩
  have honce : machine.Run workingDemo (Machine.initial (blank 0)) (once 1) := run_once
    ⟨fun _ => hstart rfl nofun rfl fun _ h => (by cases h; rfl), fun _ _ _ _ => trivial⟩
    ⟨fun _ => hstart rfl nofun rfl nofun, fun _ _ _ _ => trivial⟩
  have hclaim := (once_at (show ¬ (1 : UInt64) < 1 by decide)).2
  have hacking : ∀ {cfg : Calls} {i}, cfg.Returned 1 (claiming 0 1) (.ok (.claim (.claimed firstClaim))) →
      workingDemo.start cfg i acking := by
    intro cfg i hret
    refine ⟨⟨rfl, rfl, nofun, fun c hc => ?_⟩, nofun⟩
    cases hc
    exact ⟨1, _, _, hret, List.mem_singleton_self _⟩
  have hpaused : (pause 2 acking 2 (once 1)).Returned 1 _ _ := (pause_threads (by decide)).trans hclaim
  have hrun : machine.Run workingDemo (Machine.initial (blank 0)) ackedTwice :=
    (honce.trans (pause_plainly 2 (hacking hclaim) (fun _ _ => trivial) (once_free (le_refl 2)))).trans
      (run_plainly (hacking hpaused) (fun _ _ => trivial) ((pause_threads (by decide)).trans (once_free (by decide))))
  have haccounted := (run_accounted (A := fun _ _ => True) (fun _ _ _ _ => .any _) rfl hrun).2
  have hpayloads : ∀ i call input, .started i call ∈ ackedTwice.world.log → call.action = .enqueue input →
      input.payload = [] := by
    intro i call input hstarted haction
    obtain ⟨p, hthread⟩ := run_started rfl hrun hstarted
    obtain ⟨-, ⟨_, hadm⟩, -⟩ := haccounted i _ hthread
    exact hadm.2 input haction
  have hapart : Intake.PayloadsApart ackedTwice.world.log := fun i call input i' call' input' hs ha hs' ha' _ =>
    (hpayloads i call input hs ha).trans (hpayloads i' call' input' hs' ha').symm
  have hworking : machine.Run (working demo.site demo.format) (Machine.initial (blank 0)) ackedTwice :=
    hrun.mono (fun _ _ _ (h : workingDemo.start _ _ _) => h.1) (fun _ _ _ _ _ _ => trivial) fun _ _ h => h
  have hret : ackedTwice.Returned 1 _ _ := (play_threads (by decide)).trans hpaused
  have hack : Ackable demo.site ackedTwice firstClaim [] demo 20 := by
    refine ⟨rfl, by decide, by decide, by decide +kernel, nofun, ?_⟩
    intro i r answer before after hmem hfills
    have hall : ackedTwice.world.log.all receiptByFirst = true := by decide +kernel
    have hfirst := List.all_eq_true.mp hall _ hmem
    simp only [receiptByFirst, Bool.or_eq_true, Bool.not_eq_true', decide_eq_false_iff_not, beq_iff_eq] at hfirst
    obtain rfl := hfirst.resolve_left (not_not.mpr hfills)
    exact ⟨acking, (haccounted 2 _ ((play_threads (by decide)).trans pause_threads_self)).1, rfl⟩
  exact ⟨hash, hret, play_returned (by decide +kernel), hack, calls_converge demo.site demo.format (blank 0)
    ⟨rfl, fun _ _ => rfl⟩ _ hworking firstClaim ⟨1, _, _, hret, List.mem_singleton_self _⟩ hapart⟩

end Delivery
end StowQ
