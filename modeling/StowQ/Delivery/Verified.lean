import StowQ.Calm
import StowQ.Custody.Results
import StowQ.Delivery.Evidence
import StowQ.Planes

/-!
# Delivered bytes

A detached payload is fetched and compared with the digest and the length that the job record
gives.  An inline payload is handed out as it is: neither the decoder nor the scan nor
`Claim::payload` relates it to the digest beside it, and `ack` then puts the digest of the
inline bytes into the receipt.  `payload_verified_iff` says that this is the only gap.
-/

namespace StowQ
namespace Delivery

open Data StowQ.Core Store Format Concurrent Interleaving

section Verified

variable [Sha256]

/-- Call `i` read the job record, and the handle carries its payload reference. -/
def ObtainedFrom (log : List Event) (i : Nat) (q : Queue) (c : Claim) (job : JobRecord) : Prop :=
  JobRead q (own i log) c.shard c.jobId job ∧ q.payloadRef job = some c.payload

/-- Whatever the store answers, `payload` returns bytes of the digest and the length that the
job record gives. -/
def BytesVerified (c : Claim) (job : JobRecord) : Prop :=
  c.payloadBytes.Returns fun r => ∀ bytes, r = .ok bytes →
    Sha256.digest bytes = job.payloadDigest ∧ UInt64.ofNat bytes.length = job.payloadLength

/-- From `cfg` on, every receipt that an `ack` of the claim is about to create has the digest
that the job record gives. -/
def ReceiptsVerified (P : Terms) (cfg : Calls) (c : Claim) (job : JobRecord) : Prop :=
  ∀ cfg' j call outputs body sha256 k, machine.Run P cfg cfg' → call.action = .ack c outputs →
    cfg'.threads j = some ⟨call, .op (.store
      (.putIfAbsent (call.queue.absolute (.receipt c.shard c.jobId)) body sha256)) k⟩ →
    ∃ r, body = call.queue.encodeAt (.receipt c.shard c.jobId) (.receipt r) ∧ r.payloadDigest = job.payloadDigest

/-- An inline payload matches the digest and the length beside it. -/
def Intact (job : JobRecord) : Prop :=
  ∀ bytes, job.payloadInline = some bytes →
    Sha256.digest bytes = job.payloadDigest ∧ UInt64.ofNat bytes.length = job.payloadLength

variable {c : Claim} {job : JobRecord} {q : Queue}

lemma digest_of_seen {h : List Exchange} {bytes : Bytes} (href : q.payloadRef job = some c.payload)
    (hintact : Intact job) (hseen : PayloadSeen h c bytes) :
    Sha256.digest bytes = job.payloadDigest := by
  unfold PayloadSeen at hseen
  rcases payload_cases href with ⟨b, hinline, hc⟩ | ⟨-, rel, -, hc⟩
  · rw [hc] at hseen
    subst hseen
    exact (hintact _ hinline).1
  · rw [hc] at hseen
    exact hseen.2.1

lemma bytesVerified_iff (href : q.payloadRef job = some c.payload) : BytesVerified c job ↔ Intact job := by
  unfold BytesVerified Claim.payloadBytes
  rcases payload_cases href with ⟨b, hinline, hc⟩ | ⟨hnone, rel, -, hc⟩
  · rw [hc]
    constructor
    · intro h bytes hbytes
      obtain rfl : b = bytes := Option.some.inj (hinline.symm.trans hbytes)
      exact h b rfl
    · intro hintact bytes hbytes
      cases hbytes
      exact hintact b hinline
  · rw [hc]
    refine ⟨fun _ bytes hbytes => (nomatch hnone.symm.trans hbytes), fun _ answer bytes hbytes => ?_⟩
    change StoreResult Object at answer
    cases answer with
    | error e => cases hbytes
    | ok obj =>
      dsimp only at hbytes
      split_ifs at hbytes with hlength hdigest
      cases hbytes
      exact ⟨not_not.mp hdigest, not_not.mp hlength⟩

/-- **Delivered bytes are verified exactly if the inline payload matches.**  Whoever writes job
records and whatever else happens, a handle comes from a job record that was read, and its
bytes and receipts are those of the record if and only if the record is intact. -/
theorem payload_verified_iff (P : Terms) (w : World) (hw : w.log = []) (cfg : Calls)
    (hrun : machine.Run P (Machine.initial w) cfg) (i : Nat) (call : Call) (opts : ClaimOptions)
    (hscan : call.action = .claim opts ∨ ∃ max, call.action = .claimMany opts max) (out : Output)
    (hret : cfg.Returned i call (.ok out)) (c : Claim) (hc : c ∈ out.handles) :
    (∃ job, ObtainedFrom cfg.world.log i call.queue c job) ∧ ∀ job, ObtainedFrom cfg.world.log i call.queue c job →
        (BytesVerified c job ∧ ReceiptsVerified P cfg c job ↔ Intact job) := by
  refine ⟨obtained_of_scan _ hscan (run_answers (fun _ _ call _ => holds_asks call) hw hrun hret out rfl c hc),
    fun job hjob => ⟨fun h => (bytesVerified_iff hjob.2).mp h.1,
      fun hintact => ⟨(bytesVerified_iff hjob.2).mpr hintact, ?_⟩⟩⟩
  intro cfg' j call' outputs body sha256 k hrun' hack hthread
  have hasks := run_asks (fun _ _ call _ => holds_asks call) hw (hrun.trans hrun') hthread
  unfold asks at hasks
  rw [hack] at hasks
  obtain ⟨-, -, bytes, hbody, hseen, -⟩ := hasks _ _ body sha256 rfl
  exact ⟨_, hbody, digest_of_seen hjob.2 hintact hseen⟩

end Verified

/-! ## A job record with the wrong digest -/

open Scenario

/-- Anything goes. -/
def anything : Terms := ⟨fun _ _ _ => True, fun _ _ _ _ _ => True, fun _ _ => True⟩

/-- A delivery of the small job. -/
theorem payload_verified_delivered : ∃ (_ : Sha256) (cfg : Calls) (job : JobRecord),
    cfg.Returned 1 (claiming 0 1) (.ok (.claim (.claimed firstClaim))) ∧
      (BytesVerified firstClaim job ∧ ReceiptsVerified anything cfg firstClaim job ↔ Intact job) := by
  let hash := Sha256.zero
  have hplay : ∀ i call, Playable anything i call 0 := fun _ _ => ⟨fun _ => trivial, fun _ _ _ _ => trivial⟩
  have hret := (once_at (show ¬ (1 : UInt64) < 1 by decide)).2
  obtain ⟨⟨job, hjob⟩, hiff⟩ := payload_verified_iff anything (blank 0) rfl (once 1)
    (run_once (hplay 0 (enqueue 1)) (hplay 1 (claiming 0 1))) 1 (claiming 0 1) ⟨0, 0, 1⟩ (.inl rfl) _ hret firstClaim
    (List.mem_singleton_self _)
  exact ⟨hash, once 1, job, hret, hiff job hjob⟩

section Forged

variable [Sha256]

/-- A digest other than the given one. -/
def otherDigest (d : Digest) : Digest :=
  if d = List.Vector.replicate 32 0 then List.Vector.replicate 32 1 else List.Vector.replicate 32 0

omit [Sha256] in
lemma otherDigest_ne (d : Digest) : otherDigest d ≠ d := by
  unfold otherDigest
  split
  · next h =>
      rw [h]
      decide
  · next h => exact fun heq => h heq.symm

/-- The record of the small job with a digest that is not that of its inline payload. -/
def forged : JobRecord :=
  { demo.jobRecord (demoInput 1) jobZero with payloadDigest := otherDigest (Sha256.digest []) }

lemma forged_wellFormed : forged.WellFormed where
  exclusive := (demo.jobRecord_wellFormed (demoInput 1) jobZero).exclusive
  contentType := (demo.jobRecord_wellFormed (demoInput 1) jobZero).contentType
  payloadInline := (demo.jobRecord_wellFormed (demoInput 1) jobZero).payloadInline
  payloadKey := (demo.jobRecord_wellFormed (demoInput 1) jobZero).payloadKey

/-- The forged record in the store. -/
def forgedObject : Stored := ⟨demo.encodeAt (.job 0 jobZero) (.job forged), ⟨[]⟩, 0⟩

/-- A store that holds nothing else. -/
def forgedWorld : World :=
  { blank 0 with objects := OrderedMap.empty.insert jobKey forgedObject }

/-- The handle that a claim is given there. -/
def forgedClaim : Claim := granted ⟨0, 0, 1⟩ noTail (tokenAt 6) (.inline []) 0

lemma decode_forged : demo.decodeAt (.job 0 jobZero) forgedObject.body = .ok (.job forged) :=
  decode_encode (.job forged) forged_wellFormed _ _

lemma get?_forged : forgedWorld.objects.get? jobKey = some forgedObject := OrderedMap.get?_insert_self _ _ _

lemma claim_forged : ∃ s, (claiming 0 1).prog.run (staged faultless)
    ⟨forgedWorld.objects, 0, fun _ => {}, 1⟩ = (.ok (.claim (.claimed forgedClaim)), s) :=
  ⟨_, run_taking decode_forged rfl rfl (show ¬ (1 : UInt64) < 0 + 1 by decide)⟩

/-- Nothing but that claim. -/
def claimOnly : Terms :=
  ⟨fun _ _ call => call = claiming 0 1, fun _ _ _ _ _ => True, fun _ _ => False⟩

lemma run_forged : ∃ cfg, machine.Run claimOnly (Machine.initial forgedWorld) cfg ∧
    cfg.Returned 1 (claiming 0 1) (.ok (.claim (.claimed forgedClaim))) ∧
    ObtainedFrom cfg.world.log 1 demo forgedClaim forged := by
  obtain ⟨s, hclaim⟩ := claim_forged
  have hrun : machine.Run claimOnly (Machine.initial forgedWorld)
      (play faultless 1 (claiming 0 1) (Machine.initial forgedWorld)) :=
    run_plainly rfl (fun _ _ => trivial) rfl
  obtain ⟨-, hret⟩ : stage (play faultless 1 (claiming 0 1) (Machine.initial forgedWorld)) = _ ∧ _ :=
    play_at rfl hclaim
  generalize play faultless 1 (claiming 0 1) (Machine.initial forgedWorld) = cfg at hrun hret
  refine ⟨cfg, hrun, hret, ?_⟩
  have hhands := run_answers (fun _ _ call _ => holds_asks call) rfl hrun hret _ rfl forgedClaim
    (List.mem_singleton_self _)
  obtain ⟨job, ⟨obj, hread, hdec⟩, hpayload⟩ := obtained_of_scan ⟨0, 0, 1⟩ (.inl rfl) hhands
  -- nobody touches the record, so it is what the read found
  have hlasting : Lasting claimOnly jobKey := by
    refine ⟨?_, fun _ _ => False.elim⟩
    rintro _ _ _ rfl
    have hgc : ∀ a b c, (claiming 0 1).action ≠ .gc a b c := nofun
    have hplane : planeOf (.job 0 jobZero) ∉ overwritten ++ swept := by decide
    exact Call.preserves hgc hplane
  obtain ⟨stored, hstored, rfl⟩ := hlasting.got rfl hrun hread
  have hthere := run_preserved hlasting rfl .refl hrun get?_forged
  cases hthere.symm.trans hstored
  cases decode_forged.symm.trans hdec
  exact ⟨⟨_, hread, decode_forged⟩, hpayload⟩

end Forged

/-- An inline payload is delivered whatever the digest beside it: the store holds a job record
with an empty inline payload and another digest, call 1 claims the job, and `payload` returns
the empty bytes. -/
theorem payload_unverified : ¬ ∃ _ : Sha256, ∀ w cfg, w.log = [] →
    machine.Run anything (Machine.initial w) cfg → ∀ i call opts out c job,
      call.action = .claim opts → cfg.Returned i call (.ok out) → c ∈ out.handles →
      ObtainedFrom cfg.world.log i call.queue c job →
        BytesVerified c job ∧ ReceiptsVerified anything cfg c job := by
  rintro ⟨_, hall⟩
  obtain ⟨cfg, hrun, hret, hfrom⟩ := run_forged
  have hany : machine.Run anything (Machine.initial forgedWorld) cfg :=
    hrun.mono (fun _ _ _ _ => trivial) (fun _ _ _ _ _ _ => trivial) fun _ _ _ => trivial
  have hbytes := (hall forgedWorld cfg rfl hany 1 (claiming 0 1) ⟨0, 0, 1⟩ _ forgedClaim forged rfl hret
    (List.mem_singleton_self _) hfrom).1
  have hintact := (bytesVerified_iff hfrom.2).mp hbytes [] rfl
  exact otherDigest_ne (Sha256.digest []) hintact.1.symm

end Delivery
end StowQ
