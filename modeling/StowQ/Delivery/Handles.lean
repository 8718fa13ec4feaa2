import StowQ.Delivery.Evidence
import StowQ.Intake

/-!
# The handles of a run

Calls of every operation but garbage collection that are given only handles the queue has
handed out before.  Every such handle is backed by the job record in the store, however often
it was renewed, and its payload can be had.
-/

namespace StowQ
namespace Delivery

open Data StowQ.Core Store Format Concurrent Interleaving Keys

section Handles

variable [Sha256]

/-- The planes that decide about jobs; everything else is derived from them or a hint. -/
def authoritative : List Str :=
  [jobsSeg, payloadsSeg, claimsSeg, failsSeg, receiptsSeg, deadSeg]

/-- The handle was handed out. -/
def Handed (cfg : Calls) (c : Claim) : Prop :=
  ∃ i call out, cfg.Returned i call (.ok out) ∧ c ∈ out.handles

/-- Calls of any operation but garbage collection, on handles of one queue, with claims that were
handed out.  Every request may meet any fault, and nobody else touches authoritative objects. -/
def working (S : Site) (F : FormatRecord) : Terms where
  start cfg _ call := call.queue.site = S ∧ call.queue.format = F ∧
    (∀ a b c, call.action ≠ .gc a b c) ∧ ∀ c, call.action.handle = some c → Handed cfg c
  step _ _ _ _ _ := True
  env _ e := ∀ k, planeOf k ∈ authoritative → Spares (S.absolute k) e

/-- The job record in the store gives the payload of the claim. -/
def Backed (S : Site) (objs : Objects) (c : Claim) : Prop :=
  ∃ job, recordAt S objs (.job c.shard c.jobId) = some (.job job) ∧
    ∃ q : Queue, q.site = S ∧ q.payloadRef job = some c.payload

variable {S : Site} {F : FormatRecord} {w : World} {cfg cfg' : Calls} {c : Claim}

omit [Sha256] in
lemma authoritative_preserved {k : Key} (hk : planeOf k ∈ authoritative) : planeOf k ∉ overwritten ++ swept := by
  revert hk
  generalize planeOf k = seg
  intro hk
  simp only [authoritative, List.mem_cons, List.not_mem_nil, or_false] at hk
  rcases hk with hk | hk | hk | hk | hk | hk <;> rw [hk] <;> decide

lemma lasting {k : Key} (hk : planeOf k ∈ authoritative) : Lasting (working S F) (S.absolute k) where
  calls := by
    rintro cfg i call ⟨rfl, -, hgc, -⟩
    exact Call.preserves hgc (authoritative_preserved hk)
  env _ _ h := h k hk

lemma offering_of_working (hrun : machine.Run (working S F) cfg cfg') :
    machine.Run (Intake.offering S F) cfg cfg' := by
  have henv : ∀ w e, (working S F).env w e → (Intake.offering S F).env w e := by
    intro _ e h k hk
    refine h k ?_
    simp only [Intake.planes, List.mem_cons, List.not_mem_nil, or_false] at hk
    rcases hk with hk | hk <;> rw [hk] <;> decide
  have hstart : ∀ cfg i call, (working S F).start cfg i call →
      (Intake.offering S F).start cfg i call := fun _ _ _ h => ⟨h.1, h.2.1, h.2.2.1⟩
  exact hrun.mono hstart (fun _ _ _ _ _ _ => trivial) henv

omit [Sha256] in
lemma job_authoritative (shard : UInt16) (jobId : ByteArr 16) :
    planeOf (.job shard jobId) ∈ authoritative := List.mem_cons_self

omit [Sha256] in
lemma receipt_authoritative (shard : UInt16) (jobId : ByteArr 16) :
    planeOf (.receipt shard jobId) ∈ authoritative := by
  simp [planeOf, authoritative]

omit [Sha256] in
lemma dead_authoritative (shard : UInt16) (jobId : ByteArr 16) : planeOf (.dead shard jobId) ∈ authoritative := by
  simp [planeOf, authoritative]

omit [Sha256] in
lemma fail_authoritative (shard : UInt16) (jobId : ByteArr 16) (generation : UInt32) :
    planeOf (.fail shard jobId generation) ∈ authoritative := by
  simp [planeOf, authoritative]

lemma Backed.run (h : Backed S cfg.world.objects c) (hw : w.log = [])
    (hrun : machine.Run (working S F) (Machine.initial w) cfg) (hrun' : machine.Run (working S F) cfg cfg') :
    Backed S cfg'.world.objects c := by
  obtain ⟨job, hjob, hpayload⟩ := h
  obtain ⟨stored, hget, hdec⟩ := decode_of_recordAt hjob
  exact ⟨job, recordAt_of_decode (run_preserved (lasting (job_authoritative _ _)) hw hrun hrun' hget)
    hdec, hpayload⟩

/-- The handles that calls were given are backed. -/
def Given (S : Site) (cfg : Calls) : Prop :=
  ∀ i t c, cfg.threads i = some t → t.call.action.handle = some c → Backed S cfg.world.objects c

/-- A handle is backed by what its scan read, or like the handle that was renewed. -/
lemma backed_of_handed (hw : w.log = []) (hrun : machine.Run (working S F) (Machine.initial w) cfg)
    (hgiven : Given S cfg) (hc : Handed cfg c) : Backed S cfg.world.objects c := by
  obtain ⟨i, call, out, hret, hmem⟩ := hc
  obtain ⟨-, ⟨_, hsite, -⟩, -⟩ := (run_accounted (A := fun _ _ => True) (fun _ _ _ _ => .any _) hw
    hrun).2 i _ hret
  rcases (run_answers (fun _ _ call _ => holds_asks call) hw hrun hret out rfl c hmem).1 with
    ⟨_, -, job, ⟨obj, hread, hdec⟩, hpayload⟩ | ⟨c0, hrenew, hcont⟩
  · subst hsite
    obtain ⟨stored, hget, rfl⟩ := (lasting (job_authoritative c.shard c.jobId)).got hw hrun hread
    exact ⟨job, recordAt_of_decode hget hdec, call.queue, rfl, hpayload⟩
  · have hhandle : call.action.handle = some c0 := by rw [hrenew]; rfl
    obtain ⟨job, hjob, q, hq, hpayload⟩ := hgiven i _ c0 hret hhandle
    rw [← hcont.shard, ← hcont.jobId] at hjob
    exact ⟨job, hjob, q, hq, hcont.payload ▸ hpayload⟩

lemma run_given (hw : w.log = []) (hrun : machine.Run (working S F) (Machine.initial w) cfg) : Given S cfg := by
  have hthreads : ∀ i t, cfg.threads i = some t → ∀ c, t.call.action.handle = some c →
      Backed S cfg.world.objects c := by
    refine run_threads (Φ := fun cfg call => ∀ c, call.action.handle = some c →
      Backed S cfg.world.objects c) (fun cfg i call hbefore hall hadm c hc => ?_)
      (fun cfg cfg' call hbefore hstep h c hc => (h c hc).run hw hbefore (.single hstep)) hrun
    exact backed_of_handed hw hbefore (fun i t c ht hc => hall i t ht c hc) (hadm.2.2.2 c hc)
  exact fun i t c ht hc => hthreads i t ht c hc

/-- **Every handle of a run is backed.** -/
theorem run_backed (hw : w.log = []) (hrun : machine.Run (working S F) (Machine.initial w) cfg)
    (hc : Handed cfg c) : Backed S cfg.world.objects c :=
  backed_of_handed hw hrun (run_given hw hrun) hc

/-- The bytes that the payload reference of a claim names. -/
def PayloadAt (objs : Objects) (c : Claim) (bytes : Bytes) : Prop :=
  match c.payload with
  | .inline b => bytes = b
  | .detached key digest length => (∃ stored, objs.get? key = some stored ∧ stored.body = bytes) ∧
      Sha256.digest bytes = digest ∧ UInt64.ofNat bytes.length = length

/-- **The payload of every handle can be had.** -/
theorem run_payloadAt (hfresh : Intake.Fresh S w)
    (hrun : machine.Run (working S F) (Machine.initial w) cfg) (hc : Handed cfg c)
    (hapart : Intake.PayloadsApart cfg.world.log) : ∃ bytes, PayloadAt cfg.world.objects c bytes := by
  obtain ⟨job, hjob, q, rfl, hpayload⟩ := run_backed hfresh.log hrun hc
  unfold PayloadAt
  rcases payload_cases hpayload with ⟨bytes, -, hinline⟩ | ⟨-, rel, hrel, hdetached⟩
  · rw [hinline]
    exact ⟨bytes, rfl⟩
  · rw [hdetached]
    obtain ⟨stored, hget, hdigest, hlength⟩ := Intake.run_detached hfresh (offering_of_working hrun) hjob hrel
    exact ⟨stored.body, ⟨stored, hget, rfl⟩, hdigest, hlength hapart⟩

end Handles

end Delivery
end StowQ
