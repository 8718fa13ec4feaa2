import StowQ.Core.Space
import StowQ.Core.Upkeep
import StowQ.History

/-!
# The planes an operation writes to

Every operation but garbage collection adds objects only in planes that depend on the
operation alone; what it overwrites are tail hints and the watermark, and what it deletes are
entries of the lease and delay indexes.  The analyses of single planes start from here: an
operation that stays off a plane needs no further look.
-/

namespace StowQ
namespace Interleaving

open Data StowQ.Core Store Format Concurrent Keys

variable {body : Bytes} {action : Action} {key : Str} {k : Key} {o : Op} {s : UInt16} {j : ByteArr 16}

/-- The planes an operation creates objects in. -/
def Action.planes : Action → List Str
  | .enqueue _ => [payloadsSeg, jobsSeg, delayedSeg]
  | .claim _ | .claimMany _ _ =>
    [claimsSeg, leasesSeg, tailsSeg, deadSeg, termidxSeg, metaSeg]
  | .renew _ => [claimsSeg, tailsSeg]
  | .commitOutput .. => [outputsSeg]
  | .ack .. => [receiptsSeg, termidxSeg, metaSeg]
  | .nack .. => [failsSeg, delayedSeg]
  | .bury .. => [deadSeg, termidxSeg, metaSeg]
  | .establishFloor => [metaSeg]
  | .advanceWatermark _ => [metaSeg]
  | .sweepExpiredLeases _ | .sweepDelayed _ => []
  | .repairScan _ => [delayedSeg, leasesSeg, termidxSeg, quarantineSeg]
  | .gc .. => []

/-- The objects that are overwritten: the watermark and the tail hints of jobs. -/
def Rewritten (S : Site) (key : Str) : Prop := key = S.absolute .watermark ∨ ∃ s j, key = S.absolute (.tail s j)

/-- The planes of those objects. -/
def overwritten : List Str := [tailsSeg, metaSeg]

/-- The planes from which sweeps delete. -/
def swept : List Str := [leasesSeg, delayedSeg]

/-- Requests that create in the given planes, overwrite the watermark and tail hints, and delete in the
planes of the two indexes. -/
def Within (S : Site) (planes : List Str) : Op → Prop
  | .store (.putIfAbsent key _ _) => ∃ plane ∈ planes, S.plane key = some plane
  | .store (.cas key _ _ _) => Rewritten S key
  | .store (.delete key) => ∃ plane ∈ swept, S.plane key = some plane
  | _ => True

/-- A key whose object only a collection changes or deletes: it is neither the watermark nor a tail hint, and
outside the planes of the lease and delay indexes. -/
def Protected (S : Site) (key : Str) : Prop := ¬ Rewritten S key ∧ ∀ plane ∈ swept, S.plane key ≠ some plane

section Within

variable {S : Site} {planes : List Str}

lemma Within.absolute (h : planeOf k ∈ planes) : ∃ plane ∈ planes, S.plane (S.absolute k) = some plane :=
  ⟨planeOf k, h, plane_absolute S k⟩

lemma plane_output (jobId : ByteArr 16) (name : Str) :
    S.plane (S.dir [outputsSeg, hex jobId.toList] ++ name) = some outputsSeg := by
  have hsegs : ∀ s ∈ [outputsSeg, hex jobId.toList], '/' ∉ s := by
    have hhex := slash_not_mem_hex jobId.toList
    simp [outputsSeg, hhex]
  exact S.plane_of_dir hsegs (List.prefix_append _ _)

lemma Within.ne_put {digest : Digest} (h : Within S planes o) (hk : planeOf k ∉ planes) :
    o ≠ .store (.putIfAbsent (S.absolute k) body digest) := by
  rintro rfl
  obtain ⟨plane, hmem, hplane⟩ := h
  rw [plane_absolute] at hplane
  exact hk (Option.some.inj hplane ▸ hmem)

lemma Rewritten.plane (h : Rewritten S key) : ∃ plane ∈ overwritten, S.plane key = some plane := by
  rcases h with rfl | ⟨s, j, rfl⟩ <;> exact Within.absolute (by simp [planeOf, overwritten])

lemma protected_of_plane {plane : Str} (hplane : S.plane key = some plane)
    (hmem : plane ∉ overwritten ++ swept) : Protected S key := by
  have hne : ∀ {plane'}, S.plane key = some plane' → plane' ∉ overwritten ++ swept :=
    fun hplane' => Option.some.inj (hplane.symm.trans hplane') ▸ hmem
  refine ⟨fun hkey => ?_, fun plane' hmem' hplane' => hne hplane' (List.mem_append_right _ hmem')⟩
  obtain ⟨plane', hmem', hplane'⟩ := hkey.plane
  exact hne hplane' (List.mem_append_left _ hmem')

lemma Within.preserves_key (h : Within S planes o) (hkey : Protected S key) : Preserves key o := by
  refine ⟨?_, fun body sha256 version => ?_⟩
  · rintro rfl
    obtain ⟨plane, hmem, hplane⟩ := h
    exact hkey.2 plane hmem hplane
  · rintro rfl
    exact hkey.1 h

lemma Within.preserves (h : Within S planes o) (hk : planeOf k ∉ overwritten ++ swept) :
    Preserves (S.absolute k) o :=
  h.preserves_key (protected_of_plane (plane_absolute S k) hk)

end Within

/-! ## What an operation creates -/

section Creates

variable [Sha256] {q : Queue}

/-- The objects an operation creates. -/
inductive Creates (q : Queue) : Action → Str → Bytes → Prop
  | payload {input : EnqueueInput} (j : ByteArr 16) : Creates q (.enqueue input)
      (q.absolute (.payload j (Sha256.digest input.payload))) input.payload
  | job {input : EnqueueInput} (j : ByteArr 16) : Creates q (.enqueue input)
      (q.absolute (.job (q.shardOf j) j))
      (q.encodeAt (.job (q.shardOf j) j) (.job (q.jobRecord input j)))
  | delay {input : EnqueueInput} (b : UInt64) (s : UInt16) (j : ByteArr 16) :
      Creates q (.enqueue input) (q.absolute (.delayIndex b s j)) []
  | claim {opts : ClaimOptions} {s : UInt16} {j : ByteArr 16} {k : Key} {body : Bytes}
      (h : Footprint.ProbePut q s j k body) : Creates q (.claim opts) (q.absolute k) body
  | claimMany {opts : ClaimOptions} {max : Nat} {s : UInt16} {j : ByteArr 16} {k : Key}
      {body : Bytes} (h : Footprint.ProbePut q s j k body) :
      Creates q (.claimMany opts max) (q.absolute k) body
  | continuation {c : Claim} : Creates q (.renew c)
      (q.absolute (.claim c.shard c.jobId (c.generation + 1).toUInt32))
      (q.encodeAt (.claim c.shard c.jobId (c.generation + 1).toUInt32)
        (.claim (q.continuationRecord c)))
  | hint {c : Claim} (body : Bytes) : Creates q (.renew c) (q.absolute (.tail c.shard c.jobId)) body
  | output {c : Claim} {name : Str} {body : Bytes} : Creates q (.commitOutput c name body)
      (q.outputsPrefix c.jobId ++ name) body
  | receipt {c : Claim} {outputs : List CommittedOutput} (digest : Digest) :
      Creates q (.ack c outputs) (q.absolute (.receipt c.shard c.jobId))
        (q.encodeAt (.receipt c.shard c.jobId) (.receipt (q.receiptRecord c digest outputs)))
  | receiptIndex {c : Claim} {outputs : List CommittedOutput} (b : UInt64) :
      Creates q (.ack c outputs) (q.absolute (.termIndex b .receipt c.shard c.jobId)) []
  | receiptBeacon {c : Claim} {outputs : List CommittedOutput} (n : ByteArr 16) :
      Creates q (.ack c outputs) (q.absolute (.beacon n)) []
  | fail {c : Claim} {reason floorNs : UInt64} (notBefore : UInt64) :
      Creates q (.nack c reason floorNs) (q.absolute (.fail c.shard c.jobId c.generation.toUInt32))
        (q.encodeAt (.fail c.shard c.jobId c.generation.toUInt32)
          (.fail ⟨c.jobId, c.generation, reason, c.attempt, notBefore⟩))
  | failIndex {c : Claim} {reason floorNs : UInt64} (b : UInt64) :
      Creates q (.nack c reason floorNs) (q.absolute (.delayIndex b c.shard c.jobId)) []
  | dead {c : Claim} {reason : UInt64} : Creates q (.bury c reason)
      (q.absolute (.dead c.shard c.jobId)) (q.encodeAt (.dead c.shard c.jobId)
        (.dead ⟨c.jobId, c.generation, c.attempt, reason⟩))
  | deadIndex {c : Claim} {reason : UInt64} (b : UInt64) :
      Creates q (.bury c reason) (q.absolute (.termIndex b .dead c.shard c.jobId)) []
  | deadBeacon {c : Claim} {reason : UInt64} (n : ByteArr 16) :
      Creates q (.bury c reason) (q.absolute (.beacon n)) []
  | beacon (n : ByteArr 16) : Creates q .establishFloor (q.absolute (.beacon n)) []
  | watermark {floorNs : UInt64} (w : WatermarkRecord) : Creates q (.advanceWatermark floorNs)
      (q.absolute .watermark) (q.encodeAt .watermark (.watermark w))
  | repair {startShard : UInt16} {k : Key} {body : Bytes} (h : Footprint.RepairPut q k body) :
      Creates q (.repairScan startShard) (q.absolute k) body

/-- The requests of an operation other than a collection: reads, creates, overwrites of hints
and of the watermark, deletes of index entries. -/
def Acts (q : Queue) (action : Action) : Op → Prop
  | .store (.putIfAbsent key body sha256) => sha256 = Sha256.digest body ∧ Creates q action key body
  | .store (.cas key _ _ _) => Rewritten q.site key
  | .store (.delete key) => ∃ plane ∈ swept, q.site.plane key = some plane
  | _ => True

omit [Sha256] in
lemma swept_of_dir {seg : Str} (hseg : seg ∈ swept) (key : Str) (hkey : q.under [seg] <+: key) :
    ∃ plane ∈ swept, q.site.plane key = some plane := by
  refine ⟨seg, hseg, q.site.plane_of_dir (fun s hs => ?_) hkey⟩
  obtain rfl := List.mem_singleton.mp hs
  simp only [swept, List.mem_cons, List.not_mem_nil, or_false] at hseg
  rcases hseg with rfl | rfl <;> decide

lemma tame_acts : Tame (Acts q action) where
  freshToken := trivial
  cachedFloor _ := trivial
  cacheFloor _ _ := trivial
  isMemoizedTerminal _ _ _ _ := trivial
  head _ := trivial
  list _ _ _ := trivial

/-- **What an operation does to the store.** -/
theorem Action.acts (action : Action) (hgc : ∀ a b c, action ≠ .gc a b c) :
    Budgeted.Emits (Acts q action) (action.task q) := by
  have done : ∀ {α : Type} {m : Routine α} {f : α → Output}, Budgeted.Emits (Acts q action) m →
      Budgeted.Emits (Acts q action) (m >>= fun a => pure (f a)) :=
    fun hm => hm.bind fun _ => Budgeted.Keeps.pure _
  have htail : ∀ {s : UInt16} {j : ByteArr 16}, Rewritten q.site (q.absolute (.tail s j)) := .inr ⟨_, _, rfl⟩
  have hread : Footprint.Reading (Acts q action) := ⟨tame_acts, fun _ => trivial⟩
  cases action with
  | enqueue input =>
    exact done (Footprint.enqueue tame_acts (fun j => ⟨rfl, .payload j⟩) (fun j => ⟨rfl, .job j⟩)
      (fun _ => trivial) fun b s j => ⟨rfl, .delay b s j⟩)
  | claim opts =>
    exact done (Footprint.claim (fun s j =>
      ⟨⟨tame_acts, fun _ => trivial⟩, fun k body h => ⟨rfl, .claim h⟩, fun _ _ => htail⟩) fun _ _ _ _ => trivial)
  | claimMany opts max =>
    exact done (Footprint.claimMany (fun s j =>
      ⟨⟨tame_acts, fun _ => trivial⟩, fun k body h => ⟨rfl, .claimMany h⟩, fun _ _ => htail⟩) fun _ _ _ _ => trivial)
  | renew c =>
    exact done (Footprint.renew tame_acts ⟨rfl, .continuation⟩ (fun _ => trivial)
      (fun body => ⟨rfl, .hint body⟩) fun _ _ => htail)
  | commitOutput c name body => exact done (Footprint.commitOutput ⟨rfl, .output⟩ trivial)
  | ack c outputs =>
    exact done (Footprint.ack tame_acts (fun _ => trivial) (fun d => ⟨rfl, .receipt d⟩)
      (fun n => ⟨rfl, .receiptBeacon n⟩) fun b => ⟨rfl, .receiptIndex b⟩)
  | nack c reason floorNs =>
    exact done (f := fun _ => Output.nack) (Footprint.nack tame_acts (fun t _ => ⟨rfl, .fail t⟩) trivial
      fun b => ⟨rfl, .failIndex b⟩)
  | bury c reason =>
    exact done (Footprint.bury tame_acts ⟨rfl, .dead⟩ trivial trivial
      (fun n => ⟨rfl, .deadBeacon n⟩) fun b => ⟨rfl, .deadIndex b⟩)
  | establishFloor =>
    exact done (Footprint.establishFloor tame_acts (fun n => ⟨rfl, .beacon n⟩) trivial)
  | advanceWatermark floorNs =>
    exact done (f := fun _ => Output.advanceWatermark) (Footprint.advanceWatermark trivial trivial
      (fun _ _ _ => ⟨rfl, .watermark _⟩) (fun _ _ _ _ => .inl rfl) fun _ _ => trivial)
  | sweepExpiredLeases floorNs =>
    exact done (Footprint.sweepExpiredLeases hread (swept_of_dir (by decide)))
  | sweepDelayed floorNs => exact done (Footprint.sweepDelayed hread (swept_of_dir (by decide)))
  | repairScan startShard =>
    exact (Footprint.repairScan hread fun k body h => ⟨rfl, .repair h⟩).bind
      fun _ => Budgeted.Keeps.pure _
  | gc a b c => exact absurd rfl (hgc a b c)

lemma Creates.plane (h : Creates q action key body) : ∃ plane ∈ action.planes, q.site.plane key = some plane := by
  have hkey : ∀ {planes : List Str} {k : Key}, planeOf k ∈ planes →
      ∃ plane ∈ planes, q.site.plane (q.absolute k) = some plane := fun hk => Within.absolute hk
  cases h with
  | output => exact ⟨outputsSeg, List.mem_singleton_self _, plane_output _ _⟩
  | claim h => cases h <;> exact hkey (by simp [planeOf, Action.planes])
  | claimMany h => cases h <;> exact hkey (by simp [planeOf, Action.planes])
  | repair h => cases h <;> exact hkey (by simp [planeOf, Action.planes])
  | _ => exact hkey (by simp [planeOf, Action.planes])

/-- **Every operation stays within its planes.** -/
theorem Action.within (action : Action) (hgc : ∀ a b c, action ≠ .gc a b c) :
    Budgeted.Emits (Within q.site action.planes) (action.task q) := by
  refine (action.acts hgc).weaken (fun o ho => ?_) fun _ h => h
  cases o with
  | store r =>
    cases r with
    | putIfAbsent key body sha256 => exact ho.2.plane
    | cas key body sha256 ifMatch => exact ho
    | delete key => exact ho
    | _ => trivial
  | _ => trivial

omit [Sha256] in
/-- Outputs are at no key of the queue's own. -/
lemma absolute_ne_output (k : Key) (j : ByteArr 16) (name : Str) : q.absolute k ≠ q.outputsPrefix j ++ name := by
  intro heq
  have hplane : planeOf k = outputsSeg := Option.some.inj
    ((plane_absolute q.site k).symm.trans ((congrArg q.site.plane heq).trans (plane_output j name)))
  cases k <;> simp [planeOf, outputsSeg, jobsSeg, payloadsSeg, claimsSeg, failsSeg,
    leasesSeg, delayedSeg, receiptsSeg, deadSeg, termidxSeg,
    quarantineSeg, tailsSeg, metaSeg] at hplane

/-- Outputs apart, an operation creates objects at keys of the queue's own. -/
lemma Creates.canonical (h : Creates q action key body) (hkey : q.site.plane key ≠ some outputsSeg) :
    ∃ k, key = q.absolute k := by
  cases h with
  | output => exact absurd (plane_output _ _) hkey
  | _ => exact ⟨_, rfl⟩

/-- Who creates a claim: a scan takes over, a renewal continues. -/
lemma Creates.claim_inv {g : UInt32} (h : Creates q action (q.absolute (.claim s j g)) body) :
    (∃ opts tail token, body = q.encodeAt (.claim s j g) (.claim (q.takeoverRecord j opts tail token))) ∨
    ∃ c, action = .renew c ∧ c.shard = s ∧ c.jobId = j ∧ (c.generation + 1).toUInt32 = g ∧
      body = q.encodeAt (.claim s j g) (.claim (q.continuationRecord c)) := by
  generalize hkey : q.absolute (.claim s j g) = key at h
  cases h with
  | claim h =>
    cases h <;> cases q.site.absolute_inj.mp hkey
    exact .inl ⟨_, _, _, rfl⟩
  | claimMany h =>
    cases h <;> cases q.site.absolute_inj.mp hkey
    exact .inl ⟨_, _, _, rfl⟩
  | continuation =>
    cases q.site.absolute_inj.mp hkey
    exact .inr ⟨_, rfl, rfl, rfl, rfl, rfl⟩
  | repair h => cases h <;> cases q.site.absolute_inj.mp hkey
  | output => exact absurd hkey (absolute_ne_output _ _ _)
  | _ => cases q.site.absolute_inj.mp hkey

lemma Creates.dead_inv (h : Creates q action (q.absolute (.dead s j)) body) :
    ∃ d, body = q.encodeAt (.dead s j) (.dead d) := by
  generalize hkey : q.absolute (.dead s j) = key at h
  cases h with
  | claim h =>
    cases h <;> cases q.site.absolute_inj.mp hkey
    exact ⟨_, rfl⟩
  | claimMany h =>
    cases h <;> cases q.site.absolute_inj.mp hkey
    exact ⟨_, rfl⟩
  | dead =>
    cases q.site.absolute_inj.mp hkey
    exact ⟨_, rfl⟩
  | repair h => cases h <;> cases q.site.absolute_inj.mp hkey
  | output => exact absurd hkey (absolute_ne_output _ _ _)
  | _ => cases q.site.absolute_inj.mp hkey

lemma Creates.receipt_inv (h : Creates q action (q.absolute (.receipt s j)) body) :
    ∃ c outputs digest, action = .ack c outputs ∧ c.shard = s ∧ c.jobId = j ∧
      body = q.encodeAt (.receipt s j) (.receipt (q.receiptRecord c digest outputs)) := by
  generalize hkey : q.absolute (.receipt s j) = key at h
  cases h with
  | claim h => cases h <;> cases q.site.absolute_inj.mp hkey
  | claimMany h => cases h <;> cases q.site.absolute_inj.mp hkey
  | receipt digest =>
    cases q.site.absolute_inj.mp hkey
    exact ⟨_, _, digest, rfl, rfl, rfl, rfl⟩
  | repair h => cases h <;> cases q.site.absolute_inj.mp hkey
  | output => exact absurd hkey (absolute_ne_output _ _ _)
  | _ => cases q.site.absolute_inj.mp hkey

end Creates

variable [Sha256]

/-- The program of a call stays within its planes. -/
lemma Call.within {call : Call} (hgc : ∀ a b c, call.action ≠ .gc a b c) :
    call.prog.Emits (Within call.queue.site call.action.planes) :=
  ((call.action.within hgc).prog call.budget).map

/-- The program of a call preserves what is no hint, no index entry and not the watermark. -/
lemma Call.preserves {call : Call} (hgc : ∀ a b c, call.action ≠ .gc a b c)
    (hk : planeOf k ∉ overwritten ++ swept) : call.prog.Emits (Preserves (call.queue.absolute k)) :=
  (Call.within hgc).mono fun _ ho => ho.preserves hk

end Interleaving
end StowQ
