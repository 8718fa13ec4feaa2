import StowQ.Concurrent.Path
import StowQ.Core.Space
import StowQ.Core.Spending
import StowQ.Core.Upkeep
import StowQ.Listing

/-!
# What a repair scan does without paying

A repair scan reads every listed job, and probes for every index entry, without a payment.
In a store that is left alone, the scan of a shard with a record in it therefore performs
more operations than it spends (`exceeds_repairShard`).
-/

namespace StowQ
namespace Core
namespace Overrun

open Data Concurrent Store Format Keys
open Budgeted (Exceeds Emits Keeps)

variable {plane : Str} {r : Request} {σ ι : Type} {f : σ → ι → Routine σ} {objs0 : Objects}

variable [Sha256]

/-- A store that nobody else uses.  It meets a request with one of the permitted faults or with
none. -/
def alone (permits : Fault → Prop) : Service Objects Op Res where
  answers
    | .store r, objs, answer, objs' =>
      ∃ fault stamp, (∀ f, fault = some f → permits f) ∧ inject fault objs stamp r = (answer, objs')
    | _, objs, _, objs' => objs' = objs
  inv _ := True

/-- What the store assigns in the runs below. -/
def someStamp : Stamp := ⟨⟨[]⟩, 0⟩

variable {permits : Fault → Prop} {α β : Type} {u v : Nat} {m : Routine α}

lemma answers_plain (r : Request) (objs : Objects) : (alone permits).answers (.store r) objs
    (perform objs someStamp r).1 (perform objs someStamp r).2 :=
  ⟨none, someStamp, nofun, rfl⟩

/-- From every store on, `m` can return with at least `u` operations more than it has spent. -/
def Ahead (permits : Fault → Prop) (m : Routine α) (u : Nat) : Prop :=
  ∀ objs, Exceeds (alone permits) storeOps m u (fun _ _ => True) objs

namespace Ahead

lemma mono (h : Ahead permits m u) (hv : v ≤ u) : Ahead permits m v :=
  fun objs => (h objs).mono hv fun _ _ _ => trivial

lemma pure (a : α) : Ahead permits (Pure.pure a : Routine α) 0 := fun _ => Exceeds.pure trivial

lemma bind {f : α → Routine β} (h : Ahead permits m u) (hf : ∀ a, Ahead permits (f a) v) :
    Ahead permits (m >>= f) (u + v) :=
  fun objs => (h objs).bind fun a objs' _ => hf a objs'

/-- A routine that ends in a value that is passed on. -/
lemma last {f : α → β} (h : Ahead permits m u) : Ahead permits (m >>= fun a => Pure.pure (f a)) u :=
  h.bind fun _ => pure _

lemma andThen {f : α → Routine β} (h : Ahead permits m 0) (hf : ∀ a, Ahead permits (f a) v) :
    Ahead permits (m >>= f) v :=
  fun objs => (h objs).andThen fun a objs' _ => hf a objs'

lemma unpaid {f : StoreResult r.Answer → Routine β}
    (hf : ∀ objs, Ahead permits (f (perform objs someStamp r).1) u) :
    Ahead permits (Routine.store r >>= f) (u + 1) :=
  fun objs => Exceeds.request (o := Op.store r) (answers_plain r objs) (hf objs _)

lemma paid {f : StoreResult r.Answer → Routine β}
    (hf : ∀ objs, Ahead permits (f (perform objs someStamp r).1) u) :
    Ahead permits (Routine.spend >>= fun _ => Routine.store r >>= f) u :=
  fun objs => Exceeds.spend (unpaid hf objs)

lemma foldM {weight : ι → Nat} (h : ∀ s x, Ahead permits (f s x) (weight x)) (s : σ) (xs : List ι) :
    Ahead permits (Budgeted.foldM f s xs) (xs.map weight).sum :=
  fun _ => Exceeds.foldM (fun s x _ objs _ => h s x objs) trivial

lemma foldAny {s : σ} {xs : List ι} (h : Ahead permits (Budgeted.foldM f s xs) u) :
    Ahead permits (Budgeted.foldAny f s xs) u :=
  fun objs => (h objs).foldAny

lemma foldM_zero (h : ∀ s x, Ahead permits (f s x) 0) (s : σ) (xs : List ι) :
    Ahead permits (Budgeted.foldM f s xs) 0 :=
  (foldM h s xs).mono (Nat.zero_le _)

end Ahead

/-! ## The routines of the scan -/

/-- A create with the body's own digest is answered. -/
lemma put_answered (objs : Objects) (key : Str) (body : Bytes) :
    ∃ outcome, (perform objs someStamp (.putIfAbsent key body (Sha256.digest body))).1 = .ok outcome := by
  show ∃ outcome, (putIfAbsent objs someStamp key body (Sha256.digest body)).1 = .ok outcome
  unfold putIfAbsent
  rw [if_neg (not_not.mpr rfl)]
  cases objs.get? key with
  | none => exact ⟨_, rfl⟩
  | some stored => exact ⟨_, rfl⟩

lemma ahead_putBytesResolving (abs : Str) (body : Bytes) :
    Ahead permits (Queue.putBytesResolving abs body (Sha256.digest body)) 0 := by
  intro objs
  apply Exceeds.retry
  apply Exceeds.spend
  apply Exceeds.request (o := Op.store _) (u := 0) (answers_plain _ objs)
  obtain ⟨outcome, houtcome⟩ := put_answered objs abs body
  rw [houtcome]
  exact Exceeds.pure ⟨(), rfl, trivial⟩

variable {q : Queue}

lemma ahead_writeQuarantine (relKey : Str) (reason observed : UInt64) (detail : Option UInt64) :
    Ahead permits (q.writeQuarantine relKey reason observed detail) 0 := by
  unfold Queue.writeQuarantine
  split
  · exact Ahead.pure _
  · rw [Math.bucketNumber, if_neg q.terminalBucketWidth_ne_zero]
    exact (Ahead.pure _).andThen fun _ => ahead_putBytesResolving _ _

lemma ahead_finding {relKey : Str} {reason observed : UInt64} {detail : Option UInt64} (a : α) : Ahead permits (do
      q.writeQuarantine relKey reason observed detail
      pure a) 0 :=
  (ahead_writeQuarantine _ _ _ _).andThen fun _ => Ahead.pure _

omit [Sha256] in
/-- A read is answered with the object, or that there is none. -/
lemma head_answered [Sha256] (objs : Objects) (key : Str) :
    (∃ info, (perform objs someStamp (.head key)).1 = .ok info) ∨
      (perform objs someStamp (.head key)).1 = .error .notFound := by
  show (∃ info, head objs key = .ok info) ∨ head objs key = .error .notFound
  unfold head
  cases objs.get? key with
  | none => exact .inr rfl
  | some stored => exact .inl ⟨_, rfl⟩

omit [Sha256] in
lemma get_answered [Sha256] (objs : Objects) (key : Str) :
    (∃ obj, (perform objs someStamp (.get key)).1 = .ok obj) ∨
      (perform objs someStamp (.get key)).1 = .error .notFound := by
  show (∃ obj, Store.get objs key = .ok obj) ∨ Store.get objs key = .error .notFound
  unfold Store.get
  cases objs.get? key with
  | none => exact .inr rfl
  | some stored => exact .inl ⟨_, rfl⟩

/-- The probe for an index entry is not paid for. -/
lemma ahead_ensureIndex (index : Str) : Ahead permits (Queue.ensureIndex index) 1 := by
  apply Ahead.unpaid (r := .head index) (u := 0)
  intro objs
  obtain ⟨info, h⟩ | h := head_answered objs index
  · rw [h]
    exact Ahead.pure _
  · rw [h]
    exact Ahead.paid fun _ => Ahead.pure _

lemma ahead_checkPayload (report : RepairReport) (job : JobRecord) (observed : UInt64) :
    Ahead permits (q.checkPayload report job observed) 0 := by
  unfold Queue.checkPayload
  split
  · exact Ahead.pure _
  · next pk _ =>
      apply Ahead.paid (r := .head (q.root ++ pk))
      intro objs
      obtain ⟨info, h⟩ | h := head_answered objs (q.root ++ pk)
      · rw [h]
        exact Ahead.pure _
      · rw [h]
        exact ahead_finding _

variable {shard : UInt16} {jobId : ByteArr 16}

lemma ahead_restoreDelay (report : RepairReport) (job : JobRecord) :
    Ahead permits (q.restoreDelay shard jobId report job) 0 := by
  unfold Queue.restoreDelay
  split
  · exact Ahead.pure _
  split
  · exact Ahead.pure _
  · exact (ahead_ensureIndex _).last.mono (Nat.zero_le 1)

/-- The read of a listed job is not paid for. -/
lemma ahead_repairJob (report : RepairReport) (item : Listing) :
    Ahead permits (q.repairJob shard jobId report item) 1 := by
  apply Ahead.unpaid (r := .get (q.absolute (.job shard jobId))) (u := 0)
  intro objs
  obtain ⟨obj, h⟩ | h := get_answered objs (q.absolute (.job shard jobId))
  · rw [h]
    dsimp only
    split
    · exact (ahead_checkPayload _ _ _).andThen fun report => ahead_restoreDelay _ _
    · exact ahead_finding _
    · exact ahead_finding _
  · rw [h]
    exact Ahead.pure _

/-- Whether a listed key is in a plane. -/
def weight (q : Queue) (plane : Str) (item : Listing) : Nat :=
  ((q.parseRel item.key).any fun k => planeOf k = plane).toNat

lemma ahead_repairJobs (state : RepairReport × List (ByteArr 16)) (item : Listing) :
    Ahead permits (q.repairJobs shard state item) (weight q jobsSeg item) := by
  unfold Queue.repairJobs weight
  dsimp only
  cases q.parseRel item.key with
  | none => exact (ahead_finding _).last
  | some k =>
    cases k with
    | job s j => exact (ahead_repairJob _ _).last
    | _ => exact (ahead_finding _).last

/-! ## Claim chains -/

lemma ahead_auditRecord (state : RepairReport × List (Option ClaimRecord)) (link : UInt64 × Meta) :
    Ahead permits (q.auditRecord shard jobId state link) 0 := by
  apply Ahead.paid (r := .get (q.absolute (.claim shard jobId link.1.toUInt32)))
  intro objs
  obtain ⟨obj, h⟩ | h := get_answered objs (q.absolute (.claim shard jobId link.1.toUInt32))
  · rw [h]
    dsimp only
    split
    · exact Ahead.pure _
    · exact (ahead_finding _).last
    · exact (ahead_finding _).last
  · rw [h]
    exact Ahead.pure _

lemma ahead_auditClaimChain (chain : Links) (report : RepairReport) :
    Ahead permits (q.auditClaimChain shard jobId chain report) 0 := by
  apply (Ahead.foldM_zero _ _ _).andThen
  · intro report
    apply Ahead.andThen
    · unfold Queue.auditHead
      split
      · exact ahead_finding _
      · exact Ahead.pure _
    intro report
    apply (Ahead.foldM_zero (fun state link => ahead_auditRecord state link) _ _).andThen
    intro state
    apply Ahead.last
    apply Ahead.foldM_zero
    intro report pair
    unfold Queue.auditEvidence
    split
    · split
      · exact Ahead.pure _
      · exact ahead_finding _
    · exact Ahead.pure _
  · intro report pair
    unfold Queue.auditContiguity
    split
    · exact ahead_finding _
    · exact Ahead.pure _

lemma ahead_restoreLease (report : RepairReport) (tailGen : UInt64) (tailMeta : Meta) (tailDuration : UInt64) :
    Ahead permits (q.restoreLease shard jobId report tailGen tailMeta tailDuration) 1 := by
  unfold Queue.restoreLease
  rw [Math.bucketNumber, if_neg q.leaseBucketWidth_ne_zero]
  exact (ahead_ensureIndex _).last

lemma ahead_repairChain (jobIds : List (ByteArr 16)) (report : RepairReport) (chain : ByteArr 16 × Links) :
    Ahead permits (q.repairChain shard jobIds report chain) 1 := by
  apply (ahead_auditClaimChain _ _).andThen
  intro out
  dsimp only
  split
  · exact (ahead_writeQuarantine _ _ _ _).andThen fun _ => ahead_restoreLease _ _ _ _
  · exact ahead_restoreLease _ _ _ _

lemma ahead_repairChains (jobIds : List (ByteArr 16)) (report : RepairReport)
    (chains : List (ByteArr 16 × Links)) :
    Ahead permits (Budgeted.foldAny (q.repairChain shard jobIds) report chains) chains.length := by
  have hsum : (chains.map fun _ => 1).sum = chains.length := by simp
  rw [← hsum]
  exact (Ahead.foldM (ahead_repairChain jobIds) report chains).foldAny

/-! ## Terminal records -/

lemma ahead_repairTerminal (hplane : plane = receiptsSeg ∨ plane = deadSeg)
    (state : RepairReport × List (ByteArr 16 × UInt64)) (item : Listing) :
    Ahead permits (q.repairTerminal shard state item) (weight q plane item) := by
  unfold Queue.repairTerminal weight
  rw [Math.bucketNumber, if_neg q.terminalBucketWidth_ne_zero]
  cases q.parseRel item.key with
  | none => exact (ahead_finding _).last
  | some k =>
    cases k with
    | receipt s j => exact (ahead_ensureIndex _).last.mono (Bool.toNat_le _)
    | dead s j => exact (ahead_ensureIndex _).last.mono (Bool.toNat_le _)
    | _ => obtain rfl | rfl := hplane <;> exact (ahead_finding _).last

/-! ## Listings -/

/-- A walk with the store to itself collects what is there. -/
lemma exceeds_listAuthoritative (pre : Str) (objs : Objects) :
    Exceeds (alone permits) storeOps (Queue.listAuthoritative pre) 0
      (fun items objs' => items = remaining objs pre none ∧ objs' = objs) objs := by
  unfold Queue.listAuthoritative Routine.pages
  refine Exceeds.loop (t := (([], none) : List Listing × Option Str))
    (fun (x : List Listing × Option Str) objs' =>
      x.1 ++ remaining objs pre x.2 = remaining objs pre none ∧ objs' = objs)
    (fun x => (remaining objs pre x.2).length) (fun x objs' hx => ?_) ⟨rfl, rfl⟩
  obtain ⟨items, after⟩ := x
  obtain ⟨hseen, rfl⟩ := hx
  refine ⟨_, _, rfl, Exceeds.request (o := Op.store (.list pre after 64)) (u := 0) (answers_plain _ objs') ?_⟩
  refine Exceeds.andThen (M := fun page objs1 => page = listPage objs' pre after 64 ∧ objs1 = objs')
    (Exceeds.pure ⟨rfl, rfl⟩) ?_
  rintro page objs1 ⟨rfl, rfl⟩
  split
  · next hempty =>
      refine Exceeds.pure ⟨?_, rfl⟩
      have hnil : (listPage objs1 pre after 64).items = [] := by simpa using hempty
      rw [items_listPage, List.take_eq_nil_iff] at hnil
      rw [← hseen, hnil.resolve_left (by decide), List.append_nil]
  · rw [Budgeted.foldM_pure, foldl_concat]
    refine Exceeds.andThen (M := fun all objs' => all = items ++ (listPage objs1 pre after 64).items ∧ objs' = objs1)
      (Exceeds.pure ⟨rfl, rfl⟩) ?_
    rintro all objs' ⟨rfl, rfl⟩
    cases hnext : (listPage objs' pre after 64).nextAfter with
    | none =>
      refine Exceeds.pure ⟨?_, rfl⟩
      rw [items_last (by decide) hnext, hseen]
    | some k =>
      refine Exceeds.pure ⟨⟨?_, rfl⟩, ?_⟩
      · rw [List.append_assoc, items_listPage, remaining_next hnext, List.take_append_drop, hseen]
      · have hlong : 64 < (remaining objs' pre after).length := by
          rw [nextAfter_listPage] at hnext
          by_contra hshort
          rw [if_neg hshort] at hnext
          cases hnext
        show (remaining objs' pre (some k)).length < (remaining objs' pre after).length
        rw [remaining_next hnext, List.length_drop]
        omega

omit [Sha256] in
/-- A listed claim starts a chain, or is added to one. -/
lemma addLink_ne_nil (chains : List (ByteArr 16 × Links)) (jobId : ByteArr 16) (link : UInt64 × Meta) :
    addLink chains jobId link ≠ [] := by
  unfold addLink
  split
  · next h =>
      intro hnil
      rw [List.map_eq_nil_iff.mp hnil] at h
      cases h
  · simp

lemma exceeds_collectChain (state : RepairReport × List (ByteArr 16 × Links)) (item : Listing)
    (objs : Objects) : Exceeds (alone permits) storeOps (q.collectChain state item) 0
      (fun out _ => min 1 (state.2.length + weight q claimsSeg item) ≤ out.2.length) objs := by
  -- a key that is no claim's leaves the chains as they are
  have hother : Exceeds (alone permits) storeOps (do
      let report ← q.findGrammar state.1 item
      pure (report, state.2)) 0 (fun out _ => min 1 (state.2.length + 0) ≤ out.2.length) objs := by
    refine (ahead_finding _ objs).andThen fun report objs' _ => Exceeds.pure ?_
    exact Nat.min_le_right _ _
  unfold Queue.collectChain weight
  cases q.parseRel item.key with
  | none => exact hother
  | some k =>
    cases k with
    | claim s j g =>
      refine Exceeds.pure ?_
      have hpos := List.length_pos_of_ne_nil (addLink_ne_nil state.2 j (g.toUInt64, item.info))
      exact Nat.le_trans (Nat.min_le_left _ _) hpos
    | _ => exact hother

lemma exceeds_collectChains (items : List Listing) (state : RepairReport × List (ByteArr 16 × Links))
    (objs : Objects) : Exceeds (alone permits) storeOps (Budgeted.foldM q.collectChain state items) 0
      (fun out _ => min 1 (state.2.length + (items.map (weight q claimsSeg)).sum) ≤ out.2.length) objs := by
  induction items generalizing state objs with
  | nil => exact Exceeds.pure (Nat.min_le_right _ _)
  | cons item items ih =>
    refine (exceeds_collectChain state item objs).andThen fun next objs' hnext => ?_
    refine (ih next objs').mono (Nat.le_refl 0) fun out _ hout => ?_
    rw [List.map_cons, List.sum_cons]
    omega

/-! ## Shards -/

/-- The objects of the record planes are the same. -/
def Keeps (q : Queue) (objs objs' : Objects) : Prop :=
  ∀ key, (∃ plane ∈ Spending.recordPlanes, q.site.plane key = some plane) → objs'.get? key = objs.get? key

/-- Requests that leave the record planes as they are. -/
def Spares (permits : Fault → Prop) (q : Queue) (o : Op) : Prop :=
  ∀ objs r objs', (alone permits).answers o objs r objs' → Keeps q objs objs'

lemma spares_reads (h : r.reads = true) : Spares permits q (.store r) := by
  rintro objs answer objs' ⟨fault, stamp, -, hinject⟩ key -
  have hsame : (inject fault objs stamp r).2 = objs := inject_reads h
  rw [hinject] at hsame
  rw [show objs' = objs from hsame]

lemma spares_local {o : Op} (h : ∀ r, o ≠ .store r) : Spares permits q o := by
  intro objs answer objs' hr key _
  cases o with
  | store r => exact absurd rfl (h r)
  | _ => rw [show objs' = objs from hr]

lemma reading_spares : Footprint.Reading (Spares permits q) where
  tame := {
    freshToken := spares_local nofun
    cachedFloor := fun _ => spares_local nofun
    cacheFloor := fun _ _ => spares_local nofun
    isMemoizedTerminal := fun _ _ _ _ => spares_local nofun
    head := fun _ => spares_reads rfl
    list := fun _ _ _ => spares_reads rfl }
  get _ := spares_reads rfl

lemma spares_put (k : Key) (body : Bytes) (h : Footprint.RepairPut q k body) :
    Spares permits q (.put (q.absolute k) body) := by
  rintro objs answer objs' ⟨fault, stamp, -, hinject⟩ key ⟨plane, hplane, hkey⟩
  obtain hsame | ⟨-, hinsert⟩ := inject_put fault objs stamp (q.absolute k) body (Sha256.digest body)
  · rw [hinject] at hsame
    rw [show objs' = objs from hsame]
  · rw [hinject] at hinsert
    rw [show objs' = _ from hinsert, OrderedMap.get?_insert_of_ne]
    refine ne_absolute_of_plane hkey ?_
    rintro rfl
    cases h <;> exact absurd hplane (by simp only [planeOf]; decide)

variable {m : Routine α}

lemma spares_keep (o : Op) (objs : Objects) (r : Res o) (objs' : Objects) (ho : Spares permits q o)
    (hkeeps : Keeps q objs0 objs) (hr : (alone permits).answers o objs r objs') : Keeps q objs0 objs' :=
  fun key hkey => (ho objs r objs' hr key hkey).trans (hkeeps key hkey)

lemma Ahead.keeping {objs : Objects} (h : Ahead permits m u) (hm : Emits (Spares permits q) m)
    (hkeeps : Keeps q objs0 objs) :
    Exceeds (alone permits) storeOps m u (fun _ objs' => Keeps q objs0 objs') objs :=
  ((h objs).invariant hm spares_keep hkeeps).mono (Nat.le_refl u) fun _ _ hpost => hpost.2

/-- How many keys of a plane a shard holds. -/
def held (q : Queue) (objs : Objects) (plane : Str) (shard : UInt16) : Nat :=
  ((remaining objs (q.shardDir plane shard) none).map (weight q plane)).sum

omit [Sha256] in
lemma slash_not_mem_shardDir (hplane : plane ∈ Spending.recordPlanes) (shard : UInt16) :
    ∀ seg ∈ [plane, hex16 shard], '/' ∉ seg := by
  have hslash : ∀ seg ∈ Spending.recordPlanes, '/' ∉ seg := by decide
  intro seg hseg
  obtain rfl | hseg := List.mem_cons.mp hseg
  · exact hslash seg hplane
  · rw [List.mem_singleton.mp hseg]
    exact slash_not_mem_hex _

omit [Sha256] in
lemma plane_of_shardDir (hplane : plane ∈ Spending.recordPlanes) {key : Str}
    (h : q.shardDir plane shard <+: key) : q.site.plane key = some plane :=
  q.site.plane_of_dir (slash_not_mem_shardDir hplane shard) h

/-- The listing of a record plane, at any time of the scan. -/
lemma exceeds_records {objs : Objects} (hplane : plane ∈ Spending.recordPlanes) (hkeeps : Keeps q objs0 objs) :
    Exceeds (alone permits) storeOps (Queue.listAuthoritative (q.shardDir plane shard)) 0
      (fun items objs' => (items.map (weight q plane)).sum = held q objs0 plane shard ∧ Keeps q objs0 objs') objs := by
  refine (exceeds_listAuthoritative _ objs).mono (Nat.le_refl 0) ?_
  rintro items objs' ⟨rfl, rfl⟩
  refine ⟨?_, hkeeps⟩
  have hsame : ∀ key, q.shardDir plane shard <+: key → objs'.get? key = objs0.get? key :=
    fun key hkey => hkeeps key ⟨plane, hplane, plane_of_shardDir hplane hkey⟩
  rw [held, remaining_congr hsame]

/-- The scan of a shard performs more than it spends: one read for each job, one probe for each
terminal record, and a probe if there is a chain of claims. -/
lemma exceeds_repairShard (report : RepairReport) (objs : Objects) :
    Exceeds (alone permits) storeOps (q.repairShard shard report)
      (held q objs jobsSeg shard + (min 1 (held q objs claimsSeg shard) +
        (held q objs receiptsSeg shard + held q objs deadSeg shard))) (fun _ _ => True) objs := by
  have hr : Footprint.Reading (Spares permits q) := reading_spares
  have hput : ∀ k body, Footprint.RepairPut q k body → Spares permits q (.put (q.absolute k) body) := spares_put
  apply (exceeds_records (by decide) fun _ _ => rfl).andThen
  rintro jobs objs1 ⟨hjobs, hkeeps⟩
  rw [← hjobs]
  apply ((Ahead.foldM ahead_repairJobs _ _).keeping
    (Keeps.foldM _ (fun _ _ _ => Footprint.repairJobs hr hput) _) hkeeps).bind
  intro seen objs2 hkeeps
  apply (exceeds_records (by decide) hkeeps).andThen
  rintro claims objs3 ⟨hclaims, hkeeps⟩
  rw [← hclaims]
  apply ((exceeds_collectChains claims _ objs3).invariant
    (Keeps.foldM _ (fun _ _ _ => Footprint.collectChain hr hput) _) spares_keep hkeeps).andThen
  rintro ⟨report, chains⟩ objs4 ⟨hchains, hkeeps⟩
  simp only [List.length_nil, Nat.zero_add] at hchains
  apply (((ahead_repairChains seen.2 _ _).mono hchains).keeping
    (Keeps.foldAny _ (fun _ _ _ => Footprint.repairChain hr hput) _) hkeeps).bind
  intro report objs5 hkeeps
  apply (exceeds_records (by decide) hkeeps).andThen
  rintro receipts objs6 ⟨hreceipts, hkeeps⟩
  rw [← hreceipts]
  apply ((Ahead.foldM (ahead_repairTerminal (.inl rfl)) _ _).keeping
    (Keeps.foldM _ (fun _ _ _ => Footprint.repairTerminal hr hput) _) hkeeps).bind
  intro ended objs7 hkeeps
  apply (exceeds_records (by decide) hkeeps).andThen
  rintro dead objs8 ⟨hdead, -⟩
  rw [← hdead]
  exact (Ahead.foldM (ahead_repairTerminal (.inr rfl)) _ _).bind
    (fun buried => (Ahead.foldM_zero (fun _ _ => ahead_finding _) _ _).foldAny) objs8

end Overrun
end Core
end StowQ
