import StowQ.Scenario.Basic

/-!
# The watermark

The watermark is overwritten in place.  An advance reads the record with a GET and the version for its CAS with
a later HEAD, so the CAS is bound to the object the HEAD saw and not to the record the advance was computed
from.  Between the two another call may have advanced further, and the CAS then takes its bucket back:
`watermark_not_monotone`.  Advances are monotone as long as no HEAD meets a bucket above its caller's:
`watermark_monotone`.  Both are about every interleaving of advances, with any faults.
-/

namespace StowQ
namespace Time

open Data StowQ.Core Store Format Concurrent Interleaving

variable {w : World} {a b : Objects} {next : WatermarkRecord}

section Views

variable [Sha256] (S : Site)

/-- The stored bucket. -/
def bucketAt (objs : Objects) : Option UInt64 :=
  match recordAt S objs .watermark with
  | some (.watermark r) => some r.highestObservedWallBucket
  | _ => none

/-- Stored buckets in order; an absent bucket is the least. -/
def BucketLe (a b : Objects) : Prop :=
  ∀ bucket ∈ bucketAt S a, ∃ bucket' ∈ bucketAt S b, bucket ≤ bucket'

/-- The stored bucket covers `bucket`. -/
def Covers (objs : Objects) (bucket : UInt64) : Prop :=
  ∃ bucket' ∈ bucketAt S objs, bucket ≤ bucket'

/-- The bucket a call advances to. -/
def callBucket (call : Call) : Option UInt64 :=
  match call.action with
  | .advanceWatermark floorNs => Math.bucketNumber floorNs call.queue.format.delayedBucketWidthNs
  | _ => none

omit [Sha256] in
/-- The watermark object has had this version. -/
def HadVersion (w : World) (v : Version) : Prop :=
  ∃ stored : Stored, stored.version = v ∧ (w.objects.get? (S.absolute .watermark) = some stored ∨
    ∃ i r answer before after, .did i r answer before after ∈ w.log ∧
      before.get? (S.absolute .watermark) = some stored)

end Views

section Moves

variable [Sha256] {S : Site} {w w' : World} {i : Nat} {c : Choice}

lemma bucketAt_congr (h : b.get? (S.absolute .watermark) = a.get? (S.absolute .watermark)) :
    bucketAt S b = bucketAt S a := by
  unfold bucketAt
  rw [recordAt_congr h]

lemma BucketLe.refl (a : Objects) : BucketLe S a a := fun b hb => ⟨b, hb, UInt64.le_refl b⟩

lemma BucketLe.trans {c : Objects} (hab : BucketLe S a b) (hbc : BucketLe S b c) : BucketLe S a c := by
  intro x hx
  obtain ⟨y, hy, hxy⟩ := hab x hx
  obtain ⟨z, hz, hyz⟩ := hbc y hy
  exact ⟨z, hz, UInt64.le_trans hxy hyz⟩

lemma BucketLe.covers {bucket : UInt64} (h : BucketLe S a b) (hc : Covers S a bucket) : Covers S b bucket := by
  obtain ⟨x, hx, hle⟩ := hc
  obtain ⟨y, hy, hxy⟩ := h x hx
  exact ⟨y, hy, UInt64.le_trans hle hxy⟩

/-- The bucket does not fall, versions are remembered, and an object whose version was
known is the object that was there. -/
structure Rises (S : Site) (w w' : World) : Prop where
  bucket : BucketLe S w.objects w'.objects
  versions : ∀ v, HadVersion S w v → HadVersion S w' v
  same : ∀ stored, w'.objects.get? (S.absolute .watermark) = some stored →
    HadVersion S w stored.version → w.objects.get? (S.absolute .watermark) = some stored

/-- The moves of advancing calls. -/
def rises (S : Site) : Rely World where
  rel := Rises S
  refl _ := ⟨BucketLe.refl _, fun _ h => h, fun _ h _ => h⟩
  trans hab hbc := ⟨hab.bucket.trans hbc.bucket, fun v h => hbc.versions v (hab.versions v h),
    fun stored hget hv => hab.same stored (hbc.same stored hget (hab.versions _ hv)) hv⟩

lemma Rises.of_same (hobj : w'.objects.get? (S.absolute .watermark) =
    w.objects.get? (S.absolute .watermark)) (hlog : ∀ e ∈ w.log, e ∈ w'.log) : Rises S w w' where
  bucket := by
    unfold BucketLe
    rw [bucketAt_congr hobj]
    exact BucketLe.refl _
  versions v h := by
    obtain ⟨stored, hv, hget | ⟨i, r, answer, before, after, hmem, hget⟩⟩ := h
    · exact ⟨stored, hv, .inl (by rw [hobj]; exact hget)⟩
    · exact ⟨stored, hv, .inr ⟨i, r, answer, before, after, hlog _ hmem, hget⟩⟩
  same stored hget _ := by rw [← hobj]; exact hget

/-- A step that stores a new watermark object under a new version. -/
lemma Rises.of_new {r : Request} {body : Bytes}
    (hobjs : (w.request i r c).objects =
      w.objects.insert (S.absolute .watermark) ⟨body, c.stamp.version, c.stamp.timeNs⟩)
    (hfresh : ¬ HadVersion S w c.stamp.version)
    (hbucket : BucketLe S w.objects (w.request i r c).objects) : Rises S w (w.request i r c) where
  bucket := hbucket
  versions v h := by
    obtain ⟨stored, hv, hget | ⟨j, r', answer, before, after, hmem, hget⟩⟩ := h
    · exact ⟨stored, hv, .inr ⟨i, r, _, w.objects, _, List.mem_cons_self, hget⟩⟩
    · exact ⟨stored, hv, .inr ⟨j, r', answer, before, after, List.mem_cons_of_mem _ hmem, hget⟩⟩
  same stored hget hv := by
    rw [hobjs, OrderedMap.get?_insert_self] at hget
    cases hget
    exact absurd hv hfresh

lemma Rises.of_read {r : Request} (hr : r.reads = true) : Rises S w (w.request i r c) :=
  Rises.of_same (by rw [show (w.request i r c).objects = w.objects from inject_reads hr])
    fun _ he => List.mem_cons_of_mem _ he

lemma Rises.of_put {body : Bytes} {digest : Digest} (hfresh : ¬ HadVersion S w c.stamp.version) :
    Rises S w (w.request i (.putIfAbsent (S.absolute .watermark) body digest) c) := by
  rcases inject_put c.fault w.objects c.stamp (S.absolute .watermark) body digest with
    hsame | ⟨habsent, hnew⟩
  · exact Rises.of_same (by rw [show (w.request i _ c).objects = w.objects from hsame])
      fun _ he => List.mem_cons_of_mem _ he
  · refine Rises.of_new hnew hfresh fun b hb => ?_
    simp [bucketAt, recordAt, habsent] at hb

lemma bucketAt_of_encode {objs : Objects} {stored : Stored}
    (hget : objs.get? (S.absolute .watermark) = some stored)
    (hbody : stored.body = S.encodeAt .watermark (.watermark next)) :
    bucketAt S objs = some next.highestObservedWallBucket := by
  simp [bucketAt, recordAt_of_encode (r := .watermark next) trivial hget hbody]

/-- An overwrite, if the object of its version does not hold a bucket above the new one. -/
lemma Rises.of_cas {digest : Digest} {v : Version} (hfresh : ¬ HadVersion S w c.stamp.version)
    (hbelow : ∀ stored, w.objects.get? (S.absolute .watermark) = some stored → stored.version = v →
      ∀ bucket ∈ bucketAt S w.objects, bucket ≤ next.highestObservedWallBucket) :
    Rises S w (w.request i (.cas (S.absolute .watermark)
      (S.encodeAt .watermark (.watermark next)) digest v) c) := by
  rcases inject_cas c.fault w.objects c.stamp (S.absolute .watermark)
    (S.encodeAt .watermark (.watermark next)) digest v with hsame | ⟨old, hget, hv, hnew⟩
  · exact Rises.of_same (by rw [show (w.request i _ c).objects = w.objects from hsame])
      fun _ he => List.mem_cons_of_mem _ he
  · refine Rises.of_new hnew hfresh fun b hb => ?_
    refine ⟨next.highestObservedWallBucket, ?_, hbelow old hget hv b hb⟩
    have hstored : (w.request i (.cas (S.absolute .watermark)
        (S.encodeAt .watermark (.watermark next)) digest v) c).objects.get? (S.absolute .watermark) =
        some ⟨S.encodeAt .watermark (.watermark next), c.stamp.version, c.stamp.timeNs⟩ := by
      show (inject c.fault w.objects c.stamp _).2.get? _ = _
      rw [hnew, OrderedMap.get?_insert_self]
    exact bucketAt_of_encode hstored rfl

end Moves

/-! ## Advancing calls -/

/-- What the outside may do: any advances of the watermark on any handles of the queue, any
faults, versions that the watermark has not had, and writes by others elsewhere.  `head`
restricts the worlds in which a call reads the version for its overwrite. -/
def advancing [Sha256] (S : Site) (head : World → Call → Prop) : Terms where
  start _ _ call := call.queue.site = S ∧ ∃ floorNs, call.action = .advanceWatermark floorNs
  step w _ call o c :=
    ¬ HadVersion S w c.stamp.version ∧ (o = .store (.head (S.absolute .watermark)) → head w call)
  env _ e :=
    match e with
    | .tick _ => True
    | .write key _ | .delete key => key ≠ S.absolute .watermark

/-- The stored bucket does not exceed the bucket the call advances to. -/
def Behind [Sha256] (S : Site) (w : World) (call : Call) : Prop :=
  ∀ bucket ∈ callBucket call, ∀ stored ∈ bucketAt S w.objects, stored ≤ bucket

instance [Sha256] (S : Site) (w : World) (call : Call) : Decidable (Behind S w call) :=
  decidable_of_iff ((callBucket call).all fun bucket => (bucketAt S w.objects).all (· ≤ bucket))
    (by simp [Behind, Option.all_eq_true])

section Advance

variable [Sha256] {q : Queue} {i : Nat} {call : Call} {w : World}

/-- The discipline of advances that read versions behind their bucket. -/
abbrev advance (S : Site) (i : Nat) (call : Call) : Discipline World Op Res :=
  uniform (advancing S (Behind S)) (fun _ => True) (fun _ => rises S) i call

/-- A watermark record that was read is covered from then on. -/
lemma holds_watermark : Holds (advance q.site i call) q.watermark
      (OnOk fun found w' => ∀ r, found = some r → Covers q.site w'.objects r.highestObservedWallBucket) w := by
  refine holds_watermark_of (fun r a b hab => hab.bucket.covers) ?_
  refine holds_retrying trivial fun w1 _ _ => holds_spend ?_
  refine holds_uniform_get (fun _ _ _ _ => ⟨trivial, fun _ => Rises.of_read rfl⟩) fun w2 r _ _ hok _ => ?_
  cases r with
  | error e => exact holds_retryOrFail fun _ _ _ => by simp
  | ok obj =>
    obtain ⟨stored, hget, rfl⟩ := hok obj rfl
    refine holds_pure fun w3 _ ho3 v hv r hr => ?_
    cases hv
    refine ho3.bucket.covers ⟨r.highestObservedWallBucket, ?_, UInt64.le_refl _⟩
    simp [bucketAt, recordAt_of_decode hget hr]

lemma holds_writeWatermark {current : Option WatermarkRecord}
    (hcall : callBucket call = some next.highestObservedWallBucket) :
    Holds (advance q.site i call) (q.writeWatermark current next)
      (OnOk fun r w' => ∀ v, r = .ok (.committed v) →
        Covers q.site w'.objects next.highestObservedWallBucket) w := by
  have hcover : ∀ {w1 w2 : World} {c : Choice}, w2.objects = w1.objects.insert (q.absolute .watermark)
        ⟨q.encodeAt .watermark (.watermark next), c.stamp.version, c.stamp.timeNs⟩ →
      Covers q.site w2.objects next.highestObservedWallBucket := by
    intro w1 w2 c hobjs
    refine ⟨_, ?_, UInt64.le_refl _⟩
    exact bucketAt_of_encode (by rw [hobjs, OrderedMap.get?_insert_self]) rfl
  refine holds_spend ?_
  cases current with
  | none =>
    refine holds_uniform_last (o := .put _ _) fun w1 c _ _ hc =>
      ⟨⟨trivial, fun _ => Rises.of_put hc.1⟩,
      fun w2 hw2 v hv => ?_⟩
    obtain ⟨-, hnew⟩ := answer_put_committed hv
    exact hw2.bucket.covers (hcover hnew)
  | some old =>
    refine holds_spend (holds_uniform fun w1 c _ _ hc =>
      ⟨⟨trivial, fun _ => Rises.of_read rfl⟩, ?_⟩)
    refine holds_ofStore fun info hinfo => ?_
    obtain ⟨stored, hget, rfl⟩ := answer_head hinfo
    have hbehind : ∀ bucket ∈ bucketAt q.site w1.objects,
        bucket ≤ next.highestObservedWallBucket := fun bucket hb => hc.2 rfl _ hcall bucket hb
    refine holds_uniform_last (o := .store (.cas _ _ _ _)) fun w2 c' hw2 _ hc' =>
      ⟨⟨trivial, fun _ => ?_⟩, fun w3 hw3 v hv => ?_⟩
    · -- the object of the version that was read is the object that was read
      refine Rises.of_cas hc'.1 fun stored' hget' hv bucket hb => hbehind bucket ?_
      have hreq : (w1.request i (.head (q.absolute .watermark)) c).objects = w1.objects := inject_reads rfl
      have hknown : HadVersion q.site (w1.request i (.head (q.absolute .watermark)) c)
          stored'.version := ⟨stored, hv.symm, .inl (by rw [hreq]; exact hget)⟩
      have hsame : (w1.request i (.head (q.absolute .watermark)) c).objects.get?
          (q.absolute .watermark) = some stored' := hw2.same stored' hget' hknown
      rw [hreq] at hsame
      rwa [← bucketAt_congr (hget'.trans hsame.symm)]
    · obtain ⟨old', -, -, hnew⟩ := answer_cas_committed hv
      exact hw3.bucket.covers (hcover hnew)

lemma holds_advanceRound {bucket : UInt64} (hcall : callBucket call = some bucket) :
    Holds (advance q.site i call) (q.advanceRound bucket)
      (OnOk fun done w' => done = true → Covers q.site w'.objects bucket) w := by
  refine holds_watermark.andThen fun current w1 _ _ hcurrent => ?_
  split
  · -- the stored bucket already covers ours
    next hnone =>
      refine holds_pure fun w2 _ ho2 _ => ho2.bucket.covers ?_
      unfold Queue.nextWatermark at hnone
      split at hnone
      · cases hnone
      · next r =>
          split at hnone
          · next hle =>
              obtain ⟨b, hb, hb'⟩ := hcurrent r rfl
              exact ⟨b, hb, UInt64.le_trans hle hb'⟩
          · cases hnone
  · next next hsome =>
      obtain ⟨sequence, rfl⟩ := Queue.nextWatermark_eq hsome
      refine (holds_writeWatermark hcall).andThen fun r w2 _ _ hr => ?_
      split
      · next v => exact holds_pure fun w3 _ ho3 _ => ho3.bucket.covers (hr v rfl)
      · exact holds_pure nofun
      · refine holds_watermark.andThen fun found w3 _ _ hfound => ?_
        split
        · next r =>
            refine holds_pure fun w4 _ ho4 hle => ho4.bucket.covers ?_
            obtain ⟨b, hb, hb'⟩ := hfound r rfl
            exact ⟨b, hb, UInt64.le_trans (by simpa using hle) hb'⟩
        · exact holds_pure nofun
      · exact holds_fail

lemma holds_advanceWatermark {floorNs : UInt64}
    (hcall : callBucket call = Math.bucketNumber floorNs q.format.delayedBucketWidthNs) :
    Holds (advance q.site i call) (q.advanceWatermark floorNs)
      (OnOk fun _ w' => ∀ bucket ∈ callBucket call, Covers q.site w'.objects bucket) w := by
  unfold Queue.advanceWatermark
  split
  · exact holds_fail
  · next bucket hbucket =>
      rw [hbucket] at hcall
      refine holds_loop (I := fun _ _ => True) (fun _ w1 _ _ _ => ?_) trivial trivial
      refine (holds_advanceRound hcall).andThen fun done w2 _ _ hdone => ?_
      split
      · next hd =>
          refine holds_pure fun w3 _ ho3 b hb => ho3.bucket.covers ?_
          rw [hcall] at hb
          cases hb
          exact hdone hd
      · exact holds_pure fun _ _ _ => trivial

end Advance

/-! ## All runs -/

section Runs

variable [Sha256]

/-- What an advance that returned leaves behind. -/
def Advanced (S : Site) (call : Call) (out : Except Error Output) (w : World) : Prop :=
  OnOk (fun _ (w : World) => ∀ bucket ∈ callBucket call, Covers S w.objects bucket) out w

lemma outside_rises {S : Site} {head : World → Call → Prop} {e : Outside} (he : (advancing S head).env w e) :
    Rises S w (w.outside e) := by
  cases e with
  | tick clock => exact Rises.of_same rfl fun _ h => h
  | write key stored =>
    exact Rises.of_same (OrderedMap.get?_insert_of_ne _ _ (Ne.symm he)) fun _ h => h
  | delete key => exact Rises.of_same (OrderedMap.get?_erase_of_ne _ (Ne.symm he)) fun _ h => h

lemma advancing_obligations (S : Site) : Obligations machine (advancing S (Behind S))
    (fun _ => True) (fun _ _ => rises S) (fun _ _ w w' => Nat → (rises S).rel w w')
    (fun _ => Advanced S) := by
  have hrecord : ∀ (w : World) e, Rises S w (w.record e) :=
    fun w e => Rises.of_same rfl fun _ h => List.mem_cons_of_mem _ h
  refine uniform_obligations (fun _ => rises S)
    (fun cfg i call _ _ hstart => ⟨trivial, fun _ => hrecord _ _, ?_⟩)
    (fun i out w _ => ⟨trivial, fun _ _ => hrecord _ _⟩)
    (fun i call out w w' _ hw' h a ha bucket hb =>
      ((rises S).trans (hrecord w _) hw').bucket.covers (h a ha bucket hb))
    fun w e _ he => ⟨trivial, fun _ => outside_rises he⟩
  obtain ⟨q, action, budget⟩ := call
  obtain ⟨rfl, floorNs, rfl⟩ := hstart
  exact (holds_advanceWatermark rfl).andThen fun _ w1 _ _ hdone =>
    holds_pure fun w2 _ ho2 bucket hb => ho2.bucket.covers (hdone bucket hb)

/-- What is asked of the watermark along a run: the stored bucket does not fall, and once
an advance has returned its bucket stays covered. -/
def Monotone (S : Site) (P : Terms) (w : World) : Prop :=
  ∀ cfg cfg' : Calls, machine.Run P (Machine.initial w) cfg → machine.Run P cfg cfg' →
    BucketLe S cfg.world.objects cfg'.world.objects ∧
      ∀ i call out, cfg.Returned i call (.ok out) → ∀ bucket ∈ callBucket call, Covers S cfg'.world.objects bucket

/-- **The watermark is monotone** in every run in which no call reads a version of the watermark whose bucket lies
above its own: the stored bucket never falls, and after an advance has returned it is at least the bucket of its
floor. -/
theorem watermark_monotone (S : Site) (w : World) : Monotone S (advancing S (Behind S)) w := by
  intro cfg cfg' hrun hrun'
  have hgood := (advancing_obligations S).run_good (Obligations.initial_good trivial) hrun
  have hrises : Rises S cfg.world cfg'.world := uniform_run_moves (fun _ => rises S) (rises S) (fun _ _ _ h => h)
      (advancing_obligations S) (fun w e _ he => outside_rises he) hgood hrun'
  refine ⟨hrises.bucket, fun i call out hret bucket hb => hrises.bucket.covers ?_⟩
  exact hgood.returned hret out rfl bucket hb

end Runs

/-! ## The race -/

namespace Race

open Scenario
open Budgeted (Evals)

/-- Versions are numbered by the log, so the next one is new. -/
def Numbered (w : World) : Prop :=
  ∀ v, HadVersion demo.site w v → v.token.length ≤ w.log.length

lemma Numbered.fresh (h : Numbered w) (faults : Nat → Option Fault) :
    ¬ HadVersion demo.site w (plain faults w).stamp.version := by
  intro hv
  have hle := h _ hv
  simp [plain] at hle

lemma Numbered.record (h : Numbered w) (e : Event)
    (he : ∀ i r answer before after, e ≠ .did i r answer before after) : Numbered (w.record e) := by
  rintro v ⟨stored, hv, hget | ⟨i, r, answer, before, after, hmem, hget⟩⟩
  · exact Nat.le_succ_of_le (h v ⟨stored, hv, .inl hget⟩)
  · rcases List.mem_cons.mp hmem with heq | hmem
    · exact absurd heq.symm (he i r answer before after)
    · exact Nat.le_succ_of_le (h v ⟨stored, hv, .inr ⟨i, r, answer, before, after, hmem, hget⟩⟩)

variable [Sha256]

lemma Numbered.request (h : Numbered w) (faults : Nat → Option Fault) (i : Nat) (r : Request) :
    Numbered (w.request i r (plain faults w)) := by
  rintro v ⟨stored, hv, hget | ⟨j, r', answer, before, after, hmem, hget⟩⟩
  · -- the object is an old one or carries the new version
    rcases inject_get? (faults w.log.length) w.objects (plain faults w).stamp r hget with
      hold | ⟨hnew, -, -⟩
    · exact Nat.le_succ_of_le (h v ⟨stored, hv, .inl hold⟩)
    · rw [← hv, hnew]
      simp [plain, World.request]
  · rcases List.mem_cons.mp hmem with heq | hmem
    · cases heq
      exact Nat.le_succ_of_le (h v ⟨stored, hv, .inl hget⟩)
    · exact Nat.le_succ_of_le (h v ⟨stored, hv, .inr ⟨j, r', answer, before, after, hmem, hget⟩⟩)

lemma plainly_answers (i : Nat) (call : Call) : Machine.Answers machine
    (advancing demo.site fun _ _ => True) i call (fun _ => True) Numbered (plainly faultless i) where
  exec o w _ hw := ⟨plain faultless w, ⟨hw.fresh faultless, fun _ => trivial⟩, rfl⟩
  keeps o w _ hw := by
    cases o with
    | store r => exact hw.request faultless i r
    | _ => exact hw

/-- A call that advances the watermark to a bucket. -/
def advanceTo (bucket : UInt64) : Call := ⟨demo, .advanceWatermark bucket, 3⟩

omit [Sha256] in
lemma bucketNumber_demo (bucket : UInt64) :
    Math.bucketNumber bucket demo.format.delayedBucketWidthNs = some bucket := by
  rw [Math.bucketNumber_isSome (by decide)]
  exact congrArg some (UInt64.toNat_inj.mp (by simp [demo]))

/-- A watermark, and a store that holds nothing else. -/
def mark (bucket seq : UInt64) (v : Version) : Stored :=
  ⟨demo.encodeAt .watermark (.watermark ⟨bucket, seq⟩), v, 0⟩

def marked (bucket seq : UInt64) (v : Version) : Objects :=
  OrderedMap.empty.insert (demo.absolute .watermark) (mark bucket seq v)

lemma bucketAt_marked (bucket seq : UInt64) (v : Version) :
    bucketAt demo.site (marked bucket seq v) = some bucket :=
  bucketAt_of_encode (show (marked bucket seq v).get? (demo.absolute .watermark) = _ from
    OrderedMap.get?_insert_self _ _ _) rfl

section Requests

variable {bucket seq : UInt64} {v : Version} {n : Nat}

lemma decode_mark : demo.decodeAt .watermark (demo.encodeAt .watermark (.watermark ⟨bucket, seq⟩)) =
    .ok (.watermark ⟨bucket, seq⟩) :=
  decode_encode (.watermark ⟨bucket, seq⟩) trivial _ _

lemma get_marked : Serves (staged faultless) ⟨marked bucket seq v, 0, fun _ => {}, n⟩
    (.get (demo.absolute .watermark))
    (.ok ⟨(mark bucket seq v).info, (mark bucket seq v).body⟩)
    ⟨marked bucket seq v, 0, fun _ => {}, n + 1⟩ :=
  serves_get rfl (OrderedMap.get?_insert_self _ _ _)

lemma head_marked : Serves (staged faultless) ⟨marked bucket seq v, 0, fun _ => {}, n⟩
    (.head (demo.absolute .watermark)) (.ok (mark bucket seq v).info) ⟨marked bucket seq v, 0, fun _ => {}, n + 1⟩ :=
  serves_head rfl (OrderedMap.get?_insert_self _ _ _)

lemma cas_marked (bucket' seq' : UInt64) : Serves (staged faultless) ⟨marked bucket seq v, 0, fun _ => {}, n⟩
      (.cas (demo.absolute .watermark) (demo.encodeAt .watermark (.watermark ⟨bucket', seq'⟩))
        (Sha256.digest (demo.encodeAt .watermark (.watermark ⟨bucket', seq'⟩))) (mark bucket seq v).info.version)
      (.ok (.committed (versionAt n))) ⟨marked bucket' seq' (versionAt n), 0, fun _ => {}, n + 1⟩ :=
  serves_cas rfl (OrderedMap.get?_insert_self _ _ _)

end Requests

/-- A store whose watermark holds bucket 1. -/
def start : World where
  objects := OrderedMap.empty.insert (demo.absolute .watermark)
    ⟨demo.encodeAt .watermark (.watermark ⟨1, 0⟩), ⟨[]⟩, 0⟩
  clock := 0
  handles := fun _ => {}
  log := []

/-- Call 1 advances to bucket 10, with nothing in between. -/
lemma run_fast : (advanceTo 10).prog.run (staged faultless) ⟨marked 1 0 ⟨[]⟩, 0, fun _ => {}, 3⟩ =
    (.ok .advanceWatermark, ⟨marked 10 1 (versionAt 5), 0, fun _ => {}, 6⟩) := by
  have hlt : ¬ (10 : UInt64) ≤ 1 := by decide
  exact run_call (b := 0) (Evals.bind (evals_advanceWatermark (bucketNumber_demo 10) hlt get_marked decode_mark
    head_marked (cas_marked 10 1)) (Evals.pure _))

/-- Call 0 advances from bucket 1 to bucket 5, with that right after its GET. -/
lemma run_slow : (advanceTo 5).prog.run (interrupted (staged faultless) fun _ =>
      ⟨marked 10 1 (versionAt 5), 0, fun _ => {}, 6⟩) ⟨⟨marked 1 0 ⟨[]⟩, 0, fun _ => {}, 1⟩, 1, none⟩ =
    (.ok .advanceWatermark, ⟨⟨marked 5 1 (versionAt 7), 0, fun _ => {}, 8⟩, 0,
      some ⟨marked 1 0 ⟨[]⟩, 0, fun _ => {}, 2⟩⟩) := by
  have hlt : ¬ (5 : UInt64) ≤ 1 := by decide
  exact run_call (b := 0) (Evals.bind (evals_advanceWatermark (bucketNumber_demo 5) hlt get_marked.struck
    decode_mark
    head_marked.past (cas_marked 5 1).past) (Evals.pure _))

lemma numbered_start : Numbered start := by
  rintro v ⟨stored, hv, hget | ⟨i, r, answer, before, after, hmem, -⟩⟩
  · have hstored : start.objects.get? (demo.absolute .watermark) = some _ := OrderedMap.get?_insert_self _ _ _
    rw [show demo.site.absolute .watermark = demo.absolute .watermark from rfl, hstored] at hget
    cases hget
    rw [← hv]
    simp [start]
  · cases hmem

/-- The version of the watermark is older than a log of length `n`. -/
def older (n : Nat) (objs : Objects) : Bool :=
  (objs.get? (demo.absolute .watermark)).all fun stored => stored.version.token.length ≤ n

/-- A request of `call` that meets the condition, where versions are numbered by the log. -/
def behind (call : Call) (o : Op) (w : World) : Bool :=
  older w.log.length w.objects && w.log.all (fun
    | .did _ _ _ before _ => older w.log.length before
    | _ => true) && match o with
    | .store (.head _) => decide (Behind demo.site w call)
    | _ => true

lemma step_of_behind {call : Call} {o : Op} {i : Nat} (h : behind call o w = true) :
    (advancing demo.site (Behind demo.site)).step w i call o (plain faultless w) := by
  simp only [behind, Bool.and_eq_true, List.all_eq_true] at h
  obtain ⟨⟨hnow, hpast⟩, hhead⟩ := h
  have hold : ∀ {objs : Objects} {stored : Stored}, older w.log.length objs = true →
      objs.get? (demo.site.absolute .watermark) = some stored → stored.version.token.length ≤ w.log.length := by
    intro objs stored hall hget
    unfold older at hall
    rw [show objs.get? (demo.absolute .watermark) = some stored from hget] at hall
    exact of_decide_eq_true hall
  refine ⟨Numbered.fresh ?_ faultless, ?_⟩
  · rintro v ⟨stored, rfl, hget | ⟨j, r, answer, before, after, hmem, hget⟩⟩
    · exact hold hnow hget
    · exact hold (hpast _ hmem) hget
  · rintro rfl
    exact of_decide_eq_true hhead

end Race

open Race Scenario

/-- Two advances that cross: call 0 reads bucket 1 and call 1 advances to bucket 3, which is not beyond bucket 5
of call 0, so that call 0 then overwrites it with a greater one. -/
theorem watermark_monotone_crossed : ∃ (_ : Sha256) (w : World) (cfg cfg' : Calls),
    machine.Run (advancing demo.site (Behind demo.site)) (Machine.initial w) cfg ∧
    machine.Run (advancing demo.site (Behind demo.site)) cfg cfg' ∧
    cfg.Returned 1 (advanceTo 3) (.ok .advanceWatermark) ∧
    bucketAt demo.site w.objects = some 1 ∧ bucketAt demo.site cfg'.world.objects = some 5 ∧
    BucketLe demo.site cfg.world.objects cfg'.world.objects ∧ Covers demo.site cfg'.world.objects 3 := by
  let hash := Sha256.zero
  let read := pause 0 (advanceTo 5) 1 (Machine.initial start)
  let passed := play faultless 1 (advanceTo 3) read
  have hread : machine.Run (advancing demo.site (Behind demo.site)) (Machine.initial start) read :=
    pause_checked (behind _) (fun _ _ => step_of_behind) ⟨rfl, 5, rfl⟩ rfl (by decide +kernel)
  have hpassed : machine.Run (advancing demo.site (Behind demo.site)) read passed :=
    run_checked (behind _) (fun _ _ => step_of_behind) ⟨rfl, 3, rfl⟩ (pause_threads (by decide)) (by decide +kernel)
  have hdone : machine.Run (advancing demo.site (Behind demo.site)) passed (resume 0 passed) :=
    resume_checked (behind (advanceTo 5)) ((play_threads (by decide)).trans pause_threads_self)
      (fun _ _ => step_of_behind) (by decide +kernel)
  have hret : passed.Returned 1 (advanceTo 3) (.ok .advanceWatermark) := play_returned (by decide +kernel)
  obtain ⟨hle, hcovers⟩ := watermark_monotone demo.site start passed _ (hread.trans hpassed) hdone
  exact ⟨hash, start, passed, _, hread.trans hpassed, hdone, hret, by decide +kernel, by decide +kernel, hle,
    hcovers 1 _ _ hret 3 (bucketNumber_demo 3)⟩

/-- Without that condition the watermark falls: call 0 reads bucket 1, call 1 advances to
bucket 10 and returns, and call 0 then overwrites it with bucket 5. -/
theorem watermark_not_monotone : ¬ ∃ _ : Sha256, ∀ S w, Monotone S (advancing S fun _ _ => True) w := by
  rintro ⟨_, hall⟩
  let P := advancing demo.site fun _ _ => True
  let read := pause 0 (advanceTo 5) 1 (Machine.initial start)
  let ahead := play faultless 1 (advanceTo 10) read
  obtain ⟨hread, hend⟩ := pause_at 0 (Machine.initial start) rfl run_slow
  obtain ⟨hahead, -⟩ : stage ahead = _ ∧ _ := play_at hread run_fast
  have hwaiting : ahead.threads 0 = read.threads 0 := play_threads (by decide)
  obtain ⟨hlast, -⟩ := hend ahead hahead hwaiting
  obtain ⟨p, hthread, hp⟩ := pause_thread 0 (Machine.initial start) (.any (advanceTo 5).prog) 1
  have hstarted : ∀ {w : World} i call, Numbered w → Numbered (w.record (.started i call)) :=
    fun _ _ h => h.record _ nofun
  obtain ⟨hrun0, hJ0⟩ : machine.Run P _ read ∧ _ := run_pause 1 (plainly_answers 0 (advanceTo 5)) (.any _)
    ⟨rfl, 5, rfl⟩ rfl (hstarted 0 (advanceTo 5) numbered_start)
  obtain ⟨hrun1, hJ1⟩ : machine.Run P read ahead ∧ _ := run_play (plainly_answers 1 (advanceTo 10)) (.any _)
    ⟨rfl, 10, rfl⟩ (pause_threads (by decide)) (hstarted 1 (advanceTo 10) hJ0)
  obtain ⟨hrun2, -⟩ := run_resume (hwaiting.trans hthread) (plainly_answers 0 (advanceTo 5)) (.any p) hJ1
  obtain ⟨hle, -⟩ := hall demo.site start ahead (resume 0 ahead) (hrun0.trans hrun1) hrun2
  rw [show ahead.world.objects = _ from congrArg Stage.objects hahead,
    show (resume 0 ahead).world.objects = _ from congrArg Stage.objects hlast] at hle
  obtain ⟨b, hb, h10⟩ := hle 10 (bucketAt_marked _ _ _)
  rw [bucketAt_marked] at hb
  cases hb
  exact absurd h10 (by decide)

end Time
end StowQ
