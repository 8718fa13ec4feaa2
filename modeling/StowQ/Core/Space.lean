import StowQ.Core.Gc
import StowQ.Format.Codec

/-!
# The key space of a queue

A key under the root splits into segments; its first segment is the plane it belongs to.
Directories fix leading segments, so a listing of a directory stays inside one plane, and
keys of different planes never meet.  The second half reads records off the objects of a
store.
-/

namespace StowQ
namespace Core

open Data Store Format Keys

variable {k : Key} {key : Str} {S : Site} {jobId : ByteArr 16} {r : Record}

/-! ## Segments and planes -/

lemma splitOn_dirs (segs : List Str) (h : ∀ s ∈ segs, '/' ∉ s) (t : Str) :
    ((segs.flatMap fun s => s ++ ['/']) ++ t).splitOn '/' = segs ++ t.splitOn '/' := by
  induction segs with
  | nil => rfl
  | cons s segs ih =>
    have hs : '/' ∉ s := h s List.mem_cons_self
    have hsegs : ∀ x ∈ segs, '/' ∉ x := fun x hx => h x (List.mem_cons_of_mem s hx)
    rw [List.flatMap_cons, List.append_assoc, List.append_assoc, List.singleton_append,
      List.splitOn_append_cons_self_of_not_mem hs, ih hsegs, List.cons_append]

namespace Site

variable (S : Site)

/-- The segments of a key under the root. -/
def segmentsOf (key : Str) : Option (List Str) :=
  if S.root <+: key then some ((key.drop S.root.length).splitOn '/') else none

/-- The first segment of a key. -/
def plane (key : Str) : Option Str :=
  (S.segmentsOf key).bind List.head?

lemma segmentsOf_append (t : Str) : S.segmentsOf (S.root ++ t) = some (t.splitOn '/') := by
  simp [segmentsOf]

@[simp] lemma segmentsOf_absolute (k : Key) : S.segmentsOf (S.absolute k) = some k.segments := by
  rw [absolute, segmentsOf_append, Keys.splitOn_fmt]

/-- A key in a directory starts with the directory's segments. -/
lemma segmentsOf_of_dir {segs : List Str} (hsegs : ∀ s ∈ segs, '/' ∉ s) (h : S.dir segs <+: key) :
    ∃ rest, S.segmentsOf key = some (segs ++ rest) := by
  obtain ⟨t, rfl⟩ := h
  refine ⟨t.splitOn '/', ?_⟩
  rw [dir, List.append_assoc, segmentsOf_append, splitOn_dirs segs hsegs]

lemma plane_of_dir {seg : Str} {segs : List Str} (hsegs : ∀ s ∈ seg :: segs, '/' ∉ s)
    (h : S.dir (seg :: segs) <+: key) : S.plane key = some seg := by
  obtain ⟨rest, hrest⟩ := S.segmentsOf_of_dir hsegs h
  simp [plane, hrest]

lemma absolute_injective : Function.Injective S.absolute := by
  intro a b h
  exact Keys.fmt_injective (List.append_cancel_left h)

@[simp] lemma absolute_inj {a b : Key} : S.absolute a = S.absolute b ↔ a = b := S.absolute_injective.eq_iff

end Site

/-- A key that parses under the root is the key it parses to. -/
lemma Queue.absolute_of_parseRel {q : Queue} (h : q.parseRel key = some k) : q.absolute k = key := by
  unfold Queue.parseRel at h
  split at h
  · next hpre =>
      cases hparse : Keys.parse (key.drop q.root.length) with
      | error e => simp [hparse, Except.toOption] at h
      | ok k' =>
        simp only [hparse, Except.toOption, Option.some.injEq] at h
        subst h
        show q.root ++ k'.fmt = key
        rw [Keys.fmt_of_parse hparse]
        exact List.prefix_iff_eq_append.mp (List.isPrefixOf_iff_prefix.mp hpre)
  · cases h

lemma Queue.parseRel_absolute (q : Queue) (k : Key) : q.parseRel (q.absolute k) = some k := by
  have hpre : q.root.isPrefixOf (q.absolute k) = true := List.isPrefixOf_iff_prefix.mpr (List.prefix_append _ _)
  have hdrop : (q.absolute k).drop q.root.length = k.fmt := List.drop_left
  rw [Queue.parseRel, if_pos hpre, hdrop, Keys.parse_fmt]
  rfl

lemma Queue.bucketWidths_ne_zero (q : Queue) : q.format.leaseBucketWidthNs ≠ 0 ∧
    q.format.delayedBucketWidthNs ≠ 0 ∧ q.format.terminalBucketWidthNs ≠ 0 := by
  have haccepted := q.accepted
  unfold FormatRecord.validate at haccepted
  split at haccepted
  · cases haccepted
  · split at haccepted
    · cases haccepted
    · next hwidths =>
        exact ⟨fun h => hwidths (.inl h), fun h => hwidths (.inr (.inl h)), fun h => hwidths (.inr (.inr h))⟩

lemma Queue.terminalBucketWidth_ne_zero (q : Queue) : q.format.terminalBucketWidthNs ≠ 0 :=
  q.bucketWidths_ne_zero.2.2

lemma Queue.leaseBucketWidth_ne_zero (q : Queue) : q.format.leaseBucketWidthNs ≠ 0 := q.bucketWidths_ne_zero.1

/-- The plane of a key. -/
def planeOf : Key → Str
  | .job .. => jobsSeg
  | .payload .. => payloadsSeg
  | .claim .. => claimsSeg
  | .fail .. => failsSeg
  | .leaseIndex .. => leasesSeg
  | .delayIndex .. => delayedSeg
  | .receipt .. => receiptsSeg
  | .dead .. => deadSeg
  | .termIndex .. => termidxSeg
  | .quarantine .. => quarantineSeg
  | .tail .. => tailsSeg
  | .beacon _ | .format | .watermark => metaSeg

@[simp] lemma plane_absolute (S : Site) (k : Key) : S.plane (S.absolute k) = some (planeOf k) := by
  rw [Site.plane, Site.segmentsOf_absolute]
  cases k <;> rfl

lemma eq_job_of_plane (h : planeOf k = jobsSeg) : ∃ shard jobId, k = .job shard jobId := by
  cases k with
  | job shard jobId => exact ⟨shard, jobId, rfl⟩
  | _ =>
    simp only [planeOf] at h
    exact absurd h (by decide)

lemma eq_receipt_of_plane (h : planeOf k = receiptsSeg) : ∃ shard jobId, k = .receipt shard jobId := by
  cases k with
  | receipt shard jobId => exact ⟨shard, jobId, rfl⟩
  | _ =>
    simp only [planeOf] at h
    exact absurd h (by decide)

lemma eq_dead_of_plane (h : planeOf k = deadSeg) : ∃ shard jobId, k = .dead shard jobId := by
  cases k with
  | dead shard jobId => exact ⟨shard, jobId, rfl⟩
  | _ =>
    simp only [planeOf] at h
    exact absurd h (by decide)

lemma ne_absolute_of_plane {seg : Str} (hkey : S.plane key = some seg) (hseg : seg ≠ planeOf k) :
    key ≠ S.absolute k := by
  rintro rfl
  rw [plane_absolute] at hkey
  exact hseg (Option.some.inj hkey).symm

lemma slash_not_mem_jobDir (seg : Str) (hseg : '/' ∉ seg) (shard : UInt16) (jobId : ByteArr 16) :
    ∀ s ∈ [seg, hex16 shard, hex jobId.toList], '/' ∉ s := by
  have hx := slash_not_mem_hex
  simp [hseg, hex16, hx]

/-- The directory of a job's claims holds the claims of that job only. -/
lemma claim_of_claimsDir {shard shard' : UInt16} {jobId' : ByteArr 16} {g : UInt32}
    (h : S.dir [claimsSeg, hex16 shard, hex jobId.toList] <+:
      S.absolute (.claim shard' jobId' g)) : shard' = shard ∧ jobId' = jobId := by
  have hsegs := slash_not_mem_jobDir claimsSeg (by decide) shard jobId
  obtain ⟨rest, hrest⟩ := S.segmentsOf_of_dir hsegs h
  rw [Site.segmentsOf_absolute] at hrest
  simp only [Key.segments, Option.some.injEq, List.cons_append, List.nil_append, List.cons.injEq, true_and] at hrest
  obtain ⟨hshard, hjob, -⟩ := hrest
  constructor
  · have hread := hexDecodeU16_hex16 shard'
    rw [hshard, hexDecodeU16_hex16] at hread
    exact (Option.some.inj hread).symm
  · exact List.Vector.eq _ _ (hex_injective hjob)

/-- The directory of a job's payloads holds the payloads of that job only. -/
lemma payload_of_payloadsDir {jobId' : ByteArr 16} {digest : Digest}
    (h : S.dir [payloadsSeg, hex jobId.toList] <+: S.absolute (.payload jobId' digest)) :
    jobId' = jobId := by
  have hhex := slash_not_mem_hex jobId.toList
  have hsegs : ∀ s ∈ [payloadsSeg, hex jobId.toList], '/' ∉ s := by
    simpa [hhex] using (by decide : '/' ∉ payloadsSeg)
  obtain ⟨rest, hrest⟩ := S.segmentsOf_of_dir hsegs h
  rw [Site.segmentsOf_absolute] at hrest
  simp only [Key.segments, Option.some.injEq, List.cons_append, List.nil_append, List.cons.injEq, true_and] at hrest
  exact List.Vector.eq _ _ (hex_injective hrest.1)

/-! ## Generations -/

lemma lastSegment_append {s t : Str} (h : '/' ∉ t) : lastSegment (s ++ '/' :: t) = t := by
  have hne : ∀ c ∈ t.reverse, (c != '/') = true := by
    intro c hc
    have hc' : c ≠ '/' := fun heq => h (heq ▸ List.mem_reverse.mp hc)
    simpa using hc'
  rw [lastSegment, List.reverse_append, List.reverse_cons, List.append_assoc, List.takeWhile_append_of_pos hne]
  simp

/-- The generation of a claim reads back from its key. -/
lemma parseGeneration_claim (S : Site) (shard : UInt16) (jobId : ByteArr 16) (g : UInt32) :
    parseGeneration (S.absolute (.claim shard jobId g)) = some g.toUInt64 := by
  have hkey : ∃ s, S.absolute (.claim shard jobId g) = s ++ '/' :: hex32 g :=
    ⟨S.root ++ (claimsSeg ++ '/' :: (hex16 shard ++ '/' :: hex jobId.toList)),
      by simp [Site.absolute, Key.fmt]⟩
  obtain ⟨s, hs⟩ := hkey
  have hlast : lastSegment (S.absolute (.claim shard jobId g)) = hex32 g := by
    rw [hs]
    exact lastSegment_append (slash_not_mem_hex _)
  have hdigits : (hex32 g).all (fun c => (hexValue c).isSome) = true := by
    rw [List.all_eq_true]
    intro c hc
    have hmem := mem_hexDigits_of_mem_hex hc
    have hall : hexDigits.all (fun c => (hexValue c).isSome) = true := by decide
    exact List.all_eq_true.mp hall c hmem
  have hvalue : fromStrRadix (2 ^ 64) (hex32 g) = some g.toNat := by
    have hg : g.toNat < 256 ^ 4 := g.toNat_lt
    have hbe : fromBe (beBytes 4 g.toNat) = g.toNat := fromBe_beBytes_of_lt hg
    have hne : beBytes 4 g.toNat ≠ [] := List.ne_nil_of_length_pos (by simp)
    rw [hex32, fromStrRadix_hex hne (by omega), hbe]
  have hlen : (hex32 g).length = 8 := by simp [hex32]
  unfold parseGeneration
  simp only [hlast, hlen, hdigits, hvalue, and_self, if_true, Option.map_some]
  congr 1
  exact UInt64.toNat_inj.mp (by simp)

/-- The keys of a job's claims sort by generation. -/
lemma Site.claim_lt_claim {shard : UInt16} {g g' : UInt32} (h : g < g') :
    S.absolute (.claim shard jobId g) < S.absolute (.claim shard jobId g') := by
  have hhex : hex32 g < hex32 g' := by
    refine hex_lt_hex (by simp) ?_
    rw [fromBe_beBytes_of_lt (g.toNat_lt), fromBe_beBytes_of_lt (g'.toNat_lt)]
    exact UInt32.lt_iff_toNat_lt.mp h
  have hcons : ∀ {c : Char} {s t : Str}, s < t → c :: s < c :: t := fun h =>
    List.cons_lt_cons_iff.mpr (.inr ⟨rfl, h⟩)
  simp only [Site.absolute, Key.fmt]
  apply List.append_left_lt
  apply List.append_left_lt
  apply hcons
  apply List.append_left_lt
  apply hcons
  apply List.append_left_lt
  apply hcons
  exact hhex

lemma Site.claimsDir_prefix (S : Site) (shard : UInt16) (jobId : ByteArr 16) (g : UInt32) :
    S.dir [claimsSeg, hex16 shard, hex jobId.toList] <+: S.absolute (.claim shard jobId g) :=
  ⟨hex32 g, by simp [Site.dir, Site.absolute, Key.fmt]⟩

/-! ## Records -/

section Records

variable [Sha256] {S : Site} {objs : Objects} {k : Key}

/-- The record at a key, if the object there decodes. -/
def recordAt (S : Site) (objs : Objects) (k : Key) : Option Record :=
  (objs.get? (S.absolute k)).bind fun stored => (S.decodeAt k stored.body).toOption

lemma recordAt_congr {objs' : Objects}
    (h : objs'.get? (S.absolute k) = objs.get? (S.absolute k)) :
    recordAt S objs' k = recordAt S objs k := by
  unfold recordAt
  rw [h]

lemma recordAt_of_decode {stored : Stored} (hget : objs.get? (S.absolute k) = some stored)
    (hdec : S.decodeAt k stored.body = .ok r) : recordAt S objs k = some r := by
  simp [recordAt, hget, hdec, Except.toOption]

lemma decode_of_recordAt (h : recordAt S objs k = some r) :
    ∃ stored, objs.get? (S.absolute k) = some stored ∧ S.decodeAt k stored.body = .ok r := by
  obtain ⟨stored, hget, hdec⟩ := Option.bind_eq_some_iff.mp h
  refine ⟨stored, hget, ?_⟩
  cases hd : S.decodeAt k stored.body with
  | ok r' =>
    rw [hd] at hdec
    exact congrArg Except.ok (Option.some.inj hdec)
  | error e =>
    rw [hd] at hdec
    cases hdec

lemma recordAt_of_encode {stored : Stored} (hr : r.WellFormed) (hget : objs.get? (S.absolute k) = some stored)
    (hbody : stored.body = S.encodeAt k r) : recordAt S objs k = some r := by
  refine recordAt_of_decode hget ?_
  rw [hbody]
  exact decode_encode r hr _ _

variable (q : Queue)

omit [Sha256] in
lemma Queue.takeoverRecord_wellFormed (jobId : ByteArr 16) (opts : ClaimOptions) (tail : Tail)
    (token : ByteArr 16) : (q.takeoverRecord jobId opts tail token).WellFormed :=
  ⟨rfl, rfl, q.opts.workerIdFits⟩

omit [Sha256] in
lemma Queue.continuationRecord_wellFormed (claim : Claim) : (q.continuationRecord claim).WellFormed :=
  ⟨rfl, rfl, q.opts.workerIdFits⟩

/-- The record of an enqueue can be read back. -/
lemma Queue.jobRecord_wellFormed (input : EnqueueInput) (jobId : ByteArr 16) :
    (q.jobRecord input jobId).WellFormed where
  exclusive := by
    show (if q.inlines input.payload then some input.payload else none).isSome ≠
      (if q.inlines input.payload then none else some _).isSome
    cases q.inlines input.payload <;> simp
  contentType := input.contentTypeFits
  payloadInline b hb := by
    have hb' : (if q.inlines input.payload then some input.payload else none) = some b := hb
    split at hb'
    · cases hb'
      exact input.payloadFits
    · cases hb'
  payloadKey k hk := by
    have hk' : (if q.inlines input.payload then none
      else some (Key.payload jobId (Sha256.digest input.payload)).fmt) = some k := hk
    split at hk'
    · cases hk'
    · cases hk'
      refine Nat.lt_of_le_of_lt (utf8_length_le _) ?_
      simp [Key.fmt, payloadsSeg]

/-- Both ways the code computes the shard of a job agree, since a queue has a shard. -/
lemma Queue.shardOf_eq_payloadShard (jobId : ByteArr 16) : q.shardOf jobId = q.payloadShard jobId := by
  have hcount : q.format.shardCount ≠ 0 := by
    intro hzero
    have haccepted := q.accepted
    rw [FormatRecord.validate, if_pos (.inl hzero)] at haccepted
    cases haccepted
  have hmax : max q.format.shardCount 1 = q.format.shardCount := by
    have hpos : q.format.shardCount.toNat ≠ 0 := fun h => hcount (UInt32.toNat_inj.mp h)
    show (if q.format.shardCount ≤ 1 then 1 else q.format.shardCount) = q.format.shardCount
    split
    · next hle =>
        rw [UInt32.le_iff_toNat_le] at hle
        apply UInt32.toNat_inj.mp
        simp at hle ⊢
        omega
    · rfl
  unfold Queue.shardOf Queue.payloadShard
  rw [hmax]

end Records

lemma Queue.retryFloor_cases [Sha256] {q : Queue} {c : Claim} {floorNs : UInt64} {r : Except Error UInt64} (h : q.retryFloor c floorNs = r) :
    (∃ notBefore, r = .ok notBefore) ∨ r = .error (.internal "retry_not_before overflow") := by
  unfold Queue.retryFloor at h
  obtain ⟨delayMs, hdelay⟩ := Math.retryDelayMs_ok q.opts.queueId c.jobId
    (min c.attempt (UInt64.ofNat u32Max.toNat)).toUInt32 q.opts.retry
  generalize Math.retryDelayMs _ _ _ _ = delay at h hdelay
  -- the kernel must not compute with the factor
  obtain ⟨factor, hfactor⟩ : ∃ n : UInt64, n = 1000000 := ⟨_, rfl⟩
  rw [← hfactor] at h
  clear hfactor
  subst hdelay
  dsimp only at h
  cases hdeadline : Math.retryNotBefore floorNs (delayMs * factor) with
  | some notBefore =>
    rw [hdeadline] at h
    exact .inl ⟨notBefore, h.symm⟩
  | none =>
    rw [hdeadline] at h
    exact .inr h.symm

end Core
end StowQ
