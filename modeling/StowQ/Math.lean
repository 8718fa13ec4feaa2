import StowQ.Primitives

/-!
# Bucket arithmetic and retry backoff

The functions of the crate `stowq-math`, which does no I/O.  Timestamps are nanoseconds of store time and delays
are milliseconds, in the machine words of the source.  Division by a bucket width and the product that
turns a bucket back into a time answer `none` on a zero width or on overflow, as the source does; the doubling of
a delay saturates instead.

A `RetryPolicy` carries the proof that its parameters were accepted.  The source checks them in `RetryPolicy::new`
and once more at every delay; with the proof at hand the second check never fails (`validate_ok`) and every attempt
has a delay (`retryDelayMs_ok`).  How large it is, and that no operation on the way traps, is proved in
`Math.Backoff`; that the offsets are evenly spread, in `Math.Jitter`.
-/

namespace StowQ
namespace Math

open Data

/-! ## Buckets -/

/-- floor(timestamp / width). -/
def bucketNumber (timestampNs bucketWidthNs : UInt64) : Option UInt64 :=
  if bucketWidthNs = 0 then none else some (timestampNs / bucketWidthNs)

/-- max(floor, watermark bucket * width): the watermark can only raise a floor. -/
def effectiveFloor (floorNs watermarkBucket bucketWidthNs : UInt64) : Option UInt64 :=
  if bucketWidthNs = 0 then none
  else (checkedMul watermarkBucket bucketWidthNs).map fun watermarkNs => max floorNs watermarkNs

/-- A bucket starts at or before the timestamp it was derived from. -/
lemma bucketNumber_mul_le {t w b : UInt64} (h : bucketNumber t w = some b) : b.toNat * w.toNat ≤ t.toNat := by
  unfold bucketNumber at h
  split_ifs at h with hw
  cases h
  rw [UInt64.toNat_div]
  exact Nat.div_mul_le_self _ _

lemma bucketNumber_isSome {t w : UInt64} (hw : w ≠ 0) : bucketNumber t w = some (t / w) := by
  simp [bucketNumber, hw]

/-- A raised floor is the floor or the start of the watermark's bucket. -/
lemma effectiveFloor_cases {f b w r : UInt64} (h : effectiveFloor f b w = some r) :
    r = f ∨ r.toNat = b.toNat * w.toNat := by
  unfold effectiveFloor at h
  split_ifs at h with hw
  obtain ⟨m, hm, rfl⟩ := Option.map_eq_some_iff.mp h
  have hmax : max f m = if f ≤ m then m else f := rfl
  rw [hmax]
  split_ifs with hle
  · exact Or.inr (toNat_checkedMul hm)
  · exact Or.inl rfl

/-! ## Retry backoff -/

/-- Why a retry policy or deadline is refused. -/
inductive RetryError
  | zeroBase
  | capTooSmall
  | overflow
  deriving DecidableEq

/-- The smaller of the cap and the optional maximum delay. -/
def effectiveCap (capMs : UInt64) (maxDelayMs : Option UInt64) : UInt64 :=
  match maxDelayMs with
  | some m => min capMs m
  | none => capMs

/-- A retry policy; the last field is what `RetryPolicy::new` checked. -/
structure RetryPolicy where
  baseMs : UInt64
  capMs : UInt64
  useJitter : Bool
  maxDelayMs : Option UInt64
  accepted : baseMs ≠ 0 ∧ baseMs ≤ effectiveCap capMs maxDelayMs

namespace RetryPolicy

def effectiveCapMs (p : RetryPolicy) : UInt64 :=
  effectiveCap p.capMs p.maxDelayMs

def validate (p : RetryPolicy) : Except RetryError Unit :=
  if p.baseMs = 0 then .error .zeroBase
  else if p.effectiveCapMs < p.baseMs then .error .capTooSmall
  else .ok ()

/-- `RetryPolicy::new`. -/
def new (baseMs capMs : UInt64) (useJitter : Bool) (maxDelayMs : Option UInt64) :
    Except RetryError RetryPolicy :=
  if hbase : baseMs = 0 then .error .zeroBase
  else if hcap : effectiveCap capMs maxDelayMs < baseMs then .error .capTooSmall
  else .ok ⟨baseMs, capMs, useJitter, maxDelayMs, hbase, UInt64.not_lt.mp hcap⟩

lemma validate_ok (p : RetryPolicy) : p.validate = .ok () := by
  have hcap : ¬p.effectiveCapMs < p.baseMs := UInt64.not_lt.mpr p.accepted.2
  simp [validate, p.accepted.1, hcap]

end RetryPolicy

/-- Saturating base * 2^(exp-1). -/
def saturatingDouble (base : UInt64) (exp : UInt32) : UInt64 :=
  if exp = 0 ∨ base = 0 then base
  else if 64 < exp then u64Max
  else
    let shift : UInt64 := (exp - 1).toUInt64
    if u64Max >>> shift < base then u64Max else base <<< shift

/-- The rejection loop of `sampleOffset`: `left` draws remain. -/
def sampleLoop (span threshold : UInt64) (draw : UInt32 → UInt64) : Nat → UInt32 → UInt64
  | 0, _ => span / 2
  | left + 1, counter =>
    let x := draw counter
    if threshold ≤ x then x % span else sampleLoop span threshold draw left (counter + 1)

/-- Rejection-sampled offset below `span`; the midpoint after 64 rejections. -/
def sampleOffset (span : UInt64) (draw : UInt32 → UInt64) : UInt64 :=
  sampleLoop span ((0 - span) % span) draw 64 0

/-- `StowQ-1-jitter\0`. -/
def jitterDomain : Bytes :=
  utf8 ['S', 't', 'o', 'w', 'Q', '-', '1', '-', 'j', 'i', 't', 't', 'e', 'r', '\x00']

/-- Retry delay in milliseconds for an attempt, deterministic per job. -/
def retryDelayMs [Sha256] (queueId jobId : ByteArr 16) (attempt : UInt32) (policy : RetryPolicy) :
    Except RetryError UInt64 := do
  policy.validate
  if attempt = 0 then .ok 0
  else
    let ceiling := min policy.effectiveCapMs (saturatingDouble policy.baseMs attempt)
    if !policy.useJitter then .ok ceiling
    else
      -- u64::div_ceil(2)
      let lower := ceiling / 2 + ceiling % 2
      let span := ceiling - lower + 1
      let offset := sampleOffset span fun counter =>
        let result := Sha256.digest (jitterDomain ++ queueId.toList ++ jobId.toList ++
          beBytes 4 attempt.toNat ++ beBytes 4 counter.toNat)
        UInt64.ofNat (fromBe (result.toList.take 8))
      .ok (lower + offset)

/-- floor + delay, bounded to `i64::MAX`. -/
def retryNotBefore (floorNs delayNs : UInt64) : Option UInt64 := do
  let deadline ← checkedAdd floorNs delayNs
  if 0x7fffffffffffffff < deadline then none else some deadline

lemma retryDelayMs_ok [Sha256] (queueId jobId : ByteArr 16) (attempt : UInt32) (policy : RetryPolicy) :
    ∃ delayMs, retryDelayMs queueId jobId attempt policy = .ok delayMs := by
  unfold retryDelayMs
  rw [policy.validate_ok]
  dsimp only [bind, Except.bind]
  split_ifs
  · exact ⟨_, rfl⟩
  · exact ⟨_, rfl⟩
  · exact ⟨_, rfl⟩

end Math
end StowQ
