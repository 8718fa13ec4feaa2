import StowQ.Math

/-!
# The exponential law of the retry delay

The delay of an attempt is computed in 64-bit words: a base is doubled by a shift that saturates, cut off at the cap,
and, with jitter, replaced by a point of its upper half.  `ceilingMs` is the bound of an attempt over the natural
numbers, where nothing wraps, and `toNat_saturatingDouble` relates the two: the doubling saturates exactly where the
true product leaves the word, and the cap is reached before that.

Whether an operation traps is part of the claim.  The functions of `Checked` repeat those of the source with
every operation that can trap written as one that answers `none`; for an accepted policy they never do, and they give
the same delay (`Checked.retryDelayMs_eq`).  The law itself is `delays_exponential`.
-/

namespace StowQ
namespace Math

open Data

/-- min(cap, base * 2^(attempt-1)) over the natural numbers. -/
def ceilingMs (policy : RetryPolicy) (attempt : Nat) : Nat :=
  min policy.effectiveCapMs.toNat (policy.baseMs.toNat * 2 ^ (attempt - 1))

/-! ## The law -/

lemma toNat_u64Max : u64Max.toNat = 2 ^ 64 - 1 := by decide

section Double

variable {base : UInt64} {exp : UInt32} (hexp : exp ≠ 0)

include hexp

lemma toNat_pred : (exp - 1).toNat = exp.toNat - 1 := by
  have hpos : 1 ≤ exp.toNat := Nat.one_le_iff_ne_zero.mpr fun h => hexp (UInt32.toNat_inj.mp h)
  exact UInt32.toNat_sub_of_le exp 1 (UInt32.le_iff_toNat_le.mpr hpos)

/-- The shift of a doubling is within the word. -/
lemma toNat_shift (hsmall : ¬ 64 < exp) : (exp - 1).toUInt64.toNat = exp.toNat - 1 ∧ exp.toNat - 1 < 64 := by
  rw [UInt32.lt_iff_toNat_lt] at hsmall
  have hlit : (64 : UInt32).toNat = 64 := rfl
  rw [UInt32.toNat_toUInt64, toNat_pred hexp]
  omega

/-- A doubling saturates at the largest word and nowhere else. -/
lemma toNat_saturatingDouble (hbase : base ≠ 0) :
    (saturatingDouble base exp).toNat = min (2 ^ 64 - 1) (base.toNat * 2 ^ (exp.toNat - 1)) := by
  have hpos : 1 ≤ base.toNat := Nat.one_le_iff_ne_zero.mpr fun h => hbase (UInt64.toNat_inj.mp h)
  unfold saturatingDouble
  rw [if_neg (by simp [hexp, hbase])]
  by_cases hbig : 64 < exp
  · rw [if_pos hbig, toNat_u64Max]
    have hexponent : 2 ^ 64 ≤ 2 ^ (exp.toNat - 1) := by
      rw [UInt32.lt_iff_toNat_lt] at hbig
      have hlit : (64 : UInt32).toNat = 64 := rfl
      exact Nat.pow_le_pow_right (by decide) (by omega)
    have hproduct : 1 * 2 ^ (exp.toNat - 1) ≤ base.toNat * 2 ^ (exp.toNat - 1) := Nat.mul_le_mul_right _ hpos
    omega
  · rw [if_neg hbig]
    obtain ⟨hshift, hlt⟩ := toNat_shift hexp hbig
    -- the comparison with the shifted maximum decides whether a bit is lost
    have hlimit : (u64Max >>> (exp - 1).toUInt64).toNat = (2 ^ 64 - 1) / 2 ^ (exp.toNat - 1) := by
      rw [UInt64.toNat_shiftRight, hshift, Nat.mod_eq_of_lt hlt, Nat.shiftRight_eq_div_pow, toNat_u64Max]
    have hdouble : (base <<< (exp - 1).toUInt64).toNat = base.toNat * 2 ^ (exp.toNat - 1) % 2 ^ 64 := by
      rw [UInt64.toNat_shiftLeft, hshift, Nat.mod_eq_of_lt hlt, Nat.shiftLeft_eq]
    have hfits : base.toNat ≤ (2 ^ 64 - 1) / 2 ^ (exp.toNat - 1) ↔ base.toNat * 2 ^ (exp.toNat - 1) ≤ 2 ^ 64 - 1 :=
      Nat.le_div_iff_mul_le (Nat.two_pow_pos _)
    dsimp only
    split_ifs with hover
    · rw [UInt64.lt_iff_toNat_lt, hlimit] at hover
      rw [toNat_u64Max]
      omega
    · rw [UInt64.lt_iff_toNat_lt, hlimit] at hover
      have hle := hfits.mp (Nat.not_lt.mp hover)
      rw [hdouble, Nat.mod_eq_of_lt (by omega)]
      omega

lemma toNat_ceiling (policy : RetryPolicy) :
    (min policy.effectiveCapMs (saturatingDouble policy.baseMs exp)).toNat = ceilingMs policy exp.toNat := by
  rw [UInt64.toNat_min, toNat_saturatingDouble hexp policy.accepted.1]
  have hcap := policy.effectiveCapMs.toNat_lt
  unfold ceilingMs
  omega

end Double

/-- ceil(c / 2), as the source computes it. -/
def lowerOf (ceiling : UInt64) : UInt64 := ceiling / 2 + ceiling % 2

/-- The number of delays a jittered attempt draws from. -/
def spanOf (ceiling : UInt64) : UInt64 := ceiling - lowerOf ceiling + 1

lemma toNat_lowerOf (c : UInt64) : (lowerOf c).toNat = (c.toNat + 1) / 2 := by
  have hlt := c.toNat_lt
  unfold lowerOf
  rw [UInt64.toNat_add, UInt64.toNat_div, UInt64.toNat_mod]
  have hlit : (2 : UInt64).toNat = 2 := rfl
  rw [hlit, Nat.mod_eq_of_lt (by omega)]
  omega

lemma toNat_rest (c : UInt64) : (c - lowerOf c).toNat = c.toNat / 2 := by
  have hlower := toNat_lowerOf c
  have hle : lowerOf c ≤ c := by
    rw [UInt64.le_iff_toNat_le]
    omega
  rw [UInt64.toNat_sub_of_le _ _ hle]
  omega

lemma toNat_spanOf (c : UInt64) : (spanOf c).toNat = c.toNat / 2 + 1 := by
  have hlt := c.toNat_lt
  unfold spanOf
  rw [UInt64.toNat_add, toNat_rest]
  have hlit : (1 : UInt64).toNat = 1 := rfl
  omega

/-- Every draw is below the span, a midpoint included. -/
lemma sampleLoop_lt {span threshold : UInt64} {draw : UInt32 → UInt64} (hspan : 0 < span.toNat)
    (left : Nat) (counter : UInt32) : (sampleLoop span threshold draw left counter).toNat < span.toNat := by
  induction left generalizing counter with
  | zero =>
    have hlit : (2 : UInt64).toNat = 2 := rfl
    rw [sampleLoop, UInt64.toNat_div, hlit]
    omega
  | succ left ih =>
    rw [sampleLoop]
    split_ifs
    · rw [UInt64.toNat_mod]
      exact Nat.mod_lt _ hspan
    · exact ih _

lemma sampleOffset_lt (ceiling : UInt64) (draw : UInt32 → UInt64) :
    (sampleOffset (spanOf ceiling) draw).toNat ≤ ceiling.toNat / 2 := by
  have hspan := toNat_spanOf ceiling
  have hlt : (sampleOffset (spanOf ceiling) draw).toNat < (spanOf ceiling).toNat := sampleLoop_lt (by omega) _ _
  omega

lemma toNat_jittered (ceiling : UInt64) (draw : UInt32 → UInt64) :
    (lowerOf ceiling + sampleOffset (spanOf ceiling) draw).toNat =
      (ceiling.toNat + 1) / 2 + (sampleOffset (spanOf ceiling) draw).toNat := by
  have hoffset := sampleOffset_lt ceiling draw
  have hlt := ceiling.toNat_lt
  rw [UInt64.toNat_add, toNat_lowerOf, Nat.mod_eq_of_lt (by omega)]

section Delay

variable [Sha256] {queueId jobId : ByteArr 16} {attempt : UInt32} {policy : RetryPolicy}

/-- The stream a job's jitter is drawn from. -/
def jitterDraw (queueId jobId : ByteArr 16) (attempt counter : UInt32) : UInt64 :=
  UInt64.ofNat (fromBe ((Sha256.digest (jitterDomain ++ queueId.toList ++ jobId.toList ++
    beBytes 4 attempt.toNat ++ beBytes 4 counter.toNat)).toList.take 8))

/-- The delay as a function of the ceiling alone. -/
lemma retryDelayMs_eq (hattempt : attempt ≠ 0) : retryDelayMs queueId jobId attempt policy =
      let ceiling := min policy.effectiveCapMs (saturatingDouble policy.baseMs attempt)
      .ok (if policy.useJitter then
        lowerOf ceiling + sampleOffset (spanOf ceiling) (jitterDraw queueId jobId attempt) else ceiling) := by
  unfold retryDelayMs
  rw [policy.validate_ok]
  dsimp only [bind, Except.bind]
  rw [if_neg hattempt]
  cases policy.useJitter with
  | true => rfl
  | false => rfl

/-- The delay lies between the upper half of the ceiling and the ceiling. -/
lemma delay_bounds {delay : UInt64} (hattempt : attempt ≠ 0)
    (h : retryDelayMs queueId jobId attempt policy = .ok delay) :
    (policy.useJitter = false → delay.toNat = ceilingMs policy attempt.toNat) ∧
      (ceilingMs policy attempt.toNat + 1) / 2 ≤ delay.toNat ∧ delay.toNat ≤ ceilingMs policy attempt.toNat := by
  rw [retryDelayMs_eq hattempt] at h
  dsimp only at h
  rw [← toNat_ceiling hattempt]
  generalize min policy.effectiveCapMs (saturatingDouble policy.baseMs attempt) = ceiling at h ⊢
  cases h
  have hoffset := sampleOffset_lt ceiling (jitterDraw queueId jobId attempt)
  have hsum := toNat_jittered ceiling (jitterDraw queueId jobId attempt)
  cases policy.useJitter with
  | true =>
    simp only [if_true]
    refine ⟨by simp, ?_, ?_⟩ <;> omega
  | false =>
    simp only [Bool.false_eq_true, if_false]
    refine ⟨fun _ => trivial, ?_, ?_⟩ <;> omega

end Delay

/-! ## Arithmetic that may trap -/

namespace Checked

/-- `a - b`. -/
def sub (a b : UInt64) : Option UInt64 := if b ≤ a then some (a - b) else none

/-- `a * b`. -/
def mul (a b : UInt64) : Option UInt64 := if a.toNat * b.toNat < 2 ^ 64 then some (a * b) else none

/-- `a % b`. -/
def rem (a b : UInt64) : Option UInt64 := if b = 0 then none else some (a % b)

/-- `a << shift` and `a >> shift`: the shift must be below the width. -/
def shl (a : UInt64) (shift : UInt32) : Option UInt64 := if shift < 64 then some (a <<< shift.toUInt64) else none

def shr (a : UInt64) (shift : UInt32) : Option UInt64 := if shift < 64 then some (a >>> shift.toUInt64) else none

/-- `n + 1` and `n - 1` on counters. -/
def succ (n : UInt32) : Option UInt32 := if n.toNat + 1 < 2 ^ 32 then some (n + 1) else none

def pred (n : UInt32) : Option UInt32 := if n = 0 then none else some (n - 1)

def saturatingDouble (base : UInt64) (exp : UInt32) : Option UInt64 :=
  if exp = 0 ∨ base = 0 then some base
  else if 64 < exp then some u64Max
  else do
    let shift ← pred exp
    let limit ← shr u64Max shift
    if limit < base then some u64Max else shl base shift

def sampleLoop (span threshold : UInt64) (draw : UInt32 → UInt64) : Nat → UInt32 → Option UInt64
  | 0, _ => some (span / 2)
  | left + 1, counter =>
    let x := draw counter
    if threshold ≤ x then rem x span else do
      let next ← succ counter
      sampleLoop span threshold draw left next

def sampleOffset (span : UInt64) (draw : UInt32 → UInt64) : Option UInt64 := do
  let threshold ← rem (0 - span) span
  sampleLoop span threshold draw 64 0

/-- The delay of an accepted policy, or `none` at an operation that traps. -/
def retryDelayMs [Sha256] (queueId jobId : ByteArr 16) (attempt : UInt32) (policy : RetryPolicy) : Option UInt64 :=
  if attempt = 0 then some 0
  else do
    let doubled ← saturatingDouble policy.baseMs attempt
    let ceiling := min policy.effectiveCapMs doubled
    if !policy.useJitter then some ceiling
    else
      let lower ← checkedAdd (ceiling / 2) (ceiling % 2)
      let rest ← sub ceiling lower
      let span ← checkedAdd rest 1
      let offset ← sampleOffset span (jitterDraw queueId jobId attempt)
      checkedAdd lower offset

lemma saturatingDouble_eq (base : UInt64) (exp : UInt32) :
    saturatingDouble base exp = some (Math.saturatingDouble base exp) := by
  unfold saturatingDouble Math.saturatingDouble
  by_cases hzero : exp = 0 ∨ base = 0
  · rw [if_pos hzero, if_pos hzero]
  · rw [if_neg hzero, if_neg hzero]
    by_cases hbig : 64 < exp
    · rw [if_pos hbig, if_pos hbig]
    · rw [if_neg hbig, if_neg hbig]
      have hexp : exp ≠ 0 := fun h => hzero (.inl h)
      have hshift : exp - 1 < 64 := by
        rw [UInt32.lt_iff_toNat_lt, toNat_pred hexp]
        exact (toNat_shift hexp hbig).2
      simp only [pred, shr, shl, hexp, hshift, if_true, if_false, Option.bind_eq_bind, Option.bind_some]
      split_ifs <;> rfl

lemma sampleLoop_eq {span threshold : UInt64} {draw : UInt32 → UInt64} (hspan : span ≠ 0) (left : Nat)
    (counter : UInt32) (hcounter : counter.toNat + left ≤ 64) :
    sampleLoop span threshold draw left counter = some (Math.sampleLoop span threshold draw left counter) := by
  induction left generalizing counter with
  | zero => rfl
  | succ left ih =>
    unfold sampleLoop Math.sampleLoop
    dsimp only
    split_ifs with hdraw
    · rw [rem, if_neg hspan]
    · have hlt : counter.toNat + 1 < 2 ^ 32 := by omega
      have hnext : (counter + 1).toNat = counter.toNat + 1 := by
        rw [UInt32.toNat_add]
        exact Nat.mod_eq_of_lt hlt
      rw [succ, if_pos hlt]
      exact ih (counter + 1) (by omega)

lemma sampleOffset_eq {span : UInt64} (hspan : span ≠ 0) (draw : UInt32 → UInt64) :
    sampleOffset span draw = some (Math.sampleOffset span draw) := by
  unfold sampleOffset
  rw [rem, if_neg hspan]
  exact sampleLoop_eq hspan 64 0 (by decide)

lemma checkedAdd_eq {a b : UInt64} (h : a.toNat + b.toNat < 2 ^ 64) : checkedAdd a b = some (a + b) := if_pos h

lemma retryDelayMs_eq [Sha256] (queueId jobId : ByteArr 16) (attempt : UInt32) (policy : RetryPolicy) :
    (retryDelayMs queueId jobId attempt policy).map Except.ok = some (Math.retryDelayMs queueId jobId attempt policy) := by
  by_cases hattempt : attempt = 0
  · subst hattempt
    simp [retryDelayMs, Math.retryDelayMs, policy.validate_ok, bind, Except.bind]
  · rw [Math.retryDelayMs_eq hattempt, retryDelayMs, if_neg hattempt, saturatingDouble_eq]
    dsimp only [Option.bind_eq_bind, Option.bind_some]
    generalize min policy.effectiveCapMs (Math.saturatingDouble policy.baseMs attempt) = ceiling
    cases policy.useJitter with
    | false => rfl
    | true =>
      have hlt := ceiling.toNat_lt
      have hlower := toNat_lowerOf ceiling
      have hspan := toNat_spanOf ceiling
      have hoffset := sampleOffset_lt ceiling (jitterDraw queueId jobId attempt)
      have hhalves : checkedAdd (ceiling / 2) (ceiling % 2) = some (lowerOf ceiling) := by
        have hlit : (2 : UInt64).toNat = 2 := rfl
        refine checkedAdd_eq ?_
        rw [UInt64.toNat_div, UInt64.toNat_mod, hlit]
        omega
      have hrest : sub ceiling (lowerOf ceiling) = some (ceiling - lowerOf ceiling) := by
        refine if_pos ?_
        rw [UInt64.le_iff_toNat_le]
        omega
      have hone : checkedAdd (ceiling - lowerOf ceiling) 1 = some (spanOf ceiling) := by
        refine checkedAdd_eq ?_
        rw [toNat_rest]
        have hlit : (1 : UInt64).toNat = 1 := rfl
        omega
      have hpos : spanOf ceiling ≠ 0 := by
        intro hzero
        rw [hzero] at hspan
        exact absurd hspan (by simp)
      simp only [Bool.not_true, Bool.false_eq_true, if_false, if_true, hhalves, hrest, hone,
        sampleOffset_eq hpos, Option.bind_some]
      rw [checkedAdd_eq (by omega)]
      rfl

lemma retryDelayMs_of_ok [Sha256] {queueId jobId : ByteArr 16} {attempt : UInt32} {policy : RetryPolicy}
    {delay : UInt64} (h : Math.retryDelayMs queueId jobId attempt policy = .ok delay) :
    retryDelayMs queueId jobId attempt policy = some delay := by
  have hchecked := retryDelayMs_eq queueId jobId attempt policy
  rw [h] at hchecked
  obtain ⟨found, hfound, heq⟩ := Option.map_eq_some_iff.mp hchecked
  rw [hfound, Except.ok.inj heq]

end Checked

/-! ## Delays double until the cap -/

/-- **Retry delays follow the exponential law.**  An attempt is delayed by its ceiling, which is the base doubled once
for every attempt before it and cut off at the cap, and with jitter by at least half of it.  No operation of the
computation traps, and a later attempt is not delayed less, jitter or not, while the cap is out of reach. -/
theorem delays_exponential [Sha256] (queueId jobId : ByteArr 16) (policy : RetryPolicy) (attempt : UInt32)
    (hattempt : attempt ≠ 0) :
    ∃ delay, retryDelayMs queueId jobId attempt policy = .ok delay ∧
      Checked.retryDelayMs queueId jobId attempt policy = some delay ∧
      (policy.useJitter = false → delay.toNat = ceilingMs policy attempt.toNat) ∧
      (policy.useJitter = true →
        (ceilingMs policy attempt.toNat + 1) / 2 ≤ delay.toNat ∧ delay.toNat ≤ ceilingMs policy attempt.toNat) ∧
      (policy.baseMs.toNat * 2 ^ attempt.toNat ≤ policy.effectiveCapMs.toNat →
        ∀ later, retryDelayMs queueId jobId (attempt + 1) policy = .ok later → delay ≤ later) := by
  obtain ⟨delay, hdelay⟩ := retryDelayMs_ok queueId jobId attempt policy
  obtain ⟨hplain, hlower, hupper⟩ := delay_bounds hattempt hdelay
  refine ⟨delay, hdelay, Checked.retryDelayMs_of_ok hdelay, hplain, fun _ => ⟨hlower, hupper⟩,
    fun hcap later hlater => ?_⟩
  · -- below the cap the next ceiling is twice this one, and a delay is at least half its ceiling
    have hpos : 1 ≤ policy.baseMs.toNat :=
      Nat.one_le_iff_ne_zero.mpr fun h => policy.accepted.1 (UInt64.toNat_inj.mp h)
    have hexponent : attempt.toNat < 64 := by
      have hlt : 2 ^ attempt.toNat < 2 ^ 64 := by
        have := Nat.le_mul_of_pos_left (2 ^ attempt.toNat) hpos
        have := policy.effectiveCapMs.toNat_lt
        omega
      exact (Nat.pow_lt_pow_iff_right (by decide)).mp hlt
    have hnext : (attempt + 1).toNat = attempt.toNat + 1 := by
      have hlit : (1 : UInt32).toNat = 1 := rfl
      rw [UInt32.toNat_add]
      omega
    have hne : attempt + 1 ≠ 0 := by
      intro hzero
      rw [hzero] at hnext
      exact absurd hnext (by simp)
    have hlater' := (delay_bounds hne hlater).2.1
    have hfirst : 1 ≤ attempt.toNat := Nat.one_le_iff_ne_zero.mpr fun h => hattempt (UInt32.toNat_inj.mp h)
    obtain ⟨n, hn⟩ := Nat.exists_eq_succ_of_ne_zero (Nat.one_le_iff_ne_zero.mp hfirst)
    rw [hnext, ceilingMs, hn] at hlater'
    rw [ceilingMs, hn] at hupper
    rw [hn] at hcap
    simp only [Nat.succ_eq_add_one, Nat.add_sub_cancel, Nat.pow_succ] at hlater' hupper hcap
    rw [UInt64.le_iff_toNat_le]
    generalize 2 ^ n = power at *
    rw [← Nat.mul_assoc] at hcap hlater'
    omega

/-- The first attempt of a policy without jitter. -/
theorem delays_exponential_first : ∃ _ : Sha256, ∃ delay,
    retryDelayMs (List.Vector.replicate 16 0) (List.Vector.replicate 16 0) 1 ⟨1, 2, false, none, by decide⟩ =
      .ok delay ∧ delay.toNat = 1 :=
  let _ := Sha256.zero
  let ⟨delay, hdelay, _, hplain, _⟩ := delays_exponential (List.Vector.replicate 16 0) (List.Vector.replicate 16 0)
    ⟨1, 2, false, none, by decide⟩ 1 (by decide)
  ⟨_, delay, hdelay, hplain rfl⟩

end Math
end StowQ
