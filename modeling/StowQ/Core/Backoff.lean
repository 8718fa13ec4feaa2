import StowQ.Core.Footprint
import StowQ.Math.Backoff

/-!
# The backoff of a nack

A nack asks the policy for a delay in milliseconds, converts it to nanoseconds with a plain product, and records the
floor plus the delay as the time before which the job is not delivered again.  `Checked.nack` is the same computation
with every operation that can trap or wrap written as one that answers `none`: those inside the delay never do, and the
product does when it leaves the word.  The recorded time is then too early by a multiple of `2 ^ 64` nanoseconds.  The
policies and attempts at which no nack wraps, under any hash, are those of `nack_exact_iff`.
-/

namespace StowQ
namespace Core
namespace Backoff

open Data Concurrent Store Format Math

variable {delay notBefore : UInt64}

section Exact

variable [Sha256] (q : Queue) (claim : Claim) (reason floorNs : UInt64)

/-- The attempt as the policy is asked about it. -/
def clamped (attempt : UInt64) : UInt32 := (min attempt (UInt64.ofNat u32Max.toNat)).toUInt32

/-- The delay of the policy for a claim. -/
def delayMs : Except RetryError UInt64 :=
  retryDelayMs q.opts.queueId claim.jobId (clamped claim.attempt) q.opts.retry

/-- What a nack puts at the fail key. -/
def failBody (notBefore : UInt64) : Bytes :=
  q.encodeAt (.fail claim.shard claim.jobId claim.generation.toUInt32)
    (.fail ⟨claim.jobId, claim.generation, reason, claim.attempt, notBefore⟩)

/-- The floor of a retry, or `none` at an operation that traps. -/
def Checked.retryFloor : Option (Except Error UInt64) := do
  let delay ← Math.Checked.retryDelayMs q.opts.queueId claim.jobId (clamped claim.attempt) q.opts.retry
  let delayNs ← Math.Checked.mul delay 1000000
  match retryNotBefore floorNs delayNs with
  | none => some (.error (.internal "retry_not_before overflow"))
  | some notBefore => some (.ok notBefore)

/-- The nack of the source, or `none` at an operation that traps. -/
def Checked.nack : Option (Routine Unit) := do
  let floor ← Checked.retryFloor q claim floorNs
  some do
    let notBefore ← Budgeted.ofExcept floor
    Routine.spend
    match ← q.putRecord (.fail claim.shard claim.jobId claim.generation.toUInt32)
        (.fail ⟨claim.jobId, claim.generation, reason, claim.attempt, notBefore⟩) with
    | .notCommitted => Budgeted.fail (.internal "nack not committed")
    | _ =>
      match q.delayIndexEntry notBefore claim.shard claim.jobId with
      | some put => put
      | none => pure ()

/-- Nothing traps or wraps on the way; and the nack is refused without a request, or every fail record it puts carries
the floor plus the delay, within the signed range. -/
structure Exact : Prop where
  checked : Checked.nack q claim reason floorNs = some (q.nack claim reason floorNs)
  recorded : (∃ e, q.nack claim reason floorNs = Budgeted.fail e) ∨
    ∃ delay notBefore : UInt64, delayMs q claim = .ok delay ∧
      notBefore.toNat = floorNs.toNat + delay.toNat * 1000000 ∧ notBefore.toNat ≤ 2 ^ 63 - 1 ∧
      Budgeted.Emits (fun o => ∀ body digest,
        o = .store (.putIfAbsent (q.absolute (.fail claim.shard claim.jobId claim.generation.toUInt32)) body digest) →
          body = failBody q claim reason notBefore) (q.nack claim reason floorNs)

variable {q claim reason floorNs}

omit [Sha256] in
/-- A deadline is the sum, within the signed range. -/
lemma toNat_retryNotBefore {floorNs delayNs : UInt64} (h : retryNotBefore floorNs delayNs = some notBefore) :
    notBefore.toNat = floorNs.toNat + delayNs.toNat ∧ notBefore.toNat ≤ 2 ^ 63 - 1 := by
  unfold retryNotBefore checkedAdd at h
  split_ifs at h with hsum
  · simp only [Option.bind_eq_bind, Option.bind_some] at h
    split_ifs at h with hsigned
    cases h
    have hlit : (0x7fffffffffffffff : UInt64).toNat = 2 ^ 63 - 1 := rfl
    rw [UInt64.lt_iff_toNat_lt, hlit] at hsigned
    refine ⟨?_, by omega⟩
    rw [UInt64.toNat_add, Nat.mod_eq_of_lt hsum]
  · cases h

lemma retryFloor_of_delay (h : delayMs q claim = .ok delay) : q.retryFloor claim floorNs =
    (retryNotBefore floorNs (delay * 1000000)).elim (.error (.internal "retry_not_before overflow")) .ok := by
  unfold delayMs clamped at h
  unfold Queue.retryFloor
  -- the kernel must not compute with the factor
  obtain ⟨factor, hfactor⟩ : ∃ n : UInt64, n = 1000000 := ⟨_, rfl⟩
  rw [← hfactor, h]
  clear hfactor
  dsimp only
  cases retryNotBefore floorNs (delay * factor) <;> rfl

lemma retryFloor_eq_ok (h : q.retryFloor claim floorNs = .ok notBefore) :
    ∃ delay, delayMs q claim = .ok delay ∧ retryNotBefore floorNs (delay * 1000000) = some notBefore := by
  obtain ⟨delay, hdelay⟩ := retryDelayMs_ok q.opts.queueId claim.jobId (clamped claim.attempt) q.opts.retry
  refine ⟨delay, hdelay, ?_⟩
  rw [retryFloor_of_delay hdelay] at h
  generalize delay * 1000000 = delayNs at h ⊢
  cases hdeadline : retryNotBefore floorNs delayNs with
  | none =>
    rw [hdeadline] at h
    cases h
  | some found =>
    rw [hdeadline] at h
    exact congrArg some (Except.ok.inj h)

/-- The only put at the fail key is the record with the computed floor. -/
lemma emits_nack (h : q.retryFloor claim floorNs = .ok notBefore) : Budgeted.Emits (fun o => ∀ body digest,
      o = .store (.putIfAbsent (q.absolute (.fail claim.shard claim.jobId claim.generation.toUInt32)) body digest) →
        body = failBody q claim reason notBefore) (q.nack claim reason floorNs) := by
  apply Footprint.nack
  · constructor <;> (intros; rename_i heq; cases heq)
  · intro found hfound body digest heq
    cases hfound.symm.trans h
    cases heq
    rfl
  · intro body digest heq
    cases heq
  · intro b body digest heq
    have hkey := (Request.putIfAbsent.inj (Op.store.inj heq)).1
    cases q.site.absolute_injective hkey

/-- The conversion of the delay is what can trap. -/
lemma Checked.retryFloor_of_delay (h : delayMs q claim = .ok delay) : Checked.retryFloor q claim floorNs =
      if delay.toNat * 1000000 < 2 ^ 64 then some (q.retryFloor claim floorNs) else none := by
  have hlit : (1000000 : UInt64).toNat = 1000000 := rfl
  rw [Backoff.retryFloor_of_delay h]
  unfold Checked.retryFloor Math.Checked.mul
  rw [Math.Checked.retryDelayMs_of_ok h, ← hlit]
  obtain ⟨factor, hfactor⟩ : ∃ n : UInt64, n = 1000000 := ⟨_, rfl⟩
  rw [← hfactor]
  clear hfactor hlit
  simp only [Option.bind_eq_bind, Option.bind_some]
  split_ifs
  · rw [Option.bind_some]
    cases retryNotBefore floorNs (delay * factor) <;> rfl
  · rfl

lemma Checked.nack_iff (h : delayMs q claim = .ok delay) :
    Checked.nack q claim reason floorNs = some (q.nack claim reason floorNs) ↔ delay.toNat * 1000000 < 2 ^ 64 := by
  unfold Checked.nack
  rw [Checked.retryFloor_of_delay h]
  generalize delay.toNat * 1000000 = delayNs
  split_ifs with hfits
  · exact iff_of_true rfl hfits
  · exact iff_of_false nofun hfits

/-- Where the conversion does not wrap the nack is exact. -/
lemma Exact.of_fits (hfits : ∀ delay, delayMs q claim = .ok delay → delay.toNat * 1000000 < 2 ^ 64) :
    Exact q claim reason floorNs := by
  obtain ⟨delay, hdelay⟩ := retryDelayMs_ok q.opts.queueId claim.jobId (clamped claim.attempt) q.opts.retry
  refine ⟨(Checked.nack_iff hdelay).mpr (hfits delay hdelay), ?_⟩
  cases hfloor : q.retryFloor claim floorNs with
  | error e =>
    refine .inl ⟨e, ?_⟩
    unfold Queue.nack
    rw [hfloor]
    rfl
  | ok notBefore =>
    obtain ⟨delay, hdelay, hsum⟩ := retryFloor_eq_ok hfloor
    obtain ⟨hexact, hsigned⟩ := toNat_retryNotBefore hsum
    refine .inr ⟨delay, notBefore, hdelay, ?_, hsigned, emits_nack hfloor⟩
    have hlit : (1000000 : UInt64).toNat = 1000000 := rfl
    rw [hexact, UInt64.toNat_mul, hlit, Nat.mod_eq_of_lt (hfits delay hdelay)]

end Exact

/-! ## The policies whose delays fit -/

/-- The largest delay of an attempt. -/
def largestMs (policy : RetryPolicy) (attempt : UInt64) : Nat :=
  if attempt = 0 then 0 else ceilingMs policy (min attempt.toNat (2 ^ 32 - 1))

lemma toNat_clamped (attempt : UInt64) : (clamped attempt).toNat = min attempt.toNat (2 ^ 32 - 1) := by
  have hlit : (UInt64.ofNat u32Max.toNat).toNat = 2 ^ 32 - 1 := by decide
  rw [clamped, UInt64.toNat_toUInt32, UInt64.toNat_min, hlit]
  omega

lemma clamped_eq_zero {attempt : UInt64} : clamped attempt = 0 ↔ attempt = 0 := by
  rw [← UInt32.toNat_inj, ← UInt64.toNat_inj, toNat_clamped]
  simp only [UInt32.toNat_zero, UInt64.toNat_zero]
  omega

lemma delay_le_largestMs [Sha256] {q : Queue} {claim : Claim} (h : delayMs q claim = .ok delay) :
    delay.toNat ≤ largestMs q.opts.retry claim.attempt := by
  unfold largestMs
  split_ifs with hzero
  · rw [delayMs, hzero, retryDelayMs, q.opts.retry.validate_ok] at h
    cases h
    exact Nat.le_refl 0
  · rw [← toNat_clamped]
    exact (delay_bounds (mt clamped_eq_zero.mp hzero) h).2.2

/-- A hash whose first eight bytes are `x` on every input. -/
@[reducible] def drawing (x : UInt64) : Sha256 := ⟨fun _ => ⟨beBytes 8 x.toNat ++ List.replicate 24 0, by simp⟩⟩

lemma jitterDraw_drawing (x : UInt64) (queueId jobId : ByteArr 16) (attempt counter : UInt32) :
    @jitterDraw (drawing x) queueId jobId attempt counter = x := by
  have htake : (beBytes 8 x.toNat ++ List.replicate 24 0).take 8 = beBytes 8 x.toNat := List.take_left' (by simp)
  unfold jitterDraw
  show UInt64.ofNat (fromBe ((beBytes 8 x.toNat ++ List.replicate 24 0).take 8)) = x
  rw [htake, fromBe_beBytes_of_lt x.toNat_lt, UInt64.ofNat_toNat]

/-- A draw just below a multiple of the span is accepted and the largest offset. -/
lemma sampleOffset_last {span x : UInt64} (hspan : 0 < span.toNat) (hx : x.toNat = span.toNat * (2 ^ 64 / span.toNat) - 1)
    (hhalf : span.toNat ≤ 2 ^ 63) : (sampleOffset span fun _ => x).toNat = span.toNat - 1 := by
  have htwo : 2 ≤ 2 ^ 64 / span.toNat := (Nat.le_div_iff_mul_le hspan).mpr (by omega)
  obtain ⟨k, hk⟩ := Nat.exists_eq_add_of_le htwo
  have hx' : x.toNat = span.toNat * (k + 1) + (span.toNat - 1) := by
    rw [hx, hk]
    have : span.toNat * (2 + k) = span.toNat * (k + 1) + span.toNat := by ring
    omega
  have hthreshold : (0 - span) % span ≤ x := by
    rw [UInt64.le_iff_toNat_le, UInt64.toNat_mod]
    have hlt := Nat.mod_lt (0 - span).toNat hspan
    have hle : span.toNat * 1 ≤ span.toNat * (k + 1) := Nat.mul_le_mul_left _ (Nat.le_add_left 1 k)
    omega
  rw [sampleOffset, sampleLoop, if_pos hthreshold, UInt64.toNat_mod, hx', Nat.mul_add_mod,
    Nat.mod_eq_of_lt (by omega)]

/-- The draw that delays an attempt by its whole ceiling. -/
def lastDraw (ceiling : UInt64) : UInt64 :=
  UInt64.ofNat ((spanOf ceiling).toNat * (2 ^ 64 / (spanOf ceiling).toNat) - 1)

lemma toNat_lastDraw (ceiling : UInt64) :
    (lowerOf ceiling + sampleOffset (spanOf ceiling) fun _ => lastDraw ceiling).toNat = ceiling.toNat := by
  have hspan := toNat_spanOf ceiling
  have hlt := ceiling.toNat_lt
  have hdraw : (lastDraw ceiling).toNat = (spanOf ceiling).toNat * (2 ^ 64 / (spanOf ceiling).toNat) - 1 := by
    apply UInt64.toNat_ofNat_of_lt'
    have := Nat.mul_div_le (2 ^ 64) (spanOf ceiling).toNat
    show _ < 2 ^ 64
    omega
  rw [toNat_jittered, sampleOffset_last (by omega) hdraw (by omega)]
  omega

/-- Under some hash a jittered attempt is delayed by its whole ceiling. -/
lemma exists_delay_eq_largestMs (q : Queue) (claim : Claim) (hattempt : claim.attempt ≠ 0) :
    ∃ (_ : Sha256) (delay : UInt64), delayMs q claim = .ok delay ∧ delay.toNat = largestMs q.opts.retry claim.attempt := by
  have hclamped := mt clamped_eq_zero.mp hattempt
  have hceiling := toNat_ceiling hclamped q.opts.retry
  rw [toNat_clamped] at hceiling
  refine ⟨drawing (lastDraw (min q.opts.retry.effectiveCapMs (saturatingDouble q.opts.retry.baseMs
    (clamped claim.attempt)))), _, @retryDelayMs_eq (drawing _) _ _ _ _ hclamped, ?_⟩
  rw [largestMs, if_neg hattempt, ← hceiling]
  split_ifs with hjitter
  · rw [funext (jitterDraw_drawing _ _ _ _)]
    exact toNat_lastDraw _
  · rfl

/-- **A nack is exact where its delay fits.**  Under a policy at an attempt nothing traps or wraps in any nack, and
the fail record carries the floor plus the delay, for every hash, queue and claim, just where the largest delay of
the attempt fits in 64 bits of nanoseconds. -/
theorem nack_exact_iff (policy : RetryPolicy) (attempt : UInt64) :
    (∀ (_ : Sha256) (q : Queue) (claim : Claim) (reason floorNs : UInt64),
      q.opts.retry = policy → claim.attempt = attempt → Exact q claim reason floorNs) ↔
      largestMs policy attempt * 1000000 < 2 ^ 64 := by
  constructor
  · intro h
    by_cases hattempt : attempt = 0
    · simp [largestMs, hattempt]
    · let q : Queue := ⟨0, [], ⟨List.Vector.replicate 16 0, ['w'], policy, 0, 0, by decide⟩, ⟨2, 1, 1, 1, 64, 0⟩, rfl⟩
      let claim : Claim := ⟨List.Vector.replicate 16 0, 0, 1, attempt, List.Vector.replicate 16 0, 1, 0, .inline []⟩
      obtain ⟨hash, delay, hdelay, heq⟩ := exists_delay_eq_largestMs q claim hattempt
      have hfits := (Checked.nack_iff hdelay).mp (h hash q claim 0 0 rfl rfl).checked
      rwa [heq] at hfits
  · rintro hfits _ q claim reason floorNs rfl rfl
    refine Exact.of_fits fun delay hdelay => ?_
    exact Nat.lt_of_le_of_lt (Nat.mul_le_mul_right _ (delay_le_largestMs hdelay)) hfits

/-- A policy of one delay, whose product wraps to less than half a millisecond. -/
def wrapping : RetryPolicy := ⟨18446744073710, 18446744073710, false, none, by decide⟩

/-- A queue under that policy, and its first claim. -/
def hasty : Queue :=
  ⟨0, [], ⟨List.Vector.replicate 16 0, ['w'], wrapping, 0, 0, by decide⟩, ⟨2, 1, 1, 1, 64, 0⟩, rfl⟩

def hastyClaim : Claim :=
  ⟨List.Vector.replicate 16 0, 0, 1, 1, List.Vector.replicate 16 0, 1, 0, .inline []⟩

/-- The first nack under that policy records a time long before the delay is over. -/
theorem backoff_wraps : ∃ _ : Sha256, delayMs hasty hastyClaim = .ok 18446744073710 ∧
    hasty.retryFloor hastyClaim 0 = .ok 448384 ∧ ∀ reason, ¬ Exact hasty hastyClaim reason 0 := by
  let hash := Sha256.zero
  have hdelay : delayMs hasty hastyClaim = .ok 18446744073710 := by decide +kernel
  have hfloor : hasty.retryFloor hastyClaim 0 = .ok 448384 := by decide +kernel
  exact ⟨hash, hdelay, hfloor, fun _ h => absurd ((Checked.nack_iff hdelay).mp h.checked) (by decide)⟩

end Backoff
end Core
end StowQ
