import StowQ.Time.Watermark

/-!
# Floors are lower bounds on store time

A floor is the store time of a fresh beacon, raised to the start of the watermark's bucket; the watermark holds
buckets of earlier floors, and handles cache floors.  The three support each other, so they are sound together:
floors that were returned or cached, and the start of the stored bucket, never exceed the store's clock, in
every run whose store stamps objects by that clock (`floors_sound`).
-/

namespace StowQ
namespace Time

open Data StowQ.Core Store Format Concurrent Interleaving

variable {r : Request} {floorNs : UInt64}

/-- The start of a bucket has been reached. -/
def Reached (width : UInt64) (bucket clock : UInt64) : Prop :=
  bucket.toNat * width.toNat ≤ clock.toNat

/-- Times, caches and the watermark all lie at or below the clock. -/
structure Sound [Sha256] (S : Site) (width : UInt64) (w : World) : Prop where
  times : ∀ key stored, w.objects.get? key = some stored → stored.storeTimeNs ≤ w.clock
  caches : ∀ handle, (w.handles handle).floorNs ≤ w.clock
  watermark : ∀ bucket ∈ bucketAt S w.objects, Reached width bucket w.clock

/-- The clock does not go back. -/
def later : Rely World where
  rel w w' := w.clock ≤ w'.clock
  refl w := UInt64.le_refl w.clock
  trans h h' := UInt64.le_trans h h'

/-- What the outside may do: floors and advances on any handles of the queue, where an
advance takes a floor that was returned; any faults and stamps; writes by others elsewhere
that carry reached times. -/
def flooring [Sha256] (S : Site) (width : UInt64) : Terms where
  start cfg _ call := call.queue.site = S ∧ call.queue.format.delayedBucketWidthNs = width ∧
    (call.action = .establishFloor ∨ ∃ floorNs, call.action = .advanceWatermark floorNs ∧
      ∃ j call', cfg.Returned j call' (.ok (.establishFloor floorNs)))
  step _ _ _ _ _ := True
  env w e :=
    match e with
    | .tick _ => True
    | .write key stored => key ≠ S.absolute .watermark ∧ stored.storeTimeNs ≤ w.clock
    | .delete _ => True

lemma Reached.mono {width bucket clock clock' : UInt64} (h : Reached width bucket clock)
    (hle : clock ≤ clock') : Reached width bucket clock' :=
  Nat.le_trans h (UInt64.le_iff_toNat_le.mp hle)

section Sound

variable [Sha256] {S : Site} {width : UInt64} {w : World} {i : Nat} {c : Choice}

/-- The requests that keep floors sound: writes of the watermark carry reached buckets. -/
def Within (S : Site) (width : UInt64) (w : World) (r : Request) : Prop :=
  ∀ body, r.Writes (S.absolute .watermark) body → ∃ next : WatermarkRecord,
    body = S.encodeAt .watermark (.watermark next) ∧ Reached width next.highestObservedWallBucket w.clock

lemma Sound.request (h : Sound S width w) (hr : Within S width w r) : Sound S width (w.request i r c) where
  times key stored hget := by
    rcases inject_get? c.fault w.objects c.stamp r hget with hold | ⟨-, htime, -⟩
    · exact UInt64.le_trans (h.times key stored hold) (le_clock_left _ _)
    · rw [htime]
      exact le_clock_right _ _
  caches handle := UInt64.le_trans (h.caches handle) (le_clock_left _ _)
  watermark bucket hb := by
    have hclock : w.clock ≤ (w.request i r c).clock := le_clock_left _ _
    cases hget : (w.request i r c).objects.get? (S.absolute .watermark) with
    | none => simp [bucketAt, recordAt, hget] at hb
    | some stored =>
      rcases inject_get? c.fault w.objects c.stamp r hget with hold | ⟨-, -, hwrites⟩
      · rw [bucketAt_congr (hget.trans hold.symm)] at hb
        exact (h.watermark bucket hb).mono hclock
      · obtain ⟨next, hbody, hreached⟩ := hr _ hwrites
        rw [bucketAt_of_encode hget hbody] at hb
        cases hb
        exact hreached.mono hclock

lemma Sound.record (h : Sound S width w) (e : Event) : Sound S width (w.record e) :=
  ⟨h.times, h.caches, h.watermark⟩

lemma within_of_key (h : ∀ body, ¬ r.Writes (S.absolute .watermark) body) :
    Within S width w r := fun body hw => absurd hw (h body)

/-- The discipline of floors. -/
abbrev floor (S : Site) (width : UInt64) (i : Nat) (call : Call) : Discipline World Op Res :=
  uniform (flooring S width) (Sound S width) (fun _ => later) i call

variable {call : Call} {α β : Type}

lemma holds_within {f : StoreResult r.Answer → Routine β} {Q : Except Error β → World → Prop}
    (hr : ∀ w1, w.clock ≤ w1.clock → Sound S width w1 → Within S width w1 r)
    (h : ∀ w1 c, w.clock ≤ w1.clock → Sound S width w1 → Sound S width (w1.request i r c) →
      Holds (floor S width i call) (f (inject c.fault w1.objects c.stamp r).1) Q
        (w1.request i r c)) : Holds (floor S width i call) (Routine.store r >>= f) Q w :=
  holds_uniform fun w1 c hw1 hi _ =>
    have hs := hi.request (hr w1 hw1 hi)
    ⟨⟨hs, fun _ => le_clock_left _ _⟩, h w1 c hw1 hi hs⟩

end Sound

section Floors

variable [Sha256] {q : Queue} {width : UInt64} {w : World} {i : Nat} {call : Call}

lemma holds_beacon : Holds (floor q.site width i call) q.beacon
      (OnOk fun found w' => ∀ t, found = some t → t ≤ w'.clock) w := by
  refine holds_uniform (o := .freshToken) fun w1 c _ hi _ => ⟨⟨hi, fun _ => UInt64.le_refl _⟩, ?_⟩
  refine holds_spend (holds_within (r := .putIfAbsent _ _ _) (fun _ _ _ => within_of_key ?_)
    fun w2 c2 _ _ _ => ?_)
  · rintro body ⟨digest, h | ⟨v, h⟩⟩
    · injection h with hkey
      rw [Site.absolute_inj] at hkey
      cases hkey
    · cases h
  split
  · refine holds_spend (holds_within (r := .head _) (fun _ _ _ => within_of_key fun _ =>
      Request.not_writes_of_reads rfl) fun w3 c3 _ hi3 _ => holds_ofStore fun info hinfo => ?_)
    obtain ⟨stored, hget, rfl⟩ := answer_head hinfo
    refine holds_pure fun w4 _ ho4 t ht => ?_
    cases ht
    exact UInt64.le_trans (hi3.times _ stored hget) (UInt64.le_trans (le_clock_left _ _) ho4)
  · exact holds_pure nofun
  · exact holds_retryOrFail nofun

/-- The start of the bucket that was read has been reached. -/
lemma holds_watermark_reached (hinv : Sound q.site width w) : Holds (floor q.site width i call) q.watermark
      (OnOk fun found w' => ∀ r, found = some r → Reached width r.highestObservedWallBucket w'.clock) w := by
  refine holds_watermark_of (fun r a b hab h => h.mono hab) ?_
  refine holds_retrying hinv fun w1 _ _ => holds_spend (holds_within (r := .get _)
    (fun _ _ _ => within_of_key fun _ => Request.not_writes_of_reads rfl) fun w2 c _ hi2 _ => ?_)
  generalize hans : (inject c.fault w2.objects c.stamp (.get (q.absolute .watermark))).1 = ans
  change StoreResult Object at ans
  cases ans with
  | error e => exact holds_retryOrFail fun _ _ _ => by simp
  | ok obj =>
    obtain ⟨stored, hget, rfl⟩ := answer_get hans
    refine holds_pure fun w3 _ ho3 v hv r hr => ?_
    cases hv
    have hbucket : bucketAt q.site w2.objects = some r.highestObservedWallBucket := by
      simp [bucketAt, recordAt_of_decode hget hr]
    exact (hi2.watermark _ hbucket).mono (UInt64.le_trans (le_clock_left _ _) ho3)

omit [Sha256] in
/-- The gate raises a floor at most to a bucket that has been reached. -/
lemma gateFloor_le {raw clock : UInt64} {found : Option WatermarkRecord} (hraw : raw ≤ clock)
    (hfound : ∀ r, found = some r → Reached q.format.delayedBucketWidthNs r.highestObservedWallBucket clock)
    (h : q.gateFloor raw found = .ok floorNs) : floorNs ≤ clock := by
  unfold Queue.gateFloor at h
  split at h
  · rw [← Except.ok.inj h]
    exact hraw
  · next r =>
      dsimp only at h
      split at h
      · cases h
      · split at h
        · next raised hraised =>
            rw [← Except.ok.inj h]
            rcases Math.effectiveFloor_cases hraised with heq | hmul
            · rw [heq]
              exact hraw
            · exact UInt64.le_iff_toNat_le.mpr (hmul ▸ hfound r rfl)
        · cases h

/-- **A floor that is returned has been reached.** -/
theorem holds_establishFloor (hwidth : q.format.delayedBucketWidthNs = width) :
    Holds (floor q.site width i call) q.establishFloor
      (OnOk fun floorNs w' => floorNs ≤ w'.clock) w := by
  refine holds_uniform (o := .cachedFloor _) fun w1 c _ hi1 _ =>
    ⟨⟨hi1, fun _ => UInt64.le_refl _⟩, ?_⟩
  generalize hcached : (w1.exec i (.cachedFloor q.handle) c).1 = cached
  change Option UInt64 at cached
  cases cached with
  | some floorNs =>
    refine holds_pure fun w2 _ ho2 => UInt64.le_trans ?_ ho2
    have hfloor : (w1.handles q.handle).cachedFloor c.elapsedNs = some floorNs := hcached
    unfold HandleState.cachedFloor at hfloor
    split at hfloor
    · rw [← Option.some.inj hfloor]
      exact hi1.caches q.handle
    · cases hfloor
  | none =>
    have hbeacon : Holds (floor q.site width i call) (Routine.retrying q.beacon)
        (OnOk fun raw w' => raw ≤ w'.clock) w1 :=
      holds_retrying hi1 fun _ _ _ => holds_beacon
    refine hbeacon.andThen fun raw w2 hi2 _ hraw => ?_
    split
    · exact holds_fail
    refine (holds_watermark_reached hi2).andThen fun found w3 _ ho3 hfound => ?_
    refine holds_ofExcept fun floorNs hgate => ?_
    have hle : floorNs ≤ w3.clock := gateFloor_le (UInt64.le_trans hraw ho3) (hwidth ▸ hfound) hgate
    refine holds_uniform (o := .cacheFloor _ _) fun w4 c4 ho4 hi4 _ => ?_
    have hle4 : floorNs ≤ w4.clock := UInt64.le_trans hle ho4
    refine ⟨⟨⟨hi4.times, fun handle => ?_, hi4.watermark⟩, fun _ => UInt64.le_refl _⟩,
      holds_pure fun w5 _ ho5 => UInt64.le_trans hle4 ho5⟩
    show (Function.update w4.handles q.handle _ handle).floorNs ≤ w4.clock
    by_cases hh : handle = q.handle
    · subst hh
      rw [Function.update_self]
      exact hle4
    · rw [Function.update_of_ne hh]
      exact hi4.caches handle

lemma within_bucket {bucket : UInt64} {w1 : World} (hwidth : q.format.delayedBucketWidthNs = width)
    (hfloor : floorNs ≤ w1.clock)
    (hbucket : Math.bucketNumber floorNs q.format.delayedBucketWidthNs = some bucket) (sequence : UInt64)
    (hr : ∀ body, r.Writes (q.absolute .watermark) body →
      body = q.encodeAt .watermark (.watermark ⟨bucket, sequence⟩)) : Within q.site width w1 r := by
  intro body hw
  refine ⟨⟨bucket, sequence⟩, hr body hw, ?_⟩
  have hle := Math.bucketNumber_mul_le hbucket
  rw [hwidth] at hle
  exact Nat.le_trans hle (UInt64.le_iff_toNat_le.mp hfloor)

lemma holds_advance_reached (hwidth : q.format.delayedBucketWidthNs = width) (hfloor : floorNs ≤ w.clock) :
    Holds (floor q.site width i call) (q.advanceWatermark floorNs) (fun _ _ => True) w := by
  let A : Op → Prop := fun o => ∀ w1 c, w.clock ≤ w1.clock → Sound q.site width w1 →
    Sound q.site width (w1.exec i o c).2 ∧ w1.clock ≤ (w1.exec i o c).2.clock
  have hwithin : ∀ r, (∀ w1, w.clock ≤ w1.clock → Within q.site width w1 r) → A (.store r) :=
    fun r hr w1 c hw1 hi => ⟨hi.request (hr w1 hw1), le_clock_left _ _⟩
  have hread : ∀ r : Request, r.reads = true → A (.store r) := fun r hr =>
    hwithin r fun _ _ => within_of_key fun _ => Request.not_writes_of_reads hr
  refine holds_uniform_of_emits (A := A) (Budgeted.Emits.prog (Footprint.advanceWatermark (hread _ rfl) (hread _ rfl)
    (fun bucket sequence hbucket => hwithin _ fun w1 hw1 => ?_)
    (fun bucket sequence v hbucket => hwithin _ fun w1 hw1 => ?_) fun _ _ => trivial))
    fun o ho w1 c hw1 hi _ => ⟨(ho w1 c hw1 hi).1, fun _ => (ho w1 c hw1 hi).2⟩
  · refine within_bucket hwidth (UInt64.le_trans hfloor hw1) hbucket sequence ?_
    rintro body ⟨digest, h | ⟨v, h⟩⟩
    · injection h with _ hbody
      exact hbody.symm
    · cases h
  · refine within_bucket hwidth (UInt64.le_trans hfloor hw1) hbucket sequence ?_
    rintro body ⟨digest, h | ⟨v, h⟩⟩
    · cases h
    · injection h with _ hbody
      exact hbody.symm

end Floors

/-! ## All runs -/

section Runs

variable [Sha256] {S : Site} {width : UInt64}

/-- A returned floor has been reached. -/
def ReturnedFloor (out : Except Error Output) (w : World) : Prop :=
  OnOk (fun out (w : World) => ∀ floorNs, out = .establishFloor floorNs → floorNs ≤ w.clock) out w

lemma flooring_outside {w : World} {e : Outside} (h : Sound S width w)
    (he : (flooring S width).env w e) :
    Sound S width (w.outside e) ∧ w.clock ≤ (w.outside e).clock := by
  cases e with
  | tick clock =>
    have hle : w.clock ≤ (w.outside (.tick clock)).clock := le_clock_left _ _
    exact ⟨⟨fun key stored hget => UInt64.le_trans (h.times key stored hget) hle,
      fun handle => UInt64.le_trans (h.caches handle) hle,
      fun bucket hb => (h.watermark bucket hb).mono hle⟩, hle⟩
  | write key stored =>
    obtain ⟨hkey, htime⟩ := he
    refine ⟨⟨fun key' stored' hget => ?_, h.caches, fun bucket hb => ?_⟩, UInt64.le_refl _⟩
    · rw [show (w.outside (.write key stored)).objects = w.objects.insert key stored from rfl,
        OrderedMap.get?_insert] at hget
      split at hget
      · cases hget
        exact htime
      · exact h.times key' stored' hget
    · exact h.watermark bucket (by
        rwa [← bucketAt_congr (OrderedMap.get?_insert_of_ne _ _ (Ne.symm hkey))])
  | delete key =>
    have hgone : ∀ key' stored, (w.objects.erase key).get? key' = some stored →
        w.objects.get? key' = some stored := by
      intro key' stored hget
      rw [OrderedMap.get?_erase] at hget
      split at hget
      · cases hget
      · exact hget
    refine ⟨⟨fun key' stored hget => h.times key' stored (hgone key' stored hget), h.caches,
      fun bucket hb => ?_⟩, UInt64.le_refl _⟩
    change bucket ∈ bucketAt S (w.objects.erase key) at hb
    cases hget : (w.objects.erase key).get? (S.absolute .watermark) with
    | none => simp [bucketAt, recordAt, hget] at hb
    | some stored =>
      rw [bucketAt_congr (hget.trans (hgone _ _ hget).symm)] at hb
      exact h.watermark bucket hb

lemma flooring_obligations (S : Site) (width : UInt64) : Obligations machine (flooring S width)
    (Sound S width) (fun _ _ => later) (fun _ _ w w' => Nat → later.rel w w')
    (fun _ _ => ReturnedFloor) := by
  refine uniform_obligations (fun _ => later) (fun cfg i call hinv hpost hstart =>
    ⟨hinv.record _, fun _ => UInt64.le_refl _, ?_⟩)
    (fun i out w hinv => ⟨hinv.record _, fun _ _ => UInt64.le_refl _⟩)
    (fun i call out w w' _ hw' h a ha floorNs heq => UInt64.le_trans (h a ha floorNs heq) hw')
    fun w e hinv he => ⟨(flooring_outside hinv he).1, fun _ => (flooring_outside hinv he).2⟩
  obtain ⟨q, action, budget⟩ := call
  obtain ⟨rfl, hwidth, rfl | ⟨floorNs, rfl, j, call', hret⟩⟩ := hstart
  · refine (holds_establishFloor hwidth).andThen fun floorNs w1 _ _ hle =>
      holds_pure fun w2 _ ho2 floorNs' heq => ?_
    injection heq with heq
    subst heq
    exact UInt64.le_trans hle ho2
  · refine holds_after (holds_advance_reached hwidth ?_) fun _ w1 _ _ =>
      holds_pure nofun
    exact hpost j call' _ hret _ rfl floorNs rfl

/-- **Floors are sound.**  From a sound world, in every reachable configuration every floor
that was returned is at most the clock, and so is the start of the stored bucket. -/
theorem floors_sound (S : Site) (width : UInt64) (w : World) (hw : Sound S width w) (cfg : Calls)
    (hrun : machine.Run (flooring S width) (Machine.initial w) cfg) :
    (∀ i call floorNs, cfg.Returned i call (.ok (.establishFloor floorNs)) → floorNs ≤ cfg.world.clock) ∧
    ∀ bucket ∈ bucketAt S cfg.world.objects, bucket.toNat * width.toNat ≤ cfg.world.clock.toNat := by
  have hgood := (flooring_obligations S width).run_good (Obligations.initial_good hw) hrun
  exact ⟨fun i call floorNs hret => hgood.returned hret _ rfl floorNs rfl, hgood.1.watermark⟩

end Runs

/-! ## Floors of the small queue -/

open Scenario

/-- A second handle on the queue, with caches of its own. -/
def beta : Queue := { demo with handle := 1 }

/-- A floor by a beacon: its put, its look and the read of the watermark. -/
def floorBy (q : Queue) : Call := ⟨q, .establishFloor, 3⟩

/-- An advance to a floor. -/
def advanceBy (q : Queue) (floorNs : UInt64) : Call := ⟨q, .advanceWatermark floorNs, 3⟩

/-- Two handles take turns: the first establishes a floor at time one and advances the watermark to it, and the second
does the same at time three. -/
theorem floors_sound_once : ∃ (_ : Sha256) (cfg : Calls),
    cfg.Returned 0 (floorBy demo) (.ok (.establishFloor 1)) ∧ cfg.Returned 1 (advanceBy demo 1) (.ok .advanceWatermark) ∧
      cfg.Returned 2 (floorBy beta) (.ok (.establishFloor 3)) ∧
      cfg.Returned 3 (advanceBy beta 3) (.ok .advanceWatermark) ∧ bucketAt demo.site cfg.world.objects = some 3 ∧
      (∀ i call floorNs, cfg.Returned i call (.ok (.establishFloor floorNs)) → floorNs ≤ cfg.world.clock) ∧
      ∀ bucket ∈ bucketAt demo.site cfg.world.objects,
        bucket.toNat * (1 : UInt64).toNat ≤ cfg.world.clock.toNat := by
  let hash := Sha256.zero
  let P := flooring demo.site 1
  have hsound : Sound demo.site 1 (blank 1) := by
    refine ⟨nofun, fun _ => ?_, nofun⟩
    show (0 : UInt64) ≤ 1
    decide
  let cfg0 := play faultless 0 (floorBy demo) (Machine.initial (blank 1))
  let cfg1 := play faultless 1 (advanceBy demo 1) cfg0
  let cfg2 := play faultless 2 (floorBy beta) (tick 3 cfg1)
  let cfg3 := play faultless 3 (advanceBy beta 3) cfg2
  have hret0 : cfg0.Returned 0 _ (.ok (.establishFloor 1)) := play_returned (by decide +kernel)
  have hret1 : cfg1.Returned 1 _ (.ok .advanceWatermark) := play_returned (by decide +kernel)
  have hret2 : cfg2.Returned 2 _ (.ok (.establishFloor 3)) := play_returned (by decide +kernel)
  have hrun0 : machine.Run P (Machine.initial (blank 1)) cfg0 := run_plainly ⟨rfl, rfl, .inl rfl⟩ (fun _ _ => trivial) rfl
  have hrun1 : machine.Run P cfg0 cfg1 :=
    run_plainly ⟨rfl, rfl, .inr ⟨1, rfl, 0, _, hret0⟩⟩ (fun _ _ => trivial) (play_threads (by decide))
  have hrun2 : machine.Run P cfg1 cfg2 := (run_tick trivial).trans <|
    run_plainly ⟨rfl, rfl, .inl rfl⟩ (fun _ _ => trivial) ((play_threads (by decide)).trans (play_threads (by decide)))
  have hrun3 : machine.Run P cfg2 cfg3 := run_plainly ⟨rfl, rfl, .inr ⟨3, rfl, 2, _, hret2⟩⟩ (fun _ _ => trivial)
      ((play_threads (by decide)).trans ((play_threads (by decide)).trans (play_threads (by decide))))
  refine ⟨hash, cfg3, ?_, ?_, (play_threads (by decide)).trans hret2, play_returned (by decide +kernel), by decide +kernel,
    floors_sound demo.site 1 (blank 1) hsound cfg3 (((hrun0.trans hrun1).trans hrun2).trans hrun3)⟩
  · exact (play_threads (by decide)).trans ((play_threads (by decide)).trans ((play_threads (by decide)).trans hret0))
  · exact (play_threads (by decide)).trans ((play_threads (by decide)).trans hret1)

end Time
end StowQ
