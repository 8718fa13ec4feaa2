import StowQ.Core.ScanRules
import StowQ.Custody.Tail

/-!
# Claiming a job

The takeover of one candidate: every pass reads the fail record of its tail and the job
record, and its create is due.  The results cover the two passes of a candidate, the
concurrent waves and the whole scan.
-/

namespace StowQ
namespace Custody

open Data StowQ.Core Store Format Concurrent Interleaving Keys

variable {S : Site} {tail : Tail} {g : UInt32}

section Writing

variable [Sha256] {q : Queue} {timed : Prop} {i : Nat} {call : Call}
  {tolerated emitted path : Event → Prop} {ht : ∀ e, tolerated e → path e}
  {he : ∀ e, emitted e → path e} {w : World} {shard : UInt16} {jobId : ByteArr 16}

/-! ## Reading back -/

/-- A body read from the custody planes is still there. -/
lemma holds_readRetrying {k : Key} (hk : planeOf k ∈ custodyPlanes)
    (hlog : ∀ e, LoggedAs i (.store (.get (q.absolute k))) e → emitted e)
    (hinv : Inv q.site timed w) :
    Holds (discipline q.site timed i call tolerated emitted path ht he)
      (Queue.readRetrying (q.absolute k))
      (OnOk fun obj w' => ∃ stored, w'.objects.get? (q.absolute k) = some stored ∧
        obj = ⟨stored.info, stored.body⟩) w := by
  refine holds_retrying hinv fun w1 _ _ => holds_spend ?_
  refine holds_get hlog fun w2 r _ _ hok _ => ?_
  cases r with
  | error e => exact holds_retryOrFail fun _ _ _ => by simp
  | ok obj =>
    obtain ⟨stored, hget, rfl⟩ := hok obj rfl
    refine holds_pure fun w3 _ ho3 v hv => ?_
    cases hv
    exact ⟨stored, ho3.objects _ stored _ (plane_absolute _ k) hk hget, rfl⟩

/-- A resolution that says committed found the intended record. -/
lemma holds_resolveUnknown {k : Key} {r : Record} (hk : planeOf k ∈ custodyPlanes)
    (hcalm : ∀ shard jobId g, k ≠ .fail shard jobId g)
    (hq : ∀ e, QuietEvent q.site i e → emitted e) (hinv : Inv q.site timed w) :
    Holds (discipline q.site timed i call tolerated emitted path ht he)
      (q.resolveUnknown (q.absolute k) r k)
      (OnOk fun res w' => res = .committed → recordAt q.site w'.objects k = some r) w := by
  refine holds_retrying hinv fun w1 _ _ => holds_spend ?_
  refine holds_head (fun e hlog => hq e (quiet_of_logged (calm_head _).2 hlog))
    fun w2 res hi2 _ _ => ?_
  cases res with
  | error e =>
    cases e with
    | notFound =>
      refine holds_pure fun _ _ _ v hv => ?_
      cases hv
      simp
    | _ => exact holds_retryOrFail fun _ _ _ => by simp
  | ok m =>
    have hget : ∀ e, LoggedAs i (.store (.get (q.absolute k))) e → emitted e := fun e hlog =>
      hq e (quiet_of_logged (fun s j g heq => hcalm s j g (by simpa using heq)) hlog)
    refine (holds_readRetrying hk hget hi2).andThen fun obj w3 _ _ hobj => ?_
    obtain ⟨stored, hstored, rfl⟩ := hobj
    refine holds_pure fun w4 _ ho4 v hv hcommitted => ?_
    cases hv
    refine ho4.objects.recordAt hk ?_
    unfold Queue.evidence at hcommitted
    cases hdec : q.decodeAt k stored.body with
    | error e => simp [hdec] at hcommitted
    | ok found =>
      by_cases hfound : found = r
      · subst hfound
        simp [recordAt, hstored, hdec, Except.toOption]
      · simp [hdec, hfound] at hcommitted

lemma record_of_recordAt {objs : Objects} {r : ClaimRecord}
    (h : recordAt S objs (.claim shard jobId g) = some (.claim r)) :
    ∃ e, claimAt S objs shard jobId g = some e ∧ e.record = r := by
  unfold recordAt at h
  obtain ⟨stored, hget, hdec⟩ := Option.bind_eq_some_iff.mp h
  cases hd : S.decodeAt (.claim shard jobId g) stored.body with
  | error e => simp [hd, Except.toOption] at hdec
  | ok found =>
    simp only [hd, Except.toOption, Option.some.injEq] at hdec
    subst hdec
    exact ⟨_, claimAt_of_decode hget hd, rfl⟩

/-- **The conditional create of a due claim.** -/
theorem holds_putClaim {r : ClaimRecord} {floorNs : UInt64} (hq : ∀ e, QuietEvent q.site i e → emitted e)
    (hpath : r.continuation = false → ∀ e, path e → ¬ ProbesJob q.site i shard jobId e)
    (hinv : Inv q.site timed w) (hdue : Due q.site w.objects shard jobId g r floorNs)
    (hto : r.continuation = false → claimFloor call = some floorNs ∧ Backoff q.site w.log i shard jobId g floorNs) :
    Holds (discipline q.site timed i call tolerated emitted path ht he)
      (q.putRecord (.claim shard jobId (g + 1)) (.claim r))
      (OnOk fun res w' => res = .committed →
        ∃ e, claimAt q.site w'.objects shard jobId (g + 1) = some e ∧ e.record = r) w := by
  refine holds_retrying hinv fun w1 hi1 ho1 => holds_spend ?_
  have hcalm : ∀ s j g', Op.put (q.absolute (.claim shard jobId (g + 1)))
      (q.encodeAt (.claim shard jobId (g + 1)) (.claim r)) ≠
        .store (.get (q.site.absolute (.fail s j g'))) := nofun
  refine holds_put (fun e hlog => hq e (quiet_of_logged hcalm hlog)) (fun w2 hw2 _ => ?_)
    fun w2 ans hi2 _ hcommitted => ?_
  · have hpre : Grows q.site path w w2 := Grows.trans ho1 hw2
    exact .claim shard jobId g r floorNs (hdue.extends hpre.objects) fun hcont =>
      ⟨(hto hcont).1, (hto hcont).2.grows hpre fun e hpe hprobe =>
        hpath hcont e hpe ⟨g, hprobe⟩⟩
  cases ans with
  | ok outcome =>
    cases outcome with
    | committed v =>
      obtain ⟨stored, hget, hbody⟩ := hcommitted v rfl
      refine holds_pure fun w3 _ ho3 _ _ _ => ?_
      exact ⟨_, ho3.objects.claimAt (claimAt_of_get? hdue.wellFormed hget hbody), rfl⟩
    | rejected =>
      refine holds_pure fun _ _ _ v' hv' hres => ?_
      cases hv'
      cases hres
  | error err =>
    cases err with
    | transport => exact holds_pure nofun
    | outcomeUnknown why =>
      refine (holds_resolveUnknown (by simp [planeOf, custodyPlanes])
        (fun _ _ _ h => by cases h) hq hi2).andThen fun res w3 _ _ hres => ?_
      cases res with
      | committed =>
        refine holds_pure fun w4 _ ho4 _ _ _ => ?_
        obtain ⟨e, hclaim, hrec⟩ := record_of_recordAt (hres rfl)
        exact ⟨e, ho4.objects.claimAt hclaim, hrec⟩
      | lost =>
        refine holds_pure fun _ _ _ v' hv' hres => ?_
        cases hv'
        cases hres
      | notCommitted => exact holds_pure nofun
    | _ => exact holds_fail

lemma holds_readJob (hq : ∀ e, QuietEvent q.site i e → emitted e) :
    Holds (discipline q.site timed i call tolerated emitted path ht he) (q.readJob shard jobId)
      (OnOk fun found w' => ∀ job, found = some job → jobAt q.site w'.objects shard jobId = some job) w := by
  refine holds_spend (holds_get (fun e hlog => hq e (quiet_of_logged (calm_get (by simp [planeOf,
    jobsSeg, failsSeg])).2 hlog)) fun w1 r _ _ hok _ => ?_)
  cases r with
  | error err =>
    cases err with
    | notFound => exact holds_pure fun _ _ _ job hjob => by cases hjob
    | _ => exact holds_fail
  | ok obj =>
    obtain ⟨stored, hget, rfl⟩ := hok obj rfl
    refine holds_ofRecord fun record hrecord => ?_
    cases record with
    | job j =>
      refine holds_pure fun w2 _ ho2 job hjob => ho2.objects.jobAt ?_
      cases hjob
      simp [jobAt, recordAt, hget, hrecord, Except.toOption]
    | _ => exact holds_fail

/-! ## Handles -/

/-- A handle names a claim of the store. -/
def HandleOk (S : Site) (objs : Objects) (c : Claim) : Prop :=
  c.generation.toNat < 2 ^ 32 ∧ ∃ e, claimAt S objs c.shard c.jobId c.generation.toUInt32 = some e ∧
    e.record.attempt = c.attempt ∧ e.record.workerToken = c.workerToken ∧
      e.record.leaseDurationNs = c.leaseDurationNs

lemma HandleOk.extends {a b : Objects} {c : Claim} (h : HandleOk S a c) (hab : Extends S a b) :
    HandleOk S b c := by
  obtain ⟨hlt, e, hclaim, hrest⟩ := h
  exact ⟨hlt, e, hab.claimAt hclaim, hrest⟩

lemma holds_takeoverHandle (hq : ∀ e, QuietEvent q.site i e → emitted e) {opts : ClaimOptions}
    {job : JobRecord} {token : ByteArr 16} {hint : Option (Version × UInt64)}
    (hgen : ¬ UInt64.ofNat u32Max.toNat ≤ tail.generation)
    (hclaim : ∃ e, claimAt q.site w.objects shard jobId (tail.generation.toUInt32 + 1) = some e ∧
      e.record = q.takeoverRecord jobId opts tail token) :
    Holds (discipline q.site timed i call tolerated emitted path ht he)
      (q.takeoverHandle shard jobId opts tail job token hint)
      (OnOk fun c w' => HandleOk q.site w'.objects c) w := by
  obtain ⟨e, he, hrec⟩ := hclaim
  refine holds_spend (holds_head (fun e hlog => hq e (quiet_of_logged (calm_head _).2 hlog))
    fun w1 r _ ho1 _ => holds_ofStore fun info _ => ?_)
  split
  · exact holds_fail
  · have hhint : Budgeted.Emits (Calm q.site)
        (q.writeTailHint shard jobId (tail.generation + 1) hint) :=
      Footprint.writeTailHint (fun _ => calm_put (show tailsSeg ≠ claimsSeg by decide))
        fun _ _ => calm_cas (show tailsSeg ∉ custodyPlanes by decide)
    have hlease : Budgeted.Emits (Calm q.site) (q.writeLeaseIndex shard jobId
        (satAdd info.storeTimeNs opts.leaseDurationNs) (tail.generation + 1)) :=
      Footprint.writeLeaseIndex fun _ _ => calm_put (show leasesSeg ≠ claimsSeg by decide)
    refine holds_after (holds_of_calm hq hhint w1) fun _ w2 _ ho2 =>
      holds_after (holds_of_calm hq hlease w2) fun _ w3 _ ho3 => ?_
    refine holds_pure fun w4 _ ho4 => ?_
    have hpath : Grows q.site path w w4 := ho1.trans (Grows.trans ho2 (Grows.trans ho3 ho4))
    obtain ⟨hlt, hnext, -⟩ := next_lt hgen
    refine ⟨by rw [hnext]; exact hlt, e, ?_, ?_⟩
    · rw [next_toUInt32]
      exact hpath.objects.claimAt he
    · rw [hrec]
      exact ⟨rfl, rfl, rfl⟩

end Writing

/-! ## One candidate -/

/-- Events of call `i` that read fail records of one job only. -/
def CandidateEvent (S : Site) (i : Nat) (shard : UInt16) (jobId : ByteArr 16) (e : Event) : Prop :=
  DoneBy i e ∧ ∀ shard' jobId', ProbesJob S i shard' jobId' e → shard' = shard ∧ jobId' = jobId

/-- The discipline of a candidate's probe: no one else reads its fail records for this
call. -/
abbrev candidate [Sha256] (S : Site) (timed : Prop) (i : Nat) (call : Call) (shard : UInt16)
    (jobId : ByteArr 16) : Discipline World Op Res :=
  discipline S timed i call (fun e => ¬ ProbesJob S i shard jobId e)
    (CandidateEvent S i shard jobId) (fun _ => True) (fun _ _ => trivial) fun _ _ => trivial

/-- The part of it that does not read fail records itself. -/
abbrev quiet [Sha256] (S : Site) (timed : Prop) (i : Nat) (call : Call) (shard : UInt16)
    (jobId : ByteArr 16) : Discipline World Op Res :=
  discipline S timed i call (fun e => ¬ ProbesJob S i shard jobId e)
    (QuietEvent S i) (fun e => ¬ ProbesJob S i shard jobId e) (fun _ h => h) fun _ h => h.2 _ _

lemma QuietEvent.candidate {i : Nat} {shard : UInt16} {jobId : ByteArr 16} {e : Event} (h : QuietEvent S i e) :
    CandidateEvent S i shard jobId e :=
  ⟨h.1, fun shard' jobId' hprobe => absurd hprobe (h.2 shard' jobId')⟩

section Candidate

variable [Sha256] {q : Queue} {timed : Prop} {i : Nat} {call : Call} {w : World}
  {shard : UInt16} {jobId : ByteArr 16} {opts : ClaimOptions}

/-- A read of the fail record settles the backoff of its generation: fail records stay, so
earlier reads of the call saw nothing else. -/
lemma backoff_of_read {floorNs : UInt64} {c : Choice} (hinv : Inv S timed w)
    (hread : ∀ f, failAt S w.objects shard jobId g = some f → f.retryNotBeforeNs ≤ floorNs) :
    Backoff S (w.request i (.get (S.absolute (.fail shard jobId g))) c).log i shard jobId g
      floorNs := by
  refine fun _ => ⟨⟨_, List.mem_cons_self, _, _, _, rfl⟩, fun answer before after hmem f hf => ?_⟩
  rcases List.mem_cons.mp hmem with heq | hmem
  · cases heq
    exact hread f hf
  · exact hread f ((hinv.past i _ answer before after hmem).1.failAt hf)

lemma holds_backoffPassed :
    Holds (candidate q.site timed i call shard jobId) (q.backoffPassed shard jobId opts tail)
      (OnOk fun passed w' => passed = true →
        Backoff q.site w'.log i shard jobId tail.generation.toUInt32 opts.floorNs) w := by
  unfold Queue.backoffPassed
  split
  · next hzero =>
      refine holds_pure fun w' _ _ _ hne => absurd ?_ hne
      rw [hzero]
      rfl
  refine holds_spend ?_
  set g := tail.generation.toUInt32 with hg
  have hlog : ∀ e, LoggedAs i (.store (.get (q.site.absolute (.fail shard jobId g)))) e →
      CandidateEvent q.site i shard jobId e := by
    rintro e ⟨r, answer, before, after, hreq, rfl⟩
    refine ⟨rfl, fun shard' jobId' hprobe => ?_⟩
    obtain ⟨g', answer', before', after', heq⟩ := hprobe
    injection hreq with hreq
    injection heq with _ heq
    rw [← hreq] at heq
    injection heq with heq
    rw [Site.absolute_inj] at heq
    injection heq with hs hj
    exact ⟨hs.symm, hj.symm⟩
  refine holds_permitted hlog fun w1 hw1 hi1 => ⟨.read _ rfl, fun c hi2 _ => ?_⟩
  obtain ⟨-, hok, hnone⟩ := exec_get i (q.site.absolute (.fail shard jobId g)) w1 c
  -- the backoff of a world right after the read survives what others do
  have hkeep : (∀ f, failAt q.site w1.objects shard jobId g = some f →
      f.retryNotBeforeNs ≤ opts.floorNs) → Stably (candidate q.site timed i call shard jobId)
        (fun w' => Backoff q.site w'.log i shard jobId g opts.floorNs)
        (w1.exec i (.store (.get (q.site.absolute (.fail shard jobId g)))) c).2 :=
    fun hread w' hw' _ => (backoff_of_read hi1 hread).grows hw' fun e he hp => he ⟨g, hp⟩
  generalize (w1.exec i (.store (.get (q.site.absolute (.fail shard jobId g)))) c).1 = r
    at hok hnone
  change StoreResult Object at r
  cases r with
  | error err =>
    cases err with
    | notFound =>
      refine Holds.pure fun w' hw' hi' => ?_
      rw [onOk_ok]
      refine fun _ => hkeep (fun f hf => ?_) w' hw' hi'
      simp [failAt, recordAt, hnone rfl] at hf
    | _ => exact holds_fail
  | ok obj =>
    obtain ⟨stored, hget, rfl⟩ := hok obj rfl
    refine holds_ofRecord fun record hrecord => ?_
    cases record with
    | fail f =>
      refine Holds.pure fun w' hw' hi' => ?_
      rw [onOk_ok]
      refine fun hpassed => hkeep (fun f' hf' => ?_) w' hw' hi'
      simp only [failAt, recordAt, hget, Option.bind_some, hrecord, Except.toOption, Option.some.injEq] at hf'
      rw [← hf']
      simpa using hpassed
    | _ => exact holds_fail

/-- The create of a pass is due: its tail is in the store, its lease has run out at the
floor, and the job allows one more attempt. -/
lemma due_takeover {objs : Objects} {job : JobRecord} (token : ByteArr 16) (hkept : Kept q.site timed objs)
    (htail : TailOk q.site objs shard jobId tail) (hexpired : q.expired opts tail = true)
    (hjob : jobAt q.site objs shard jobId = some job) (hdelay : ¬ opts.floorNs < job.notBeforeNs.getD 0)
    (hmax : ¬ job.maximumAttempts < tail.attempt + 1) (hgen : ¬ UInt64.ofNat u32Max.toNat ≤ tail.generation) :
    Due q.site objs shard jobId tail.generation.toUInt32
      (q.takeoverRecord jobId opts tail token) opts.floorNs := by
  obtain ⟨hlt, hnext, hcast⟩ := next_lt hgen
  refine ⟨by rw [hcast]; exact hlt, by rw [hcast]; exact hnext, q.takeoverRecord_wellFormed ..,
    ⟨job, hjob, UInt64.not_lt.mp hmax, fun _ => UInt64.not_lt.mp hdelay⟩, ?_⟩
  rcases htail.2 with ⟨hzero, hattempt⟩ | ⟨e, hclaim, htime, hattempt, hlease⟩
  · refine .inl ⟨by rw [hzero]; rfl, rfl, ?_⟩
    show (tail.attempt + 1).toNat = 1
    rw [hattempt]
    rfl
  · have hne : tail.generation ≠ 0 := by
      intro hzero
      obtain ⟨c, hrep, -, -⟩ := hkept.chains shard jobId
      rw [hzero, hrep.claim, if_pos (by rfl)] at hclaim
      cases hclaim
    have hend : satAdd (satAdd e.timeNs e.record.leaseDurationNs) q.opts.skewGuardNs ≤ opts.floorNs := by
      unfold Queue.expired at hexpired
      rw [htime, hlease]
      simpa [hne] using hexpired
    have hover : satAdd e.timeNs e.record.leaseDurationNs ≤ opts.floorNs := UInt64.le_trans (le_satAdd _ _) hend
    refine .inr ⟨e, hclaim, ?_, fun _ => hover, ⟨_, rfl, htime.symm, hlease.symm, hover⟩⟩
    -- attempts stay far below the wrap, since they never exceed the generation
    obtain ⟨c, hrep, -, -⟩ := hkept.chains shard jobId
    have hbound : e.record.attempt.toNat < 2 ^ 33 := by
      have hentry := hrep.claim tail.generation.toUInt32
      rw [hclaim] at hentry
      split at hentry
      · cases hentry
      · have hle := c.attempt_le_generation hentry.symm
        have := tail.generation.toUInt32.toNat_lt
        omega
    show (tail.attempt + 1).toNat = _
    rw [← hattempt, UInt64.toNat_add]
    have hone : (1 : UInt64).toNat = 1 := rfl
    omega

lemma holds_claimPass {hint : Option (Version × UInt64)} {again : Option (Tail → Routine (Option Claim))}
    (hfloor : claimFloor call = some opts.floorNs)
    (hagain : ∀ pass, again = some pass → ∀ t w', Inv q.site timed w' →
      TailOk q.site w'.objects shard jobId t → Holds (candidate q.site timed i call shard jobId)
        (pass t) (OnOk fun c w'' => ∀ h, c = some h → HandleOk q.site w''.objects h) w')
    (htail : TailOk q.site w.objects shard jobId tail) :
    Holds (candidate q.site timed i call shard jobId)
      (q.claimPass shard jobId opts hint again tail)
      (OnOk fun c w' => ∀ h, c = some h → HandleOk q.site w'.objects h) w := by
  have hnone : ∀ w', Holds (candidate q.site timed i call shard jobId)
      (pure none : Routine (Option Claim))
      (OnOk fun c w'' => ∀ h, c = some h → HandleOk q.site w''.objects h) w' :=
    fun w' => holds_pure nofun
  -- the second pass starts from the listed tail
  have hsecond : ∀ pass w', again = some pass → Inv q.site timed w' →
      Holds (candidate q.site timed i call shard jobId) (do pass (← q.rediscoverTail shard jobId))
        (OnOk fun c w'' => ∀ h, c = some h → HandleOk q.site w''.objects h) w' :=
    fun pass w' hpass hi' => (holds_rediscoverTail (fun e he => he.candidate) hi').andThen
      fun t w1 hi1 _ ht => hagain pass hpass t w1 hi1 ht
  unfold Queue.claimPass
  refine holds_backoffPassed.andThen fun passed w1 hi1 ho1 hback => ?_
  split
  · exact hnone w1
  next hpassed =>
  have hback1 := hback (by simpa using hpassed)
  split
  · exact hnone w1
  next hexpired =>
  refine (holds_embed_ok (holds_readJob (w := w1) fun _ h => h : Holds
    (quiet q.site timed i call shard jobId) _ _ _) fun _ h => h.candidate).andThen
    fun found w2 hi2 _ hfound => ?_
  split
  · exact hnone w2
  next job =>
  have hjob := hfound.1 job rfl
  split
  · exact hnone w2
  next hdelay =>
  split
  · cases again with
    | some pass => exact hsecond pass w2 rfl hi2
    | none =>
      refine holds_after (holds_of_calm (fun _ h => h.candidate) ?_ w2) fun _ w3 _ _ => hnone w3
      exact Footprint.buryExhausted tame_calm
        (fun _ => calm_put (show metaSeg ≠ claimsSeg by decide))
        (calm_get (show metaSeg ≠ failsSeg by decide))
        (fun _ => calm_put (show termidxSeg ≠ claimsSeg by decide))
        (calm_put (show deadSeg ≠ claimsSeg by decide))
        (calm_get (show deadSeg ≠ failsSeg by decide))
  next hmax =>
  split
  · exact holds_fail
  next hgen =>
  have htoken : Budgeted.Emits (Calm q.site) Routine.freshToken := Budgeted.Emits.request tame_calm.freshToken
  refine (holds_embed (holds_of_calm (fun _ h => h) htoken w2 : Holds
    (quiet q.site timed i call shard jobId) _ _ _) fun _ h => h.candidate).bind
    (fun token w3 hi3 _ htoken => ?_) fun _ _ _ _ _ => by simp
  have hquiet : Grows q.site (fun e => ¬ ProbesJob q.site i shard jobId e) w1 w3 :=
    Grows.trans hfound.2 (htoken w3 (Grows.refl w3) hi3).2
  have htail3 : TailOk q.site w3.objects shard jobId tail := htail.extends (ho1.objects.trans hquiet.objects)
  have hext : Extends q.site w2.objects w3.objects := (htoken w3 (Grows.refl w3) hi3).2.objects
  have hdue := due_takeover token hi3.kept htail3 (by simpa using hexpired)
    (hext.jobAt hjob) hdelay hmax hgen
  refine holds_spend ?_
  rw [next_toUInt32]
  have hput : Holds (quiet q.site timed i call shard jobId)
      (q.putRecord (.claim shard jobId (tail.generation.toUInt32 + 1))
        (.claim (q.takeoverRecord jobId opts tail token))) _ w3 :=
    holds_putClaim (fun _ h => h) (fun _ _ h => h) hi3 hdue fun _ =>
      ⟨hfloor, hback1.grows hquiet fun e he hp => he ⟨_, hp⟩⟩
  refine (holds_embed_ok hput fun _ h => h.candidate).andThen fun res w4 hi4 _ hres => ?_
  cases res with
  | committed =>
    refine (holds_takeoverHandle (fun _ h => h.candidate) hgen (hres.1 rfl)).andThen
      fun c w5 _ _ hc => holds_pure fun w6 _ ho6 h hh => ?_
    cases hh
    exact hc.extends ho6.objects
  | _ =>
    cases again with
    | some pass => exact hsecond pass w4 rfl hi4
    | none => exact hnone w4

lemma holds_claimFrom {g : Gathered} (hfloor : claimFloor call = some opts.floorNs)
    (hg : GatheredOk q.site w.objects shard jobId g) :
    Holds (candidate q.site timed i call shard jobId) (q.claimFrom opts shard jobId g)
      (OnOk fun c w' => ∀ h, c = some h → HandleOk q.site w'.objects h) w := by
  refine (holds_tailOf (fun _ h => h.candidate) hg).andThen fun t w1 _ _ ht => ?_
  refine holds_claimPass hfloor (fun pass hpass t' w' _ ht' => ?_) ht
  split at hpass
  · cases hpass
    exact holds_claimPass hfloor nofun ht'
  · cases hpass

/-- **One candidate.**  Whatever its hint and its listing said, a handle it returns names a
claim of the store. -/
theorem holds_tryClaim {version : Version} (hfloor : claimFloor call = some opts.floorNs)
    (hinv : Inv q.site timed w) :
    Holds (candidate q.site timed i call shard jobId) (q.tryClaim opts shard jobId version)
      (OnOk fun c w' => ∀ h, c = some h → HandleOk q.site w'.objects h) w := by
  have hprobes : (Prog.join
      (Prog.request (Op.store (.head (q.absolute (.receipt shard jobId)))))
      (Prog.request (Op.store (.head (q.absolute (.dead shard jobId))))) : Prog Op Res _).Emits (Calm q.site) :=
    Prog.Emits.join ⟨calm_head _, fun _ => trivial⟩ ⟨calm_head _, fun _ => trivial⟩
  have hgather : Holds (quiet q.site timed i call shard jobId) (q.gatherTail shard jobId) _ w :=
    holds_gatherTail (fun _ h => h) hinv
  have hprobed : Safe (candidate q.site timed i call shard jobId).service
      (candidate q.site timed i call shard jobId).rely (Grows q.site (QuietEvent q.site i)) _
      (fun _ _ => True) w :=
    @safe_of_calm _ _ timed i call _ _ (fun _ => True) (fun _ _ => trivial) (fun _ _ => trivial) _
      (fun _ h => h) _ hprobes w
  -- the probes and the tail branch read side by side
  have hbeside := Holds.beside (D := candidate q.site timed i call shard jobId)
    (G := Grows q.site (QuietEvent q.site i))
    (fun a b h => h.mono fun _ he => he.candidate)
    (fun a b _ _ h => h.mono fun _ he => he.2 shard jobId)
    hprobed hgather
  exact holds_tryClaim_of (P := fun _ _ => True)
    (hbeside.mono fun _ _ _ _ hr out hout => ⟨trivial, (hr out hout).2⟩)
    (fun _ w1 _ _ _ _ => holds_of_calm (fun _ h => h.candidate) (Budgeted.Emits.request (calm_memoize _ _ _ _)) w1)
    (fun g w1 _ _ _ hg => holds_claimFrom hfloor hg) nofun

end Candidate

end Custody
end StowQ
