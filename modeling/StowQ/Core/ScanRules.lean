import StowQ.Core.Judgments

/-!
# A scan is as safe as its probes

A scan lists the jobs of a shard page by page and probes the candidates of a page in waves.  The rules go
through its loops once, for every discipline: by `ScansSafely` a scan hands out good handles if its waves do.
By `ProbesSafely` it is enough to look at one probe, where participants tolerate each other's steps, and by
`TakesSafely` at the records that one takeover writes.
-/

namespace StowQ
namespace Core

open Data Concurrent Store Format
open Core.Queue (Candidate Waved Scan)

variable [Sha256] {W : Type} {D : Discipline W Op Res} {w : W} {q : Queue} {opts : ClaimOptions}

/-- The candidate an entry of a listing names. -/
def Queue.candidateOf (q : Queue) (item : Listing) : Option Candidate :=
  match q.parseRel item.key with
  | some (.job shard jobId) => some ⟨shard, jobId, item.info.version⟩
  | _ => none

omit [Sha256] in
lemma version_of_candidateOf {q : Queue} {item : Listing} {c : Candidate} (h : q.candidateOf item = some c) :
    c.version = item.info.version := by
  unfold Queue.candidateOf at h
  split at h
  · cases h
    rfl
  · cases h

/-- All handles of a list are good. -/
def AllGood (Good : Claim → W → Prop) (claims : List Claim) (w : W) : Prop :=
  ∀ c ∈ claims, Good c w

/-- What the rule asks for: the scan's own requests are safe, and so is every wave over candidates
as they were queued from a page; its handles are good, and both stay so. -/
structure ScansSafely (D : Discipline W Op Res) (q : Queue) (opts : ClaimOptions)
    (Queued : List Candidate → W → Prop) (Good : Claim → W → Prop) : Prop where
  list : ∀ after w, D.service.inv w →
    Holds D (Routine.list (q.jobsPrefix opts.shard) after 1024) (OnOk fun r w' => ∀ page, r = .ok page →
      Queued (page.items.filterMap q.candidateOf) w') w
  memoized : ∀ shard jobId version w, D.service.inv w →
    Holds D (q.isMemoizedTerminal shard jobId version) (fun _ _ => True) w
  wave : ∀ xs w, D.service.inv w → Queued xs w →
    Holds D (Budgeted.joinSplit (xs.map fun c => q.tryClaim opts c.shard c.jobId c.version))
      (OnOk fun results w' => AllGood Good (Queue.waveClaims results) w') w
  none_queued : ∀ w, Queued [] w
  sublist : ∀ {xs ys : List Candidate} {w : W}, xs.Sublist ys → Queued ys w → Queued xs w
  queued_stable : ∀ xs a b, D.service.inv b → D.order.rel a b → Queued xs a → Queued xs b
  stable : ∀ c a b, D.service.inv b → D.order.rel a b → Good c a → Good c b

/-- The rule for disciplines whose participants tolerate their own steps: every probe of a
candidate as it was seen in a listing is safe. -/
structure ProbesSafely (D : Discipline W Op Res) (q : Queue) (opts : ClaimOptions)
    (Seen : Candidate → W → Prop) (Good : Claim → W → Prop) : Prop where
  tolerant : ∀ a b, D.service.inv a → D.service.inv b → D.guar a b → D.rely.rel a b
  list : ∀ after w, D.service.inv w →
    Holds D (Routine.list (q.jobsPrefix opts.shard) after 1024) (OnOk fun r w' => ∀ page, r = .ok page →
      ∀ item ∈ page.items, ∀ c, q.candidateOf item = some c → Seen c w') w
  memoized : ∀ shard jobId version w, D.service.inv w →
    Holds D (q.isMemoizedTerminal shard jobId version) (fun _ _ => True) w
  probe : ∀ c w, D.service.inv w → Seen c w → Holds D (q.tryClaim opts c.shard c.jobId c.version)
      (OnOk fun found w' => ∀ c, found = some c → Good c w') w
  seen_stable : ∀ c a b, D.service.inv b → D.order.rel a b → Seen c a → Seen c b
  stable : ∀ c a b, D.service.inv b → D.order.rel a b → Good c a → Good c b

variable {Queued : List Candidate → W → Prop} {Seen : Candidate → W → Prop} {Good : Claim → W → Prop}

omit [Sha256] in
lemma Queue.eq_of_partialBatch {e : Error} {claims cs : List Claim}
    (h : Queue.partialBatch e claims = .ok cs) : cs = claims := by
  unfold Queue.partialBatch at h
  split at h
  · cases h
  · exact (Except.ok.inj h).symm

omit [Sha256] in
lemma allGood_waveClaims {ι : Type} {xs : List ι} {results : List (Except Error (Option Claim))}
    (h : List.Forall₂ (fun _ r => OnOk (fun found w' => ∀ c, found = some c → Good c w') r w) xs results) :
    AllGood Good (Queue.waveClaims results) w := by
  intro c hc
  obtain ⟨found, hfound, hc⟩ := List.mem_filterMap.mp hc
  obtain ⟨k, hk, rfl⟩ := List.getElem_of_mem hfound
  have hthis := (List.forall₂_iff_get.mp h).2 k (by rw [h.length_eq]; exact hk) hk
  cases hres : results[k] with
  | error e => simp [hres] at hc
  | ok found =>
    rw [hres] at hc
    exact hthis found (by simpa using hres) c hc

namespace ScansSafely

variable (hs : ScansSafely D q opts Queued Good)

include hs

lemma stable_all {claims : List Claim} {a b : W} (hb : D.service.inv b) (hab : D.order.rel a b)
    (h : AllGood Good claims a) : AllGood Good claims b :=
  fun c hc => hs.stable c a b hb hab (h c hc)

lemma holds_probeWaves {max : Nat} {pending : List Candidate} {claims : List Claim}
    (hinv : D.service.inv w) (hpending : Queued pending w) (hclaims : AllGood Good claims w) :
    Holds D (q.probeWaves opts max pending claims) (OnOk fun out w' => match out with
      | .answer result => ∀ cs, result = .ok cs → AllGood Good cs w'
      | .ranOut cs => AllGood Good cs w') w := by
  refine holds_iterate (I := fun s w' => Queued s.1 w' ∧ AllGood Good s.2 w')
    (fun ⟨pending, claims⟩ w1 hi1 _ ⟨hpending, hclaims⟩ => ?_) _ ⟨hpending, hclaims⟩ hinv
  dsimp only
  split
  · exact holds_pure fun w2 hi2 ho2 => hs.stable_all hi2 ho2 hclaims
  refine (hs.wave _ w1 hi1 (hs.sublist (List.take_sublist _ _) hpending)).andThen
    fun results w2 hi2 ho2 hres => ?_
  have hboth : AllGood Good (claims ++ Queue.waveClaims results) w2 := fun c hc =>
    (List.mem_append.mp hc).elim (hs.stable_all hi2 ho2 hclaims c) (hres c)
  have hthen : ∀ w3, D.service.inv w3 → D.order.rel w2 w3 → AllGood Good (claims ++ Queue.waveClaims results) w3 :=
    fun w3 hi3 ho3 => hs.stable_all hi3 ho3 hboth
  split
  · refine holds_pure fun w3 hi3 ho3 cs hcs => ?_
    cases hcs
    exact hthen w3 hi3 ho3
  split
  · refine holds_pure fun w3 hi3 ho3 cs hcs => ?_
    rw [Queue.eq_of_partialBatch hcs]
    exact hthen w3 hi3 ho3
  refine Holds.remaining fun n => ?_
  split
  · refine holds_pure fun w3 hi3 ho3 cs hcs => ?_
    cases hcs
    exact hthen w3 hi3 ho3
  · refine holds_pure fun w3 hi3 ho3 => ⟨?_, hthen w3 hi3 ho3⟩
    exact hs.queued_stable _ w1 w3 hi3 (D.order.trans ho2 ho3) (hs.sublist (List.drop_sublist _ _) hpending)

lemma holds_addCandidate {pending : List Candidate} {item : Listing} (hinv : D.service.inv w) :
    Holds D (q.addCandidate pending item)
      (OnOk fun out _ => out.Sublist (pending ++ (q.candidateOf item).toList)) w := by
  unfold Queue.addCandidate
  split
  · next shard jobId hparse =>
      refine holds_after (hs.memoized _ _ _ w hinv) fun known _ _ _ => ?_
      split
      · exact holds_pure fun _ _ _ => List.sublist_append_left pending _
      · refine holds_pure fun _ _ _ => ?_
        unfold Queue.candidateOf
        rw [hparse]
        exact List.Sublist.refl _
  · exact holds_pure fun _ _ _ => List.sublist_append_left pending _

/-- The candidates of a page, without those that are known to be terminal. -/
lemma holds_pageCandidates (items : List Listing) (hinv : D.service.inv w) : Holds D (q.pageCandidates items)
    (OnOk fun pending _ => pending.Sublist (items.filterMap q.candidateOf)) w := by
  have hfold : ∀ (items : List Listing) (pending : List Candidate) (w : W), D.service.inv w →
      Holds D (Budgeted.foldM q.addCandidate pending items)
        (OnOk fun out _ => out.Sublist (pending ++ items.filterMap q.candidateOf)) w := by
    intro items
    induction items with
    | nil => exact fun pending w _ => holds_pure fun _ _ _ => List.sublist_append_left pending _
    | cons item items ih =>
      intro pending w hi
      refine (hs.holds_addCandidate hi).andThen fun next w1 hi1 _ hnext => ?_
      refine (ih next w1 hi1).mono fun r _ _ _ hr out hout => (hr out hout).trans ?_
      have hcons : (item :: items).filterMap q.candidateOf =
          (q.candidateOf item).toList ++ items.filterMap q.candidateOf := by
        cases h : q.candidateOf item <;> simp [h]
      rw [hcons, ← List.append_assoc]
      exact hnext.append_right _
  exact hfold items [] w hinv

/-- What is known between the rounds of a scan. -/
def Between (Queued : List Candidate → W → Prop) (Good : Claim → W → Prop) (s : Scan) (w : W) : Prop :=
  Queued s.pending w ∧ AllGood Good s.claims w

lemma holds_scanRound {max : Nat} {s : Scan} (hinv : D.service.inv w) (hstate : Between Queued Good s w) :
    Holds D (q.scanRound opts max s) (OnOk (Round (Between Queued Good) (AllGood Good))) w := by
  refine (hs.holds_probeWaves hinv hstate.1 hstate.2).andThen fun out w1 hi1 _ hout => ?_
  have hbatch : ∀ {e : Error} {claims : List Claim} {w2 : W}, AllGood Good claims w2 →
      Holds D (do pure (.inr (← Budgeted.ofExcept (Queue.partialBatch e claims))) : Routine (Scan ⊕ List Claim))
        (OnOk (Round (Between Queued Good) (AllGood Good))) w2 := by
    intro e claims w2 hclaims
    refine holds_ofExcept fun cs hcs => holds_pure fun w3 hi3 ho3 => ?_
    rw [Queue.eq_of_partialBatch hcs]
    exact hs.stable_all hi3 ho3 hclaims
  cases out with
  | answer result =>
    refine holds_ofExcept fun cs hcs => holds_pure fun w2 hi2 ho2 => ?_
    exact hs.stable_all hi2 ho2 (hout cs hcs)
  | ranOut claims =>
    dsimp only
    split
    · exact holds_pure fun w2 hi2 ho2 => hs.stable_all hi2 ho2 hout
    refine holds_trySpend fun paid => ?_
    split
    · exact hbatch hout
    refine (hs.list s.after w1 hi1).andThen fun r w2 hi2 ho2 hlisted => ?_
    have hclaims2 : AllGood Good claims w2 := hs.stable_all hi2 ho2 hout
    cases r with
    | error err => exact hbatch hclaims2
    | ok page =>
      dsimp only
      split
      · exact holds_pure fun w3 hi3 ho3 => hs.stable_all hi3 ho3 hclaims2
      refine (hs.holds_pageCandidates page.items hi2).andThen fun pending w3 _ ho3 hpending => ?_
      have hqueued := hs.sublist hpending (hlisted page rfl)
      split
      all_goals
        exact holds_pure fun w4 hi4 ho4 => ⟨hs.queued_stable _ _ w4 hi4 (D.order.trans ho3 ho4) hqueued,
          hs.stable_all hi4 (D.order.trans ho3 ho4) hclaims2⟩

/-- **A scan is as safe as its waves.** -/
theorem holds_claimMany (max : Nat) (hinv : D.service.inv w) :
    Holds D (q.claimMany opts max) (OnOk (AllGood Good)) w :=
  holds_loop (I := Between Queued Good) (fun _ _ hi _ hstate => hs.holds_scanRound hi hstate)
    ⟨hs.none_queued w, nofun⟩ hinv

lemma holds_claim (hinv : D.service.inv w) :
    Holds D (q.claim opts) (OnOk fun out w' => ∀ c, out = .claimed c → Good c w') w := by
  refine (hs.holds_claimMany 1 hinv).andThen fun claims w1 _ _ hclaims => ?_
  split
  · next c hlast =>
      refine holds_pure fun w2 hi2 ho2 c' hc' => ?_
      injection hc' with hc'
      subst hc'
      exact hs.stable _ w1 w2 hi2 ho2 (hclaims _ (List.mem_of_getLast? hlast))
  · exact holds_pure nofun

end ScansSafely

/-- **A scan is as safe as its probes.** -/
theorem ProbesSafely.scansSafely (hs : ProbesSafely D q opts Seen Good) :
    ScansSafely D q opts (fun xs w => ∀ c ∈ xs, Seen c w) Good where
  list after w hinv := (hs.list after w hinv).mono fun r w' _ _ hr answer hr' page hpage c hc => by
    obtain ⟨item, hitem, hcand⟩ := List.mem_filterMap.mp hc
    exact hr answer hr' page hpage item hitem c hcand
  memoized := hs.memoized
  wave xs w hinv hseen := (Holds.joinSplit (R := fun _ => D.rely) (G := fun _ => D.guar) xs
    (fun c hc b => hs.probe c w hinv (hseen c hc) b) (fun _ _ _ _ h => h) (fun _ _ _ _ h => h)
    (List.pairwise_of_forall fun _ _ => ⟨hs.tolerant, hs.tolerant⟩)).mono
      fun _ _ _ _ hr results hresults => allGood_waveClaims (hr results hresults)
  none_queued _ _ hc := nomatch hc
  sublist hsub hseen c hc := hseen c (hsub.subset hc)
  queued_stable _ a b hb hab hseen c hc := hs.seen_stable c a b hb hab (hseen c hc)
  stable := hs.stable

/-! ## Probes -/

section Probes

variable {shard : UInt16} {jobId : ByteArr 16} {Q : Option Claim → W → Prop}

/-- A probe memoizes the job where a terminal record was found, and goes on only where neither was. -/
lemma holds_tryClaim_of {version : Version}
    {P : (StoreResult Meta × StoreResult Meta) → W → Prop} {G : Gathered → W → Prop}
    (hboth : Holds D (Budgeted.beside (Prog.join
          (Prog.request (Op.store (.head (q.absolute (.receipt shard jobId)))))
          (Prog.request (Op.store (.head (q.absolute (.dead shard jobId))))))
        (q.gatherTail shard jobId))
      (OnOk fun out w' => P out.1 w' ∧ ∀ g, out.2 = .ok g → G g w') w)
    (hmemo : ∀ out w', D.service.inv w' → D.order.rel w w' → P out w' → (∃ m, out.1 = .ok m ∨ out.2 = .ok m) →
      Holds D (Budgeted.request (Op.memoizeTerminal q.handle shard jobId version) : Routine _)
        (fun _ _ => True) w')
    (hfrom : ∀ g w', D.service.inv w' → D.order.rel w w' → P (.error .notFound, .error .notFound) w' → G g w' →
        Holds D (q.claimFrom opts shard jobId g) (OnOk Q) w')
    (hnone : ∀ w', Q none w') :
    Holds D (q.tryClaim opts shard jobId version) (OnOk Q) w := by
  refine holds_spend (holds_spend (holds_spend ?_))
  refine hboth.andThen fun out w1 hi1 ho1 hout => ?_
  obtain ⟨⟨receipt, dead⟩, gathered⟩ := out
  have hended : (∃ m, receipt = .ok m ∨ dead = .ok m) → Holds D (do
      Budgeted.request (Op.memoizeTerminal q.handle shard jobId version)
      pure none : Routine (Option Claim)) (OnOk Q) w1 := fun hfound =>
    holds_after (hmemo _ w1 hi1 ho1 hout.1 hfound) fun _ _ _ _ => holds_pure fun w' _ _ => hnone w'
  change StoreResult Meta at receipt dead
  cases receipt with
  | ok m => exact hended ⟨m, .inl rfl⟩
  | error err =>
    cases dead with
    | ok m => cases err <;> exact hended ⟨m, .inr rfl⟩
    | error err' =>
      cases err with
      | notFound =>
        cases err' with
        | notFound =>
          exact holds_ofExcept fun g hg => hfrom g w1 hi1 ho1 hout.1 (hout.2 g hg)
        | _ => exact holds_fail
      | _ => exact holds_fail

/-- Requests that change nothing in the store. -/
def Looks (o : Op) : Prop := ∀ r, o = .store r → r.reads = true

omit [Sha256] in
lemma reading_looks : Footprint.Reading Looks := by
  constructor
  · constructor <;> intros <;> intro r hr <;> cases hr <;> rfl
  · rintro key r ⟨⟩
    rfl

/-- What the rule for takeovers asks for: looks are harmless, and so are the exhaustion record,
the takeover record and the handle, which is good for the hint that was gathered, the job record
that was read and the takeover record that was committed. -/
structure TakesSafely (D : Discipline W Op Res) (q : Queue) (opts : ClaimOptions)
    (Hinted : UInt16 → ByteArr 16 → Option (Version × UInt64) → W → Prop)
    (Read : UInt16 → ByteArr 16 → JobRecord → W → Prop)
    (Taken : UInt16 → ByteArr 16 → Tail → ByteArr 16 → W → Prop) (Good : Claim → W → Prop) :
    Prop where
  tolerant : ∀ a b, D.service.inv a → D.service.inv b → D.guar a b → D.rely.rel a b
  quiet : ∀ {α : Type} {p : Prog Op Res α} {w : W}, D.service.inv w → p.Emits Looks →
    Safe D.service D.rely D.guar p (fun _ _ => True) w
  gather : ∀ shard jobId w, D.service.inv w → Holds D (q.gatherTail shard jobId)
    (OnOk fun g w' => Hinted shard jobId g.hintState w') w
  read : ∀ shard jobId w, D.service.inv w → Holds D (q.readJob shard jobId)
    (OnOk fun found w' => ∀ job, found = some job → Read shard jobId job w') w
  bury : ∀ shard jobId tail w, D.service.inv w → Holds D (q.buryExhausted shard jobId tail) (fun _ _ => True) w
  put : ∀ shard jobId tail token w, D.service.inv w →
    Holds D (q.putRecord (.claim shard jobId (tail.generation + 1).toUInt32)
      (.claim (q.takeoverRecord jobId opts tail token)))
      (OnOk fun resolved w' => resolved = .committed → Taken shard jobId tail token w') w
  handle : ∀ shard jobId tail job token hint w, D.service.inv w → Hinted shard jobId hint w →
    Read shard jobId job w → tail.generation < UInt64.ofNat u32Max.toNat → Taken shard jobId tail token w →
    Holds D (q.takeoverHandle shard jobId opts tail job token hint) (OnOk Good) w
  hinted_stable : ∀ shard jobId hint a b, D.service.inv b → D.order.rel a b →
    Hinted shard jobId hint a → Hinted shard jobId hint b
  read_stable : ∀ shard jobId job a b, D.service.inv b → D.order.rel a b →
    Read shard jobId job a → Read shard jobId job b
  good_stable : ∀ c a b, D.service.inv b → D.order.rel a b → Good c a → Good c b

namespace TakesSafely

variable {Hinted : UInt16 → ByteArr 16 → Option (Version × UInt64) → W → Prop}
  {Read : UInt16 → ByteArr 16 → JobRecord → W → Prop}
  {Taken : UInt16 → ByteArr 16 → Tail → ByteArr 16 → W → Prop} {Good : Claim → W → Prop}
  (hs : TakesSafely D q opts Hinted Read Taken Good)

include hs

lemma holds_quiet {α : Type} {m : Routine α} {w : W} (hinv : D.service.inv w)
    (hm : Budgeted.Emits Looks m) : Holds D m (fun _ _ => True) w :=
  fun b => (hs.quiet hinv (hm.prog b)).mono fun _ _ _ _ => trivial

lemma holds_claimPass {hint : Option (Version × UInt64)}
    {again : Option (Tail → Routine (Option Claim))} {tail : Tail}
    (hagain : ∀ pass, again = some pass → ∀ t w', D.service.inv w' → Hinted shard jobId hint w' →
      Holds D (pass t) (OnOk fun found w'' => ∀ c, found = some c → Good c w'') w')
    (hinv : D.service.inv w) (hhint : Hinted shard jobId hint w) :
    Holds D (q.claimPass shard jobId opts hint again tail)
      (OnOk fun found w' => ∀ c, found = some c → Good c w') w := by
  have hnone : ∀ {w1 : W}, Holds D (pure none : Routine (Option Claim))
      (OnOk fun found w' => ∀ c, found = some c → Good c w') w1 :=
    holds_pure nofun
  -- a hinted tail that fails leaves a second pass, from the listed tail
  have hsecond : ∀ pass w1, again = some pass → D.service.inv w1 → Hinted shard jobId hint w1 →
      Holds D (do pass (← q.rediscoverTail shard jobId))
        (OnOk fun found w' => ∀ c, found = some c → Good c w') w1 := fun pass w1 hpass hi1 hhint1 =>
    holds_after (hs.holds_quiet hi1 (Footprint.rediscoverTail reading_looks)) fun t w2 hi2 ho2 =>
      hagain pass hpass t w2 hi2 (hs.hinted_stable _ _ _ w1 w2 hi2 ho2 hhint1)
  refine holds_after (hs.holds_quiet hinv (Footprint.backoffPassed reading_looks))
    fun passed w1 hi1 ho1 => ?_
  split
  · exact hnone
  split
  · exact hnone
  refine (hs.read shard jobId w1 hi1).andThen fun found w2 hi2 ho2 hread => ?_
  have hhint2 := hs.hinted_stable _ _ _ w w2 hi2 (D.order.trans ho1 ho2) hhint
  cases found with
  | none => exact hnone
  | some job =>
    dsimp only
    split
    · exact hnone
    split
    · cases again with
      | some pass => exact hsecond pass w2 rfl hi2 hhint2
      | none => exact holds_after (hs.bury shard jobId tail w2 hi2) fun _ _ _ _ => hnone
    split
    · exact holds_fail
    next hgen =>
    refine holds_after (hs.holds_quiet hi2 (Budgeted.Emits.request reading_looks.tame.freshToken))
      fun token w3 hi3 ho3 => holds_spend ?_
    refine (hs.put shard jobId tail token w3 hi3).andThen fun resolved w4 hi4 ho4 htaken => ?_
    have hread4 : Read shard jobId job w4 := hs.read_stable _ _ _ w2 w4 hi4 (D.order.trans ho3 ho4) (hread job rfl)
    have hhint4 := hs.hinted_stable _ _ _ w2 w4 hi4 (D.order.trans ho3 ho4) hhint2
    cases resolved with
    | committed =>
      refine (hs.handle shard jobId tail job token hint w4 hi4 hhint4 hread4 (UInt64.not_le.mp hgen)
        (htaken rfl)).andThen fun c w5 _ _ hc => holds_pure fun w6 hi6 ho6 c' hc' => ?_
      cases hc'
      exact hs.good_stable _ w5 w6 hi6 ho6 hc
    | _ =>
      cases again with
      | some pass => exact hsecond pass w4 rfl hi4 hhint4
      | none => exact hnone

lemma holds_claimFrom {g : Gathered} (hinv : D.service.inv w) (hhint : Hinted shard jobId g.hintState w) :
    Holds D (q.claimFrom opts shard jobId g)
      (OnOk fun found w' => ∀ c, found = some c → Good c w') w := by
  refine holds_after (hs.holds_quiet hinv (Footprint.tailOf reading_looks)) fun tail w1 hi1 ho1 => ?_
  refine hs.holds_claimPass (fun pass hpass t w2 hi2 hhint2 => ?_) hi1 (hs.hinted_stable _ _ _ w w1 hi1 ho1 hhint)
  split at hpass
  · cases hpass
    exact hs.holds_claimPass nofun hi2 hhint2
  · cases hpass

lemma probesSafely : ProbesSafely D q opts (fun _ _ => True) Good where
  tolerant := hs.tolerant
  list _ _ hinv := (hs.holds_quiet hinv (Footprint.store (reading_looks.tame.list _ _ _))).mono
    fun _ _ _ _ _ _ _ _ _ _ _ _ _ => trivial
  memoized _ _ _ _ hinv := hs.holds_quiet hinv
    (Budgeted.Emits.request (reading_looks.tame.isMemoizedTerminal _ _ _ _))
  probe c w hinv _ := by
    obtain ⟨shard, jobId, version⟩ := c
    have hheads : Safe D.service D.rely D.guar (Prog.join
        (Prog.request (Op.store (.head (q.absolute (.receipt shard jobId)))))
        (Prog.request (Op.store (.head (q.absolute (.dead shard jobId))))) : Prog Op Res _)
        (fun _ _ => True) w :=
      hs.quiet hinv (Prog.Emits.join ⟨reading_looks.tame.head _, fun _ => trivial⟩
        ⟨reading_looks.tame.head _, fun _ => trivial⟩)
    have hboth := Holds.beside (fun _ _ h => h) hs.tolerant hheads (hs.gather shard jobId w hinv)
    refine holds_tryClaim_of (P := fun _ _ => True) (G := fun g w' => Hinted shard jobId g.hintState w')
      (hboth.mono fun r w' _ _ hr out hout => ⟨trivial, fun g hg => (hr out hout).2 g hg⟩)
      (fun _ w' hi' _ _ _ => hs.holds_quiet hi' (Budgeted.Emits.request nofun))
      (fun g w' hi' _ _ hhint => hs.holds_claimFrom hi' hhint) nofun
  seen_stable _ _ _ _ _ _ := trivial
  stable := hs.good_stable

end TakesSafely

end Probes

end Core
end StowQ
