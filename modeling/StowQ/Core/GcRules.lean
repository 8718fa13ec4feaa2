import StowQ.Core.Judgments
import StowQ.Core.Space

/-!
# Judgments about garbage collection

`gc` is a sequence of decisions: it looks at a record, and what it finds makes it delete
some keys.  `Collects` lists, for any discipline, what has to be known about the looks and
about the deletes they lead to; `holds_gc` concludes about the whole pass.
-/

namespace StowQ
namespace Core

open Data Concurrent Store Format Keys

variable {key pre : Str} {S : Site} {jobId j : ByteArr 16} {item : Listing} {shard s : UInt16}
  {horizon : UInt64} {report : GcReport}

variable {W α σ : Type}

/-- A routine is safe from every world above `w`. -/
def Always (D : Discipline W Op Res) (m : Routine α) (Q : α → W → Prop) (w : W) : Prop :=
  ∀ w', D.service.inv w' → D.order.rel w w' → Holds D m (OnOk Q) w'

/-- A fact that no move undoes. -/
def Kept (D : Discipline W Op Res) (K : W → Prop) : Prop :=
  ∀ a b, D.service.inv b → D.order.rel a b → K a → K b

/-- No postcondition. -/
def Any (_ : α) (_ : W) : Prop := True

/-- The keys a job's graph consists of, the job record and the terminal record apart. -/
inductive GraphKey (S : Site) (shard : UInt16) (jobId : ByteArr 16) (key : Str) : Prop
  | lease (h : S.plane key = some leasesSeg)
  | delayed (h : S.plane key = some delayedSeg)
  | termidx (h : S.plane key = some termidxSeg)
  | tail (h : key = S.absolute (.tail shard jobId))
  | fail (h : S.dir [failsSeg, hex16 shard, hex jobId.toList] <+: key)
  | claim (h : S.dir [claimsSeg, hex16 shard, hex jobId.toList] <+: key)
  | payload (h : S.dir [payloadsSeg, hex jobId.toList] <+: key)

/-- The keys of the orphan passes, with the job whose record they are checked against. -/
inductive OrphanKey [Sha256] (q : Queue) (shard : UInt16) (jobId : ByteArr 16) (key : Str) : Prop
  | payload (digest : Digest) (hshard : shard = q.payloadShard jobId)
      (h : key = q.absolute (.payload jobId digest))
  | claim (generation : UInt32) (h : key = q.absolute (.claim shard jobId generation))

/-- The planes a collection deletes from, those of the job and terminal records apart. -/
def sidePlanes : List Str :=
  [leasesSeg, delayedSeg, termidxSeg, tailsSeg, failsSeg, claimsSeg, payloadsSeg, metaSeg]

/-- The plane of a graph key in one of the job's own directories. -/
lemma plane_of_jobDir {seg : Str} (hseg : '/' ∉ seg)
    (h : S.dir [seg, hex16 shard, hex jobId.toList] <+: key) : S.plane key = some seg :=
  S.plane_of_dir (slash_not_mem_jobDir _ hseg shard jobId) h

lemma plane_of_payloadsDir (h : S.dir [payloadsSeg, hex jobId.toList] <+: key) :
    S.plane key = some payloadsSeg := by
  have hhex := slash_not_mem_hex jobId.toList
  exact S.plane_of_dir (by simpa [hhex] using (by decide : '/' ∉ payloadsSeg)) h

lemma GraphKey.plane (h : GraphKey S shard jobId key) : ∃ seg ∈ sidePlanes, S.plane key = some seg := by
  cases h with
  | lease h => exact ⟨_, by simp [sidePlanes], h⟩
  | delayed h => exact ⟨_, by simp [sidePlanes], h⟩
  | termidx h => exact ⟨_, by simp [sidePlanes], h⟩
  | tail h => exact ⟨tailsSeg, by simp [sidePlanes], by rw [h, plane_absolute]; rfl⟩
  | fail h => exact ⟨_, by simp [sidePlanes], plane_of_jobDir (by decide) h⟩
  | claim h => exact ⟨_, by simp [sidePlanes], plane_of_jobDir (by decide) h⟩
  | payload h => exact ⟨_, by simp [sidePlanes], plane_of_payloadsDir h⟩

/-- A graph key among the claims or the payloads lies in the job's own directory there. -/
lemma GraphKey.inOwnDir (h : GraphKey S shard jobId key) : (S.plane key = some claimsSeg →
      S.dir [claimsSeg, hex16 shard, hex jobId.toList] <+: key) ∧
    (S.plane key = some payloadsSeg → S.dir [payloadsSeg, hex jobId.toList] <+: key) := by
  have hother : ∀ {seg : Str}, S.plane key = some seg → seg ∉ [claimsSeg, payloadsSeg] →
      (S.plane key = some claimsSeg → S.dir [claimsSeg, hex16 shard, hex jobId.toList] <+: key) ∧
      (S.plane key = some payloadsSeg → S.dir [payloadsSeg, hex jobId.toList] <+: key) := by
    intro seg hplane hseg
    rw [hplane]
    exact ⟨fun heq => absurd (Option.some.inj heq) (by rintro rfl; simp at hseg),
      fun heq => absurd (Option.some.inj heq) (by rintro rfl; simp at hseg)⟩
  cases h with
  | lease h => exact hother h (by decide)
  | delayed h => exact hother h (by decide)
  | termidx h => exact hother h (by decide)
  | tail h =>
    have hplane : S.plane key = some tailsSeg := by
      rw [h]
      exact plane_absolute _ _
    exact hother hplane (by decide)
  | fail h => exact hother (plane_of_jobDir (by decide) h) (by decide)
  | claim h =>
    refine ⟨fun _ => h, fun heq => ?_⟩
    rw [plane_of_jobDir (by decide) h] at heq
    exact absurd heq (by decide)
  | payload h =>
    refine ⟨fun heq => ?_, fun _ => h⟩
    rw [plane_of_payloadsDir h] at heq
    exact absurd heq (by decide)

lemma OrphanKey.plane [Sha256] {q : Queue} (h : OrphanKey q shard jobId key) :
    ∃ seg ∈ sidePlanes, q.site.plane key = some seg := by
  cases h with
  | payload digest _ h =>
    exact ⟨payloadsSeg, by simp [sidePlanes], by rw [h, plane_absolute]; rfl⟩
  | claim generation h =>
    exact ⟨claimsSeg, by simp [sidePlanes], by rw [h, plane_absolute]; rfl⟩

lemma job_not_aside (s : UInt16) (j : ByteArr 16) : planeOf (.job s j) ∉ sidePlanes := by
  show jobsSeg ∉ sidePlanes
  decide

lemma terminal_not_aside (k : TermKind) (s : UInt16) (j : ByteArr 16) :
    planeOf (Queue.terminalRel k s j) ∉ sidePlanes := by
  cases k with
  | receipt =>
    show receiptsSeg ∉ sidePlanes
    decide
  | dead =>
    show deadSeg ∉ sidePlanes
    decide

/-- The job and terminal records lie in planes of their own. -/
lemma ne_absolute_of_aside {k : Key} (h : ∃ seg ∈ sidePlanes, S.plane key = some seg)
    (hk : planeOf k ∉ sidePlanes) : key ≠ S.absolute k := by
  obtain ⟨seg, hmem, hplane⟩ := h
  exact ne_absolute_of_plane hplane fun heq => hk (heq ▸ hmem)

/-- The job an index entry of the terminal pass names. -/
def Queue.entryOf (q : Queue) (key : Str) : Option (TermKind × UInt16 × ByteArr 16) :=
  parseTermEntry (if q.root.isPrefixOf key then key.drop q.root.length else [])

/-- What a collection comes to know: keys it has listed, jobs whose record is missing, jobs
with an old terminal record, and of those the ones whose claims and whose job record it has
deleted. -/
structure Verdicts (W : Type) where
  listed : Str → W → Prop
  absent : UInt16 → ByteArr 16 → W → Prop
  ended : TermKind → UInt16 → ByteArr 16 → W → Prop
  cleared : UInt16 → ByteArr 16 → W → Prop
  gone : UInt16 → ByteArr 16 → W → Prop

/-- The verdicts last. -/
structure Verdicts.Kept (D : Discipline W Op Res) (V : Verdicts W) : Prop where
  listed : ∀ key, Core.Kept D (V.listed key)
  absent : ∀ s j, Core.Kept D (V.absent s j)
  ended : ∀ k s j, Core.Kept D (V.ended k s j)
  cleared : ∀ s j, Core.Kept D (V.cleared s j)
  gone : ∀ s j, Core.Kept D (V.gone s j)

/-- What the looks of a collection prove, and that the deletes they lead to are safe. -/
structure Collects [Sha256] (D : Discipline W Op Res) (q : Queue) (w : W) (cutoff : UInt64)
    (V : Verdicts W) : Prop where
  inv : D.service.inv w
  kept : V.Kept D
  list : ∀ pre after limit, Always D (Routine.list pre after limit)
    (fun r w' => ∀ page, r = .ok page → ∀ x ∈ page.items, pre <+: x.key ∧ V.listed x.key w') w
  head : ∀ key, Always D (Routine.head key) Any w
  job : ∀ s j, Always D (Routine.head (q.absolute (.job s j)))
    (fun r w' => r = .error .notFound → V.absent s j w') w
  terminal : ∀ k s j key w', D.service.inv w' → D.order.rel w w' → V.listed key w' →
    q.under [termidxSeg] <+: key → q.entryOf key = some (k, s, j) →
    Holds D (Routine.head (q.absolute (Queue.terminalRel k s j)))
      (OnOk fun r w'' => ∀ info, r = .ok info → info.storeTimeNs < cutoff → V.ended k s j w'') w'
  discardOrphan : ∀ s j key w', D.service.inv w' → D.order.rel w w' → OrphanKey q s j key →
    V.absent s j w' → Holds D (Queue.discard key) (OnOk Any) w'
  discardBeacon : ∀ key, q.under [metaSeg, clockSeg] <+: key → Always D (Queue.discard key) Any w
  discardIndex : ∀ key, q.site.plane key = some termidxSeg → Always D (Queue.discard key) Any w
  discardInner : ∀ k s j key w', D.service.inv w' → D.order.rel w w' → GraphKey q.site s j key →
    V.ended k s j w' → Holds D (Queue.discard key) (OnOk Any) w'
  clearClaims : ∀ k s j w', D.service.inv w' → D.order.rel w w' → V.ended k s j w' →
    Holds D (Queue.discardAll (q.under [claimsSeg, hex16 s, hex j.toList]))
      (OnOk fun _ => V.cleared s j) w'
  discardJob : ∀ k s j w', D.service.inv w' → D.order.rel w w' → V.ended k s j w' →
    V.cleared s j w' → Holds D (Queue.discard (q.absolute (.job s j))) (OnOk fun _ => V.gone s j) w'
  discardTerminal : ∀ k s j w', D.service.inv w' → D.order.rel w w' → V.ended k s j w' →
    V.gone s j w' → Holds D (Queue.discard (q.absolute (Queue.terminalRel k s j))) (OnOk Any) w'

variable {D : Discipline W Op Res} {w : W}

lemma Always.above {m : Routine α} {Q : α → W → Prop} (h : Always D m Q w) {w' : W}
    (ho : D.order.rel w w') : Always D m Q w' :=
  fun w1 hi ho' => h w1 hi (D.order.trans ho ho')

lemma holds_any {a : α} : Holds D (pure a : Routine α) (OnOk Any) w := holds_pure fun _ _ _ => trivial

lemma holds_discard {K : W → Prop} (hK : Kept D K) (h : Holds D (Routine.delete key) (OnOk fun _ => K) w) :
    Holds D (Queue.discard key) (OnOk fun _ => K) w :=
  holds_spend (h.andThen fun _ w1 _ _ hk => holds_pure fun w2 hi2 ho2 => hK w1 w2 hi2 ho2 hk)

lemma holds_pagesUnder {stop : Bool} {limit : Nat} {item : σ → Listing → Routine σ} {Listed : Str → W → Prop}
    (hinv : D.service.inv w) (hListed : ∀ key, Kept D (Listed key))
    (hlist : ∀ after, Always D (Routine.list pre after limit)
      (fun r w' => ∀ page, r = .ok page → ∀ x ∈ page.items, pre <+: x.key ∧ Listed x.key w') w)
    (hitem : ∀ s x w', D.service.inv w' → D.order.rel w w' → pre <+: x.key → Listed x.key w' →
      Holds D (item s x) (OnOk Any) w') (s : σ) : Holds D (Routine.pages stop pre limit item s) (OnOk Any) w :=
  holds_pages (I := Any) (fun x w' => pre <+: x.key ∧ Listed x.key w') hinv (fun _ _ _ _ _ h => h)
    (fun x a b hi ho h => ⟨h.1, hListed x.key a b hi ho h.2⟩) (fun after => hlist after)
    (fun s x w' hi ho _ hx => hitem s x w' hi ho hx.1 hx.2) trivial

/-- Deleting a directory, where every delete in it is safe. -/
lemma holds_discardAll {L : Str → W → Prop} (hinv : D.service.inv w) (hL : ∀ key, Kept D (L key))
    (hlist : ∀ after, Always D (Routine.list pre after 64)
      (fun r w' => ∀ page, r = .ok page → ∀ x ∈ page.items, pre <+: x.key ∧ L x.key w') w)
    (h : ∀ key, pre <+: key → Always D (Queue.discard key) Any w) :
    Holds D (Queue.discardAll pre) (OnOk Any) w :=
  holds_pagesUnder hinv hL hlist (fun _ item w' hi ho hitem _ => h item.key hitem w' hi ho) ()

namespace Collects

variable [Sha256] {q : Queue} {cutoff : UInt64} {V : Verdicts W} {w' : W}

lemma above (C : Collects D q w cutoff V) (hi : D.service.inv w')
    (ho : D.order.rel w w') : Collects D q w' cutoff V where
  inv := hi
  kept := C.kept
  list p a n := (C.list p a n).above ho
  head k := (C.head k).above ho
  job s j := (C.job s j).above ho
  terminal k s j key w1 hi1 ho1 := C.terminal k s j key w1 hi1 (D.order.trans ho ho1)
  discardOrphan s j key w1 hi1 ho1 := C.discardOrphan s j key w1 hi1 (D.order.trans ho ho1)
  discardBeacon key h := (C.discardBeacon key h).above ho
  discardIndex key h := (C.discardIndex key h).above ho
  discardInner k s j key w1 hi1 ho1 := C.discardInner k s j key w1 hi1 (D.order.trans ho ho1)
  clearClaims k s j w1 hi1 ho1 := C.clearClaims k s j w1 hi1 (D.order.trans ho ho1)
  discardJob k s j w1 hi1 ho1 := C.discardJob k s j w1 hi1 (D.order.trans ho ho1)
  discardTerminal k s j w1 hi1 ho1 := C.discardTerminal k s j w1 hi1 (D.order.trans ho ho1)

/-! ## The orphan passes -/

lemma holds_provenAbsent (C : Collects D q w cutoff V) (s : UInt16) (j : ByteArr 16) :
    Holds D (q.provenAbsent (.job s j)) (OnOk fun r w' => r = true → V.absent s j w') w := by
  refine holds_spend ((C.job s j w C.inv (D.order.refl w)).andThen fun r w1 _ _ hr => ?_)
  cases r with
  | ok info => exact holds_pure nofun
  | error e =>
    cases e with
    | notFound => exact holds_pure fun w2 hi2 ho2 _ => C.kept.absent s j w1 w2 hi2 ho2 (hr rfl)
    | _ => exact holds_fail

lemma holds_collectOrphan (C : Collects D q w cutoff V) (hkey : OrphanKey q s j item.key) :
    Holds D (q.collectOrphan horizon item (.job s j)) (OnOk Any) w := by
  unfold Queue.collectOrphan
  split
  · exact holds_any
  refine (C.holds_provenAbsent s j).andThen fun absent w1 hi1 ho1 habsent => ?_
  cases absent with
  | false => exact holds_any
  | true =>
    refine holds_spend ((C.head item.key w1 hi1 ho1).andThen fun r w2 hi2 ho2 _ => ?_)
    have ho := D.order.trans ho1 ho2
    have hgone := C.kept.absent s j w1 w2 hi2 ho2 (habsent rfl)
    cases r with
    | ok now =>
      dsimp only
      split
      · exact (C.discardOrphan s j item.key w2 hi2 ho hkey hgone).andThen
          fun _ _ _ _ _ => holds_any
      · exact holds_any
    | error e =>
      cases e with
      | notFound => exact holds_any
      | _ => exact holds_fail

lemma holds_gcPayload (C : Collects D q w cutoff V) : Holds D (q.gcPayload horizon report item) (OnOk Any) w := by
  unfold Queue.gcPayload
  split
  · next jobId digest hparse =>
      have hkey := OrphanKey.payload digest rfl (Queue.absolute_of_parseRel hparse).symm
      refine (C.holds_collectOrphan hkey).andThen fun collected w1 _ _ _ => ?_
      split <;> exact holds_any
  · exact holds_any

lemma holds_gcClaim (C : Collects D q w cutoff V) : Holds D (q.gcClaim horizon report item) (OnOk Any) w := by
  unfold Queue.gcClaim
  split
  · next shard jobId generation hparse =>
      have hkey : OrphanKey q shard jobId item.key := .claim generation (Queue.absolute_of_parseRel hparse).symm
      refine (C.holds_collectOrphan hkey).andThen fun collected w1 _ _ _ => ?_
      split <;> exact holds_any
  · exact holds_any

lemma holds_gcBeacon (C : Collects D q w cutoff V)
    (hitem : q.under [metaSeg, clockSeg] <+: item.key) :
    Holds D (Queue.gcBeacon horizon report item) (OnOk Any) w := by
  unfold Queue.gcBeacon
  split
  · exact (C.discardBeacon item.key hitem w C.inv (D.order.refl w)).andThen
      fun _ _ _ _ _ => holds_any
  · exact holds_any

/-! ## Terminal graphs -/

/-- The deletes inside the graph of an ended job. -/
lemma always_inner (C : Collects D q w cutoff V) {k : TermKind} (hended : V.ended k s j w)
    (hkey : GraphKey q.site s j key) : Always D (Queue.discard key) Any w :=
  fun w' hi ho => C.discardInner k s j key w' hi ho hkey (C.kept.ended k s j w w' hi ho hended)

lemma holds_discardEntries (C : Collects D q w cutoff V)
    (h : ∀ key, pre <+: key → Always D (Queue.discard key) Any w) :
    Holds D (Queue.discardEntries pre s j) (OnOk Any) w := by
  refine holds_pagesUnder C.inv C.kept.listed (fun after => C.list pre after 64)
    (fun _ item w' hi ho hitem _ => ?_) ()
  split
  · exact h item.key hitem w' hi ho
  · exact holds_any

lemma holds_deleteTerminalGraph (C : Collects D q w cutoff V) {k : TermKind} (hended : V.ended k s j w)
    {indexKey : Str} (hindex : q.site.plane indexKey = some termidxSeg) :
    Holds D (q.deleteTerminalGraph s j (Queue.terminalRel k s j) indexKey) (OnOk Any) w := by
  have hplane : ∀ {seg : Str}, '/' ∉ seg → ∀ key, q.under [seg] <+: key →
      q.site.plane key = some seg := fun hseg key h =>
    q.site.plane_of_dir (by simpa using hseg) h
  -- every step finds the job ended, in whatever world it starts
  have hstep : ∀ w1, D.service.inv w1 → D.order.rel w w1 →
      Collects D q w1 cutoff V ∧ V.ended k s j w1 := fun w1 hi ho =>
    ⟨C.above hi ho, C.kept.ended k s j w w1 hi ho hended⟩
  have hall : ∀ {pre : Str}, (∀ key, pre <+: key → GraphKey q.site s j key) →
      Always D (Queue.discardAll pre) Any w := fun hpre w1 hi ho =>
    holds_discardAll hi C.kept.listed (fun after => (C.list _ after 64).above ho) fun key hkey =>
      (hstep w1 hi ho).1.always_inner (hstep w1 hi ho).2 (hpre key hkey)
  have hentries : ∀ {pre : Str}, (∀ key, pre <+: key → GraphKey q.site s j key) →
      Always D (Queue.discardEntries pre s j) Any w := fun hpre w1 hi ho =>
    (hstep w1 hi ho).1.holds_discardEntries fun key hkey =>
      (hstep w1 hi ho).1.always_inner (hstep w1 hi ho).2 (hpre key hkey)
  have hleases := hentries fun key h => .lease (hplane (by decide) key h)
  have hdelayed := hentries fun key h => .delayed (hplane (by decide) key h)
  have hfails := hall fun key h => GraphKey.fail h
  have hpayloads := hall fun key h => GraphKey.payload h
  have hindexed := C.always_inner hended (.termidx hindex)
  have htail := C.always_inner hended (.tail rfl)
  refine (hleases w C.inv (D.order.refl w)).andThen fun _ w1 hi1 ho1 _ => ?_
  refine (hdelayed w1 hi1 ho1).andThen fun _ w2 hi2 ho2 _ => ?_
  replace ho2 := D.order.trans ho1 ho2
  refine (hindexed w2 hi2 ho2).andThen fun _ w3 hi3 ho3 _ => ?_
  replace ho3 := D.order.trans ho2 ho3
  refine (htail w3 hi3 ho3).andThen fun _ w4 hi4 ho4 _ => ?_
  replace ho4 := D.order.trans ho3 ho4
  refine (hfails w4 hi4 ho4).andThen fun _ w5 hi5 ho5 _ => ?_
  replace ho5 := D.order.trans ho4 ho5
  refine (C.clearClaims k s j w5 hi5 ho5 (hstep w5 hi5 ho5).2).andThen fun _ w6 hi6 ho6 hcleared => ?_
  replace ho6 := D.order.trans ho5 ho6
  refine (hpayloads w6 hi6 ho6).andThen fun _ w7 hi7 ho7 _ => ?_
  replace hcleared := C.kept.cleared s j w6 w7 hi7 ho7 hcleared
  replace ho7 := D.order.trans ho6 ho7
  refine (C.discardJob k s j w7 hi7 ho7 (hstep w7 hi7 ho7).2 hcleared).andThen
    fun _ w8 hi8 ho8 hgone => ?_
  replace ho8 := D.order.trans ho7 ho8
  refine (C.discardTerminal k s j w8 hi8 ho8 (hstep w8 hi8 ho8).2 hgone).andThen
    fun _ _ _ _ _ => holds_any

lemma holds_gcTerminal (C : Collects D q w cutoff V) (hitem : q.under [termidxSeg] <+: item.key)
    (hlisted : V.listed item.key w) : Holds D (q.gcTerminal cutoff report item) (OnOk Any) w := by
  have hplane : q.site.plane item.key = some termidxSeg := q.site.plane_of_dir (by decide) hitem
  unfold Queue.gcTerminal
  dsimp only
  split
  · exact holds_any
  next kind shard jobId hparse =>
  refine holds_spend ((C.terminal kind shard jobId item.key w C.inv (D.order.refl w) hlisted hitem
    hparse).andThen fun r w1 hi1 ho1 hr => ?_)
  cases r with
  | ok info =>
    dsimp only
    split
    · exact holds_any
    next hold =>
    have hended := hr info rfl (UInt64.lt_iff_toNat_lt.mpr (Nat.lt_of_not_le fun h =>
      hold (UInt64.le_iff_toNat_le.mpr h)))
    refine ((C.above hi1 ho1).holds_deleteTerminalGraph hended hplane).andThen
      fun deleted _ _ _ _ => ?_
    split <;> exact holds_any
  | error e =>
    cases e with
    | notFound =>
      exact (C.discardIndex item.key hplane w1 hi1 ho1).andThen fun _ _ _ _ _ => holds_any
    | _ => exact holds_fail

lemma holds_gc {nowNs retentionNs : UInt64} (C : Collects D q w (satSub nowNs retentionNs) V)
    (orphanHorizonNs : UInt64) :
    Holds D (q.gc nowNs retentionNs orphanHorizonNs) (OnOk Any) w := by
  refine (holds_pagesUnder C.inv C.kept.listed (fun after => C.list _ after 64)
    (fun _ _ w' hi ho _ _ => (C.above hi ho).holds_gcPayload) _).andThen fun _ w1 hi1 ho1 _ => ?_
  refine (holds_pagesUnder hi1 C.kept.listed (fun after => (C.list _ after 64).above ho1)
    (fun _ _ w' hi ho _ _ => (C.above hi (D.order.trans ho1 ho)).holds_gcClaim) _).andThen
    fun _ w2 hi2 ho2 _ => ?_
  replace ho2 := D.order.trans ho1 ho2
  refine (holds_pagesUnder hi2 C.kept.listed (fun after => (C.list _ after 64).above ho2)
    (fun _ _ w' hi ho hx _ => (C.above hi (D.order.trans ho2 ho)).holds_gcBeacon hx) _).andThen
    fun _ w3 hi3 ho3 _ => ?_
  replace ho3 := D.order.trans ho2 ho3
  exact holds_pagesUnder hi3 C.kept.listed (fun after => (C.list _ after 64).above ho3)
    (fun _ _ w' hi ho hx hlisted => (C.above hi (D.order.trans ho3 ho)).holds_gcTerminal hx hlisted) _

end Collects

end Core
end StowQ
