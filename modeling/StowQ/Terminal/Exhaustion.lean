import StowQ.Core.ScanRules
import StowQ.Custody.Results
import StowQ.Knowledge
import StowQ.Planes

/-!
# Giving a job up

A scan that finds the attempts of a job used up writes a dead record in its name.  It does so
on the evidence of a listing of the job's claims, read to its end, and of the claim record of
the last one: the lease has run out at the scan's floor.  The dead record lives at another key
than the claims, so a renewal between the listing and the write is not noticed; `Undisturbed`
rules it out, and then no job is given up under a live claim.
-/

namespace StowQ
namespace Terminal

open Data StowQ.Core Store Format Concurrent Interleaving Custody Keys
open Footprint (Avoids avoids_put reading_avoids)

variable {tail : Tail} {objs : Objects}

/-! ## The evidence of a scan -/

section Evidence

variable [Sha256] (q : Queue) (h : List Exchange) (shard : UInt16) (jobId : ByteArr 16)

/-- A listing of the claims of a job came to its end and showed `found` as the last one. -/
def Listed (found : Option (UInt64 × Meta)) : Prop :=
  ∃ items, Walked (Shown h (q.claimsPrefix shard jobId) 64) items ∧ found = lastClaim items

/-- A tail was listed, and its claim record was read. -/
structure TailSeen (tail : Tail) : Prop where
  listed : ∃ found, Listed q h shard jobId found ∧ found.getD (0, emptyMeta) = (tail.generation, tail.info)
  read : tail.generation ≠ 0 → ∃ obj r,
    ⟨.get (q.absolute (.claim shard jobId tail.generation.toUInt32)), .ok obj⟩ ∈ h ∧
      q.decodeAt (.claim shard jobId tail.generation.toUInt32) obj.body = .ok (.claim r) ∧
      r.leaseDurationNs = tail.leaseDurationNs

end Evidence

/-- The lease of a tail has run out at a floor. -/
def RanOut (q : Queue) (floorNs : UInt64) (tail : Tail) : Prop :=
  tail.generation ≠ 0 → satAdd (satAdd tail.info.storeTimeNs tail.leaseDurationNs) q.opts.skewGuardNs ≤ floorNs

/-- A dead record is created on the evidence of a tail that has run out at the floor. -/
def Verified [Sha256] (q : Queue) (floorNs : UInt64) (h : List Exchange) (r : Request) : Prop :=
  ∀ shard jobId body digest, r = .putIfAbsent (q.absolute (.dead shard jobId)) body digest →
    ∃ tail, TailSeen q h shard jobId tail ∧ RanOut q floorNs tail

section Probes

variable [Sha256] {q : Queue} {h h' : List Exchange} {shard : UInt16} {jobId : ByteArr 16}
  {floorNs : UInt64} {α : Type}

omit [Sha256] in
lemma Listed.mono {found : Option (UInt64 × Meta)} (hl : Listed q h shard jobId found)
    (hh : h <:+ h') : Listed q h' shard jobId found := by
  obtain ⟨items, hwalked, hfound⟩ := hl
  exact ⟨items, hwalked.mono fun _ _ hshown => hshown.mono hh, hfound⟩

lemma TailSeen.mono (ht : TailSeen q h shard jobId tail) (hh : h <:+ h') : TailSeen q h' shard jobId tail where
  listed := by
    obtain ⟨found, hl, heq⟩ := ht.listed
    exact ⟨found, hl.mono hh, heq⟩
  read hne := by
    obtain ⟨obj, r, hmem, hrest⟩ := ht.read hne
    exact ⟨obj, r, List.IsSuffix.subset hh hmem, hrest⟩

/-- Requests that create no dead record but one. -/
def Burying (q : Queue) (shard : UInt16) (jobId : ByteArr 16) (o : Op) : Prop :=
  ∀ s j body digest, o = .store (.putIfAbsent (q.absolute (.dead s j)) body digest) → s = shard ∧ j = jobId

omit [Sha256] in
lemma burying_of_avoids {o : Op} (ho : Avoids q .dead o) : Burying q shard jobId o :=
  fun s j body digest heq => absurd heq (ho s j body digest)

/-- Parts that create no dead record need no evidence. -/
lemma holds_noDead {m : Routine α} (hm : Budgeted.Emits (Avoids q .dead) m) :
    Holds (knowing (Verified q floorNs)) m (fun _ _ => True) h :=
  holds_of_asks hm.prog fun _ hr _ _ s j body digest heq =>
    absurd (congrArg Op.store heq) (hr s j body digest)

lemma holds_listTail (hinv : Licensed (Verified q floorNs) h) :
    Holds (knowing (Verified q floorNs)) (q.listTail shard jobId)
      (OnOk fun found h' => Listed q h' shard jobId found) h :=
  holds_walk (fun _ _ _ _ => nofun) hinv none

lemma holds_tailRecord (g : UInt64) :
    Holds (knowing (Verified q floorNs)) (q.tailRecord shard jobId g) (OnOk fun out h' =>
      ∃ obj r, ⟨.get (q.absolute (.claim shard jobId g.toUInt32)), .ok obj⟩ ∈ h' ∧
        q.decodeAt (.claim shard jobId g.toUInt32) obj.body = .ok (.claim r) ∧
        r.leaseDurationNs = out.2) h := by
  refine holds_spend (holds_ask (fun _ _ _ => nofun) fun answer h1 _ hmem _ => ?_)
  refine holds_ofStore fun obj hobj => holds_ofRecord fun record hrecord => ?_
  subst hobj
  split
  · exact holds_pure fun h2 _ hh2 => ⟨obj, _, List.IsSuffix.subset hh2 hmem, hrecord, rfl⟩
  · exact holds_fail

/-- A listed tail is completed by its own record. -/
lemma holds_tailOf {found : Option (UInt64 × Meta)} (hlisted : Listed q h shard jobId found) :
    Holds (knowing (Verified q floorNs)) (q.tailOf shard jobId found none)
      (OnOk fun tail h' => TailSeen q h' shard jobId tail) h := by
  unfold Queue.tailOf
  dsimp only
  split
  · next hzero =>
      refine holds_pure fun h1 _ hh1 => ⟨⟨found, hlisted.mono hh1, ?_⟩, fun hne => absurd rfl hne⟩
      exact Prod.ext hzero rfl
  · refine (holds_tailRecord _).andThen fun out h1 _ hh1 hread => ?_
    obtain ⟨obj, r, hmem, hdec, hlease⟩ := hread
    refine holds_pure fun h2 _ hh2 => ⟨⟨found, hlisted.mono (hh1.trans hh2), rfl⟩, fun _ => ?_⟩
    exact ⟨obj, r, List.IsSuffix.subset hh2 hmem, hdec, hlease⟩

lemma holds_rediscoverTail (hinv : Licensed (Verified q floorNs) h) :
    Holds (knowing (Verified q floorNs)) (q.rediscoverTail shard jobId)
      (OnOk fun tail h' => TailSeen q h' shard jobId tail) h :=
  (holds_listTail hinv).andThen fun _ _ _ _ hlisted => holds_tailOf hlisted

/-- A tail that was not read through the hint was listed. -/
lemma holds_gatherTail (hinv : Licensed (Verified q floorNs) h) :
    Holds (knowing (Verified q floorNs)) (q.gatherTail shard jobId)
      (OnOk fun g h' => g.hintRecord = none → Listed q h' shard jobId g.tail) h := by
  have hlist : ∀ hint h1, Licensed (Verified q floorNs) h1 → Holds (knowing (Verified q floorNs))
      (do pure (⟨← q.listTail shard jobId, hint, none⟩ : Gathered))
      (OnOk fun g h' => g.hintRecord = none → Listed q h' shard jobId g.tail) h1 :=
    fun hint h1 hi1 => (holds_listTail hi1).andThen fun found h2 _ _ hlisted =>
      holds_pure fun h3 _ hh3 _ => hlisted.mono hh3
  unfold Queue.gatherTail
  split
  swap
  · exact hlist none h hinv
  refine holds_after (holds_noDead (Footprint.readTailHint nofun)) fun hint h1 hi1 _ => ?_
  split
  · exact hlist none h1 hi1
  · split
    swap
    · exact hlist _ h1 hi1
    refine holds_spend (holds_ask (fun _ _ _ => nofun) fun answer h2 _ _ hi2 => ?_)
    cases answer with
    | error err =>
      cases err with
      | notFound => exact hlist _ h2 hi2
      | _ => exact holds_fail
    | ok obj =>
      dsimp only
      split
      · exact holds_pure nofun
      · exact hlist _ h2 hi2

lemma holds_buryExhausted (hseen : TailSeen q h shard jobId tail) (hran : RanOut q floorNs tail) :
    Holds (knowing (Verified q floorNs)) (q.buryExhausted shard jobId tail) (fun _ _ => True) h := by
  have hemits : Budgeted.Emits (Burying q shard jobId) (q.buryExhausted shard jobId tail) := by
    refine Footprint.buryExhausted (by constructor <;> intros <;> nofun)
      (fun _ => burying_of_avoids (avoids_put nofun)) nofun
      (fun _ => burying_of_avoids (avoids_put nofun)) ?_ nofun
    intro s j body digest heq
    injection heq with heq
    injection heq with hkey
    injection q.site.absolute_inj.mp hkey with hs hj
    exact ⟨hs.symm, hj.symm⟩
  refine holds_of_asks hemits.prog fun r hr h1 hh1 s j body digest heq => ?_
  obtain ⟨rfl, rfl⟩ := hr s j body digest (congrArg Op.store heq)
  exact ⟨tail, hseen.mono hh1, hran⟩

/-- One pass: with no second pass left, the tail it starts from was listed. -/
lemma holds_claimPass {opts : ClaimOptions} {hint : Option (Version × UInt64)}
    {again : Option (Tail → Routine (Option Claim))}
    (hagain : ∀ pass, again = some pass → ∀ t h1, h <:+ h1 → TailSeen q h1 shard jobId t →
      Holds (knowing (Verified q opts.floorNs)) (pass t) (OnOk fun _ _ => True) h1)
    (hseen : again = none → TailSeen q h shard jobId tail) :
    Holds (knowing (Verified q opts.floorNs)) (q.claimPass shard jobId opts hint again tail)
      (OnOk fun _ _ => True) h := by
  have hread : Budgeted.Emits (Avoids q .dead) (q.backoffPassed shard jobId opts tail) :=
    Footprint.backoffPassed reading_avoids
  have hsecond : ∀ pass h1, again = some pass → h <:+ h1 → Licensed (Verified q opts.floorNs) h1 →
      Holds (knowing (Verified q opts.floorNs)) (do pass (← q.rediscoverTail shard jobId))
        (OnOk fun _ _ => True) h1 := by
    intro pass h1 hpass hh1 hi1
    exact (holds_rediscoverTail hi1).andThen fun t h2 _ hh2 ht =>
      hagain pass hpass t h2 (hh1.trans hh2) ht
  refine holds_after (holds_noDead hread) fun passed h1 hi1 hh1 => ?_
  split
  · exact holds_pure fun _ _ _ => trivial
  split
  · exact holds_pure fun _ _ _ => trivial
  next hexpired =>
  refine holds_after (holds_noDead (Footprint.readJob reading_avoids))
    fun found h2 hi2 hh2 => ?_
  cases found with
  | none => exact holds_pure fun _ _ _ => trivial
  | some job =>
    dsimp only
    split
    · exact holds_pure fun _ _ _ => trivial
    split
    · -- the attempts are used up
      cases again with
      | some pass => exact hsecond pass h2 rfl (hh1.trans hh2) hi2
      | none =>
        have htail := (hseen rfl).mono (hh1.trans hh2)
        have hran : RanOut q opts.floorNs tail := by
          simpa [Queue.expired, RanOut] using hexpired
        exact holds_after (holds_buryExhausted htail hran) fun _ _ _ _ =>
          holds_pure fun _ _ _ => trivial
    split
    · exact holds_fail
    · -- the takeover touches no dead record
      have hput : ∀ t, Budgeted.Emits (Avoids q .dead) (q.putRecord
          (.claim shard jobId (tail.generation + 1).toUInt32) (.claim t)) := fun t =>
        Footprint.putRecord (avoids_put nofun) nofun nofun
      have hhandle : ∀ token, Budgeted.Emits (Avoids q .dead)
          (q.takeoverHandle shard jobId opts tail job token hint) := fun token =>
        Footprint.takeoverHandle reading_avoids.tame (fun _ _ => avoids_put nofun)
          (fun _ => avoids_put nofun) fun _ _ => nofun
      refine holds_after (holds_noDead (Budgeted.Emits.request reading_avoids.tame.freshToken))
        fun token h3 hi3 hh3 => holds_spend ?_
      refine holds_after (holds_noDead (hput _)) fun resolved h4 hi4 hh4 => ?_
      cases resolved with
      | committed =>
        exact holds_after (holds_noDead (hhandle _)) fun _ _ _ _ =>
          holds_pure fun _ _ _ => trivial
      | _ =>
        cases again with
        | some pass => exact hsecond pass h4 rfl (((hh1.trans hh2).trans hh3).trans hh4) hi4
        | none => exact holds_pure fun _ _ _ => trivial

lemma holds_claimFrom {opts : ClaimOptions} {g : Gathered}
    (hlisted : g.hintRecord = none → Listed q h shard jobId g.tail) :
    Holds (knowing (Verified q opts.floorNs)) (q.claimFrom opts shard jobId g)
      (OnOk fun _ _ => True) h := by
  unfold Queue.claimFrom
  cases hhint : g.hintRecord with
  | none =>
    refine (holds_tailOf (hlisted hhint)).andThen fun tail h1 _ _ hseen => ?_
    exact holds_claimPass nofun fun _ => hseen
  | some c =>
    refine holds_after (holds_noDead (Footprint.tailOf reading_avoids)) fun tail h1 _ _ => ?_
    refine holds_claimPass (fun pass hpass t h2 _ hseen => ?_) nofun
    cases hpass
    exact holds_claimPass nofun fun _ => hseen

lemma holds_tryClaim_verified (opts : ClaimOptions) (version : Version)
    (hinv : Licensed (Verified q opts.floorNs) h) :
    Holds (knowing (Verified q opts.floorNs)) (q.tryClaim opts shard jobId version)
      (OnOk fun _ _ => True) h := by
  have hheads := safe_join (h := h) (A := Verified q opts.floorNs)
    (safe_ask (r := .head (q.absolute (.receipt shard jobId))) fun _ _ _ => nofun)
    (safe_ask (r := .head (q.absolute (.dead shard jobId))) fun _ _ _ => nofun)
  refine holds_tryClaim_of (P := fun _ _ => True)
    ((holds_beside hheads (holds_gatherTail hinv)).mono fun _ _ _ _ hout out hr => ?_)
    (fun _ _ _ _ _ _ => holds_noDead (Budgeted.Emits.request nofun)) (fun _ _ _ _ _ hg => holds_claimFrom hg)
    fun _ => trivial
  exact ⟨trivial, (hout out hr).2⟩

lemma probesSafely_verified (opts : ClaimOptions) :
    ProbesSafely (knowing (Verified q opts.floorNs)) q opts (fun _ _ => True) fun _ _ => True where
  tolerant _ _ _ _ hg := hg
  list after h' _ := by
    have hlist : Holds (knowing (Verified q opts.floorNs)) (Routine.list (q.jobsPrefix opts.shard) after 1024)
        (fun _ _ => True) h' := holds_noDead (Footprint.store nofun)
    exact hlist.mono fun _ _ _ _ _ _ _ _ _ _ _ _ _ => trivial
  memoized _ _ _ _ _ := holds_noDead (Budgeted.Emits.request nofun)
  probe c _ hinv _ := (holds_tryClaim_verified opts c.version hinv).mono
    fun _ _ _ _ _ _ _ _ _ => trivial
  seen_stable _ _ _ _ _ hseen := hseen
  stable _ _ _ _ _ hgood := hgood

/-- **Every exhaustion record is written on evidence.** -/
theorem holds_exhausting (call : Call) : Holds (knowing fun h r =>
      ∀ floorNs, claimFloor call = some floorNs → Verified call.queue floorNs h r)
    (call.action.task call.queue) (fun _ _ => True) [] := by
  obtain ⟨q, action, budget⟩ := call
  have hscan : ∀ {opts : ClaimOptions} {α : Type} {m : Routine α} {f : α → Output}
      {Q : α → List Exchange → Prop}, claimFloor ⟨q, action, budget⟩ = some opts.floorNs →
      Holds (knowing (Verified q opts.floorNs)) m (OnOk Q) [] → Holds (knowing fun h r =>
        ∀ floorNs, claimFloor ⟨q, action, budget⟩ = some floorNs → Verified q floorNs h r)
        (m >>= fun a => pure (f a)) (fun _ _ => True) [] := by
    intro opts α m f Q hfloor hm
    have hA : (fun h r => ∀ floorNs, claimFloor ⟨q, action, budget⟩ = some floorNs →
        Verified q floorNs h r) = Verified q opts.floorNs := by
      funext h r
      simp [hfloor]
    rw [hA]
    exact (hm.andThen (Q := fun _ _ => True) fun _ _ _ _ _ =>
      holds_pure fun _ _ _ => trivial).mono fun _ _ _ _ _ => trivial
  cases action with
  | claim opts => exact hscan rfl ((probesSafely_verified opts).scansSafely.holds_claim trivial)
  | claimMany opts max => exact hscan rfl ((probesSafely_verified opts).scansSafely.holds_claimMany max trivial)
  | _ =>
    exact holds_of_asks (fun b => Prog.Emits.any _) fun r _ h1 _ floorNs hfloor => by cases hfloor

end Probes

/-! ## Runs -/

/-- When a call writes a dead record, all claims of the job that are there were there at its
listings of the job's claims. -/
def Undisturbed [Sha256] (S : Site) (w : World) (i : Nat) (o : Op) : Prop :=
  ∀ shard jobId body, o = .put (S.absolute (.dead shard jobId)) body →
    ∀ after limit answer before after', .did i (.list (S.dir [claimsSeg, hex16 shard,
        hex jobId.toList]) after limit) answer before after' ∈ w.log →
      ∀ g, w.objects.get? (S.absolute (.claim shard jobId g)) ≠ none →
        before.get? (S.absolute (.claim shard jobId g)) ≠ none

section Runs

variable [Sha256] {S : Site} {w : World} {cfg : Calls} {shard : UInt16} {jobId : ByteArr 16}

/-- Calls of any operations but garbage collection, on handles that the run returned, whose
dead records are undisturbed. -/
def undisturbed (S : Site) : Terms :=
  { profile S False with
    step := fun w i call o c => (profile S False).step w i call o c ∧ Undisturbed S w i o }

/-- The claim of the highest generation. -/
def IsLatest (S : Site) (objs : Objects) (shard : UInt16) (jobId : ByteArr 16) (g : UInt32)
    (e : Entry) : Prop :=
  claimAt S objs shard jobId g = some e ∧ ∀ g', g < g' → claimAt S objs shard jobId g' = none

/-- Whenever a scan stored a dead record for exhausted attempts, the latest claim of the job
had run out at its floor. -/
def SparesLive (S : Site) (log : List Event) : Prop :=
  ∀ i call floorNs r answer before after shard jobId d, .started i call ∈ log →
    claimFloor call = some floorNs → .did i r answer before after ∈ log →
    Fills (S.absolute (.dead shard jobId)) (.did i r answer before after) →
    recordAt S after (.dead shard jobId) = some (.dead d) → d.reason = 4 →
    ∀ g e, IsLatest S after shard jobId g e →
      satAdd (satAdd e.timeNs e.record.leaseDurationNs) call.queue.opts.skewGuardNs ≤ floorNs

omit [Sha256] in
lemma lastClaim_concat (items : List Listing) {x : Listing} {g : UInt64}
    (hg : parseGeneration x.key = some g) : lastClaim (items ++ [x]) = some (g, x.info) := by
  simp [lastClaim, hg]

/-- Below the claims of a job there are only claims of the job. -/
lemma claim_of_prefix {timed : Prop} (hkept : Kept S timed objs) {key : Str} {stored : Stored}
    (hget : objs.get? key = some stored)
    (hpre : S.dir [claimsSeg, hex16 shard, hex jobId.toList] <+: key) :
    ∃ g e, key = S.absolute (.claim shard jobId g) ∧ claimAt S objs shard jobId g = some e := by
  have hplane := S.plane_of_dir (slash_not_mem_jobDir claimsSeg (by decide) shard jobId) hpre
  obtain ⟨shard', jobId', g, rfl, e, he⟩ := hkept.claims key stored hget hplane
  obtain ⟨rfl, rfl⟩ := claim_of_claimsDir hpre
  exact ⟨g, e, rfl, he⟩

/-- The listing of the claims of a job ends with the latest one. -/
lemma lastClaim_remaining {timed : Prop} (hkept : Kept S timed objs) {g : UInt32} {e : Entry}
    (hlatest : IsLatest S objs shard jobId g e) : ∃ info,
      lastClaim (remaining objs (S.dir [claimsSeg, hex16 shard, hex jobId.toList]) none) =
        some (g.toUInt64, info) ∧ info.storeTimeNs = e.timeNs := by
  obtain ⟨stored, hget, htime⟩ := get?_of_claimAt hlatest.1
  let pre := S.dir [claimsSeg, hex16 shard, hex jobId.toList]
  have hsel : selects pre none (S.absolute (.claim shard jobId g)) = true := by
    simpa [selects] using S.claimsDir_prefix shard jobId g
  have hmem : ⟨S.absolute (.claim shard jobId g), stored.info⟩ ∈ remaining objs pre none :=
    mem_remaining.mpr ⟨stored, hget, rfl, hsel⟩
  -- the last item is a claim of the job, and none has a higher generation
  obtain ⟨x, hlast⟩ : ∃ x, (remaining objs pre none).getLast? = some x := by
    rw [← Option.isSome_iff_exists, List.getLast?_isSome]
    exact List.ne_nil_of_mem hmem
  obtain ⟨items, hitems⟩ := List.getLast?_eq_some_iff.mp hlast
  have hx : x ∈ remaining objs pre none := by
    rw [hitems]
    exact List.mem_append_right _ List.mem_cons_self
  obtain ⟨stored', hget', hinfo, hsel'⟩ := mem_remaining.mp hx
  obtain ⟨g', e', hkey, he'⟩ := claim_of_prefix hkept hget' (selects_pre hsel')
  have hle : ¬ g < g' := fun hlt => by
    rw [hlatest.2 g' hlt] at he'
    cases he'
  have hge : ¬ g' < g := by
    intro hlt
    have hasc := remaining_ascending objs pre none
    rw [hitems, List.pairwise_append] at hasc
    rw [hitems] at hmem
    have hkeys : S.absolute (.claim shard jobId g') < S.absolute (.claim shard jobId g) := S.claim_lt_claim hlt
    rcases List.mem_append.mp hmem with hmem | hmem
    · have hlt' := hasc.2.2 _ hmem x List.mem_cons_self
      rw [hkey] at hlt'
      exact lt_asymm hkeys hlt'
    · obtain rfl := List.mem_singleton.mp hmem
      rw [← hkey] at hkeys
      exact lt_irrefl _ hkeys
  obtain rfl : g = g' := UInt32.toNat_inj.mp (by
    rw [UInt32.lt_iff_toNat_lt] at hle hge
    omega)
  rw [hkey, hget] at hget'
  cases hget'
  refine ⟨x.info, ?_, by rw [hinfo, ← htime]; rfl⟩
  show lastClaim (remaining objs pre none) = _
  rw [hitems]
  exact lastClaim_concat _ (by rw [hkey, parseGeneration_claim])

/-- What a call has seen of a tail, at a moment at which nothing has been added since. -/
lemma latest_ran_out {q : Queue} {i : Nat} {floorNs : UInt64} {g : UInt32} {e : Entry}
    (hinv : Inv q.site False w) (hanswered : ∀ i r answer before after, .did i r answer before after ∈ w.log →
      ∃ c : Choice, inject c.fault before c.stamp r = (answer, after))
    (hundisturbed : ∀ after limit answer before after', .did i (.list (q.claimsPrefix shard jobId)
      after limit) answer before after' ∈ w.log → ∀ g, w.objects.get? (q.absolute (.claim shard jobId g)) ≠ none →
          before.get? (q.absolute (.claim shard jobId g)) ≠ none)
    (hseen : TailSeen q (own i w.log) shard jobId tail) (hran : RanOut q floorNs tail)
    (hlatest : IsLatest q.site w.objects shard jobId g e) :
    satAdd (satAdd e.timeNs e.record.leaseDurationNs) q.opts.skewGuardNs ≤ floorNs := by
  obtain ⟨found, ⟨items, hwalked, rfl⟩, htail⟩ := hseen.listed
  -- every page shows the claims as they are now
  have hpages : ∀ after page, Shown (own i w.log) (q.claimsPrefix shard jobId) 64 after page →
      page = listPage w.objects (q.claimsPrefix shard jobId) after 64 := by
    intro after page hshown
    obtain ⟨before, after', hmem⟩ := mem_own.mp hshown
    obtain ⟨c, hc⟩ := hanswered i _ _ before after' hmem
    obtain rfl := answer_list (congrArg Prod.fst hc)
    refine listPage_congr (fun key hpre => ?_) after 64
    have hplane := q.site.plane_of_dir (slash_not_mem_jobDir claimsSeg (by decide) shard jobId) hpre
    have hkeeps : ∀ stored, before.get? key = some stored → w.objects.get? key = some stored :=
      fun stored => (hinv.past i _ _ before after' hmem).1 key stored _ hplane
        (by simp [custodyPlanes])
    cases hbefore : before.get? key with
    | some stored => exact (hkeeps stored hbefore).symm
    | none =>
      cases hnow : w.objects.get? key with
      | none => rfl
      | some stored =>
        obtain ⟨g', -, rfl, -⟩ := claim_of_prefix hinv.kept hnow hpre
        refine absurd hbefore (hundisturbed _ _ _ before after' hmem g' ?_)
        rw [hnow]
        exact Option.some_ne_none stored
  rw [hwalked.eq_remaining (by decide) hpages] at htail
  obtain ⟨info, hlast, htime⟩ := lastClaim_remaining hinv.kept hlatest
  have hlast' : lastClaim (remaining w.objects (q.claimsPrefix shard jobId) none) = some (g.toUInt64, info) := hlast
  rw [hlast', Option.getD_some, Prod.mk.injEq] at htail
  obtain ⟨hgen, rfl⟩ := htail
  -- the record that was read is the one that is there
  have hg : g ≠ 0 := by
    rintro rfl
    obtain ⟨c, hrep, -⟩ := hinv.kept.chains shard jobId
    have hzero := hrep.claim 0
    rw [hlatest.1, if_pos rfl] at hzero
    cases hzero
  obtain rfl : g = tail.generation.toUInt32 := by rw [← hgen, toUInt32_toUInt64]
  have hne : tail.generation ≠ 0 := fun hzero => hg (congrArg UInt64.toUInt32 hzero)
  obtain ⟨obj, r, hmem, hdec, hlease⟩ := hseen.read hne
  obtain ⟨before, after, hdid⟩ := mem_own.mp hmem
  obtain ⟨c, hc⟩ := hanswered i _ _ before after hdid
  obtain ⟨stored, hget, rfl⟩ := answer_get (congrArg Prod.fst hc)
  have hclaim := (hinv.past i _ _ before after hdid).1.claimAt (claimAt_of_decode hget hdec)
  rw [hlatest.1] at hclaim
  cases hclaim
  have hle := hran hne
  rw [← hlease, htime] at hle
  exact hle

lemma run_profile (hrun : machine.Run (undisturbed S) (Machine.initial w) cfg) : Reachable S False w cfg :=
  have hstart : ∀ cfg i call, (undisturbed S).start cfg i call → (profile S False).start cfg i call :=
    fun _ _ _ h => h
  have hstep : ∀ w i call o c, (undisturbed S).step w i call o c → (profile S False).step w i call o c :=
    fun _ _ _ _ _ h => h.1
  hrun.mono hstart hstep fun _ _ h => h

/-- **Exhaustion spares live deliveries.**  If no claim of a job is added between the listing on
which a scan gives the job up and its dead record, the latest claim has run out at the scan's
floor. -/
theorem exhaustion_spares_live (S : Site) (w : World) (hw : Fresh S w) (cfg : Calls)
    (hrun : machine.Run (undisturbed S) (Machine.initial w) cfg) : SparesLive S cfg.world.log := by
  intro i call floorNs r answer before after shard jobId d hstarted hfloor hdid hfills _ _ g e hlatest
  have hemits : ∀ cfg i call, (undisturbed S).start cfg i call → call.prog.Emits fun _ => True :=
    fun _ _ call _ => .any call.prog
  obtain ⟨j, -, v, c, body, answer', after', heq, -, hafter⟩ :=
    Issued.of_fills (run_logged hemits hw.1 hrun) hdid hfills
  cases heq
  -- the configuration in which the record was about to be written
  obtain ⟨later, earlier, hlog⟩ := List.append_of_mem hdid
  obtain ⟨cfg1, call1, k, c1, hm⟩ := run_at hw.1 hrun hlog
  obtain ⟨hstarted1, ⟨_, hadm⟩, -⟩ := (run_accounted hemits hw.1 hm.run).2 i _ hm.thread
  obtain rfl : call1 = call := by
    obtain ⟨p, hp⟩ := run_started hw.1 hrun hstarted
    have hmem : .started i call1 ∈ cfg.world.log := by
      rw [hlog]
      exact List.mem_append_right _ (List.mem_cons_of_mem _ (hm.log ▸ hstarted1))
    obtain ⟨p1, hp1⟩ := run_started hw.1 hrun hmem
    rw [hp] at hp1
    cases hp1
    rfl
  obtain rfl : call1.queue.site = S := hadm.1
  have hasks := run_asks (A := fun call h r => ∀ floorNs, claimFloor call = some floorNs →
      Verified call.queue floorNs h r) (Q := fun _ _ _ => True)
    (fun _ _ call _ => holds_exhausting call) hw.1 hm.run hm.thread
  obtain ⟨tail, hseen, hran⟩ := hasks floorNs hfloor shard jobId body _ rfl
  have hlatest1 : IsLatest call1.queue.site cfg1.world.objects shard jobId g e := by
    have hsame : ∀ g, claimAt call1.queue.site after shard jobId g =
        claimAt call1.queue.site cfg1.world.objects shard jobId g := by
      intro g
      rw [hm.objects, hafter]
      refine claimAt_congr (OrderedMap.get?_insert_of_ne _ _ ?_)
      rw [ne_eq, Site.absolute_inj]
      nofun
    unfold IsLatest
    rw [← hsame]
    exact ⟨hlatest.1, fun g' hlt => (hsame g') ▸ hlatest.2 g' hlt⟩
  refine latest_ran_out ((run_profile hm.run).inv hw) (fun _ _ _ _ _ => run_answered hw.1 hm.run) ?_
    hseen hran hlatest1
  exact hm.step.2 shard jobId body rfl

end Runs

/-! ## A job given up, with and without a renewal in between -/

namespace GivingUp

open Scenario
open Budgeted (Evals)

variable [Sha256]

/-- The scan that finds the only attempt of the small job used up, with just the operations it
needs. -/
def giving : Call := ⟨demo, .claim ⟨0, 1, 1⟩, 10⟩

/-- The holder of the first delivery renews it. -/
def renewing : Call := ⟨demo, .renew firstClaim, 5⟩

/-- The record that gives the job up. -/
def exhausted : Bytes := demo.encodeAt (.dead 0 jobZero) (.dead ⟨jobZero, 1, 1, 4⟩)

/-- The store when the scan starts, and after the renewal. -/
def held : Objects := delivered 1 (tokenAt 8) (versionAt 1) (versionAt 8) (versionAt 10)

def renewed : Objects := held.insert (claimKey 2)
  ⟨demo.encodeAt (.claim 0 jobZero 2) (.claim (demo.continuationRecord firstClaim)), versionAt 22, 1⟩

set_option maxRecDepth 8000 in
lemma run_renewing : ∃ out, renewing.prog.run (staged faultless) ⟨held, 1, fun _ => {}, 20⟩ =
    (out, ⟨renewed, 1, fun _ => {}, 24⟩) :=
  ⟨_, run_call (Evals.bind (evals_renew (b := 0) (by decide) (serves_head_absent rfl rfl)
    (serves_head_absent rfl rfl) (serves_put rfl rfl) (serves_head rfl rfl) (evals_updateTailHint rfl)) (Evals.pure _))⟩

set_option maxRecDepth 8000 in
/-- The scan with the renewal between its reads and its dead record. -/
lemma run_giving : giving.prog.run (interrupted (staged faultless) fun _ => ⟨renewed, 1, fun _ => {}, 24⟩)
      ⟨⟨held, 1, fun _ => {}, 12⟩, 8, none⟩ =
    (.ok (.claim .empty), ⟨⟨renewed.insert deadKey ⟨exhausted, versionAt 24, 1⟩, 1, fun _ => {}, 25⟩, 0,
      some ⟨held, 1, fun _ => {}, 19⟩⟩) := by
  have hclaim : Serves (staged faultless) ⟨held, 1, fun _ => {}, 16⟩ (.get (claimKey 1))
      (.ok ⟨(firstTail (tokenAt 8) (versionAt 8)).info, grantBody ⟨0, 0, 1⟩ noTail (tokenAt 8)⟩)
      ⟨held, 1, fun _ => {}, 17⟩ := serves_get rfl rfl
  have hjob : Serves (staged faultless) ⟨held, 1, fun _ => {}, 18⟩ (.get jobKey)
      (.ok ⟨Stored.info ⟨jobBody 1, versionAt 1, 0⟩, jobBody 1⟩) ⟨held, 1, fun _ => {}, 19⟩ := serves_get rfl rfl
  have hdue : ¬ (1 : UInt64) < 0 := by decide
  have hattempts : (1 : UInt64) < 1 + 1 := by decide
  exact run_call (Evals.bind (evals_claim_exhausted rfl (demo.parseRel_absolute (.job 0 jobZero))
    (serves_list rfl rfl).ahead rfl (serves_head_absent rfl rfl).ahead (serves_head_absent rfl rfl).ahead
    (serves_list rfl rfl).ahead (parseGeneration_claim _ _ _ _) (show (1 : UInt64) ≠ 0 by decide)
    hclaim.ahead (decode_grantBody ⟨0, 0, 1⟩ noTail (tokenAt 8)) (serves_get_absent rfl rfl).ahead
    hjob.struck (decode_jobBody 1) rfl hdue hattempts (serves_put rfl rfl).past) (Evals.pure _))

/-- The store right after the dead record. -/
def givenUp : Objects := renewed.insert deadKey ⟨exhausted, versionAt 24, 1⟩

set_option maxRecDepth 8000 in
lemma fills_dead {r : Request} {answer : StoreResult r.Answer} :
    Fills deadKey (.did 2 r answer renewed givenUp) :=
  ⟨rfl, fun h => Option.some_ne_none _ ((OrderedMap.get?_insert_self _ _ _).symm.trans h)⟩

lemma dead_given_up : recordAt demo.site givenUp (.dead 0 jobZero) = some (.dead ⟨jobZero, 1, 1, 4⟩) :=
  recordAt_of_encode trivial (OrderedMap.get?_insert_self _ _ _) rfl

set_option maxRecDepth 8000 in
lemma latest_given_up : IsLatest demo.site givenUp 0 jobZero 2 ⟨demo.continuationRecord firstClaim, 1⟩ := by
  refine ⟨claimAt_of_get? (demo.continuationRecord_wellFormed firstClaim)
    (show givenUp.get? (claimKey 2) = some ⟨_, _, 1⟩ from rfl) rfl, fun g hlt => ?_⟩
  have h1 : g ≠ 1 := by
    rintro rfl
    exact absurd hlt (by decide)
  have h2 : g ≠ 2 := (UInt32.ne_of_lt hlt).symm
  have habsent : givenUp.get? (claimKey g) = none := by
    simp [givenUp, renewed, held, delivered, enqueued, OrderedMap.get?_insert, h1, h2]
  unfold claimAt
  rw [show givenUp.get? (demo.site.absolute (.claim 0 jobZero g)) = none from habsent]

/-- The keys of a store. -/
def keysOf (objs : Objects) : List Str := objs.entries.map Prod.fst

/-- Nothing is buried, or by a call that has done everything at the keys that are there. -/
def unmoved (i : Nat) (o : Op) (w : World) : Bool :=
  match o with
  | .store (.putIfAbsent key _ _) => demo.site.plane key != some deadSeg || w.log.all fun
      | .did j _ _ before _ => j != i || keysOf before == keysOf w.objects
      | _ => true
  | _ => true

omit [Sha256] in
lemma mem_keysOf {key : Str} : key ∈ keysOf objs ↔ objs.get? key ≠ none := by
  simp only [keysOf, List.mem_map, Prod.exists, exists_and_right, exists_eq_right, Option.ne_none_iff_exists',
    ← OrderedMap.mem_entries_iff]

lemma undisturbed_of_unmoved {i : Nat} {o : Op} {w : World} (h : unmoved i o w = true) :
    Undisturbed demo.site w i o := by
  rintro shard jobId body rfl after limit answer before after' hmem g hpresent
  have hplane : demo.site.plane (demo.site.absolute (.dead shard jobId)) = some deadSeg := plane_absolute _ _
  simp only [unmoved, hplane, bne_self_eq_false, Bool.false_or, List.all_eq_true] at h
  have hkeys := h _ hmem
  simp only [bne_self_eq_false, Bool.false_or, beq_iff_eq] at hkeys
  exact mem_keysOf.mp (hkeys ▸ mem_keysOf.mpr hpresent)

end GivingUp

open GivingUp Scenario

/-- A job does get given up: its only attempt has run out when call 2 scans. -/
theorem exhaustion_spares_live_given_up : ∃ (_ : Sha256) (cfg : Calls),
    recordAt demo.site cfg.world.objects (.dead 0 jobZero) = some (.dead ⟨jobZero, 1, 1, 4⟩) ∧
      SparesLive demo.site cfg.world.log := by
  let hash := Sha256.zero
  let P := undisturbed demo.site
  have hstep : ∀ i call o w, unmoved i o w = true → P.step w i call o (plain faultless w) :=
    fun _ _ _ _ h => ⟨False.elim, undisturbed_of_unmoved h⟩
  let placed := play faultless 0 (enqueue 1) (Machine.initial (blank 0))
  have henqueue : machine.Run P (Machine.initial (blank 0)) placed :=
    run_checked (unmoved 0) (hstep 0 (enqueue 1)) ⟨rfl, nofun, nofun⟩ rfl (by decide +kernel)
  have hclaim : machine.Run P placed (once 1) :=
    run_checked (unmoved 1) (hstep 1 (claiming 0 1)) ⟨rfl, nofun, nofun⟩ (play_threads (by decide)) (by decide +kernel)
  have hgive : machine.Run P (tick 1 (once 1)) (play faultless 2 giving (tick 1 (once 1))) :=
    run_checked (unmoved 2) (hstep 2 giving) ⟨rfl, nofun, nofun⟩ (once_free (le_refl 2)) (by decide +kernel)
  have htick : machine.Run P (once 1) (tick 1 (once 1)) := run_tick trivial
  exact ⟨hash, _, by decide +kernel, exhaustion_spares_live demo.site (blank 0) ⟨rfl, fun _ _ => rfl⟩ _
    (((henqueue.trans hclaim).trans htick).trans hgive)⟩

/-- Without that condition a scan gives a job up under a live claim: call 2 reads the claims
and finds the only attempt used up and its lease over, call 3 renews the claim, and call 2 goes
on with its dead record. -/
theorem exhaustion_kills_live : ¬ ∃ _ : Sha256, ∀ S w, Fresh S w → ∀ cfg, Reachable S False w cfg →
    SparesLive S cfg.world.log := by
  rintro ⟨_, hall⟩
  let P := profile demo.site False
  have hplay : ∀ (i : Nat) (call : Call), call.queue = demo → (∀ a b c, call.action ≠ .gc a b c) →
      call.action.handle = none → Playable P i call 0 :=
    fun i call hqueue hgc hhandle => ⟨fun _ => ⟨congrArg Queue.site hqueue, hgc, by simp [hhandle]⟩,
      fun _ _ _ _ => False.elim⟩
  have hstep : ∀ i call o (w : World), P.step w i call o (plain faultless w) := fun _ _ _ _ => False.elim
  obtain ⟨honce, hret⟩ := once_at (show ¬ (1 : UInt64) < 1 by decide)
  let looked := pause 2 giving 8 (tick 1 (once 1))
  let late := play faultless 3 renewing looked
  obtain ⟨hlooked, hend⟩ := pause_at 2 (tick 1 (once 1)) (tick_at honce) run_giving
  obtain ⟨out, hrenewing⟩ := run_renewing
  obtain ⟨hlate, -⟩ : stage late = _ ∧ _ := play_at hlooked hrenewing
  have hwaiting : late.threads 2 = looked.threads 2 := play_threads (by decide)
  obtain ⟨hfinal, hgave⟩ := hend late hlate hwaiting
  obtain ⟨p, hthread, -⟩ := pause_thread 2 (tick 1 (once 1)) (.any giving.prog) 8
  have honce : machine.Run P (Machine.initial (blank 0)) (once 1) :=
    run_once (hplay 0 (enqueue 1) rfl nofun rfl) (hplay 1 (claiming 0 1) rfl nofun rfl)
  have htick : machine.Run P (once 1) (tick 1 (once 1)) := run_tick trivial
  have hlook : machine.Run P (tick 1 (once 1)) looked :=
    pause_plainly 8 ⟨rfl, nofun, nofun⟩ (hstep 2 giving) (once_free (le_refl 2))
  have hrenew : machine.Run P looked late := by
    refine run_plainly ⟨rfl, nofun, fun c hc => ?_⟩ (hstep 3 renewing)
      ((pause_threads (by decide)).trans (once_free (by decide)))
    obtain rfl : firstClaim = c := Option.some.inj hc
    exact ⟨1, claiming 0 1, _, (pause_threads (by decide)).trans hret, List.mem_singleton_self _⟩
  have hgive : machine.Run P late (resume 2 late) := resume_plainly (hwaiting.trans hthread) (hstep 2 giving)
  have hreach := (((honce.trans htick).trans hlook).trans hrenew).trans hgive
  obtain ⟨r, answer, hlog⟩ := resume_logs (hwaiting.trans hthread) (by rw [hfinal, hlate])
  rw [hfinal, hlate] at hlog
  have hstarted := ((run_accounted (A := fun _ _ => True) (fun _ _ call _ => .any call.prog) rfl hreach).2 2 _
    hgave).1
  have hdead := hall demo.site (blank 0) ⟨rfl, fun _ _ => rfl⟩ _ hreach 2 giving 1 r answer _ _ 0 jobZero
    ⟨jobZero, 1, 1, 4⟩ hstarted rfl (hlog ▸ List.mem_cons_self) fills_dead dead_given_up rfl 2 _ latest_given_up
  exact absurd hdead (by decide)

end Terminal
end StowQ
