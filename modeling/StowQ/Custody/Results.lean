import StowQ.Custody.Calls
import StowQ.Knowledge
import StowQ.Planes
import StowQ.Scenario.Basic

/-!
# Claim chains, leases and deliveries in every run

The results of the custody development, over every interleaving of calls on a queue, with any faults and with
writers outside the custody planes: the claims of a job are one chain that only grows (`claims_are_chains`),
leases of different workers do not overlap in store time (`leases_exclusive`), and no takeover is earlier than
the job and its fail record allow (`takeovers_not_early`).  All three are read off the invariant that
`Custody.Calls` shows every call to keep.  The last section delivers one small job twice, for the witnesses here
and in later modules.
-/

namespace StowQ
namespace Custody

open Data StowQ.Core Store Format Concurrent Interleaving

variable {timed : Prop} {attempts : UInt64} {i : Nat} {P : Terms}

section Runs

variable [Sha256] {S : Site} {timed : Prop} {w : World}
  {cfg cfg' : Config World Op Res Call (Except Error Output)}

/-- Nothing has been claimed and nothing has happened. -/
def Fresh (S : Site) (w : World) : Prop :=
  w.log = [] ∧ ∀ key, S.plane key = some Keys.claimsSeg → w.objects.get? key = none

lemma Fresh.inv (h : Fresh S w) : Inv S timed w where
  kept := Kept.of_vacant h.2
  clock _ key stored hplane hget := by
    rw [h.2 key hplane] at hget
    cases hget
  past i r answer before after hmem := by
    rw [h.1] at hmem
    cases hmem
  prompt _ := by
    rw [h.1]
    trivial

/-- The configurations a run can reach. -/
def Reachable (S : Site) (timed : Prop) (w : World)
    (cfg : Config World Op Res Call (Except Error Output)) : Prop :=
  machine.Run (profile S timed) (Machine.initial w) cfg

lemma Reachable.inv (h : Reachable S timed w cfg) (hw : Fresh S w) : Inv S timed cfg.world :=
  (obligations.run_good (Obligations.initial_good hw.inv) h).1

lemma Reachable.extends (h : Reachable S timed w cfg) (hw : Fresh S w)
    (hrun : machine.Run (profile S timed) cfg cfg') :
    Extends S cfg.world.objects cfg'.world.objects := by
  let moves : Rely World := ⟨fun a b => Extends S a.objects b.objects, fun a => Extends.refl S _, Extends.trans⟩
  refine obligations.run_moves moves (fun _ _ _ _ hr => hr.objects) (fun _ _ _ _ hg => hg.objects)
    (fun e a b hi hadm henv => ?_) (obligations.run_good (Obligations.initial_good hw.inv) h) hrun
  cases henv
  exact ((outside_keeps hi hadm).2 fun _ => True).objects

end Runs

/-! ## The chain of a job -/

section Chains

variable [Sha256] {S : Site} {objs : Objects} {shard : UInt16} {jobId : ByteArr 16}

/-- The claim of a generation is a takeover. -/
def isTakeover (S : Site) (objs : Objects) (shard : UInt16) (jobId : ByteArr 16) (g : Nat) :
    Bool :=
  ((claimAt S objs shard jobId (UInt32.ofNat g)).map Entry.takeover).getD false

/-- The number of takeovers among generations 1 to `g`. -/
def takeovers (S : Site) (objs : Objects) (shard : UInt16) (jobId : ByteArr 16) (g : Nat) : Nat :=
  (List.range g).countP fun k => isTakeover S objs shard jobId (k + 1)

lemma Represents.claim_succ {c : Chain} (h : Represents S objs shard jobId c) {k : Nat}
    (hk : k + 1 < 2 ^ 32) : claimAt S objs shard jobId (UInt32.ofNat (k + 1)) = c.entries[k]? := by
  have hnat : (UInt32.ofNat (k + 1)).toNat = k + 1 := by
    rw [UInt32.toNat_ofNat']
    exact Nat.mod_eq_of_lt hk
  rw [h.claim, if_neg, hnat, Nat.add_sub_cancel]
  intro hzero
  rw [hzero] at hnat
  simp at hnat

lemma Represents.takeovers_eq {c : Chain} (h : Represents S objs shard jobId c) (g : Nat)
    (hg : g ≤ c.entries.length) :
    takeovers S objs shard jobId g = (c.entries.take g).countP Entry.takeover := by
  unfold takeovers
  induction g with
  | zero => simp
  | succ g ih =>
    have hlen := h.length
    have hnext : isTakeover S objs shard jobId (g + 1) = c.entries[g].takeover := by
      rw [isTakeover, h.claim_succ (by omega), List.getElem?_eq_getElem hg]
      rfl
    rw [List.range_succ, List.countP_append, ih (by omega), List.take_add_one,
      List.countP_append, List.getElem?_eq_getElem hg, Option.toList_some,
      List.countP_singleton, List.countP_singleton, hnext]

/-- What the claims of a job are: generations 1 to `n`, each with its number, its count of
takeovers and an attempt within the job's limit. -/
structure IsChain (S : Site) (objs : Objects) (shard : UInt16) (jobId : ByteArr 16) (n : Nat) :
    Prop where
  present : ∀ g : UInt32, (objs.get? (S.absolute (.claim shard jobId g))).isSome ↔ 1 ≤ g.toNat ∧ g.toNat ≤ n
  claim : ∀ g : UInt32, 1 ≤ g.toNat → g.toNat ≤ n → ∃ e job,
    claimAt S objs shard jobId g = some e ∧ jobAt S objs shard jobId = some job ∧
      e.record.generation.toNat = g.toNat ∧
      e.record.attempt.toNat = takeovers S objs shard jobId g.toNat ∧
      e.record.attempt ≤ job.maximumAttempts

/-- The claims plane holds no other objects. -/
def OnlyClaims (S : Site) (objs : Objects) : Prop :=
  ∀ key, S.plane key = some Keys.claimsSeg → (objs.get? key).isSome →
    ∃ shard jobId g, key = S.absolute (.claim shard jobId g)

lemma Kept.onlyClaims (h : Kept S timed objs) : OnlyClaims S objs := by
  intro key hplane hsome
  obtain ⟨stored, hget⟩ := Option.isSome_iff_exists.mp hsome
  obtain ⟨shard, jobId, g, hkey, -⟩ := h.claims key stored hget hplane
  exact ⟨shard, jobId, g, hkey⟩

lemma Kept.claim_isSome (h : Kept S timed objs) (g : UInt32) :
    (objs.get? (S.absolute (.claim shard jobId g))).isSome = (claimAt S objs shard jobId g).isSome := by
  cases hget : objs.get? (S.absolute (.claim shard jobId g)) with
  | none => simp [claimAt, hget]
  | some stored =>
    obtain ⟨s, j, g', hkey, e, he⟩ := h.claims _ stored hget (plane_absolute S _)
    rw [Site.absolute_inj] at hkey
    injection hkey with hs hj hg
    subst hs hj hg
    simp [he]

lemma Kept.isChain (h : Kept S timed objs) : ∃ n, IsChain S objs shard jobId n := by
  obtain ⟨c, hrep, -, hallowed⟩ := h.chains shard jobId
  refine ⟨c.entries.length, fun g => ?_, fun g hpos hle => ?_⟩
  · rw [h.claim_isSome, hrep.claim]
    by_cases hg : g = 0
    · simp [hg]
    · have hne : g.toNat ≠ 0 := fun heq => hg (UInt32.toNat_inj.mp heq)
      rw [if_neg hg, isSome_getElem?]
      omega
  · have hg : g ≠ 0 := by
      rintro rfl
      simp at hpos
    obtain ⟨e, he⟩ : ∃ e, c.entries[g.toNat - 1]? = some e := ⟨_, List.getElem?_eq_getElem (by omega)⟩
    have hsucc : g.toNat - 1 + 1 = g.toNat := by omega
    obtain ⟨job, hjob, hmax, -⟩ := hallowed e (List.mem_of_getElem? he)
    refine ⟨e, job, by rw [hrep.claim, if_neg hg, he], hjob, ?_, ?_, hmax⟩
    · rw [c.generation _ e he, hsucc]
    · rw [c.attempt_eq _ he, hrep.takeovers_eq _ hle, hsucc]

/-- The claims of a job, by the chain they are. -/
lemma Kept.entry (h : Kept S timed objs) (shard : UInt16) (jobId : ByteArr 16) :
    ∃ c : Chain, (timed → c.Timed) ∧ (∀ g : UInt32, ∀ e, claimAt S objs shard jobId g = some e →
      1 ≤ g.toNat ∧ c.entries[g.toNat - 1]? = some e) ∧
      ∀ e ∈ c.entries, Allowed S timed objs shard jobId e ∧ ∃ g, claimAt S objs shard jobId g = some e := by
  obtain ⟨c, hrep, htimed, hallowed⟩ := h.chains shard jobId
  refine ⟨c, htimed, fun g e he => ?_, fun e he => ⟨hallowed e he, ?_⟩⟩
  · rw [hrep.claim] at he
    split at he
    · cases he
    · next hg =>
        have hne : g.toNat ≠ 0 := fun heq => hg (UInt32.toNat_inj.mp heq)
        exact ⟨by omega, he⟩
  · obtain ⟨k, hk⟩ := List.getElem?_of_mem he
    obtain ⟨hlt, -⟩ := List.getElem?_eq_some_iff.mp hk
    have hlen := hrep.length
    exact ⟨UInt32.ofNat (k + 1), by rw [hrep.claim_succ (by omega), hk]⟩

end Chains

section Results

variable [Sha256]

/-- **Claim chains.**  In every reachable state, whatever faults have happened, the claims of each job are
generations 1 to some `n` without a gap, nothing else is stored in the plane of claims, and no later step of the run
changes or deletes any of them. -/
theorem claims_are_chains (S : Site) (w : World) (hw : Fresh S w)
    (cfg : Config World Op Res Call (Except Error Output)) (hrun : Reachable S False w cfg) :
    OnlyClaims S cfg.world.objects ∧ (∀ shard jobId, ∃ n, IsChain S cfg.world.objects shard jobId n) ∧
      ∀ cfg', machine.Run (profile S False) cfg cfg' → ∀ shard jobId g stored,
        cfg.world.objects.get? (S.absolute (.claim shard jobId g)) = some stored →
          cfg'.world.objects.get? (S.absolute (.claim shard jobId g)) = some stored := by
  have hkept := (hrun.inv hw).kept
  refine ⟨hkept.onlyClaims, fun shard jobId => hkept.isChain, fun cfg' hrun' shard jobId g stored => ?_⟩
  exact hrun.extends hw hrun' _ stored _ (plane_absolute S _) (by simp [planeOf, custodyPlanes])

/-- **Exclusive leases.**  In store time a takeover starts after every earlier claim of its
job has run out, so claims in force at one instant carry one token. -/
theorem leases_exclusive (S : Site) (w : World) (hw : Fresh S w)
    (cfg : Config World Op Res Call (Except Error Output)) (hrun : Reachable S True w cfg)
    (shard : UInt16) (jobId : ByteArr 16)
    (hrange : ∀ g e, claimAt S cfg.world.objects shard jobId g = some e → e.InRange) :
    (∀ g h e f, g < h → claimAt S cfg.world.objects shard jobId g = some e →
      claimAt S cfg.world.objects shard jobId h = some f → f.record.continuation = false →
        e.timeNs.toNat + e.record.leaseDurationNs.toNat ≤ f.timeNs.toNat) ∧
    ∀ now g h e f, claimAt S cfg.world.objects shard jobId g = some e →
      claimAt S cfg.world.objects shard jobId h = some f → now ∈ e.term.interval → now ∈ f.term.interval →
          e.record.workerToken = f.record.workerToken := by
  obtain ⟨c, htimed, hentry, hall⟩ := (hrun.inv hw).kept.entry shard jobId
  have hranged : ∀ e ∈ c.entries, e.InRange := fun e he => by
    obtain ⟨-, g, hg⟩ := hall e he
    exact hrange g e hg
  -- two claims in the order of their generations
  have hyields : ∀ {g h : UInt32} {e f : Entry}, g < h → claimAt S cfg.world.objects shard jobId g = some e →
      claimAt S cfg.world.objects shard jobId h = some f → e.term.Yields f.term := by
    intro g h e f hlt he hf
    obtain ⟨hg, he⟩ := hentry g e he
    obtain ⟨hh, hf⟩ := hentry h f hf
    have hnat := UInt32.lt_iff_toNat_lt.mp hlt
    exact c.yields_of_lt (htimed trivial) hranged (by omega) he hf
  refine ⟨fun g h e f hlt he hf hto => ?_, fun now g h e f he hf hnow hnow' => ?_⟩
  · exact (hyields hlt he hf).of_takeover (by simp [Entry.term, Entry.takeover, hto])
  · rcases lt_trichotomy g.toNat h.toNat with hlt | heq | hlt
    · exact ((hyields (UInt32.lt_iff_toNat_lt.mpr hlt) he hf).holder_eq hnow hnow').symm
    · rw [UInt32.toNat_inj.mp heq, hf] at he
      rw [Option.some.inj he]
    · exact (hyields (UInt32.lt_iff_toNat_lt.mpr hlt) hf he).holder_eq hnow' hnow

lemma Prompt.punctual {S : Site} {e : Event} {earlier : List Event} :
    ∀ (later : List Event), Prompt S (later ++ e :: earlier) → Punctual S e earlier
  | [], h => h.1
  | _ :: later, h => Prompt.punctual later h.2

/-- **No early delivery.**  A committed takeover of generation `g + 1` is not earlier than
the job's delay; its call had read the fail record of generation `g` before, and no read of
it had found a record that forbids this delivery. -/
theorem takeovers_not_early (S : Site) (w : World) (hw : Fresh S w)
    (cfg : Config World Op Res Call (Except Error Output)) (hrun : Reachable S True w cfg)
    (later earlier : List Event) (i : Nat) (r : Request) (answer : StoreResult r.Answer)
    (before after : Objects)
    (hlog : cfg.world.log = later ++ .did i r answer before after :: earlier)
    (shard : UInt16) (jobId : ByteArr 16) (g : UInt32) (entry : Entry)
    (habsent : claimAt S before shard jobId (g + 1) = none)
    (hcommitted : claimAt S after shard jobId (g + 1) = some entry)
    (htakeover : entry.record.continuation = false) :
    (∃ job, jobAt S cfg.world.objects shard jobId = some job ∧
      ∀ notBeforeNs ∈ job.notBeforeNs, notBeforeNs ≤ entry.timeNs) ∧
    (g ≠ 0 → (∃ e ∈ earlier, Probes S i shard jobId g e) ∧ ∀ answer' before' after',
        .did i (.get (S.absolute (.fail shard jobId g))) answer' before' after' ∈ earlier →
          ∀ f, failAt S before' shard jobId g = some f → f.retryNotBeforeNs ≤ entry.timeNs) := by
  have hinv := hrun.inv hw
  refine ⟨?_, ?_⟩
  · have hmem : .did i r answer before after ∈ cfg.world.log := by
      rw [hlog]
      exact List.mem_append_right _ List.mem_cons_self
    have hstored := (hinv.past i r answer before after hmem).2.claimAt hcommitted
    obtain ⟨c, -, hentry, hall⟩ := hinv.kept.entry shard jobId
    obtain ⟨-, hget⟩ := hentry _ entry hstored
    obtain ⟨⟨job, hjob, -, hdelay⟩, -⟩ := hall entry (List.mem_of_getElem? hget)
    refine ⟨job, hjob, fun notBeforeNs hnb => ?_⟩
    have hle := hdelay trivial htakeover
    rw [Option.mem_def.mp hnb] at hle
    exact hle
  · have hprompt := hinv.prompt trivial
    rw [hlog] at hprompt
    exact Prompt.punctual later hprompt i r answer before after rfl shard jobId g entry habsent
      hcommitted htakeover

end Results

end Custody

/-! ## The small job, delivered twice

Claim scans of the small queue: the first delivery of its job, and the takeover of the expired claim.
-/

namespace Scenario

open Data StowQ.Core Store Format Concurrent Interleaving
open Budgeted (Evals)

section Deliveries

variable [Sha256] {n : Nat}

/-- The record a takeover of `tail` writes. -/
def grantBody (opts : ClaimOptions) (tail : Tail) (token : ByteArr 16) : Bytes :=
  demo.encodeAt (.claim 0 jobZero (tail.generation + 1).toUInt32)
    (.claim (demo.takeoverRecord jobZero opts tail token))

lemma decode_grantBody (opts : ClaimOptions) (tail : Tail) (token : ByteArr 16) :
    demo.decodeAt (.claim 0 jobZero (tail.generation + 1).toUInt32) (grantBody opts tail token) =
      .ok (.claim (demo.takeoverRecord jobZero opts tail token)) :=
  decode_encode (.claim _) (demo.takeoverRecord_wellFormed _ _ _ _) _ _

/-- The handle of a takeover at store time `t`. -/
def granted (opts : ClaimOptions) (tail : Tail) (token : ByteArr 16) (payload : PayloadRef)
    (t : UInt64) : Claim where
  jobId := jobZero
  shard := 0
  generation := tail.generation + 1
  attempt := tail.attempt + 1
  workerToken := token
  leaseDurationNs := opts.leaseDurationNs
  claimStoreTimeNs := t
  payload := payload

/-- No claim yet. -/
def noTail : Tail := ⟨0, emptyMeta, 0, 0⟩

/-- The store after the enqueue. -/
def enqueued (attempts : UInt64) (v : Version) : Objects :=
  OrderedMap.empty.insert jobKey ⟨jobBody attempts, v, 0⟩

/-- The store after the first delivery, for a lease of one. -/
def delivered (attempts : UInt64) (token : ByteArr 16) (v v1 v2 : Version) : Objects :=
  ((enqueued attempts v).insert (claimKey 1) ⟨grantBody ⟨0, 0, 1⟩ noTail token, v1, 0⟩).insert
    (leaseKey 1 1) ⟨[], v2, 0⟩

/-- The tail that the first delivery leaves. -/
def firstTail (token : ByteArr 16) (v : Version) : Tail :=
  ⟨1, Stored.info ⟨grantBody ⟨0, 0, 1⟩ noTail token, v, 0⟩, 1, 1⟩

/-- The store after the second delivery, by a takeover at time one. -/
def redelivered (attempts : UInt64) (token token' : ByteArr 16) (v v1 v2 v3 v4 : Version) : Objects :=
  ((delivered attempts token v v1 v2).insert (claimKey 2)
    ⟨grantBody ⟨0, 1, 1⟩ (firstTail token v1) token', v3, 1⟩).insert (leaseKey 2 2) ⟨[], v4, 1⟩

/-- The run of a scan whose claim is evaluated. -/
lemma run_claiming {σ : Type} {h : Handler Op Res σ} {floorNs leaseNs : UInt64} {claim : Claim} {s s' : σ}
    {b : Nat} (heval : Evals h (demo.claim ⟨0, floorNs, leaseNs⟩) 20 s (.ok (.claimed claim)) b s') :
    (claiming floorNs leaseNs).prog.run h s = (.ok (.claim (.claimed claim)), s') :=
  run_call (heval.bind (Evals.pure _))

set_option maxRecDepth 8000 in
/-- A first delivery, from a store that holds nothing but the record of the job. -/
lemma run_taking {stored : Stored} {job : JobRecord} (hdec : demo.decodeAt (.job 0 jobZero) stored.body = .ok (.job job))
    (hdue : job.notBeforeNs = none) (hpayload : demo.payloadRef job = some (.inline []))
    (hattempts : ¬ job.maximumAttempts < 0 + 1) :
    (claiming 0 1).prog.run (staged faultless) ⟨OrderedMap.empty.insert jobKey stored, 0, fun _ => {}, n⟩ =
      (.ok (.claim (.claimed (granted ⟨0, 0, 1⟩ noTail (tokenAt (n + 5)) (.inline []) 0))),
        ⟨((OrderedMap.empty.insert jobKey stored).insert (claimKey 1)
            ⟨grantBody ⟨0, 0, 1⟩ noTail (tokenAt (n + 5)), versionAt (n + 5), 0⟩).insert
          (leaseKey 1 1) ⟨[], versionAt (n + 7), 0⟩, 0, fun _ => {}, n + 8⟩) := by
  have hdue : ¬ (0 : UInt64) < job.notBeforeNs.getD 0 := by
    rw [hdue]
    decide
  refine run_claiming (b := 10) ?_
  refine evals_claim_one jobKey (demo.parseRel_absolute _) rfl (serves_list rfl rfl) ?_
  refine evals_tryClaim rfl (serves_head_absent rfl rfl) (serves_head_absent rfl rfl)
    (evals_listTail_nil (serves_list rfl rfl)) evals_tailOf_nil ?_
  refine evals_claimPass_takeover (evals_backoffPassed_first rfl) rfl (evals_readJob (serves_get rfl rfl) hdec) hdue
    hattempts (by decide) rfl (serves_put rfl rfl) ?_
  exact evals_takeoverHandle (Stored.info ⟨_, _, 0⟩) rfl hpayload (bucket_demo _) (serves_head rfl rfl)
    (serves_put rfl rfl)

set_option maxRecDepth 8000 in
/-- The second delivery, when the lease of the first has run out. -/
lemma run_second {token : ByteArr 16} {v v1 v2 : Version} (hattempts : ¬ attempts < 1 + 1) :
    (claiming 1 1).prog.run (staged faultless) ⟨delivered attempts token v v1 v2, 1, fun _ => {}, n⟩ =
      (.ok (.claim (.claimed (granted ⟨0, 1, 1⟩ (firstTail token v1) (tokenAt (n + 7)) (.inline []) 1))),
        ⟨redelivered attempts token (tokenAt (n + 7)) v v1 v2 (versionAt (n + 7)) (versionAt (n + 9)), 1,
          fun _ => {}, n + 10⟩) := by
  refine run_claiming (b := 8) ?_
  refine evals_claim_one jobKey (demo.parseRel_absolute _) rfl (serves_list rfl rfl) ?_
  refine evals_tryClaim rfl (serves_head_absent rfl rfl) (serves_head_absent rfl rfl)
    (evals_listTail_one (parseGeneration_claim _ _ _ _) (serves_list rfl rfl))
    (evals_tailOf_some (show (1 : UInt64) ≠ 0 by decide) (serves_get rfl rfl) (decode_grantBody _ _ _)) ?_
  change Evals _ (demo.claimPass 0 jobZero _ none none (firstTail token v1)) _ _ _ _ _
  refine evals_claimPass_takeover (evals_backoffPassed_absent (show (1 : UInt64) ≠ 0 by decide) (serves_get_absent rfl rfl)) rfl
    (evals_readJob (serves_get rfl rfl) (decode_jobBody attempts)) (show ¬ (1 : UInt64) < 0 by decide) hattempts
    (show ¬ _ ≤ (1 : UInt64) by decide) rfl
    (show Serves _ _ (.putIfAbsent (claimKey 2) _ _) _ _ from serves_put rfl rfl) ?_
  exact evals_takeoverHandle (Stored.info ⟨_, _, 1⟩) rfl rfl (bucket_demo _)
    (show Serves _ _ (.head (claimKey 2)) _ _ from serves_head rfl rfl)
    (show Serves _ _ (.putIfAbsent (leaseKey 2 2) _ _) _ _ from serves_put rfl rfl)

/-! ### From the empty store to the second delivery -/

/-- The handle of the first delivery. -/
def firstClaim : Claim := granted ⟨0, 0, 1⟩ noTail (tokenAt 8) (.inline []) 0

/-- The handle of the second delivery. -/
def secondClaim (v : Version) : Claim :=
  granted ⟨0, 1, 1⟩ (firstTail (tokenAt 8) v) (tokenAt 19) (.inline []) 1

/-- Call 0 enqueues the job and call 1 is given its first delivery. -/
def once (attempts : UInt64) : Calls :=
  play faultless 1 (claiming 0 1) (play faultless 0 (enqueue attempts) (Machine.initial (blank 0)))

/-- When the lease of the first delivery has run out, call 2 is given the second. -/
def twice : Calls := play faultless 2 (claiming 1 1) (tick 1 (once 2))

lemma once_at (hattempts : ¬ attempts < 1) : stage (once attempts) =
        ⟨delivered attempts (tokenAt 8) (versionAt 1) (versionAt 8) (versionAt 10), 0, fun _ => {}, 11⟩ ∧
      (once attempts).Returned 1 (claiming 0 1) (.ok (.claim (.claimed firstClaim))) := by
  have hpos : attempts ≠ 0 := by
    rintro rfl
    exact hattempts (by decide)
  exact play_at (play_at rfl (run_enqueue hpos rfl)).1 (run_taking (decode_jobBody attempts) rfl rfl hattempts)

lemma once_free (hi : 2 ≤ i) : (once attempts).threads i = none :=
  (play_threads (by omega)).trans (play_threads (by omega))

lemma twice_at :
    stage twice = ⟨redelivered 2 (tokenAt 8) (tokenAt 19) (versionAt 1) (versionAt 8) (versionAt 10) (versionAt 19)
        (versionAt 21), 1, fun _ => {}, 22⟩ ∧
      twice.Returned 2 (claiming 1 1) (.ok (.claim (.claimed (secondClaim (versionAt 8))))) :=
  play_at (tick_at (once_at (by decide)).1) (run_second (by decide))

lemma twice_first : twice.Returned 1 (claiming 0 1) (.ok (.claim (.claimed firstClaim))) :=
  (play_threads (by decide)).trans (once_at (by decide)).2

/-- Call `i` may run plainly once a floor has been reached, as long as it deletes nothing. -/
structure Playable (P : Terms) (i : Nat) (call : Call) (floorNs : UInt64) : Prop where
  start : ∀ cfg, P.start cfg i call
  step : ∀ o w, (∀ key, o ≠ .store (.delete key)) → floorNs ≤ w.clock → P.step w i call o (plain faultless w)

lemma Playable.run {cfg : Calls} {call : Call} {floorNs : UInt64} (hplay : Playable P i call floorNs)
    (hkeeps : call.prog.Emits fun o => ∀ key, o ≠ .store (.delete key)) (hfree : cfg.threads i = none)
    (hfloor : floorNs ≤ (stage cfg).clock) : machine.Run P cfg (play faultless i call cfg) := by
  refine (run_play (J := fun w => floorNs ≤ w.clock) ⟨fun o w ho hle => ⟨_, hplay.step o w ho hle, rfl⟩, ?_⟩ hkeeps
    (hplay.start cfg) hfree hfloor).1
  intro o w _ hle
  cases o with
  | store r => exact UInt64.le_trans hle (le_clock_right w.clock w.clock)
  | _ => exact hle

lemma enqueue_keeps (attempts : UInt64) :
    (enqueue attempts).prog.Emits fun o => ∀ key, o ≠ .store (.delete key) := by
  have htame : Tame fun o => ∀ key, o ≠ .store (.delete key) := by
    constructor <;> intros <;> nofun
  have htask : Budgeted.Emits (fun o => ∀ key, o ≠ .store (.delete key))
      ((enqueue attempts).action.task demo) :=
    (Footprint.enqueue htame (fun _ => nofun) (fun _ => nofun) (fun _ => nofun)
      fun _ _ _ => nofun).bind fun _ => Budgeted.Keeps.pure _
  exact (htask.prog _).map

lemma claiming_keeps (floorNs leaseNs : UInt64) :
    (claiming floorNs leaseNs).prog.Emits fun o => ∀ key, o ≠ .store (.delete key) := by
  have hscan : ∀ s j, Footprint.Probing (fun o => ∀ key, o ≠ .store (.delete key)) demo s j := by
    refine fun _ _ => ⟨⟨?_, fun _ => nofun⟩, fun _ _ _ => nofun, fun _ _ => nofun⟩
    constructor <;> intros <;> nofun
  have htask : Budgeted.Emits (fun o => ∀ key, o ≠ .store (.delete key))
      ((claiming floorNs leaseNs).action.task demo) :=
    (Footprint.claim hscan fun _ _ _ _ => nofun).bind fun _ => Budgeted.Keeps.pure _
  exact (htask.prog _).map

lemma run_once (h0 : Playable P 0 (enqueue attempts) 0) (h1 : Playable P 1 (claiming 0 1) 0) :
    machine.Run P (Machine.initial (blank 0)) (once attempts) :=
  (h0.run (enqueue_keeps _) rfl UInt64.zero_le).trans
    (h1.run (claiming_keeps 0 1) (play_threads (by decide)) UInt64.zero_le)

lemma run_twice (h0 : Playable P 0 (enqueue 2) 0) (h1 : Playable P 1 (claiming 0 1) 0)
    (h2 : Playable P 2 (claiming 1 1) 1) (htick : ∀ w, P.env w (.tick 1)) :
    machine.Run P (Machine.initial (blank 0)) twice := by
  have hclock : 1 ≤ (stage (tick 1 (once 2))).clock := by
    rw [tick_at (once_at (by decide)).1]
    exact UInt64.le_refl 1
  exact ((run_once h0 h1).trans (run_tick (htick _))).trans (h2.run (claiming_keeps 1 1) (once_free (le_refl 2)) hclock)

end Deliveries

end Scenario

namespace Custody

open Data StowQ.Core Store Format Concurrent Interleaving Scenario

section Twice

variable [Sha256]

/-- Call 1 is given the first delivery, and call 2 takes over when its lease has run out. -/
structure Twice (timed : Prop) (cfg : Calls) : Prop where
  run : Reachable demo.site timed (blank 0) cfg
  first : cfg.Returned 1 (claiming 0 1) (.ok (.claim (.claimed firstClaim)))
  second : ∃ c, cfg.Returned 2 (claiming 1 1) (.ok (.claim (.claimed c)))
  objects : ∃ v v1 v2 v3 v4, cfg.world.objects = redelivered 2 (tokenAt 8) (tokenAt 19) v v1 v2 v3 v4

lemma twice_reached (timed : Prop) : Twice timed twice := by
  have hplay : ∀ (i : Nat) (call : Call) (floorNs : UInt64), call.queue = demo →
      (∀ a b c, call.action ≠ .gc a b c) → call.action.handle = none →
      (∀ f ∈ claimFloor call, f = floorNs) → Playable (profile demo.site timed) i call floorNs := by
    intro i call floorNs hqueue hgc hhandle hfloor
    refine ⟨fun _ => ⟨congrArg Queue.site hqueue, hgc, by simp [hhandle]⟩, fun o w _ hle _ => ?_⟩
    exact ⟨UInt64.le_refl _, fun f hf => hfloor f hf ▸ hle⟩
  have hno : ∀ f ∈ claimFloor (enqueue 2), f = (0 : UInt64) := nofun
  have hat : ∀ floorNs, ∀ f ∈ claimFloor (claiming floorNs 1), f = floorNs := fun _ f hf =>
    (Option.some.inj hf).symm
  have hrun := run_twice
    (hplay 0 (enqueue 2) 0 rfl nofun rfl hno)
    (hplay 1 (claiming 0 1) 0 rfl nofun rfl (hat 0))
    (hplay 2 (claiming 1 1) 1 rfl nofun rfl (hat 1)) fun _ => trivial
  exact ⟨hrun, twice_first, ⟨_, twice_at.2⟩, _, _, _, _, _, congrArg Stage.objects twice_at.1⟩

omit [Sha256] in
lemma fresh_blank : Fresh demo.site (blank 0) := ⟨rfl, fun _ _ => rfl⟩

/-- The event creates the second claim, as a takeover. -/
def takesOver : Event → Bool
  | .did _ _ _ before after => (claimAt demo.site before 0 jobZero 2).isNone &&
      (claimAt demo.site after 0 jobZero 2).any fun e => !e.record.continuation
  | _ => false

end Twice

theorem leases_exclusive_twice : ∃ (_ : Sha256) (cfg : Calls), Twice True cfg ∧
    (∀ g h e f, g < h → claimAt demo.site cfg.world.objects 0 jobZero g = some e →
      claimAt demo.site cfg.world.objects 0 jobZero h = some f → f.record.continuation = false →
        e.timeNs.toNat + e.record.leaseDurationNs.toNat ≤ f.timeNs.toNat) ∧
    ∀ now g h e f, claimAt demo.site cfg.world.objects 0 jobZero g = some e →
      claimAt demo.site cfg.world.objects 0 jobZero h = some f → now ∈ e.term.interval → now ∈ f.term.interval →
          e.record.workerToken = f.record.workerToken := by
  let hash := Sha256.zero
  have htwice := twice_reached True
  refine ⟨hash, twice, htwice, leases_exclusive demo.site (blank 0) fresh_blank twice htwice.run 0 jobZero
    fun g e he => ?_⟩
  have hcheck : ([1, 2].all fun g => (claimAt demo.site twice.world.objects 0 jobZero g).all fun e =>
      (e.timeNs.toNat + e.record.leaseDurationNs.toNat).ble 2) = true := by decide +kernel
  suffices hg : g ∈ [1, 2] by
    have hall := List.all_eq_true.mp hcheck g hg
    rw [he] at hall
    exact Nat.lt_of_le_of_lt (Nat.le_of_ble_eq_true hall) (show 2 < 2 ^ 64 by decide)
  by_contra hother
  obtain ⟨stored, hget, -⟩ := get?_of_claimAt he
  rw [show twice.world.objects = _ from congrArg Stage.objects twice_at.1,
    show demo.site.absolute (.claim 0 jobZero g) = claimKey g from rfl] at hget
  simp only [List.mem_cons, List.not_mem_nil, or_false, not_or] at hother
  simp [redelivered, delivered, enqueued, OrderedMap.get?_insert, hother] at hget

/-! The job with a delay, given up once. -/

section Nacked

/-- The enqueue of the job for time one at the earliest. -/
def postponed : Call := ⟨demo, .enqueue { demoInput 2 with notBeforeNs := some 1 }, 9⟩

/-- The handle of its first delivery, at time one. -/
def early : Claim := granted ⟨0, 1, 1⟩ noTail (tokenAt 9) (.inline []) 1

/-- The worker gives the claim up, with a fail record that delays the next delivery by a millisecond. -/
def givingUp : Call := ⟨demo, .nack early 7 1, 9⟩

variable [Sha256]

/-- Call 0 enqueues the job, call 1 is given it at time one, and call 2 gives it up. -/
def nacked : Calls :=
  play faultless 2 givingUp (play faultless 1 (claiming 1 1) (tick 1 (play faultless 0 postponed (Machine.initial (blank 0)))))

/-- Call 3 finds nothing at time two, and call 4 takes over when the delay has passed. -/
def retried : Calls :=
  play faultless 4 (claiming 1000001 1) (tick 1000001 (play faultless 3 (claiming 2 1) (tick 2 nacked)))

/-- The floor of a claim has been reached. -/
def reached (call : Call) (_ : Op) (w : World) : Bool := (claimFloor call).all (· ≤ w.clock)

lemma step_of_reached {call : Call} {o : Op} {w : World} (h : reached call o w = true) :
    (profile demo.site True).step w i call o (plain faultless w) :=
  fun _ => ⟨UInt64.le_refl _, fun f hf => of_decide_eq_true ((Option.all_eq_true _ _).mp h f hf)⟩

end Nacked

theorem takeovers_not_early_twice : ∃ (_ : Sha256) (cfg : Calls) (earlier : List Event) (i : Nat) (entry : Entry),
    Reachable demo.site True (blank 0) cfg ∧ cfg.Returned 2 givingUp (.ok .nack) ∧
    cfg.Returned 3 (claiming 2 1) (.ok (.claim .empty)) ∧
    claimAt demo.site cfg.world.objects 0 jobZero 2 = some entry ∧
    (∃ job, jobAt demo.site cfg.world.objects 0 jobZero = some job ∧
      ∀ notBeforeNs ∈ job.notBeforeNs, notBeforeNs ≤ entry.timeNs) ∧
    ((1 : UInt32) ≠ 0 → (∃ e ∈ earlier, Probes demo.site i 0 jobZero 1 e) ∧ ∀ answer' before' after',
        .did i (.get (demo.site.absolute (.fail 0 jobZero 1))) answer' before' after' ∈ earlier →
          ∀ f, failAt demo.site before' 0 jobZero 1 = some f → f.retryNotBeforeNs ≤ entry.timeNs) := by
  let hash := Sha256.zero
  let P := profile demo.site True
  let cfg0 := play faultless 0 postponed (Machine.initial (blank 0))
  let cfg1 := play faultless 1 (claiming 1 1) (tick 1 cfg0)
  let cfg3 := play faultless 3 (claiming 2 1) (tick 2 nacked)
  -- what the calls return is computed; that their floors were reached is checked on the way
  have hret1 : cfg1.Returned 1 _ (.ok (.claim (.claimed early))) := play_returned (by decide +kernel)
  have hret2 : nacked.Returned 2 givingUp (.ok .nack) := play_returned (by decide +kernel)
  have hret3 : cfg3.Returned 3 _ (.ok (.claim .empty)) := play_returned (by decide +kernel)
  have hfree : ∀ i, 2 < i → nacked.threads i = none := fun i hi =>
    (play_threads (by omega)).trans ((play_threads (by omega)).trans (play_threads (by omega)))
  have hplay : ∀ {cfg i call}, P.start cfg i call → cfg.threads i = none →
      (call.prog.run (guarded (plainly faultless i) (reached call)) (cfg.world.record (.started i call), true)).2.2 = true →
      machine.Run P cfg (play faultless i call cfg) :=
    fun hadm hfree hmet => run_checked _ (fun _ _ => step_of_reached) hadm hfree hmet
  have hclaiming : ∀ {cfg i floorNs}, P.start cfg i (claiming floorNs 1) :=
    ⟨rfl, nofun, nofun⟩
  have hrun0 : machine.Run P (Machine.initial (blank 0)) cfg0 :=
    hplay ⟨rfl, nofun, nofun⟩ rfl (by decide +kernel)
  have hrun1 : machine.Run P cfg0 cfg1 := (run_tick trivial).trans <|
    hplay hclaiming (play_threads (by decide)) (by decide +kernel)
  have hrun2 : machine.Run P cfg1 nacked := by
    refine hplay ⟨rfl, nofun, fun handle h => ?_⟩
      ((play_threads (by decide)).trans (play_threads (by decide))) (by decide +kernel)
    cases h
    exact ⟨1, _, _, hret1, List.mem_singleton_self early⟩
  have hrun3 : machine.Run P nacked cfg3 := (run_tick trivial).trans <|
    hplay hclaiming (hfree 3 (by decide)) (by decide +kernel)
  have hrun4 : machine.Run P cfg3 retried := (run_tick trivial).trans <|
    hplay hclaiming ((play_threads (by decide)).trans (hfree 4 (by decide))) (by decide +kernel)
  have hrun : Reachable demo.site True (blank 0) retried := (((hrun0.trans hrun1).trans hrun2).trans hrun3).trans hrun4
  have htakeover : retried.world.log.any takesOver = true := by decide +kernel
  -- the event of the takeover, found in the log of the run
  obtain ⟨e, hmem, he⟩ := List.any_eq_true.mp htakeover
  cases e with
  | started i call => cases he
  | returned i out => cases he
  | did i r answer before after =>
    obtain ⟨habsent, hcommitted⟩ := Bool.and_eq_true_iff.mp he
    obtain ⟨entry, hentry, hfirst⟩ := (Option.any_eq_true _ _).mp hcommitted
    obtain ⟨later, earlier, hlog⟩ := List.append_of_mem hmem
    have hstored := ((hrun.inv fresh_blank).past i r answer before after hmem).2.claimAt hentry
    exact ⟨hash, retried, earlier, i, entry, hrun, (play_threads (by decide)).trans ((play_threads (by decide)).trans hret2),
      (play_threads (by decide)).trans hret3, hstored, takeovers_not_early demo.site (blank 0) fresh_blank
      retried hrun later earlier i r answer before after hlog 0 jobZero 1 entry
      (Option.isNone_iff_eq_none.mp habsent) hentry (Bool.not_eq_true' _ |>.mp hfirst)⟩

theorem claims_are_chains_twice : ∃ (_ : Sha256) (cfg : Calls), Twice False cfg ∧
    OnlyClaims demo.site cfg.world.objects ∧
      (∀ shard jobId, ∃ n, IsChain demo.site cfg.world.objects shard jobId n) ∧
      ∀ cfg', machine.Run (profile demo.site False) cfg cfg' → ∀ shard jobId g stored,
        cfg.world.objects.get? (demo.site.absolute (.claim shard jobId g)) = some stored →
          cfg'.world.objects.get? (demo.site.absolute (.claim shard jobId g)) = some stored := by
  let hash := Sha256.zero
  have htwice := twice_reached False
  exact ⟨hash, twice, htwice, claims_are_chains demo.site (blank 0) fresh_blank twice htwice.run⟩

end Custody
end StowQ
