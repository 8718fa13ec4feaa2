import StowQ.Gc.Live
import StowQ.Gc.Tombstone
import StowQ.Intake

/-!
# Collections and detached payloads

An enqueue puts a large payload in place before the job record that refers to it, and a collection deletes
payloads whose job record it has found absent.  The payload is there when the enqueue has committed, and
outlives every collection, if its write meets no foreign bytes at the key and if from that write until the
record is created no collection is deciding about the job, of which no terminal record is left:
`payload_delivered`.

Nothing in the code makes it so.  A collection finds an old payload without a job record; the enqueue takes the
payload for its own and creates the record; and the collection deletes the payload, whose store time has not
changed: `payload_lost`.
-/

namespace StowQ
namespace Gc

open Data StowQ.Core Store Format Concurrent Interleaving Keys

variable {body : Bytes} {call : Call} {sha256 : Digest} {shard : UInt16} {jobId : ByteArr 16} {w : World}
  {cfg : Calls}

section Placing

variable [Sha256]

/-- Call 0 enqueues a payload that is not inlined, call 1 collects, on handles of one queue. -/
def placing (S : Site) (F : FormatRecord) (admits : World → Op → Choice → Prop) : Terms where
  start _ i call := call.queue.site = S ∧ call.queue.format = F ∧
    ((i = 0 ∧ ∃ input, call.action = .enqueue input ∧ call.queue.inlines input.payload = false) ∨
      (i = 1 ∧ Gc.Collects call))
  step w _ _ o c := admits w o c
  env _ e := ∃ clock, e = .tick clock

/-- The payload a job record refers to is stored. -/
def Stocked (S : Site) (objs : Objects) (record : JobRecord) : Prop :=
  ∃ rel stored, record.payloadKey = some rel ∧ objs.get? (S.root ++ rel) = some stored ∧
    Sha256.digest stored.body = record.payloadDigest

/-- Whenever the enqueue creates the job record, and both calls have ended with no terminal
record of the job, the payload of the record is stored. -/
def Delivers (S : Site) (P : Terms) (shard : UInt16) (jobId : ByteArr 16) : Prop :=
  ∀ (w : World) (created final : Calls), w.log = [] →
    machine.Run P (Machine.initial w) created → machine.Run P created final →
    (∃ e earlier, created.world.log = e :: earlier ∧ Fills (S.absolute (.job shard jobId)) e) →
    (∀ i t, final.threads i = some t → ∃ out, t.prog = .ret out) →
    (∀ kind, final.world.objects.get? (S.absolute (Queue.terminalRel kind shard jobId)) = none) →
    ∃ record, recordAt S created.world.objects (.job shard jobId) = some (.job record) ∧
      Stocked S final.world.objects record

/-- The record of a job and one of its payloads, as long as no terminal record of the job is
written under any shard. -/
def payloadWatch (S : Site) (F : FormatRecord) (jobId : ByteArr 16) (digest : Digest) :
    Watch S where
  shard := Keys.computeShard S.queueId jobId F.shardCount
  jobId := jobId
  Ends key := ∃ kind s, key = S.absolute (Queue.terminalRel kind s jobId)
  Held key := key = S.absolute (.job (Keys.computeShard S.queueId jobId F.shardCount) jobId) ∨
    key = S.absolute (.payload jobId digest)
  Uses q := q.format = F
  held_job := .inl rfl
  held_plane := by
    rintro key (rfl | rfl)
    · exact ⟨jobsSeg, by simp, plane_absolute _ _⟩
    · exact ⟨payloadsSeg, by simp, plane_absolute _ _⟩
  ends_job := by
    rintro ⟨kind, s, heq⟩
    rw [Site.absolute_inj] at heq
    cases kind <;> cases heq
  ends_graph := by
    rintro kind s j key hkey (rfl | rfl)
    · rcases hkey with hkey | heq
      · exact absurd rfl (ne_absolute_of_aside hkey.plane (job_not_aside _ _))
      · rw [Site.absolute_inj] at heq
        cases heq
        exact ⟨kind, _, rfl⟩
    · rcases hkey with hkey | heq
      · have hplane : S.plane (S.absolute (.payload jobId digest)) = some payloadsSeg := plane_absolute _ _
        obtain rfl := payload_of_payloadsDir (hkey.inOwnDir.2 hplane)
        exact ⟨kind, s, rfl⟩
      · rw [Site.absolute_inj] at heq
        cases heq
  orphan := by
    rintro q s j key rfl rfl hkey (rfl | rfl)
    · exact absurd rfl (ne_absolute_of_aside hkey.plane (job_not_aside _ _))
    · cases hkey with
      | payload digest' hshard h =>
        rw [Site.absolute_inj] at h
        cases h
        exact ⟨hshard, rfl⟩
      | claim g h =>
        rw [Site.absolute_inj] at h
        cases h

/-- The write of a payload of the job. -/
def PutsPayload (S : Site) (jobId : ByteArr 16) (e : Event) : Prop :=
  ∃ i digest body sha256 answer before after,
    e = .did i (.putIfAbsent (S.absolute (.payload jobId digest)) body sha256) answer before after

/-- What the two writes of an enqueue need of the world.  Nothing is asked about the payload when the job record is
created: that it is there follows from the write of the payload and from what collections do in between. -/
structure Prepared (S : Site) (F : FormatRecord) (w : World) (o : Op) : Prop where
  /-- An object that the write of a payload finds has the digest that its key names. -/
  found : ∀ jobId digest body sha256, o = .store (.putIfAbsent (S.absolute (.payload jobId digest)) body sha256) →
    ∀ stored, w.objects.get? (S.absolute (.payload jobId digest)) = some stored → Sha256.digest stored.body = digest
  /-- When the job record is created, no terminal record of the job is left, and no running collection has looked
  at the job. -/
  clear : ∀ jobId digest, (payloadWatch S F jobId digest).Clear w o
  /-- At no moment from the write of the payload on has there been such a collection. -/
  quiet : ∀ shard jobId body sha256, o = .store (.putIfAbsent (S.absolute (.job shard jobId)) body sha256) →
    ∀ e earlier moment, PutsPayload S jobId e → e :: earlier <:+ w.log → earlier <:+ moment → moment <:+ w.log →
      ∀ digest i call, .started i call ∈ moment → Gc.Collects call →
        ¬ (payloadWatch S F jobId digest).Deciding i moment

/-! ## The requests of an enqueue -/

/-- What an enqueue creates: the payload, the job record, an index entry. -/
def Creates (call : Call) (o : Op) : Prop :=
  ∀ key body sha256, o = .store (.putIfAbsent key body sha256) → ∃ input, call.action = .enqueue input ∧
      ((∃ j, key = call.queue.absolute (.payload j (Sha256.digest input.payload))) ∨
        (∃ j, key = call.queue.absolute (.job (call.queue.shardOf j) j) ∧
          body = call.queue.encodeAt (.job (call.queue.shardOf j) j)
            (.job (call.queue.jobRecord input j))) ∨
        ∃ b s j, key = call.queue.absolute (.delayIndex b s j))

lemma tame_creates (call : Call) : Tame (Creates call) := by
  constructor <;> intros <;> intro key body sha256 heq <;> cases heq

lemma placing_emits {S : Site} {F : FormatRecord} {admits : World → Op → Choice → Prop}
    (cfg : Calls) (i : Nat) (call : Call) (h : (placing S F admits).start cfg i call) :
    call.prog.Emits (Creates call) := by
  obtain ⟨q, action, budget⟩ := call
  obtain ⟨-, -, ⟨-, input, rfl, -⟩ | ⟨-, nowNs, retentionNs, orphanHorizonNs, rfl⟩⟩ := h
  · have htask : Budgeted.Emits (Creates ⟨q, .enqueue input, budget⟩) (q.enqueue input) := by
      apply Footprint.enqueue (tame_creates _)
      · rintro j key body sha256 heq
        cases heq
        exact ⟨input, rfl, .inl ⟨j, rfl⟩⟩
      · rintro j key body sha256 heq
        cases heq
        exact ⟨input, rfl, .inr (.inl ⟨j, rfl, rfl⟩)⟩
      · rintro j key body sha256 heq
        cases heq
      · rintro b s j key body sha256 heq
        cases heq
        exact ⟨input, rfl, .inr (.inr ⟨b, s, j, rfl⟩)⟩
    exact (Budgeted.Emits.prog (htask.bind fun _ => Budgeted.Keeps.pure _) budget).map
  · have htask : Budgeted.Emits (Creates ⟨q, .gc nowNs retentionNs orphanHorizonNs, budget⟩)
        (q.gc nowNs retentionNs orphanHorizonNs) := by
      apply Footprint.gc (tame_creates _)
      rintro key key' body sha256 heq
      cases heq
    exact (Budgeted.Emits.prog (htask.bind fun _ => Budgeted.Keeps.pure _) budget).map

lemma Creates.not_terminal {kind : TermKind} {s : UInt16} {j : ByteArr 16} : ¬ Creates call (.store (.putIfAbsent
      (call.queue.absolute (Queue.terminalRel kind s j)) body sha256)) := by
  intro h
  obtain ⟨input, -, ⟨j', heq⟩ | ⟨j', heq, -⟩ | ⟨b, s', j', heq⟩⟩ := h _ _ _ rfl
  all_goals
    rw [show call.queue.absolute = call.queue.site.absolute from rfl, Site.absolute_inj] at heq
    cases kind <;> cases heq

lemma Creates.job (h : Creates call (.store (.putIfAbsent
      (call.queue.absolute (.job shard jobId)) body sha256))) :
    shard = call.queue.shardOf jobId ∧ ∃ input, call.action = .enqueue input ∧
      body = call.queue.encodeAt (.job shard jobId) (.job (call.queue.jobRecord input jobId)) := by
  obtain ⟨input, haction, ⟨j, heq⟩ | ⟨j, heq, hbody⟩ | ⟨b, s, j, heq⟩⟩ := h _ _ _ rfl
  all_goals
    rw [show call.queue.absolute = call.queue.site.absolute from rfl, Site.absolute_inj] at heq
    cases heq
  exact ⟨rfl, input, haction, hbody⟩

/-! ## Runs -/

variable {S : Site} {F : FormatRecord} {admits : World → Op → Choice → Prop}

/-- No terminal record is written in such a run. -/
lemma no_terminal_filled (hw : w.log = []) (hrun : machine.Run (placing S F admits) (Machine.initial w) cfg)
    {e : Event} (he : e ∈ cfg.world.log) {kind : TermKind} {s : UInt16} {j : ByteArr 16} :
    ¬ Fills (S.absolute (Queue.terminalRel kind s j)) e := by
  intro hfills
  obtain ⟨i, call, w', c, body, answer, after, -, hissued, -⟩ :=
    Issued.of_fills (run_logged placing_emits hw hrun) he hfills
  obtain ⟨cfg', rfl, -⟩ := hissued.admitted
  exact Creates.not_terminal hissued.listed

/-! ### The payload when the record is created -/

lemma payload_put_first (hw : w.log = []) (hrun : machine.Run (placing S F admits) (Machine.initial w) cfg)
    {i : Nat} {input : EnqueueInput} {k : StoreResult PutOutcome → Prog Op Res (Except Error Output)}
    (hthread : cfg.threads i =
      some ⟨call, .op (.store (.putIfAbsent (call.queue.absolute (.job shard jobId)) body sha256)) k⟩)
    (haction : call.action = .enqueue input) (hdetached : call.queue.inlines input.payload = false) :
    ∃ answer before after, .did i (.putIfAbsent (call.queue.absolute (.payload jobId (Sha256.digest input.payload)))
      input.payload (Sha256.digest input.payload)) answer before after ∈ cfg.world.log := by
  have hasks := run_asks (fun _ _ call _ => Intake.holds_asks call) hw hrun hthread
  unfold Intake.asks at hasks
  rw [haction] at hasks
  rcases hasks shard jobId body sha256 rfl with hinline | ⟨⟨answer, hmem⟩, -⟩
  · rw [hdetached] at hinline
    cases hinline
  · obtain ⟨before, after, hdid⟩ := mem_own.mp hmem
    exact ⟨answer, before, after, hdid⟩

/-- A write without a fault leaves the payload, or what it found. -/
lemma payload_after_put {objs objs' : Objects} {stamp : Stamp} {key : Str} {answer : StoreResult PutOutcome}
    (hput : inject none objs stamp (.putIfAbsent key body (Sha256.digest body)) = (answer, objs'))
    (hfound : ∀ stored, objs.get? key = some stored → Sha256.digest stored.body = Sha256.digest body) :
    ∃ stored, objs'.get? key = some stored ∧ Sha256.digest stored.body = Sha256.digest body := by
  cases hget : objs.get? key with
  | none =>
    rw [put_absent hget] at hput
    cases hput
    exact ⟨_, OrderedMap.get?_insert_self _ _ _, rfl⟩
  | some stored =>
    rw [put_present hget] at hput
    cases hput
    exact ⟨stored, hget, hfound stored hget⟩

/-- The terms of the two calls when no fault is met and every write is prepared. -/
abbrev prepared (S : Site) (F : FormatRecord) : Terms :=
  placing S F fun w o c => c.fault = none ∧ Prepared S F w o

lemma prepared_governs (jobId : ByteArr 16) (digest : Digest) :
    (payloadWatch S F jobId digest).Governs (prepared S F) where
  start := by
    rintro cfg i call ⟨hsite, hformat, ⟨-, input, haction, -⟩ | ⟨-, hgc⟩⟩
    · exact ⟨hsite, hformat, .inr (.inl ⟨input, haction⟩)⟩
    · exact ⟨hsite, hformat, .inl hgc⟩
  step _ _ _ _ _ hstep := hstep.2.clear jobId digest
  env _ _ h := h

/-- **The payload is there when the record is created.**  The enqueue has put it, or found it with the right digest;
and a collection that deletes it has looked at the job before, which none has from that write on. -/
theorem stocked_at_creation (hw : w.log = []) (hrun : machine.Run (prepared S F) (Machine.initial w) cfg)
    {i : Nat} {input : EnqueueInput} {k : StoreResult PutOutcome → Prog Op Res (Except Error Output)}
    (hsite : call.queue.site = S) (hthread : cfg.threads i =
      some ⟨call, .op (.store (.putIfAbsent (call.queue.absolute (.job shard jobId)) body sha256)) k⟩)
    (haction : call.action = .enqueue input) (hdetached : call.queue.inlines input.payload = false)
    (hprepared : Prepared S F cfg.world
      (.store (.putIfAbsent (call.queue.absolute (.job shard jobId)) body sha256))) :
    ∃ stored, cfg.world.objects.get? (S.absolute (.payload jobId (Sha256.digest input.payload))) = some stored ∧
      Sha256.digest stored.body = Sha256.digest input.payload := by
  subst hsite
  obtain ⟨answer, before, after, hmem⟩ := payload_put_first hw hrun hthread haction hdetached
  obtain ⟨later, earlier, hlog⟩ := List.append_of_mem hmem
  obtain ⟨at_, call', k', c, hm⟩ := run_at hw hrun hlog
  -- just after its write
  obtain ⟨stored, hget, hdigest⟩ : ∃ stored,
      after.get? (call.queue.absolute (.payload jobId (Sha256.digest input.payload))) = some stored ∧
      Sha256.digest stored.body = Sha256.digest input.payload := by
    obtain ⟨hfault, hput⟩ := hm.step
    have hanswered := hm.answered
    rw [hfault] at hanswered
    refine payload_after_put hanswered fun stored hstored => hput.found _ _ _ _ rfl stored ?_
    rw [hm.objects]
    exact hstored
  -- and at every request from then on
  obtain ⟨hobjs, hchained⟩ := run_chained (fun _ _ h => h) hw hrun
  have hsound : (payloadWatch call.queue.site F jobId (Sha256.digest input.payload)).Sound cfg.world :=
    ((Watch.obligations (prepared_governs jobId (Sha256.digest input.payload))).run_good
      (Obligations.initial_good (.of_nil hw)) hrun).1
  refine ⟨stored, ?_, hdigest⟩
  rw [hobjs, hlog]
  refine replay_kept (hlog ▸ hchained) hget fun j r answer' before' after' hdid hbefore => ?_
  obtain ⟨c', hanswered⟩ := run_answered hw hrun (hlog ▸ List.mem_append_left _ hdid)
  have hpreserves : Preserves (call.queue.absolute (.payload jobId (Sha256.digest input.payload))) (.store r) := by
    by_contra hnot
    obtain ⟨later1, later2, rfl⟩ := List.append_of_mem hdid
    have hsplit : cfg.world.log = later1 ++ .did j r answer' before' after' :: (later2 ++ .did i _ answer before after ::
        earlier) := by rw [hlog, List.append_assoc, List.cons_append]
    have hjudged := hsound.2
    rw [hsplit] at hjudged
    obtain ⟨⟨call1, hstarted, hcollects⟩, hdeciding⟩ := hjudged.decided (.inr rfl) hnot
    refine hprepared.quiet shard jobId body sha256 rfl _ earlier _ ⟨i, _, _, _, answer, before, after, rfl⟩ ?_ ?_ ?_
      (Sha256.digest input.payload) j call1 hstarted hcollects hdeciding
    · rw [hlog]
      exact List.suffix_append _ _
    · exact (List.suffix_cons _ _).trans (List.suffix_append _ _)
    · rw [hsplit]
      exact (List.suffix_cons _ _).trans (List.suffix_append _ _)
  have hkept : (inject c'.fault before' c'.stamp r).2.get? _ = some stored := get?_of_preserves hpreserves hbefore
  rwa [hanswered] at hkept

/-- **A committed detached enqueue has its payload**, if its payload write does not find foreign bytes, and from that
write until the record is created no collection is deciding about the job, of which no terminal record is left. -/
theorem payload_delivered (S : Site) (F : FormatRecord) (shard : UInt16) (jobId : ByteArr 16) :
    Delivers S (placing S F fun w o c => c.fault = none ∧ Prepared S F w o) shard jobId := by
  rintro w created final hw hrun1 hrun2 ⟨e, earlier, hlog, hfills⟩ - -
  have hmem : e ∈ created.world.log := by
    rw [hlog]
    exact List.mem_cons_self
  obtain ⟨i, -, w', -, body, answer, after, rfl, -, -⟩ :=
    Issued.of_fills (run_logged placing_emits hw hrun1) hmem hfills
  -- the moment at which the record was created
  obtain ⟨at_, call, k, c, hm⟩ := run_at hw hrun1 (hlog.trans (List.nil_append _).symm)
  obtain ⟨-, hadmitted, hemits⟩ := (run_accounted placing_emits hw hm.run).2 i _ hm.thread
  have hlisted : Creates call _ := hemits.1
  obtain ⟨cfg, hsite, hformat, hcall⟩ : ∃ cfg, (prepared S F).start cfg i call := hadmitted
  subst hsite hformat
  obtain ⟨hshard, input, haction, hbody⟩ := Creates.job hlisted
  have hdetached : call.queue.inlines input.payload = false := by
    rcases hcall with ⟨-, input', haction', hdetached⟩ | ⟨-, _, _, _, hgc⟩
    · cases haction.symm.trans haction'
      exact hdetached
    · cases haction.symm.trans hgc
  let q := call.queue
  let digest := Sha256.digest input.payload
  let V := payloadWatch q.site q.format jobId digest
  have hjob : V.job = q.site.absolute (.job shard jobId) := by
    rw [hshard, Queue.shardOf_eq_payloadShard]
    rfl
  obtain ⟨stored, hget, hdigest⟩ := stocked_at_creation hw hm.run rfl hm.thread haction hdetached hm.step.2
  -- the record that was created, beside the payload
  have hdecode : q.site.decodeAt (.job shard jobId) body = .ok (.job (q.jobRecord input jobId)) := by
    rw [hbody]
    exact decode_encode (.job _) (q.jobRecord_wellFormed input jobId) _ _
  have hkey : (q.jobRecord input jobId).payloadKey = some (Key.payload jobId digest).fmt := by
    show (if q.inlines input.payload then none else some _) = _
    rw [hdetached]
    rfl
  have hobjs : created.world.objects = w'.objects.insert (q.site.absolute (.job shard jobId))
      ⟨body, c.stamp.version, c.stamp.timeNs⟩ := by
    have hchained := (run_chained (fun _ _ h => h) hw hrun1).1
    rw [hlog] at hchained
    refine hchained.trans ?_
    have hanswered := hm.answered
    rw [hm.step.1, put_absent hfills.1] at hanswered
    exact (congrArg Prod.snd hanswered).symm
  have hcreated : created.world.objects.get? (q.site.absolute (.payload jobId digest)) = some stored := by
    rw [hobjs, OrderedMap.get?_insert_of_ne _ _ (by simp), ← hm.objects]
    exact hget
  -- from then on it is held
  have hgoverns := prepared_governs (S := q.site) (F := q.format) jobId digest
  have hgood := (Watch.obligations hgoverns).run_good (Obligations.initial_good (.of_nil hw)) hrun1
  obtain ⟨new, hnew, hstays⟩ := Watch.run_stays hgoverns hgood hrun2
  have hlive : V.Live created.world.log := by
    rw [hlog]
    exact .inl (hjob ▸ hfills)
  have hends : ∀ e ∈ new, ∀ t, V.Ends t → ¬ Fills t e := by
    rintro e he t ⟨kind, s, rfl⟩
    refine no_terminal_filled hw (hrun1.trans hrun2) ?_
    rw [hnew]
    exact List.mem_append_left _ he
  refine ⟨q.jobRecord input jobId, ?_, _, stored, hkey, ?_, hdigest⟩
  · have hstored : created.world.objects.get? (q.site.absolute (.job shard jobId)) =
        some ⟨body, c.stamp.version, c.stamp.timeNs⟩ := by
      rw [hobjs, OrderedMap.get?_insert_self]
    exact recordAt_of_decode hstored hdecode
  · exact hstays hlive hends _ _ (.inr rfl) hcreated

end Placing

/-! ## A payload taken over from the past -/

namespace Window

open Scenario
open Budgeted (Evals)

/-- The enqueue of the job with a detached payload. -/
def place : Call := ⟨demo, .enqueue largeInput, 3⟩

variable [Sha256] {w : World}

/-- The key and the record of that payload. -/
def payloadRel : Key := .payload jobZero (Sha256.digest largeInput.payload)

def payloadKey : Str := demo.absolute payloadRel

/-- The payload as it is stored since time 0. -/
def stale : Stored := ⟨largeInput.payload, ⟨['a']⟩, 0⟩

def largeRecord : JobRecord := demo.jobRecord largeInput jobZero

/-- The payload is left over from time 0. -/
def orphaned : World where
  objects := OrderedMap.empty.insert payloadKey stale
  clock := 1
  handles := fun _ => {}
  log := []

/-- The job record that the enqueue puts there. -/
def largeJob (v : Version) : Stored := ⟨demo.encodeAt (.job 0 jobZero) (.job largeRecord), v, 1⟩

lemma get?_orphaned : orphaned.objects.get? payloadKey = some stale := OrderedMap.get?_insert_self _ _ _

lemma jobKey_ne_payloadKey : jobKey ≠ payloadKey := by
  show demo.site.absolute _ ≠ demo.site.absolute _
  rw [ne_eq, Site.absolute_inj]
  exact nofun

set_option maxRecDepth 8000 in
lemma erase_payload (job : Stored) : (orphaned.objects.insert jobKey job).erase payloadKey =
    OrderedMap.empty.insert jobKey job := by
  have hentries : (orphaned.objects.insert jobKey job).entries = [(jobKey, job), (payloadKey, stale)] := rfl
  have hext : ∀ {m m' : Objects}, m.entries = m'.entries → m = m' := by
    rintro ⟨_, _⟩ ⟨_, _⟩ rfl
    rfl
  refine hext ?_
  rw [OrderedMap.entries_erase, hentries]
  simp [jobKey_ne_payloadKey]
  rfl

/-- The enqueue finds the payload in place and creates the record. -/
lemma run_place : place.prog.run (interrupted (staged faultless) fun _ => ⟨orphaned.objects, 1, fun _ => {}, 5⟩)
      ⟨⟨orphaned.objects, 1, fun _ => {}, 4⟩, 1, none⟩ =
    (.ok (.enqueue (.committed jobZero)), ⟨⟨orphaned.objects.insert jobKey (largeJob (versionAt 5)), 1,
      fun _ => {}, 6⟩, 0,
      some ⟨orphaned.objects, 1, fun _ => {}, 5⟩⟩) :=
  run_call (b := 0) (Evals.bind (evals_enqueue (by decide) rfl (shardOf_demo jobZero) rfl
    (evals_placePayload_present rfl (serves_put_present rfl get?_orphaned).struck) (serves_put rfl rfl).past)
    (Evals.pure _))

/-- The collection, interrupted after it found no job record, deletes the payload. -/
lemma run_stale {v : Version} : collect.prog.run (interrupted (staged faultless) fun _ =>
      ⟨orphaned.objects.insert jobKey (largeJob v), 1, fun _ => {}, 6⟩)
      ⟨⟨orphaned.objects, 1, fun _ => {}, 1⟩, 2, none⟩ =
    (.ok (.gc ⟨0, 0, 1, 0⟩), ⟨⟨OrderedMap.empty.insert jobKey (largeJob v), 1, fun _ => {}, 11⟩, 0,
      some ⟨orphaned.objects, 1, fun _ => {}, 3⟩⟩) := by
  have hshard : demo.payloadShard jobZero = 0 := by
    rw [← Queue.shardOf_eq_payloadShard]
    exact shardOf_demo jobZero
  have hget : (orphaned.objects.insert jobKey (largeJob v)).get? payloadKey = some stale :=
    (OrderedMap.get?_insert_of_ne _ _ jobKey_ne_payloadKey.symm).trans get?_orphaned
  have hold : ¬ satSub 1 0 ≤ (0 : UInt64) := by decide
  have horphan : Evals (interrupted (staged faultless) fun _ =>
        ⟨orphaned.objects.insert jobKey (largeJob v), 1, fun _ => {}, 6⟩)
      (demo.collectOrphan (satSub 1 0) ⟨payloadKey, stale.info⟩ (.job (demo.payloadShard jobZero) jobZero)) 13
      ⟨⟨orphaned.objects, 1, fun _ => {}, 2⟩, 1, none⟩ (.ok true) 10
      ⟨⟨OrderedMap.empty.insert jobKey (largeJob v), 1, fun _ => {}, 8⟩, 0,
        some ⟨orphaned.objects, 1, fun _ => {}, 3⟩⟩ := by
    rw [hshard, ← erase_payload]
    exact evals_collectOrphan hold (serves_head_absent rfl rfl).struck (serves_head rfl hget).past rfl
      (serves_delete rfl).past
  exact run_call (b := 7) (Evals.bind ((evals_pages_one (serves_list rfl rfl).ahead
    (evals_gcPayload jobZero (demo.parseRel_absolute payloadRel) horphan)).bind <|
    (evals_pages_nil (serves_list rfl rfl).past).bind <| (evals_pages_nil (serves_list rfl rfl).past).bind
    (evals_pages_nil (serves_list rfl rfl).past)) (Evals.pure _))

/-! ### A run that meets the condition -/

/-- A create finds at most the payload, and no collection has started. -/
def unhurried (o : Op) (w : World) : Bool :=
  match o with
  | .store (.putIfAbsent _ _ _) => (w.objects.entries.all fun x =>
    x.1 == payloadKey && x.2.body == largeInput.payload) && w.log.all fun
      | .started _ ⟨_, .gc .., _⟩ => false
      | _ => true
  | _ => true

lemma prepared_of_unhurried {o : Op} (h : unhurried o w = true) : Prepared demo.site demo.format w o := by
  have hput : ∀ {key body sha256}, o = .store (.putIfAbsent key body sha256) →
      (∀ key stored, w.objects.get? key = some stored → key = payloadKey ∧ stored.body = largeInput.payload) ∧
        ∀ i call, .started i call ∈ w.log → ¬ Gc.Collects call := by
    rintro key body sha256 rfl
    simp only [unhurried, Bool.and_eq_true, List.all_eq_true, beq_iff_eq] at h
    refine ⟨fun key stored hget => h.1 (key, stored) ((OrderedMap.mem_entries_iff _).mpr hget), ?_⟩
    rintro i ⟨q, action, budget⟩ hmem ⟨nowNs, retentionNs, orphanHorizonNs, haction⟩
    obtain rfl : action = .gc nowNs retentionNs orphanHorizonNs := haction
    cases h.2 _ hmem
  refine ⟨?_, ?_, ?_⟩
  · rintro jobId digest body sha256 heq stored hget
    obtain ⟨hkey, hbody⟩ := (hput heq).1 _ _ hget
    cases demo.site.absolute_inj.mp hkey
    rw [hbody]
  · rintro jobId digest body sha256 heq -
    refine ⟨?_, fun i call hmem hcollects => absurd hcollects ((hput heq).2 i call hmem)⟩
    rintro t ⟨kind, s, rfl⟩
    by_contra hpresent
    obtain ⟨stored, hget⟩ := Option.ne_none_iff_exists'.mp hpresent
    have hkey := demo.site.absolute_inj.mp ((hput heq).1 _ _ hget).1
    cases kind <;> cases hkey
  · rintro shard jobId body sha256 heq e earlier moment - - - hmoment digest i call hmem hcollects
    exact absurd hcollects ((hput heq).2 i call (hmoment.subset hmem))

end Window

open Window Scenario

/-- The payload of a new job outlives a collection that looks at it: call 0 stores the payload and creates the
record, and call 1, for which the payload is old, finds the record and leaves the payload alone. -/
theorem payload_delivered_kept : ∃ (_ : Sha256) (w : World) (created final : Calls),
    machine.Run (placing demo.site demo.format fun w o c => c.fault = none ∧ Prepared demo.site demo.format w o)
      (Machine.initial w) created ∧
    machine.Run (placing demo.site demo.format fun w o c => c.fault = none ∧ Prepared demo.site demo.format w o)
      created final ∧
    final.Returned 1 sweep (.ok (.gc ⟨0, 0, 0, 0⟩)) ∧
    ∃ record, recordAt demo.site created.world.objects (.job 0 jobZero) = some (.job record) ∧
      Stocked demo.site final.world.objects record := by
  let hash := Sha256.zero
  let P := prepared demo.site demo.format
  let created := play faultless 0 place (Machine.initial (blank 1))
  have hplace : machine.Run P (Machine.initial (blank 1)) created :=
    run_checked unhurried (fun _ _ h => ⟨rfl, prepared_of_unhurried h⟩) ⟨rfl, rfl, .inl ⟨rfl, largeInput, rfl, rfl⟩⟩ rfl
      (by decide +kernel)
  have hsweep : machine.Run P created (play faultless 1 sweep created) :=
    run_checked unhurried (fun _ _ h => ⟨rfl, prepared_of_unhurried h⟩) ⟨rfl, rfl, .inr ⟨rfl, 5, 0, 0, rfl⟩⟩
      (play_threads (by decide)) (by decide +kernel)
  have hret : (play faultless 1 sweep created).Returned 1 sweep (.ok (.gc ⟨0, 0, 0, 0⟩)) :=
    play_returned (by decide +kernel)
  have hdone : ∀ i t, (play faultless 1 sweep created).threads i = some t → ∃ out, t.prog = .ret out := by
    intro i t ht
    by_cases h1 : i = 1
    · subst h1
      exact ⟨_, congrArg Thread.prog (Option.some.inj (ht.symm.trans hret))⟩
    rw [play_threads h1] at ht
    by_cases h0 : i = 0
    · subst h0
      exact ⟨_, congrArg Thread.prog (Option.some.inj (ht.symm.trans (play_returned rfl)))⟩
    · rw [play_threads h0] at ht
      cases ht
  exact ⟨hash, blank 1, created, _, hplace, hsweep, hret, payload_delivered demo.site demo.format 0 jobZero (blank 1)
    created _ rfl hplace hsweep (exists_of_head? (by decide +kernel)) hdone fun kind => by
      cases kind <;> decide +kernel⟩

/-- Without that condition a collection destroys the payload of a new job: call 1 finds the old
payload and no job record, call 0 takes the payload for its own and creates the record, and
call 1 goes on with its delete. -/
theorem payload_lost : ¬ ∃ _ : Sha256, ∀ S F shard jobId,
    Delivers S (placing S F fun _ _ c => c.fault = none) shard jobId := by
  rintro ⟨_, hall⟩
  let P := placing demo.site demo.format fun _ _ c => c.fault = none
  have hstep : ∀ i call o w, P.step w i call o (plain faultless w) := fun _ _ _ _ => rfl
  let looked := pause 1 collect 2 (Machine.initial orphaned)
  let waiting := pause 0 place 1 looked
  let created := resume 0 waiting
  obtain ⟨hlooked, hcollect⟩ := pause_at 1 (Machine.initial orphaned) rfl run_stale
  obtain ⟨hwaiting, hplace⟩ := pause_at 0 looked hlooked run_place
  obtain ⟨hcreated, hret0⟩ := hplace waiting hwaiting rfl
  have hthread : created.threads 1 = looked.threads 1 :=
    (resume_threads (by decide)).trans (pause_threads (by decide))
  obtain ⟨hfinal, hret1⟩ := hcollect created hcreated hthread
  obtain ⟨p0, hp0, -⟩ := pause_thread 0 looked (.any place.prog) 1
  obtain ⟨p1, hp1, -⟩ := pause_thread 1 (Machine.initial orphaned) (.any collect.prog) 2
  have hstart1 : P.start (Machine.initial orphaned) 1 collect := ⟨rfl, rfl, .inr ⟨rfl, 1, 0, 0, rfl⟩⟩
  have hstart0 : P.start looked 0 place := ⟨rfl, rfl, .inl ⟨rfl, largeInput, rfl, rfl⟩⟩
  have hrun : machine.Run P (Machine.initial orphaned) created :=
    ((pause_plainly 2 hstart1 (hstep 1 collect) rfl).trans
      (pause_plainly 1 hstart0 (hstep 0 place) (pause_threads (by decide)))).trans
      (resume_plainly hp0 (hstep 0 place))
  have hrest : machine.Run P created (resume 1 created) := resume_plainly (hthread.trans hp1) (hstep 1 collect)
  obtain ⟨r, answer, hlog⟩ := resume_logs hp0 (by rw [hcreated, hwaiting])
  have hjob : created.world.objects.get? jobKey = some (largeJob (versionAt 5)) := by
    rw [show created.world.objects = _ from congrArg Stage.objects hcreated]
    exact OrderedMap.get?_insert_self _ _ _
  have hobjs : (resume 1 created).world.objects = _ := congrArg Stage.objects hfinal
  have hfills : Fills jobKey (.did 0 r answer (stage waiting).objects (stage created).objects) := by
    refine ⟨?_, fun h => Option.some_ne_none _ (hjob.symm.trans h)⟩
    rw [hwaiting]
    rfl
  have hdone : ∀ i t, (resume 1 created).threads i = some t → ∃ out, t.prog = .ret out := by
    intro i t ht
    by_cases h1 : i = 1
    · subst h1
      exact ⟨_, congrArg Thread.prog (Option.some.inj (ht.symm.trans hret1))⟩
    rw [resume_threads h1] at ht
    by_cases h0 : i = 0
    · subst h0
      exact ⟨_, congrArg Thread.prog (Option.some.inj (ht.symm.trans hret0))⟩
    · rw [resume_threads h0, pause_threads h0, pause_threads h1] at ht
      cases ht
  obtain ⟨record, hrecord, rel, stored, hrel, hget, -⟩ := hall demo.site demo.format 0 jobZero orphaned created
    (resume 1 created) rfl hrun hrest ⟨_, _, hlog, hfills⟩ hdone fun kind => by
      rw [hobjs]
      cases kind <;> rfl
  -- the record that was created names the payload that is gone
  have hlarge : recordAt demo.site created.world.objects (.job 0 jobZero) = some (.job largeRecord) :=
    recordAt_of_encode (demo.jobRecord_wellFormed _ _) hjob rfl
  cases hlarge.symm.trans hrecord
  cases hrel
  rw [hobjs] at hget
  cases hget.symm.trans (OrderedMap.get?_insert_of_ne _ _ jobKey_ne_payloadKey.symm)

end Gc
end StowQ
