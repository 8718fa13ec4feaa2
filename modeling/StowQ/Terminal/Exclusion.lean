import StowQ.Core.ScanRules
import StowQ.Custody.Results
import StowQ.Knowledge
import StowQ.Planes

/-!
# A receipt and a dead record of one job

`ack` looks for a dead record before it writes a receipt, and `bury` and the scans look for a receipt before
they write a dead record.  The look and the write are two requests, so both records can come to exist.
`terminals_overlap` says that this takes two calls that each looked before the other wrote.  It is proved from
the histories of the calls: the write of a terminal record needs the answer of the look (`Checked`), and an
answer `NotFound` proves absence at that moment.
-/

namespace StowQ
namespace Terminal

open Data StowQ.Core Store Format Concurrent Interleaving Keys

variable {S : Site} {body : Bytes} {digest : Digest}

/-- The other kind of terminal record. -/
def other : TermKind → TermKind
  | .receipt => .dead
  | .dead => .receipt

/-- The key of a terminal record. -/
def terminalKey (S : Site) (kind : TermKind) (shard : UInt16) (jobId : ByteArr 16) : Str :=
  S.absolute (Queue.terminalRel kind shard jobId)

/-- A create of a terminal record is backed by a look that found no record of the other
kind. -/
def Checked (S : Site) (h : List Exchange) (r : Request) : Prop :=
  ∀ kind shard jobId body digest, r = .putIfAbsent (terminalKey S kind shard jobId) body digest →
    ⟨.head (terminalKey S (other kind) shard jobId), .error .notFound⟩ ∈ h

/-- Requests that create no terminal record but the given one. -/
def Settling (S : Site) (kind : TermKind) (shard : UInt16) (jobId : ByteArr 16) (o : Op) :
    Prop :=
  ∀ kind' shard' jobId' body digest, o = .store (.putIfAbsent (terminalKey S kind' shard' jobId') body digest) →
      kind' = kind ∧ shard' = shard ∧ jobId' = jobId

section Programs

variable {q : Queue} {kind : TermKind} {shard : UInt16} {jobId : ByteArr 16}
  {h : List Exchange}

/-- After the look, the other record may be written. -/
lemma Settling.checked {r : Request} (hr : Settling S kind shard jobId (.store r))
    (hseen : ⟨.head (terminalKey S (other kind) shard jobId), .error .notFound⟩ ∈ h) :
    ∀ h1, h <:+ h1 → Checked S h1 r := by
  rintro h1 hh1 kind' shard' jobId' body digest rfl
  obtain ⟨rfl, rfl, rfl⟩ := hr _ _ _ _ _ rfl
  exact List.IsSuffix.subset hh1 hseen

lemma settling_put {k : Key} (hk : ∀ kind' shard' jobId', k = Queue.terminalRel kind' shard' jobId' →
      kind' = kind ∧ shard' = shard ∧ jobId' = jobId) :
    Settling S kind shard jobId (.store (.putIfAbsent (S.absolute k) body digest)) := by
  intro kind' shard' jobId' body' digest' heq
  injection heq with heq
  injection heq with heq
  exact hk _ _ _ (S.absolute_inj.mp heq)

lemma settling_own : Settling S kind shard jobId
    (.store (.putIfAbsent (terminalKey S kind shard jobId) body digest)) := by
  refine settling_put fun kind' shard' jobId' heq => ?_
  cases kind <;> cases kind' <;> cases heq <;> exact ⟨rfl, rfl, rfl⟩

lemma settling_aside {k : Key} (hk : ∀ kind' shard' jobId', k ≠ Queue.terminalRel kind' shard' jobId') :
    Settling S kind shard jobId (.store (.putIfAbsent (S.absolute k) body digest)) :=
  settling_put fun kind' shard' jobId' heq => absurd heq (hk kind' shard' jobId')

lemma tame_settling : Tame (Settling S kind shard jobId) := by
  constructor <;> intros <;> nofun

lemma settling_get (key : Str) : Settling S kind shard jobId (.store (.get key)) :=
  nofun

lemma checked_head (S : Site) (key : Str) : Checked S h (.head key) :=
  nofun

lemma checked_get (key : Str) : Checked S h (.get key) :=
  nofun

/-- A part that writes no terminal record but one whose look has been taken. -/
lemma holds_settling {α : Type} {m : Routine α} (hm : Budgeted.Emits (Settling S kind shard jobId) m)
    (hseen : ⟨.head (terminalKey S (other kind) shard jobId), .error .notFound⟩ ∈ h) :
    Holds (knowing (Checked S)) m (fun _ _ => True) h :=
  holds_of_asks hm.prog fun _ hr => hr.checked hseen

variable [Sha256]

lemma writeTermidx_settling {kind' : TermKind} {shard' : UInt16} {jobId' : ByteArr 16} :
    Budgeted.Emits (Settling q.site kind shard jobId) (q.writeTermidx kind' shard' jobId') :=
  Footprint.writeTermidx tame_settling
    (fun _ => settling_aside fun kind _ _ => by cases kind <;> nofun) nofun
    fun _ => settling_aside fun kind _ _ => by cases kind <;> nofun

/-- The receipt is written after the look at the dead record. -/
lemma holds_ack (c : Claim) (outputs : List CommittedOutput) :
    Holds (knowing (Checked q.site)) (q.ack c outputs) (OnOk fun _ _ => True) h := by
  refine holds_spend (holds_spend ?_)
  have hpayload : Safe (recording (Checked q.site)) growing (· <:+ ·) c.payloadBytes
      (fun _ _ => True) h := by
    unfold Claim.payloadBytes
    split
    · exact fun _ _ _ => trivial
    · exact Safe.map ((safe_ask (r := .get _) fun _ _ _ => checked_get _).mono fun _ _ _ _ => trivial)
  refine Holds.lift (D := knowing (Checked q.site))
    (safe_join (safe_ask fun _ _ _ => checked_head _ _) hpayload) fun out h1 _ _ hout => ?_
  obtain ⟨dead, payload⟩ := out
  change StoreResult Meta at dead
  cases dead with
  | ok info => exact holds_pure fun _ _ _ => trivial
  | error e =>
    cases e with
    | notFound =>
      have hseen : ⟨.head (terminalKey q.site (other .receipt) c.shard c.jobId), .error .notFound⟩ ∈ h1 := hout.1
      refine holds_ofExcept fun payload' _ => ?_
      refine holds_after (holds_settling (Budgeted.Keeps.foldM _ (fun _ _ _ =>
        Footprint.verifyOutput (settling_get _)) _) hseen) fun _ h2 _ hh2 => holds_spend ?_
      have hseen2 := List.IsSuffix.subset hh2 hseen
      refine holds_after (holds_settling (Footprint.putRecord settling_own (tame_settling.head _)
        (settling_get _)) hseen2) fun resolved h3 _ hh3 => ?_
      have hseen3 := List.IsSuffix.subset hh3 hseen2
      -- whatever the put came to, only the index is left to write
      cases resolved with
      | committed =>
        exact holds_after (holds_settling writeTermidx_settling hseen3) fun _ _ _ _ =>
          holds_pure fun _ _ _ => trivial
      | _ =>
        refine holds_after (holds_settling (Footprint.readRetrying (settling_get _)) hseen3)
          fun _ _ _ _ => holds_ofRecord fun _ _ => ?_
        exact Holds.ofExcept fun _ _ _ _ _ => trivial
    | _ => exact holds_fail

/-- The dead record is written after the look at the receipt. -/
lemma holds_bury_checked (c : Claim) (reason : UInt64) :
    Holds (knowing (Checked q.site)) (q.bury c reason) (OnOk fun _ _ => True) h := by
  refine (holds_provenAbsent fun _ _ _ => checked_head _ _).andThen fun absent h1 _ _ habsent => ?_
  cases absent with
  | false => exact holds_pure fun _ _ _ => trivial
  | true =>
    have hseen : ⟨.head (terminalKey q.site (other .dead) c.shard c.jobId), .error .notFound⟩ ∈ h1 := habsent rfl
    refine holds_spend (holds_after (holds_settling (Footprint.putRecord settling_own
      (tame_settling.head _) (settling_get _)) hseen) fun resolved h2 _ hh2 => ?_)
    have hseen2 := List.IsSuffix.subset hh2 hseen
    cases resolved with
    | committed =>
      exact holds_after (holds_settling writeTermidx_settling hseen2) fun _ _ _ _ =>
        holds_pure fun _ _ _ => trivial
    | lost =>
      refine holds_after (holds_settling (Footprint.readRetrying (settling_get _)) hseen2)
        fun _ _ _ _ => holds_ofRecord fun _ _ => ?_
      exact Holds.ofExcept fun _ _ _ _ _ => trivial
    | notCommitted => exact holds_fail

/-- A probe writes the exhaustion record after its look at the receipt. -/
lemma holds_tryClaim_checked (opts : ClaimOptions) (version : Version) :
    Holds (knowing (Checked q.site)) (q.tryClaim opts shard jobId version) (OnOk fun _ _ => True) h := by
  have hprobing : Footprint.Probing (Settling q.site .dead shard jobId) q shard jobId := by
    refine ⟨⟨tame_settling, fun _ => nofun⟩, fun k body hk => ?_, fun _ _ => nofun⟩
    cases hk with
    | dead => exact settling_own
    | _ => exact settling_aside fun kind _ _ => by cases kind <;> nofun
  have hgather : Holds (knowing (Checked q.site)) (q.gatherTail shard jobId) (fun _ _ => True) h :=
    holds_of_asks (Budgeted.Emits.prog (Footprint.gatherTail Footprint.reading_noCreate)) fun r hr h1 _ kind s j body digest heq =>
      absurd (congrArg Op.store heq) (hr _ body digest)
  have hheads := safe_join (h := h) (A := Checked q.site)
    (safe_ask (r := .head (q.absolute (.receipt shard jobId))) fun _ _ _ => checked_head _ _)
    (safe_ask (r := .head (q.absolute (.dead shard jobId))) fun _ _ _ => checked_head _ _)
  refine holds_tryClaim_of (G := fun _ _ => True) (P := fun out h' =>
      ⟨.head (q.absolute (.receipt shard jobId)), out.1⟩ ∈ h' ∧
        ⟨.head (q.absolute (.dead shard jobId)), out.2⟩ ∈ h')
    ((holds_beside hheads hgather).mono fun _ _ _ _ hout out hr => ⟨(hout out hr).1, fun _ _ => trivial⟩)
    (fun _ _ _ _ _ _ => ?_) (fun g h1 _ _ hseen _ => ?_) fun _ => trivial
  · exact holds_of_asks (B := fun o => ∀ r, o ≠ .store r) (Budgeted.Emits.request nofun).prog
      fun r hr => absurd rfl (hr r)
  · exact (holds_settling (Footprint.claimFrom hprobing) hseen.1).mono fun _ _ _ _ _ _ _ => trivial

lemma probesSafely_checked (opts : ClaimOptions) :
    ProbesSafely (knowing (Checked q.site)) q opts (fun _ _ => True) fun _ _ => True where
  tolerant _ _ _ _ hg := hg
  list after h' _ := by
    have hlist : Holds (knowing (Checked q.site)) (Routine.list (q.jobsPrefix opts.shard) after 1024)
        (fun _ _ => True) h' := by
      refine holds_of_asks (B := fun o => ∃ pre n, o = .store (.list pre after n))
        (Footprint.store ⟨_, _, rfl⟩).prog fun r hr h1 _ => ?_
      obtain ⟨pre, n, heq⟩ := hr
      cases heq
      nofun
    exact hlist.mono fun _ _ _ _ _ _ _ _ _ _ _ _ _ => trivial
  memoized _ _ _ h' _ := holds_of_asks (B := fun o => ∀ r, o ≠ .store r) (Budgeted.Emits.request nofun).prog
      fun r hr => absurd rfl (hr r)
  probe c h' _ _ := (holds_tryClaim_checked opts c.version).mono fun _ _ _ _ _ _ _ _ _ => trivial
  seen_stable _ _ _ _ _ hseen := hseen
  stable _ _ _ _ _ hgood := hgood

/-- **Every terminal record is written after a look.** -/
theorem holds_task (action : Action) (hgc : ∀ a b c, action ≠ .gc a b c) :
    Holds (knowing (Checked q.site)) (action.task q) (fun _ _ => True) [] := by
  have hdone : ∀ {α : Type} {m : Routine α} {f : α → Output} {Q : α → List Exchange → Prop},
      Holds (knowing (Checked q.site)) m (OnOk Q) [] →
        Holds (knowing (Checked q.site)) (m >>= fun a => pure (f a)) (fun _ _ => True) [] :=
    fun hm => (hm.andThen (Q := fun _ _ => True) fun _ _ _ _ _ =>
      holds_pure fun _ _ _ => trivial).mono fun _ _ _ _ _ => trivial
  have haside : (∀ kind, planeOf (Queue.terminalRel kind 0 (List.Vector.replicate 16 0)) ∉
      action.planes) → Holds (knowing (Checked q.site)) (action.task q) (fun _ _ => True) [] := by
    intro hplanes
    refine holds_of_asks (action.within hgc).prog fun r hr h1 _ kind shard jobId body digest heq => ?_
    have hplane : planeOf (Queue.terminalRel kind shard jobId) ∉ action.planes := by
      cases kind with
      | receipt => exact hplanes .receipt
      | dead => exact hplanes .dead
    exact absurd (congrArg Op.store heq) (hr.ne_put hplane)
  cases action with
  | claim opts => exact hdone ((probesSafely_checked opts).scansSafely.holds_claim trivial)
  | claimMany opts max => exact hdone ((probesSafely_checked opts).scansSafely.holds_claimMany max trivial)
  | ack c outputs => exact hdone (holds_ack c outputs)
  | bury c reason => exact hdone (holds_bury_checked c reason)
  | gc a b c => exact absurd rfl (hgc a b c)
  | _ => exact haside fun kind => by cases kind <;> simp [planeOf, Action.planes] <;> decide

end Programs

/-! ## Runs -/

/-- What the outside may do: any operations on the queue but garbage collection, with any
handles, any faults and stamps, and writes by others off the terminal planes. -/
def uncollected (S : Site) : Terms where
  start _ _ call := call.queue.site = S ∧ ∀ a b c, call.action ≠ .gc a b c
  step _ _ _ _ _ := True
  env _ e := ∀ kind shard jobId, Spares (terminalKey S kind shard jobId) e

/-- Call `i` wrote the record of a kind with event `e`, after it had looked in vain for one of
the other kind with event `look`. -/
structure Wrote (S : Site) (log : List Event) (kind : TermKind) (shard : UInt16)
    (jobId : ByteArr 16) (i : Nat) (call : Call) (look e : Event) : Prop where
  writer : planeOf (Queue.terminalRel kind shard jobId) ∈ call.action.planes
  look_eq : ∃ before after, look = .did i (.head (terminalKey S (other kind) shard jobId))
    (.error .notFound) before after
  write_eq : ∃ body digest answer before after,
    e = .did i (.putIfAbsent (terminalKey S kind shard jobId) body digest) answer before after
  fills : Fills (terminalKey S kind shard jobId) e
  started : Precedes log (.started i call) look
  order : Precedes log look e

section Runs

variable [Sha256] {S : Site} {w : World} {cfg : Calls} {shard : UInt16} {jobId : ByteArr 16}

lemma uncollected_emits (cfg : Calls) (i : Nat) (call : Call) (h : (uncollected S).start cfg i call) :
    call.prog.Emits (Within S call.action.planes) := by
  obtain ⟨rfl, hgc⟩ := h
  exact ((call.action.within hgc).prog call.budget).map

lemma run_uncollected_filled_iff (kind : TermKind) (hw : w.log = [])
    (habsent : w.objects.get? (terminalKey S kind shard jobId) = none)
    (hrun : machine.Run (uncollected S) (Machine.initial w) cfg) :
    cfg.world.objects.get? (terminalKey S kind shard jobId) ≠ none ↔
      ∃ e ∈ cfg.world.log, Fills (terminalKey S kind shard jobId) e := by
  refine run_filled_iff (P := uncollected S) (fun cfg i call h => ?_)
    (fun _ _ henv => henv kind shard jobId) hw habsent hrun
  refine (uncollected_emits cfg i call h).mono fun o ho heq => ?_
  have hplane : planeOf (Queue.terminalRel kind shard jobId) ∉ overwritten ++ swept := by
    cases kind <;> simp [planeOf, Queue.terminalRel] <;> decide
  exact (ho.preserves hplane).1 heq

/-- Whoever wrote a terminal record had looked for the other kind. -/
lemma exists_wrote {kind : TermKind} {e : Event} (hw : w.log = [])
    (hrun : machine.Run (uncollected S) (Machine.initial w) cfg) (he : e ∈ cfg.world.log)
    (hfills : Fills (terminalKey S kind shard jobId) e) :
    ∃ i call look, Wrote S cfg.world.log kind shard jobId i call look e := by
  obtain ⟨later, earlier, hlog⟩ := List.append_of_mem he
  have hlogged := run_logged uncollected_emits hw hrun
  obtain ⟨i, -, v, -, body, answer, after, rfl, -, -⟩ := Issued.of_fills hlogged he hfills
  -- the configuration in which the record was about to be written
  obtain ⟨cfg1, call, k, c, hm⟩ := run_at hw hrun hlog
  have hwithin := ((run_accounted uncollected_emits hw hm.run).2 i _ hm.thread).2.2.1
  have hchecked : Checked S (own i cfg1.world.log) (.putIfAbsent (terminalKey S kind shard jobId) body
      (Sha256.digest body)) :=
    run_asks (P := uncollected S) (A := fun _ => Checked S) (Q := fun _ _ _ => True)
      (fun _ _ call h => h.1 ▸ holds_task call.action h.2) hw hm.run hm.thread
  obtain ⟨before', after', hlook⟩ := mem_own.mp (hchecked kind shard jobId _ _ rfl)
  rw [hm.log] at hlook
  -- and the one in which the look was about to be taken, by the same call
  obtain ⟨later', earlier', hsplit⟩ := List.append_of_mem hlook
  have hlog' := hlog
  rw [hsplit, ← List.cons_append, ← List.append_assoc] at hlog'
  obtain ⟨cfg2, call2, k2, c2, hm2⟩ := run_at hw hrun hlog'
  have hstarted := ((run_accounted uncollected_emits hw hm2.run).2 i _ hm2.thread).1
  rw [hm2.log] at hstarted
  obtain ⟨p, hp⟩ : ∃ p, cfg1.threads i = some ⟨call2, p⟩ := by
    refine run_started hw hm.run ?_
    rw [hm.log, hsplit]
    exact List.mem_append_right _ (List.mem_cons_of_mem _ hstarted)
  rw [hm.thread] at hp
  cases hp
  refine ⟨i, call, _, ?_, ⟨before', after', rfl⟩, ⟨body, _, answer, v.objects, after, rfl⟩, hfills,
    ⟨_, earlier', hlog', hstarted⟩, ⟨later, earlier, hlog, hlook⟩⟩
  obtain ⟨plane, hmem, hplane⟩ := hwithin
  rw [terminalKey, plane_absolute] at hplane
  rwa [Option.some.inj hplane]

omit [Sha256] in
lemma not_both {action : Action}
    (hreceipt : planeOf (Queue.terminalRel .receipt shard jobId) ∈ action.planes)
    (hdead : planeOf (Queue.terminalRel .dead shard jobId) ∈ action.planes) : False := by
  have hboth : receiptsSeg ∈ action.planes ∧ deadSeg ∈ action.planes := ⟨hreceipt, hdead⟩
  clear hreceipt hdead
  cases action <;> simp only [Action.planes] at hboth <;> revert hboth <;> decide

/-- A look that finds no record precedes the write of the record. -/
lemma look_precedes {kind : TermKind} {i : Nat} {look e : Event} {before after : Objects}
    (hw : w.log = []) (habsent : w.objects.get? (terminalKey S kind shard jobId) = none)
    (hrun : machine.Run (uncollected S) (Machine.initial w) cfg) (hlook : look ∈ cfg.world.log)
    (hlook_eq : look = .did i (.head (terminalKey S kind shard jobId)) (.error .notFound) before
      after) (he : e ∈ cfg.world.log) (hfills : Fills (terminalKey S kind shard jobId) e) :
    Precedes cfg.world.log look e := by
  subst hlook_eq
  obtain ⟨later, earlier, hlog⟩ := List.append_of_mem he
  refine ⟨later, earlier, hlog, ?_⟩
  have hmem := hlook
  rw [hlog] at hmem
  rcases List.mem_append.mp hmem with hlate | hrest
  · -- taken after the write, the look would have found the record
    obtain ⟨l1, l2, rfl⟩ := List.append_of_mem hlate
    rw [List.append_assoc, List.cons_append] at hlog
    obtain ⟨cfg1, call, k, c, hm⟩ := run_at hw hrun hlog
    have hpresent := (run_uncollected_filled_iff kind hw habsent hm.run).mpr
      ⟨e, by rw [hm.log]; exact List.mem_append_right _ List.mem_cons_self, hfills⟩
    rw [hm.objects] at hpresent
    exact absurd (answer_head_notFound (congrArg Prod.fst hm.answered)) hpresent
  · rcases List.mem_cons.mp hrest with heq | hmem
    · obtain ⟨_, _, _, _, _, _, _, hput, -⟩ := Issued.of_fills (run_logged uncollected_emits hw hrun) he hfills
      cases heq.trans hput
    · exact hmem

/-- **A receipt and a dead record of one job** are written by two calls each of which looked for the other record
before it was there.  So a job ends twice only in a race, never by a call that could have known. -/
theorem terminals_overlap (S : Site) (w : World) (hw : w.log = []) (shard : UInt16)
    (jobId : ByteArr 16) (hinit : ∀ kind, w.objects.get? (terminalKey S kind shard jobId) = none)
    (cfg : Calls) (hrun : machine.Run (uncollected S) (Machine.initial w) cfg)
    (hboth : ∀ kind, cfg.world.objects.get? (terminalKey S kind shard jobId) ≠ none) :
    ∃ i call look e j call' look' e', Wrote S cfg.world.log .receipt shard jobId i call look e ∧
      Wrote S cfg.world.log .dead shard jobId j call' look' e' ∧ i ≠ j ∧
      Precedes cfg.world.log look e' ∧ Precedes cfg.world.log look' e := by
  obtain ⟨e, he, hfills⟩ := (run_uncollected_filled_iff .receipt hw (hinit .receipt) hrun).mp
    (hboth .receipt)
  obtain ⟨e', he', hfills'⟩ := (run_uncollected_filled_iff .dead hw (hinit .dead) hrun).mp
    (hboth .dead)
  obtain ⟨i, call, look, hwrote⟩ := exists_wrote hw hrun he hfills
  obtain ⟨j, call', look', hwrote'⟩ := exists_wrote hw hrun he' hfills'
  have hne : i ≠ j := by
    rintro rfl
    obtain ⟨p, hp⟩ := run_started hw hrun hwrote.started.left_mem
    obtain ⟨p', hp'⟩ := run_started hw hrun hwrote'.started.left_mem
    rw [hp] at hp'
    cases hp'
    exact not_both hwrote.writer hwrote'.writer
  obtain ⟨before, after, hlook⟩ := hwrote.look_eq
  obtain ⟨before', after', hlook'⟩ := hwrote'.look_eq
  exact ⟨i, call, look, e, j, call', look', e', hwrote, hwrote', hne,
    look_precedes hw (hinit .dead) hrun hwrote.order.left_mem hlook he' hfills',
    look_precedes hw (hinit .receipt) hrun hwrote'.order.left_mem hlook' he hfills⟩

end Runs

open Scenario

/-- The race does happen: the holder of a claim acks it with one call and buries it with
another. -/
theorem terminals_overlap_race : ∃ (_ : Sha256) (cfg : Calls),
    (∀ kind, cfg.world.objects.get? (terminalKey demo.site kind 0 jobZero) ≠ none) ∧
    ∃ i call look e j call' look' e', Wrote demo.site cfg.world.log .receipt 0 jobZero i call look e ∧
      Wrote demo.site cfg.world.log .dead 0 jobZero j call' look' e' ∧ i ≠ j ∧
      Precedes cfg.world.log look e' ∧ Precedes cfg.world.log look' e := by
  let hash := Sha256.zero
  let P := uncollected demo.site
  let ack : Call := ⟨demo, .ack firstClaim [], 4⟩
  let bury : Call := ⟨demo, .bury firstClaim 0, 3⟩
  have hplay : ∀ (i : Nat) (call : Call), call.queue = demo →
      (∀ a b c, call.action ≠ .gc a b c) → Playable P i call 0 :=
    fun i call hqueue hgc => ⟨fun _ => ⟨congrArg Queue.site hqueue, hgc⟩, fun _ _ _ _ => trivial⟩
  have hrun : machine.Run P (Machine.initial (blank 0)) (once 1) :=
    run_once (hplay 0 (enqueue 1) rfl nofun) (hplay 1 (claiming 0 1) rfl nofun)
  -- call 2 looks for a dead record, call 3 writes one, and call 2 goes on
  let looked := pause 2 ack 1 (once 1)
  let cfg := resume 2 (play faultless 3 bury looked)
  obtain ⟨p, hthread, -⟩ := pause_thread 2 (once 1) (.any ack.prog) 1
  have hlooked : machine.Run P (once 1) looked :=
    pause_plainly 1 ⟨rfl, nofun⟩ (fun _ _ => trivial) (once_free (le_refl 2))
  have hburied : machine.Run P looked (play faultless 3 bury looked) :=
    run_plainly ⟨rfl, nofun⟩ (fun _ _ => trivial) ((pause_threads (by decide)).trans (once_free (by decide)))
  have hacked : machine.Run P (play faultless 3 bury looked) cfg :=
    resume_plainly ((play_threads (by decide)).trans hthread) fun _ _ => trivial
  have hboth : ∀ kind, cfg.world.objects.get? (terminalKey demo.site kind 0 jobZero) ≠ none := by
    intro kind
    cases kind <;> decide +kernel
  exact ⟨hash, cfg, hboth, terminals_overlap demo.site (blank 0) rfl 0 jobZero (fun _ => rfl) cfg
    (((hrun.trans hlooked).trans hburied).trans hacked) hboth⟩

end Terminal
end StowQ
