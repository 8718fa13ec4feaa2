import StowQ.Core.ScanEvals
import StowQ.Uniform

/-!
# Exhibiting runs

The outside of an exhibited run makes the plainest choices: the clock stands still between
ticks, versions and random draws are numbered by the length of the log, and faults strike at
given positions of the log.  What such a run does depends on the log by its length only, so a
call is evaluated over a `Stage`; `play`, `pause` and `resume` turn such evaluations into runs.
`demo` is a small queue for them, with one job.
-/

namespace StowQ
namespace Scenario

open Data StowQ.Core Store Format Concurrent Interleaving
open Budgeted (Evals)

variable {p : Prog Op Res (Except Error Output)} {n j : Nat} {clock : UInt64}

/-! ## Plain choices -/

/-- The plain choice at a world. -/
def plain (faults : Nat → Option Fault) (w : World) : Choice where
  fault := faults w.log.length
  stamp := ⟨⟨List.replicate (w.log.length + 1) 'v'⟩, w.clock⟩
  token := ⟨beBytes 16 w.log.length, by simp⟩
  elapsedNs := 0

/-- No faults. -/
def faultless : Nat → Option Fault := fun _ => none

/-- The token drawn when the log has length `n`. -/
def tokenAt (n : Nat) : ByteArr 16 := ⟨beBytes 16 n, by simp⟩

/-- The version assigned when the log has length `n`. -/
def versionAt (n : Nat) : Version := ⟨List.replicate (n + 1) 'v'⟩

/-- What a plain run depends on: a world with the length of its log. -/
structure Stage where
  objects : Objects
  clock : UInt64
  handles : Nat → HandleState
  count : Nat

def Stage.of (w : World) : Stage := ⟨w.objects, w.clock, w.handles, w.log.length⟩

/-- One more entry of the log. -/
def Stage.next (s : Stage) : Stage := ⟨s.objects, s.clock, s.handles, s.count + 1⟩

/-- Replace the state of one handle. -/
def Stage.setHandle (s : Stage) (handle : Nat) (h : HandleState) : Stage :=
  ⟨s.objects, s.clock, Function.update s.handles handle h, s.count⟩

section Handlers

variable [Sha256]

/-- Requests of call `i` under plain choices. -/
def plainly (faults : Nat → Option Fault) (i : Nat) : Handler Op Res World :=
  fun o w => w.exec i o (plain faults w)

/-- The same over a stage. -/
def staged (faults : Nat → Option Fault) : Handler Op Res Stage
  | .store r, s =>
    let out := inject (faults s.count) s.objects ⟨versionAt s.count, s.clock⟩ r
    (out.1, ⟨out.2, s.clock, s.handles, s.count + 1⟩)
  | .freshToken, s => (tokenAt s.count, s)
  | .cachedFloor handle, s => ((s.handles handle).cachedFloor 0, s)
  | .cacheFloor handle floorNs, s =>
    ((), s.setHandle handle { s.handles handle with floorNs, establishedAtNs := 0 })
  | .isMemoizedTerminal handle shard jobId version, s =>
    ((s.handles handle).isMemoizedTerminal shard jobId version 0, s)
  | .memoizeTerminal handle shard jobId version, s =>
    ((), s.setHandle handle ((s.handles handle).memoizeTerminal shard jobId version 0))

lemma staged_of (faults : Nat → Option Fault) (i : Nat) (o : Op) (w : World) :
    staged faults o (.of w) = ((plainly faults i o w).1, .of (plainly faults i o w).2) := by
  cases o with
  | store r =>
    show _ = (_, Stage.mk _ (max w.clock w.clock) _ _)
    rw [clock_self]
    rfl
  | _ => rfl

/-! Requests at a position without a fault. -/

section Faultless

variable {faults : Nat → Option Fault} {objs objs' : Objects} {clock : UInt64}
  {handles : Nat → HandleState} {n : Nat} {r : Request} {key : Str} {body : Bytes} {stored : Stored}

lemma serves {ans : StoreResult r.Answer}
    (h : inject (faults n) objs ⟨versionAt n, clock⟩ r = (ans, objs')) :
    Serves (staged faults) ⟨objs, clock, handles, n⟩ r ans ⟨objs', clock, handles, n + 1⟩ :=
  congrArg (fun out : StoreResult r.Answer × Objects =>
    (out.1, (⟨out.2, clock, handles, n + 1⟩ : Stage))) h

variable (hf : faults n = none)

include hf

lemma serves_get (h : objs.get? key = some stored) :
    Serves (staged faults) ⟨objs, clock, handles, n⟩ (.get key) (.ok ⟨stored.info, stored.body⟩)
      ⟨objs, clock, handles, n + 1⟩ :=
  serves (by rw [hf]; exact get_present h)

lemma serves_get_absent (h : objs.get? key = none) :
    Serves (staged faults) ⟨objs, clock, handles, n⟩ (.get key) (.error .notFound)
      ⟨objs, clock, handles, n + 1⟩ :=
  serves (by rw [hf]; exact get_absent h)

lemma serves_head (h : objs.get? key = some stored) :
    Serves (staged faults) ⟨objs, clock, handles, n⟩ (.head key) (.ok stored.info)
      ⟨objs, clock, handles, n + 1⟩ :=
  serves (by rw [hf]; exact head_present h)

lemma serves_head_absent (h : objs.get? key = none) :
    Serves (staged faults) ⟨objs, clock, handles, n⟩ (.head key) (.error .notFound)
      ⟨objs, clock, handles, n + 1⟩ :=
  serves (by rw [hf]; exact head_absent h)

lemma serves_put (h : objs.get? key = none) :
    Serves (staged faults) ⟨objs, clock, handles, n⟩ (.putIfAbsent key body (Sha256.digest body))
      (.ok (.committed (versionAt n)))
      ⟨objs.insert key ⟨body, versionAt n, clock⟩, clock, handles, n + 1⟩ :=
  serves (by rw [hf]; exact put_absent h)

lemma serves_put_present (h : objs.get? key = some stored) :
    Serves (staged faults) ⟨objs, clock, handles, n⟩ (.putIfAbsent key body (Sha256.digest body))
      (.ok .rejected) ⟨objs, clock, handles, n + 1⟩ :=
  serves (by rw [hf]; exact put_present h)

lemma serves_cas (h : objs.get? key = some stored) :
    Serves (staged faults) ⟨objs, clock, handles, n⟩ (.cas key body (Sha256.digest body) stored.version)
      (.ok (.committed (versionAt n)))
      ⟨objs.insert key ⟨body, versionAt n, clock⟩, clock, handles, n + 1⟩ :=
  serves (by rw [hf]; exact cas_match h)

lemma serves_list {pre : Str} {after : Option Str} {limit : Nat} {page : Page}
    (h : listPage objs pre after limit = page) :
    Serves (staged faults) ⟨objs, clock, handles, n⟩ (.list pre after limit) (.ok page)
      ⟨objs, clock, handles, n + 1⟩ :=
  serves (by rw [hf, ← h]; rfl)

lemma serves_delete : Serves (staged faults) ⟨objs, clock, handles, n⟩ (.delete key) (.ok ())
      ⟨objs.erase key, clock, handles, n + 1⟩ :=
  serves (by rw [hf]; rfl)

end Faultless

/-- The run of a call whose operation is evaluated. -/
lemma run_call {σ : Type} {h : Handler Op Res σ} {call : Call} {s s' : σ}
    {out : Except Error Output} {b : Nat}
    (heval : Evals h (call.action.task call.queue) call.budget s out b s') :
    call.prog.run h s = (out, s') := by
  show ((call.action.task call.queue call.budget).map _).run h s = _
  rw [Prog.run_map, heval]

end Handlers

/-! ## Calls that run plainly -/

section Plays

variable [Sha256] {P : Terms} {faults : Nat → Option Fault} {i : Nat} {call : Call} {cfg : Calls}
  {out : Except Error Output} {s s' : Stage}

/-- Where a run stands. -/
def stage (cfg : Calls) : Stage := .of cfg.world

/-- Time passes. -/
def tick (clock : UInt64) (cfg : Calls) : Calls := { cfg with world := cfg.world.outside (.tick clock) }

/-- Call `i` from its start to its end, with nothing in between. -/
def play (faults : Nat → Option Fault) (i : Nat) (call : Call) (cfg : Calls) : Calls :=
  let out := call.prog.run (plainly faults i) (cfg.world.record (.started i call))
  cfg.set out.2 i ⟨call, .ret out.1⟩

/-- Call `i` from its start, for `n` requests. -/
def pause (i : Nat) (call : Call) (n : Nat) (cfg : Calls) : Calls :=
  let mid := call.prog.advance (plainly faultless i) n (cfg.world.record (.started i call))
  cfg.set mid.2 i ⟨call, mid.1⟩

/-- Call `i` goes on to its end. -/
def resume (i : Nat) (cfg : Calls) : Calls :=
  match cfg.threads i with
  | none => cfg
  | some t =>
    let out := t.prog.run (plainly faultless i) cfg.world
    cfg.set out.2 i ⟨t.call, .ret out.1⟩

/-- The return of call `i` is recorded. -/
def finish (i : Nat) (out : Except Error Output) (cfg : Calls) : Calls :=
  { cfg with world := cfg.world.record (.returned i out) }

lemma resume_eq (hthread : cfg.threads i = some ⟨call, p⟩) :
    resume i cfg = cfg.set (p.run (plainly faultless i) cfg.world).2 i
      ⟨call, .ret (p.run (plainly faultless i) cfg.world).1⟩ := by
  unfold resume
  rw [hthread]

/-! Calls whose requests are admitted where they are made. -/

section Checked

lemma alone_plainly {R : Op → World → Prop} (hR : ∀ o w, R o w → P.step w i call o (plain faults w))
    {p' : Prog Op Res (Except Error Output)} {w' : World}
    (halone : Alone (plainly faults i) R p cfg.world p' w') (hthread : cfg.threads i = some ⟨call, p⟩) :
    machine.Run P cfg (cfg.set w' i ⟨call, p'⟩) :=
  Machine.run_alone (fun o w h => ⟨plain faults w, hR o w h, rfl⟩) halone hthread

lemma alone_started {R : Op → World → Prop} (hR : ∀ o w, R o w → P.step w i call o (plain faults w))
    (hadm : P.start cfg i call) (hfree : cfg.threads i = none) {p' : Prog Op Res (Except Error Output)} {w' : World}
    (halone : Alone (plainly faults i) R call.prog (cfg.world.record (.started i call)) p' w') :
    machine.Run P cfg (cfg.set w' i ⟨call, p'⟩) := by
  have hrun : machine.Run P (cfg.set (cfg.world.record (.started i call)) i ⟨call, call.prog⟩) _ :=
    alone_plainly hR halone (Config.set_threads_self _ _ _ _)
  rw [Machine.set_set] at hrun
  exact (Machine.run_start i call hfree hadm rfl).trans hrun

variable (Q : Op → World → Bool)

lemma run_checked (hQ : ∀ o w, Q o w = true → P.step w i call o (plain faults w))
    (hadm : P.start cfg i call) (hfree : cfg.threads i = none)
    (hmet : (call.prog.run (guarded (plainly faults i) Q) (cfg.world.record (.started i call), true)).2.2 = true) :
    machine.Run P cfg (play faults i call cfg) :=
  alone_started hQ hadm hfree (Alone.run_guarded _ _ hmet).2

lemma pause_checked (hQ : ∀ o w, Q o w = true → P.step w i call o (plain faultless w))
    (hadm : P.start cfg i call) (hfree : cfg.threads i = none)
    (hmet : (call.prog.advance (guarded (plainly faultless i) Q) n (cfg.world.record (.started i call), true)).2.2 = true) :
    machine.Run P cfg (pause i call n cfg) :=
  alone_started hQ hadm hfree (Alone.advance_guarded _ n _ hmet).2

lemma resume_checked (hthread : cfg.threads i = some ⟨call, p⟩)
    (hQ : ∀ o w, Q o w = true → P.step w i call o (plain faultless w))
    (hmet : (p.run (guarded (plainly faultless i) Q) (cfg.world, true)).2.2 = true) :
    machine.Run P cfg (resume i cfg) := by
  rw [resume_eq hthread]
  exact alone_plainly hQ (Alone.run_guarded _ _ hmet).2 hthread

end Checked

/-- A call whose requests are admitted at any world may run plainly. -/
lemma answers_plainly (call : Call) (hstep : ∀ o w, P.step w i call o (plain faults w)) :
    Machine.Answers machine P i call (fun _ => True) (fun _ => True) (plainly faults i) :=
  ⟨fun o w _ _ => ⟨plain faults w, hstep o w, rfl⟩, fun _ _ _ _ => trivial⟩

section Admitted

variable {A : Op → Prop} {J : World → Prop}

lemma run_begun (hans : Machine.Answers machine P i call A J (plainly faults i)) (hp : call.prog.Emits A)
    (hJ : J (cfg.world.record (.started i call))) :
    machine.Run P (cfg.set (cfg.world.record (.started i call)) i ⟨call, call.prog⟩) (play faults i call cfg) ∧
      J (play faults i call cfg).world := by
  have hsolo := Machine.run_solo hans hp
    (Config.set_threads_self cfg (cfg.world.record (.started i call)) i ⟨call, call.prog⟩) hJ
  rw [Config.set_world, Machine.set_set] at hsolo
  exact ⟨hsolo, hans.run_keeps hp hJ⟩

lemma run_play (hans : Machine.Answers machine P i call A J (plainly faults i)) (hp : call.prog.Emits A)
    (hadm : P.start cfg i call) (hfree : cfg.threads i = none) (hJ : J (cfg.world.record (.started i call))) :
    machine.Run P cfg (play faults i call cfg) ∧ J (play faults i call cfg).world :=
  have hrun := run_begun hans hp hJ
  ⟨(Machine.run_start i call hfree hadm rfl).trans hrun.1, hrun.2⟩

lemma run_halted (n : Nat) (hans : Machine.Answers machine P i call A J (plainly faultless i))
    (hp : call.prog.Emits A) (hJ : J (cfg.world.record (.started i call))) :
    machine.Run P (cfg.set (cfg.world.record (.started i call)) i ⟨call, call.prog⟩) (pause i call n cfg) ∧
      J (pause i call n cfg).world := by
  have hsome := Machine.run_advance hans hp n
    (Config.set_threads_self cfg (cfg.world.record (.started i call)) i ⟨call, call.prog⟩) hJ
  rw [Config.set_world, Machine.set_set] at hsome
  exact ⟨hsome, hans.advance_keeps hp n hJ⟩

lemma run_pause (n : Nat) (hans : Machine.Answers machine P i call A J (plainly faultless i))
    (hp : call.prog.Emits A) (hadm : P.start cfg i call) (hfree : cfg.threads i = none)
    (hJ : J (cfg.world.record (.started i call))) :
    machine.Run P cfg (pause i call n cfg) ∧ J (pause i call n cfg).world :=
  have hrun := run_halted n hans hp hJ
  ⟨(Machine.run_start i call hfree hadm rfl).trans hrun.1, hrun.2⟩

lemma run_resume (hthread : cfg.threads i = some ⟨call, p⟩)
    (hans : Machine.Answers machine P i call A J (plainly faultless i)) (hp : p.Emits A) (hJ : J cfg.world) :
    machine.Run P cfg (resume i cfg) ∧ J (resume i cfg).world := by
  rw [resume_eq hthread]
  exact ⟨Machine.run_solo hans hp hthread hJ, hans.run_keeps hp hJ⟩

end Admitted

/-! The same for calls whose requests are admitted at any world. -/

lemma solo_plainly (hstep : ∀ o w, P.step w i call o (plain faults w)) : machine.Run P
    (cfg.set (cfg.world.record (.started i call)) i ⟨call, call.prog⟩) (play faults i call cfg) :=
  (run_begun (answers_plainly call hstep) (.any call.prog) trivial).1

lemma run_plainly (hadm : P.start cfg i call) (hstep : ∀ o w, P.step w i call o (plain faults w))
    (hfree : cfg.threads i = none) : machine.Run P cfg (play faults i call cfg) :=
  (run_play (answers_plainly call hstep) (.any call.prog) hadm hfree trivial).1

lemma pause_plainly (n : Nat) (hadm : P.start cfg i call) (hstep : ∀ o w, P.step w i call o (plain faultless w))
    (hfree : cfg.threads i = none) : machine.Run P cfg (pause i call n cfg) :=
  (run_pause n (answers_plainly call hstep) (.any call.prog) hadm hfree trivial).1

lemma resume_plainly (hthread : cfg.threads i = some ⟨call, p⟩)
    (hstep : ∀ o w, P.step w i call o (plain faultless w)) : machine.Run P cfg (resume i cfg) :=
  (run_resume hthread (answers_plainly call hstep) (.any p) trivial).1

lemma run_finish (hret : cfg.Returned i call out) (hfirst : cfg.world.hasReturned i = false) :
    machine.Run P cfg (finish i out cfg) :=
  .single (.finish i call out _ hret (if_neg (by simp [hfirst])))

lemma run_tick (hadm : P.env cfg.world (.tick clock)) : machine.Run P cfg (tick clock cfg) :=
  .single (.env (.tick clock) _ hadm rfl)

lemma play_returned (hout : (call.prog.run (plainly faults i) (cfg.world.record (.started i call))).1 = out) :
    (play faults i call cfg).Returned i call out :=
  hout ▸ Config.set_threads_self _ _ _ _

lemma resume_returned (hthread : cfg.threads i = some ⟨call, p⟩)
    (hout : (p.run (plainly faultless i) cfg.world).1 = out) : (resume i cfg).Returned i call out := by
  rw [resume_eq hthread, hout]
  exact Config.set_threads_self _ _ _ _

lemma pause_threads_self : (pause i call n cfg).threads i =
    some ⟨call, (call.prog.advance (plainly faultless i) n (cfg.world.record (.started i call))).1⟩ :=
  Config.set_threads_self _ _ _ _

lemma pause_thread (i : Nat) (cfg : Calls) {A : Op → Prop} (hp : call.prog.Emits A) (n : Nat) :
    ∃ p, (pause i call n cfg).threads i = some ⟨call, p⟩ ∧ p.Emits A :=
  ⟨_, pause_threads_self, hp.advance n _⟩

@[simp] lemma play_threads (hne : j ≠ i) : (play faults i call cfg).threads j = cfg.threads j :=
  Config.set_threads_ne _ _ _ hne

@[simp] lemma resume_threads (hne : j ≠ i) : (resume i cfg).threads j = cfg.threads j := by
  unfold resume
  split
  · rfl
  · exact Config.set_threads_ne _ _ _ hne

@[simp] lemma pause_threads (hne : j ≠ i) : (pause i call n cfg).threads j = cfg.threads j :=
  Config.set_threads_ne _ _ _ hne

omit [Sha256] in
lemma tick_at (hat : stage cfg = s) :
    stage (tick clock cfg) = ⟨s.objects, max s.clock clock, s.handles, s.count⟩ := by
  subst hat
  rfl

lemma play_at (hat : stage cfg = s) (hrun : call.prog.run (staged faults) s.next = (out, s')) :
    stage (play faults i call cfg) = s' ∧ (play faults i call cfg).Returned i call out := by
  subst hat
  have hplain := Prog.run_abstract (staged_of faults i) call.prog (cfg.world.record (.started i call))
  obtain ⟨hout, hend⟩ := Prod.mk.inj (hrun.symm.trans hplain)
  refine ⟨hend.symm, ?_⟩
  rw [hout]
  exact Config.set_threads_self _ _ _ _

/-- A call that is stopped at `s1`, where something else leads to `s2`, and then goes on to its end. -/
lemma pause_at (i : Nat) (cfg : Calls) {s1 s2 : Stage} (hat : stage cfg = s)
    (hrun : call.prog.run (interrupted (staged faultless) fun _ => s2) ⟨s.next, n + 1, none⟩ =
      (out, ⟨s', 0, some s1⟩)) :
    stage (pause i call (n + 1) cfg) = s1 ∧ ∀ cfg', stage cfg' = s2 →
      cfg'.threads i = (pause i call (n + 1) cfg).threads i →
        stage (resume i cfg') = s' ∧ (resume i cfg').Returned i call out := by
  subst hat
  have hsplit := run_interrupted (staged faultless) (fun _ => s2) call.prog n (stage cfg).next (by rw [hrun])
  have hplain := Prog.advance_abstract (staged_of faultless i) call.prog (n + 1)
    (cfg.world.record (.started i call))
  rw [hrun, show (stage cfg).next = .of (cfg.world.record (.started i call)) from rfl, hplain] at hsplit
  simp only [Prod.mk.injEq, Watched.mk.injEq, Option.some.injEq, true_and] at hsplit
  obtain ⟨hout, hend, hstop⟩ := hsplit
  refine ⟨hstop.symm, fun cfg' hat' hthread => ?_⟩
  subst hat'
  have hrest := Prog.run_abstract (staged_of faultless i)
    (call.prog.advance (plainly faultless i) (n + 1) (cfg.world.record (.started i call))).1 cfg'.world
  rw [stage, hrest] at hout hend
  rw [resume_eq (hthread.trans (Config.set_threads_self _ _ _ _))]
  refine ⟨hend.symm, ?_⟩
  rw [hout]
  exact Config.set_threads_self _ _ _ _

/-- A call that is stopped before a request of its program. -/
lemma pause_stops (i : Nat) (hat : stage cfg = s)
    (hstop : call.prog.advance (staged faultless) n s.next = (p, s')) :
    stage (pause i call n cfg) = s' ∧ (pause i call n cfg).threads i = some ⟨call, p⟩ := by
  subst hat
  have hplain := Prog.advance_abstract (staged_of faultless i) call.prog n (cfg.world.record (.started i call))
  obtain ⟨rfl, hend⟩ := Prod.mk.inj (hstop.symm.trans hplain)
  exact ⟨hend.symm, Config.set_threads_self _ _ _ _⟩

/-- A program makes no store request, or logs its only one, or makes more. -/
lemma run_logs (faults : Nat → Option Fault) (i : Nat) (p : Prog Op Res (Except Error Output)) (w : World) :
    let w' := (p.run (plainly faults i) w).2
    (w'.log = w.log ∧ w'.objects = w.objects) ∨
      (∃ r answer, w'.log = .did i r answer w.objects w'.objects :: w.log) ∨ w.log.length + 2 ≤ w'.log.length := by
  induction p generalizing w with
  | ret a => exact .inl ⟨rfl, rfl⟩
  | amb k ih => exact ih true w
  | op o k ih =>
    cases o with
    | store r =>
      rcases ih (plainly faults i (.store r) w).1 (plainly faults i (.store r) w).2 with
        ⟨hlog, hobjs⟩ | ⟨r', answer, hlog⟩ | hlog
      · exact .inr (.inl ⟨r, _, hlog.trans (congrArg (Event.did i r _ w.objects · :: w.log) hobjs.symm)⟩)
      · exact .inr (.inr (congrArg List.length hlog).ge)
      · exact .inr (.inr (Nat.le_of_succ_le hlog))
    | _ => exact ih _ _

lemma resume_logs (hthread : cfg.threads i = some ⟨call, p⟩)
    (hcount : (stage (resume i cfg)).count = (stage cfg).count + 1) : ∃ r answer, (resume i cfg).world.log =
        .did i r answer (stage cfg).objects (stage (resume i cfg)).objects :: cfg.world.log := by
  rw [resume_eq hthread] at hcount ⊢
  rcases run_logs faultless i p cfg.world with ⟨hlog, -⟩ | hlog | hlog
  · exact absurd (hcount.symm.trans (congrArg List.length hlog)) (Nat.succ_ne_self _)
  · exact hlog
  · exact absurd hcount (Nat.ne_of_gt hlog)

lemma play_logs (faults : Nat → Option Fault) (i : Nat) (call : Call) (cfg : Calls)
    (hcount : (stage (play faults i call cfg)).count = (stage cfg).count + 2) :
    ∃ r answer, (play faults i call cfg).world.log =
      .did i r answer (stage cfg).objects (stage (play faults i call cfg)).objects ::
        .started i call :: cfg.world.log := by
  rcases run_logs faults i call.prog (cfg.world.record (.started i call)) with
    ⟨hlog, -⟩ | hlog | hlog
  · exact absurd (hcount.symm.trans (congrArg List.length hlog)) (Nat.succ_ne_self _)
  · exact hlog
  · exact absurd hcount (Nat.ne_of_gt hlog)

attribute [irreducible] play pause resume

end Plays

/-! ## A small queue -/

/-- A queue with one shard, bucket widths of one, and tail hints off. -/
def demo : Queue where
  handle := 0
  root := ['q', '/']
  opts :=
    { queueId := List.Vector.replicate 16 0
      workerId := []
      retry := ⟨1, 1, false, none, by decide⟩
      skewGuardNs := 0
      maxInlinePayload := 64
      workerIdFits := by decide }
  format := ⟨1, 1, 1, 1, 64, 0⟩
  accepted := rfl

/-- A job of that queue. -/
def jobZero : ByteArr 16 := List.Vector.replicate 16 0

/-- A request to enqueue it for a number of attempts, with an empty payload. -/
def demoInput (attempts : UInt64) : EnqueueInput where
  jobId := some jobZero
  payload := []
  contentType := []
  maximumAttempts := attempts
  notBeforeNs := none
  payloadFits := by decide
  contentTypeFits := by decide

/-! The keys of the job. -/

def jobKey : Str := demo.absolute (.job 0 jobZero)

def receiptKey : Str := demo.absolute (.receipt 0 jobZero)

def deadKey : Str := demo.absolute (.dead 0 jobZero)

def claimKey (g : UInt32) : Str := demo.absolute (.claim 0 jobZero g)

def leaseKey (bucket : UInt64) (g : UInt32) : Str := demo.absolute (.leaseIndex bucket 0 jobZero g)

/-! Claims are stored under keys of their own. -/

@[simp] lemma claimKey_inj {g g' : UInt32} : claimKey g = claimKey g' ↔ g = g' := by
  refine ⟨fun h => ?_, congrArg claimKey⟩
  cases demo.site.absolute_inj.mp h
  rfl

@[simp] lemma claimKey_ne_jobKey (g : UInt32) : claimKey g ≠ jobKey :=
  fun h => by cases demo.site.absolute_inj.mp h

@[simp] lemma claimKey_ne_deadKey (g : UInt32) : claimKey g ≠ deadKey :=
  fun h => by cases demo.site.absolute_inj.mp h

@[simp] lemma claimKey_ne_leaseKey (g g' : UInt32) (bucket : UInt64) : claimKey g ≠ leaseKey bucket g' :=
  fun h => by cases demo.site.absolute_inj.mp h

/-- The enqueue of the job. -/
def enqueue (attempts : UInt64) : Call := ⟨demo, .enqueue (demoInput attempts), 2⟩

/-- A request to enqueue the job with a payload that is not inlined. -/
def largeInput : EnqueueInput where
  jobId := some jobZero
  payload := List.replicate 65 0
  contentType := []
  maximumAttempts := 1
  notBeforeNs := none
  payloadFits := by decide
  contentTypeFits := (demoInput 1).contentTypeFits

/-- A claim scan of the shard. -/
def claiming (floorNs leaseNs : UInt64) : Call := ⟨demo, .claim ⟨0, floorNs, leaseNs⟩, 20⟩

/-- A store without objects. -/
def blank (clock : UInt64) : World where
  objects := OrderedMap.empty
  clock := clock
  handles := fun _ => {}
  log := []

section Demo

variable [Sha256]

lemma shardOf_demo (jobId : ByteArr 16) : demo.shardOf jobId = 0 := by
  have htz : Keys.trailingZeros (max demo.format.shardCount 1) = 0 := by decide
  simp [Queue.shardOf, Keys.computeShard, htz]

omit [Sha256] in
lemma bucket_demo (expiry : UInt64) : Math.bucketNumber expiry demo.format.leaseBucketWidthNs = some expiry := by
  rw [Math.bucketNumber_isSome (by decide)]
  exact congrArg some (UInt64.toNat_inj.mp (by simp [demo]))

/-- The record of the job. -/
def jobBody (attempts : UInt64) : Bytes :=
  demo.encodeAt (.job 0 jobZero) (.job (demo.jobRecord (demoInput attempts) jobZero))

lemma decode_jobBody (attempts : UInt64) : demo.decodeAt (.job 0 jobZero) (jobBody attempts) =
    .ok (.job (demo.jobRecord (demoInput attempts) jobZero)) :=
  decode_encode (.job _) (demo.jobRecord_wellFormed _ _) _ _

/-- The enqueue of the job under a free id: one request. -/
lemma run_enqueue {attempts : UInt64} {objs : Objects} {handles : Nat → HandleState}
    (hattempts : attempts ≠ 0) (habsent : objs.get? jobKey = none) :
    (enqueue attempts).prog.run (staged faultless) ⟨objs, clock, handles, n⟩ = (.ok (.enqueue (.committed jobZero)),
        ⟨objs.insert jobKey ⟨jobBody attempts, versionAt n, clock⟩, clock, handles, n + 1⟩) := by
  have heval : Evals (staged faultless) (demo.enqueue (demoInput attempts)) 2 ⟨objs, clock, handles, n⟩ _ 0 _ :=
    evals_enqueue hattempts rfl (shardOf_demo jobZero) rfl (evals_placePayload_inline rfl) (serves_put rfl habsent)
  exact run_call (heval.bind (Evals.pure _))

end Demo

end Scenario
end StowQ
