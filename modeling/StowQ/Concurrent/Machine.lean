import StowQ.Concurrent.RelyGuarantee
import Mathlib.Logic.Relation

/-!
# Interleaved calls over a shared world

A `Machine` gives requests an executable meaning.  `exec i o c w` is the effect
of request `o` issued by call number `i`, where `c : C` collects everything the
outside decides (a fault, a timestamp, a random draw); `none` means that the
outside cannot decide so.  A `Config` holds the world and every call started so
far with the program it still has to run; a finished call keeps its value, and
`finish` records its return in the world.

A `Profile` restricts the outside: which calls may start, which choices are
possible, which spontaneous events may happen.  `Machine.Step` is one atomic
step of the interleaving and `Machine.Run` any finite sequence of them.  A call
that is never scheduled again is a crashed call.

`Obligations` collects what has to be shown about each call separately;
`Obligations.run_good` concludes about every interleaving.
-/

namespace StowQ
namespace Concurrent

/-- The executable meaning of requests, of spontaneous events, and of calls. -/
structure Machine (W Op : Type) (Res : Op → Type) (C E Call Out : Type) where
  exec : Nat → (o : Op) → C → W → Option (Res o × W)
  env : E → W → Option W
  start : Nat → Call → W → Option W
  finish : Nat → Out → W → Option W
  prog : Call → Prog Op Res Out

/-- A started call and what is left of its program. -/
structure Thread (Op : Type) (Res : Op → Type) (Call Out : Type) where
  call : Call
  prog : Prog Op Res Out

/-- The world together with all calls started so far. -/
structure Config (W Op : Type) (Res : Op → Type) (Call Out : Type) where
  world : W
  threads : Nat → Option (Thread Op Res Call Out)

variable {W Op C E Call Out : Type} {Res : Op → Type}

namespace Config

/-- Replace the world and one thread. -/
def set (cfg : Config W Op Res Call Out) (w : W) (i : Nat) (t : Thread Op Res Call Out) :
    Config W Op Res Call Out where
  world := w
  threads := Function.update cfg.threads i (some t)

/-- Call `i` has returned `out`. -/
def Returned (cfg : Config W Op Res Call Out) (i : Nat) (call : Call) (out : Out) : Prop :=
  cfg.threads i = some ⟨call, .ret out⟩

@[simp] lemma set_world (cfg : Config W Op Res Call Out) (w : W) (i : Nat)
    (t : Thread Op Res Call Out) : (cfg.set w i t).world = w := rfl

@[simp] lemma set_threads_self (cfg : Config W Op Res Call Out) (w : W) (i : Nat)
    (t : Thread Op Res Call Out) : (cfg.set w i t).threads i = some t := by
  simp [set]

lemma set_threads_ne (cfg : Config W Op Res Call Out) (w : W) {i j : Nat}
    (t : Thread Op Res Call Out) (h : j ≠ i) :
    (cfg.set w i t).threads j = cfg.threads j := by
  simp [set, h]

end Config

/-- What the outside is allowed to do. -/
structure Profile (W Op : Type) (Res : Op → Type) (C E Call Out : Type) where
  start : Config W Op Res Call Out → Nat → Call → Prop
  step : W → Nat → Call → Op → C → Prop
  env : W → E → Prop

namespace Machine

variable (M : Machine W Op Res C E Call Out) (P : Profile W Op Res C E Call Out)

/-- One atomic step of the interleaving. -/
inductive Step : Config W Op Res Call Out → Config W Op Res Call Out → Prop
  | start {cfg} (i : Nat) (call : Call) (w' : W) (hfree : cfg.threads i = none)
      (hadm : P.start cfg i call) (hrun : M.start i call cfg.world = some w') :
      Step cfg (cfg.set w' i ⟨call, M.prog call⟩)
  | step {cfg} (i : Nat) (call : Call) (o : Op) (k : Res o → Prog Op Res Out) (c : C)
      (r : Res o) (w' : W) (hthread : cfg.threads i = some ⟨call, .op o k⟩)
      (hadm : P.step cfg.world i call o c) (hrun : M.exec i o c cfg.world = some (r, w')) :
      Step cfg (cfg.set w' i ⟨call, k r⟩)
  | choose {cfg} (i : Nat) (call : Call) (k : Bool → Prog Op Res Out) (b : Bool)
      (hthread : cfg.threads i = some ⟨call, .amb k⟩) :
      Step cfg (cfg.set cfg.world i ⟨call, k b⟩)
  | finish {cfg} (i : Nat) (call : Call) (out : Out) (w' : W) (hret : cfg.Returned i call out)
      (hrun : M.finish i out cfg.world = some w') :
      Step cfg { cfg with world := w' }
  | env {cfg} (e : E) (w' : W) (hadm : P.env cfg.world e)
      (hrun : M.env e cfg.world = some w') :
      Step cfg { cfg with world := w' }

/-- Any finite interleaving. -/
def Run : Config W Op Res Call Out → Config W Op Res Call Out → Prop :=
  Relation.ReflTransGen (Step M P)

lemma Run.mono {M : Machine W Op Res C E Call Out} {P P' : Profile W Op Res C E Call Out}
    (hstart : ∀ cfg i call, P.start cfg i call → P'.start cfg i call)
    (hstep : ∀ w i call o c, P.step w i call o c → P'.step w i call o c)
    (henv : ∀ w e, P.env w e → P'.env w e) {cfg cfg' : Config W Op Res Call Out}
    (h : M.Run P cfg cfg') : M.Run P' cfg cfg' := by
  refine Relation.ReflTransGen.mono (fun a b hab => ?_) _ _ h
  cases hab with
  | start i call w' hfree hadm hrun => exact .start i call w' hfree (hstart _ _ _ hadm) hrun
  | step i call o k c r w' hthread hadm hrun =>
    exact .step i call o k c r w' hthread (hstep _ _ _ _ _ hadm) hrun
  | choose i call k b hthread => exact .choose i call k b hthread
  | finish i call out w' hret hrun => exact .finish i call out w' hret hrun
  | env e w' hadm hrun => exact .env e w' (henv _ _ hadm) hrun

/-- The configuration in which nothing has started. -/
def initial (w : W) : Config W Op Res Call Out where
  world := w
  threads := fun _ => none

/-- The service that call `i` sees: the answers the profile admits. -/
def service (inv : W → Prop) (i : Nat) (call : Call) : Service W Op Res where
  answers o w r w' := ∃ c, P.step w i call o c ∧ M.exec i o c w = some (r, w')
  inv := inv

end Machine

/-- The per-call proof obligations from which safety of every run follows. -/
structure Obligations (M : Machine W Op Res C E Call Out) (P : Profile W Op Res C E Call Out)
    (inv : W → Prop) (rely : Nat → Call → Rely W) (guar : Nat → Call → W → W → Prop)
    (post : Nat → Call → Out → W → Prop) : Prop where
  /-- A starting call keeps the invariant, disturbs no other call, and is safe. -/
  start : ∀ (cfg : Config W Op Res Call Out) (i : Nat) (call : Call) (w' : W),
    inv cfg.world → (∀ j call' out, cfg.Returned j call' out → post j call' out cfg.world) →
    P.start cfg i call → M.start i call cfg.world = some w' →
    inv w' ∧ (∀ j call', j ≠ i → (rely j call').rel cfg.world w') ∧
      Safe (M.service P inv i call) (rely i call) (guar i call) (M.prog call) (post i call) w'
  /-- The record of a return keeps the invariant, the rely of every other call, and what the
  returned call established. -/
  finish : ∀ (i : Nat) (out : Out) (w w' : W), inv w → M.finish i out w = some w' →
    inv w' ∧ (∀ j call', j ≠ i → (rely j call').rel w w') ∧
      ∀ call, Safe (M.service P inv i call) (rely i call) (guar i call) (.ret out) (post i call) w →
        Safe (M.service P inv i call) (rely i call) (guar i call) (.ret out) (post i call) w'
  /-- Spontaneous events keep the invariant and every rely. -/
  env : ∀ (w : W) (e : E) (w' : W), inv w → P.env w e → M.env e w = some w' →
    inv w' ∧ ∀ j call', (rely j call').rel w w'
  /-- Distinct calls tolerate each other's steps. -/
  compat : ∀ (i : Nat) (call : Call) (j : Nat) (call' : Call) (w w' : W), i ≠ j →
    inv w → inv w' → guar i call w w' → (rely j call').rel w w'

namespace Obligations

variable {M : Machine W Op Res C E Call Out} {P : Profile W Op Res C E Call Out}
  {inv : W → Prop} {rely : Nat → Call → Rely W} {guar : Nat → Call → W → W → Prop}
  {post : Nat → Call → Out → W → Prop} {cfg cfg' : Config W Op Res Call Out}

/-- The invariant of the interleaving: the world's invariant, and the safety of
what every call still has to run. -/
def Good (M : Machine W Op Res C E Call Out) (P : Profile W Op Res C E Call Out)
    (inv : W → Prop) (rely : Nat → Call → Rely W) (guar : Nat → Call → W → W → Prop)
    (post : Nat → Call → Out → W → Prop) (cfg : Config W Op Res Call Out) : Prop :=
  inv cfg.world ∧ ∀ i t, cfg.threads i = some t →
    Safe (M.service P inv i t.call) (rely i t.call) (guar i t.call) t.prog
      (post i t.call) cfg.world

/-- A returned call's postcondition holds at every good configuration. -/
lemma Good.returned (h : Good M P inv rely guar post cfg) {i : Nat} {call : Call} {out : Out}
    (hret : cfg.Returned i call out) : post i call out cfg.world :=
  h.2 i _ hret cfg.world ((rely i call).refl _) h.1

/-- After thread `i` moved the world from `cfg.world` to `w'`, every other thread
is still safe. -/
lemma good_set (h : Good M P inv rely guar post cfg) {w' : W} {i : Nat}
    {t : Thread Op Res Call Out} (hinv : inv w')
    (hothers : ∀ j call', j ≠ i → (rely j call').rel cfg.world w')
    (hsafe : Safe (M.service P inv i t.call) (rely i t.call) (guar i t.call) t.prog
      (post i t.call) w') :
    Good M P inv rely guar post (cfg.set w' i t) := by
  refine ⟨hinv, fun j t' ht' => ?_⟩
  by_cases hj : j = i
  · subst hj
    rw [Config.set_threads_self] at ht'
    cases ht'
    exact hsafe
  · rw [Config.set_threads_ne cfg w' t hj] at ht'
    exact (h.2 j t' ht').later (hothers j t'.call hj)

/-- One step keeps a good configuration good, and moves the world either by the
start of a call, by the guarantee of one call, or by a spontaneous event. -/
lemma step_good (O : Obligations M P inv rely guar post)
    (h : Good M P inv rely guar post cfg) (hstep : M.Step P cfg cfg') :
    Good M P inv rely guar post cfg' := by
  cases hstep with
  | start i call w' hfree hadm hrun =>
    obtain ⟨hinv, hothers, hsafe⟩ := O.start cfg i call w' h.1 (fun _ _ _ hret => h.returned hret) hadm hrun
    exact good_set h hinv hothers hsafe
  | step i call o k c r w' hthread hadm hrun =>
    have hthis := h.2 i _ hthread
    obtain ⟨hinv, hguar, hsafe⟩ := hthis cfg.world ((rely i call).refl _) h.1 r w' ⟨c, hadm, hrun⟩
    refine good_set h hinv (fun j call' hj => ?_) hsafe
    exact O.compat i call j call' _ _ (Ne.symm hj) h.1 hinv hguar
  | choose i call k b hthread =>
    exact good_set h h.1 (fun j call' _ => (rely j call').refl _) (h.2 i _ hthread b)
  | finish i call out w' hret hrun =>
    obtain ⟨hinv, hothers, hown⟩ := O.finish i out cfg.world w' h.1 hrun
    refine ⟨hinv, fun j t ht => ?_⟩
    by_cases hj : j = i
    · subst hj
      cases hret.symm.trans ht
      exact hown call (h.2 j _ hret)
    · exact (h.2 j t ht).later (hothers j t.call hj)
  | env e w' hadm hrun =>
    obtain ⟨hinv, hrely⟩ := O.env cfg.world e w' h.1 hadm hrun
    exact ⟨hinv, fun j t ht => (h.2 j t ht).later (hrely j t.call)⟩

/-- **Every run stays good.** -/
theorem run_good (O : Obligations M P inv rely guar post)
    (h : Good M P inv rely guar post cfg) (hrun : M.Run P cfg cfg') :
    Good M P inv rely guar post cfg' := by
  induction hrun with
  | refl => exact h
  | tail _ hstep ih => exact O.step_good ih hstep

/-- The initial configuration is good as soon as its world satisfies the
invariant. -/
lemma initial_good {w : W} (h : inv w) : Good M P inv rely guar post (Machine.initial w) :=
  ⟨h, nofun⟩

/-- A preorder that contains every rely, every guarantee and every spontaneous event
relates the worlds at the two ends of a run. -/
lemma run_moves (O : Obligations M P inv rely guar post) (moves : Rely W)
    (hrely : ∀ i call w w', (rely i call).rel w w' → moves.rel w w')
    (hguar : ∀ i call w w', guar i call w w' → moves.rel w w')
    (henv : ∀ e w w', inv w → P.env w e → M.env e w = some w' → moves.rel w w')
    (h : Good M P inv rely guar post cfg) (hrun : M.Run P cfg cfg') :
    moves.rel cfg.world cfg'.world := by
  induction hrun with
  | refl => exact moves.refl _
  | tail hbefore hstep ih =>
    have hgood := O.run_good h hbefore
    refine moves.trans ih ?_
    cases hstep with
    | start i call w' hfree hadm hrun =>
      obtain ⟨-, hothers, -⟩ := O.start _ i call w' hgood.1 (fun _ _ _ hret => hgood.returned hret) hadm hrun
      exact hrely (i + 1) call _ w' (hothers (i + 1) call (Nat.succ_ne_self i))
    | step i call o k c r w' hthread hadm hrun =>
      obtain ⟨-, hg, -⟩ := hgood.2 i _ hthread _ ((rely i call).refl _) hgood.1 r w' ⟨c, hadm, hrun⟩
      exact hguar i call _ w' hg
    | choose i call k b hthread => exact moves.refl _
    | finish i call out w' hret hrun =>
      obtain ⟨-, hothers, -⟩ := O.finish i out _ w' hgood.1 hrun
      exact hrely (i + 1) call _ w' (hothers (i + 1) call (Nat.succ_ne_self i))
    | env e w' hadm hrun => exact henv e _ w' hgood.1 hadm hrun

end Obligations

end Concurrent
end StowQ
