import StowQ.Concurrent.Emits
import StowQ.Uniform

/-!
# What the log of a run says

Every request in the log was issued by a call that had started, belongs to the requests
that call can issue at all, and was answered as the terms of the run allow: `run_logged`.
Where nobody else writes, the objects are what the last request of the log left:
`run_chained`.  A key is filled by a create, which is in the log: `Issued.of_fills`.  What
everyone preserves stays: `run_preserved`.
-/

namespace StowQ
namespace Interleaving

open Data StowQ.Core Store Concurrent

variable {cfg cfg' : Calls} {w : World} {key : Str} {log : List Event} {i : Nat} {r : Request}
  {stored : Stored}

variable [Sha256]

/-- The request was issued by a started call, is one that `A` lists for it, and was answered
in a world that the terms admit. -/
structure Issued (P : Terms) (A : Call → Op → Prop) (log : List Event) (i : Nat) (r : Request)
    (answer : StoreResult r.Answer) (before after : Objects) (call : Call) (w : World) (c : Choice) :
    Prop where
  started : .started i call ∈ log
  admitted : ∃ cfg, P.start cfg i call
  listed : A call (.store r)
  step : P.step w i call (.store r) c
  before_eq : w.objects = before
  answered : inject c.fault before c.stamp r = (answer, after)

/-- Every request of the log was issued. -/
def Logged (P : Terms) (A : Call → Op → Prop) (log : List Event) : Prop :=
  ∀ i r answer before after, .did i r answer before after ∈ log →
    ∃ call w c, Issued P A log i r answer before after call w c

variable {P : Terms} {A : Call → Op → Prop}

lemma Issued.cons {answer : StoreResult r.Answer} {before after : Objects} {call : Call} {c : Choice}
    (h : Issued P A log i r answer before after call w c) (e : Event) :
    Issued P A (e :: log) i r answer before after call w c :=
  { h with started := List.mem_cons_of_mem e h.started }

lemma Logged.cons (h : Logged P A log) {e : Event}
    (he : ∀ i r answer before after, e ≠ .did i r answer before after) : Logged P A (e :: log) := by
  intro i r answer before after hmem
  rcases List.mem_cons.mp hmem with heq | hmem
  · exact absurd heq.symm (he i r answer before after)
  · obtain ⟨call, w, c, hissued⟩ := h i r answer before after hmem
    exact ⟨call, w, c, hissued.cons e⟩

/-- The log is right, and every call is in it and stays within its requests. -/
def Accounted (P : Terms) (A : Call → Op → Prop) (cfg : Calls) : Prop :=
  Logged P A cfg.world.log ∧ ∀ i t, cfg.threads i = some t →
    .started i t.call ∈ cfg.world.log ∧ (∃ cfg', P.start cfg' i t.call) ∧ t.prog.Emits (A t.call)

/-- A thread moves on, with or without a new event. -/
lemma Accounted.set (h : Accounted P A cfg) {w' : World} {t : Thread Op Res Call (Except Error Output)}
    (hlog : Logged P A w'.log) (hgrows : ∀ e ∈ cfg.world.log, e ∈ w'.log)
    (ht : .started i t.call ∈ w'.log ∧ (∃ cfg', P.start cfg' i t.call) ∧ t.prog.Emits (A t.call)) :
    Accounted P A (cfg.set w' i t) := by
  refine ⟨hlog, fun j t' ht' => ?_⟩
  by_cases hj : j = i
  · subst hj
    rw [Config.set_threads_self] at ht'
    cases ht'
    exact ht
  · rw [Config.set_threads_ne cfg w' t hj] at ht'
    obtain ⟨hstarted, hrest⟩ := h.2 j t' ht'
    exact ⟨hgrows _ hstarted, hrest⟩

lemma step_accounted (hA : ∀ cfg i call, P.start cfg i call → call.prog.Emits (A call))
    (h : Accounted P A cfg) (hstep : machine.Step P cfg cfg') : Accounted P A cfg' := by
  cases hstep with
  | start i call w' hfree hadm hrun =>
    cases hrun
    apply h.set
    · exact h.1.cons (Event.started_ne_did i call)
    · exact fun e he => List.mem_cons_of_mem _ he
    · exact ⟨List.mem_cons_self, ⟨cfg, hadm⟩, hA cfg i call hadm⟩
  | step i call o k c r w' hthread hadm hrun =>
    obtain ⟨hstarted, hadmitted, hlisted, hrest⟩ := h.2 i _ hthread
    obtain rfl : w' = (cfg.world.exec i o c).2 := (congrArg Prod.snd (Option.some.inj hrun)).symm
    cases o with
    | store r =>
      apply h.set
      · intro i' r' answer before after hmem
        -- the new event, or one that was accounted for before
        rcases List.mem_cons.mp hmem with heq | hmem
        · cases heq
          exact ⟨call, cfg.world, c, List.mem_cons_of_mem _ hstarted, hadmitted, hlisted, hadm, rfl, rfl⟩
        · obtain ⟨call', w, c', hissued⟩ := h.1 i' r' answer before after hmem
          exact ⟨call', w, c', hissued.cons _⟩
      · exact fun e he => List.mem_cons_of_mem _ he
      · exact ⟨List.mem_cons_of_mem _ hstarted, hadmitted, hrest _⟩
    | _ => exact h.set h.1 (fun _ he => he) ⟨hstarted, hadmitted, hrest _⟩
  | choose i call k b hthread =>
    obtain ⟨hstarted, hadmitted, hemits⟩ := h.2 i _ hthread
    exact h.set h.1 (fun _ he => he) ⟨hstarted, hadmitted, hemits b⟩
  | finish i call out w' hret hrun =>
    obtain rfl := finish_eq_some hrun
    refine ⟨h.1.cons (Event.returned_ne_did i out), fun j t ht => ?_⟩
    obtain ⟨hstarted, hrest⟩ := h.2 j t ht
    exact ⟨List.mem_cons_of_mem _ hstarted, hrest⟩
  | env e w' hadm hrun =>
    cases hrun
    cases e <;> exact h

lemma run_accounted (hA : ∀ cfg i call, P.start cfg i call → call.prog.Emits (A call)) (hw : w.log = [])
    (hrun : machine.Run P (Machine.initial w) cfg) : Accounted P A cfg := by
  induction hrun with
  | refl =>
    refine ⟨fun i r answer before after hmem => ?_, nofun⟩
    rw [show (Machine.initial w : Calls).world.log = [] from hw] at hmem
    cases hmem
  | tail _ hstep ih => exact step_accounted hA ih hstep

/-- **Every request of a run is accounted for.** -/
theorem run_logged (hA : ∀ cfg i call, P.start cfg i call → call.prog.Emits (A call)) (hw : w.log = [])
    (hrun : machine.Run P (Machine.initial w) cfg) : Logged P A cfg.world.log :=
  (run_accounted hA hw hrun).1

/-- A start in the log is the start of the call that has the number. -/
lemma run_started (hw : w.log = []) (hrun : machine.Run P (Machine.initial w) cfg) {call : Call}
    (hstarted : .started i call ∈ cfg.world.log) : ∃ p, cfg.threads i = some ⟨call, p⟩ := by
  induction hrun with
  | refl =>
    rw [show (Machine.initial w : Calls).world.log = [] from hw] at hstarted
    cases hstarted
  | @tail cfg1 cfg2 _ hstep ih =>
    -- a thread keeps its call, and a number is taken once
    have hset : ∀ {j : Nat} {call' : Call} {p p' : Prog Op Res (Except Error Output)} {w' : World},
        cfg1.threads j = some ⟨call', p⟩ → .started i call ∈ cfg1.world.log →
        ∃ p'', (cfg1.set w' j ⟨call', p'⟩).threads i = some ⟨call, p''⟩ := by
      intro j call' p p' w' hthread hmem
      obtain ⟨p0, hp0⟩ := ih hmem
      by_cases hi : i = j
      · subst hi
        rw [hthread] at hp0
        cases hp0
        exact ⟨p', Config.set_threads_self _ _ _ _⟩
      · exact ⟨p0, (Config.set_threads_ne _ _ _ hi).trans hp0⟩
    cases hstep with
    | start j call' w' hfree hadm hrun =>
      cases hrun
      rcases List.mem_cons.mp hstarted with heq | hmem
      · cases heq
        exact ⟨_, Config.set_threads_self _ _ _ _⟩
      · obtain ⟨p0, hp0⟩ := ih hmem
        have hi : i ≠ j := by
          rintro rfl
          rw [hfree] at hp0
          cases hp0
        exact ⟨p0, (Config.set_threads_ne _ _ _ hi).trans hp0⟩
    | step j call' o k c r w' hthread hadm hrun =>
      obtain rfl : w' = (World.exec _ j o c).2 := (congrArg Prod.snd (Option.some.inj hrun)).symm
      cases o with
      | store req =>
        rcases List.mem_cons.mp hstarted with heq | hmem
        · cases heq
        · exact hset hthread hmem
      | _ => exact hset hthread hstarted
    | choose j call' k b hthread => exact hset hthread hstarted
    | finish j call' out w' hret hrun =>
      obtain rfl := finish_eq_some hrun
      rcases List.mem_cons.mp hstarted with heq | hmem
      · cases heq
      · exact ih hmem
    | env e w' hadm hrun =>
      cases hrun
      cases e <;> exact ih hstarted

/-- **What every call meets when it starts, and what then lasts, is met by every call.** -/
theorem run_threads {Φ : Calls → Call → Prop} (hstart : ∀ cfg i call, machine.Run P (Machine.initial w) cfg →
      (∀ i t, cfg.threads i = some t → Φ cfg t.call) → P.start cfg i call → Φ cfg call)
    (hlater : ∀ cfg cfg' call, machine.Run P (Machine.initial w) cfg → machine.Step P cfg cfg' →
      Φ cfg call → Φ cfg' call) (hrun : machine.Run P (Machine.initial w) cfg) :
    ∀ i t, cfg.threads i = some t → Φ cfg t.call := by
  induction hrun with
  | refl => exact nofun
  | @tail cfg1 cfg2 hbefore hstep ih =>
    -- a thread keeps its call
    have hset : ∀ {w' : World} {j : Nat} {call : Call} {p p' : Prog Op Res (Except Error Output)},
        cfg1.threads j = some ⟨call, p⟩ → ∀ i t, (cfg1.set w' j ⟨call, p'⟩).threads i = some t →
        Φ cfg1 t.call := by
      intro w' j call p p' hthread i t ht
      by_cases hi : i = j
      · subst hi
        rw [Config.set_threads_self] at ht
        cases ht
        exact ih i ⟨call, p⟩ hthread
      · rw [Config.set_threads_ne _ _ _ hi] at ht
        exact ih i t ht
    intro i t ht
    apply hlater cfg1 cfg2 t.call hbefore hstep
    cases hstep with
    | start j call w' hfree hadm hrun =>
      by_cases hi : i = j
      · subst hi
        rw [Config.set_threads_self] at ht
        cases ht
        exact hstart cfg1 i call hbefore ih hadm
      · rw [Config.set_threads_ne _ _ _ hi] at ht
        exact ih i t ht
    | step j call o k choice r w' hthread hadm hrun => exact hset hthread i t ht
    | choose j call k b hthread => exact hset hthread i t ht
    | finish j call out w' hret hrun => exact ih i t ht
    | env e w' hadm hrun => exact ih i t ht

/-! ## Creations -/

/-- The request found the key absent and left it present. -/
def Fills (key : Str) : Event → Prop
  | .did _ _ _ before after => before.get? key = none ∧ after.get? key ≠ none
  | _ => False

instance (key : Str) : DecidablePred (Fills key)
  | .did _ _ _ before after => inferInstanceAs (Decidable (before.get? key = none ∧ after.get? key ≠ none))
  | .started _ _ | .returned _ _ => inferInstanceAs (Decidable False)

omit [Sha256] in
/-- The newest event of a log fills the key. -/
lemma exists_of_head? (h : ∃ e ∈ log.head?, Fills key e) : ∃ e earlier, log = e :: earlier ∧ Fills key e := by
  obtain ⟨e, hhead, hfills⟩ := h
  obtain ⟨earlier, rfl⟩ := List.head?_eq_some_iff.mp hhead
  exact ⟨e, earlier, rfl, hfills⟩

/-- The request found the key present and left it absent. -/
def Empties (key : Str) : Event → Prop
  | .did _ _ _ before after => before.get? key ≠ none ∧ after.get? key = none
  | _ => False

lemma eq_put_of_fills {c : Choice} (hbefore : w.objects.get? key = none)
    (hafter : (inject c.fault w.objects c.stamp r).2.get? key ≠ none) :
    ∃ body, r = .putIfAbsent key body (Sha256.digest body) ∧ (inject c.fault w.objects c.stamp r).2 =
        w.objects.insert key ⟨body, c.stamp.version, c.stamp.timeNs⟩ := by
  have hchange := inject_change c.fault w.objects c.stamp r
  generalize (inject c.fault w.objects c.stamp r).2 = objs at hchange hafter
  cases hchange with
  | same => exact absurd hbefore hafter
  | created key' body hreq habsent =>
    by_cases hkey : key = key'
    · subst hkey
      exact ⟨body, hreq, rfl⟩
    · rw [OrderedMap.get?_insert_of_ne _ _ hkey] at hafter
      exact absurd hbefore hafter
  | replaced key' body old hreq hpresent =>
    have hkey : key ≠ key' := by
      rintro rfl
      rw [hbefore] at hpresent
      cases hpresent
    rw [OrderedMap.get?_insert_of_ne _ _ hkey] at hafter
    exact absurd hbefore hafter
  | removed key' hreq =>
    rw [OrderedMap.get?_erase] at hafter
    split at hafter
    · exact absurd rfl hafter
    · exact absurd hbefore hafter

/-- An event that fills a key is a create, issued by a call that may issue it. -/
lemma Issued.of_fills {P : Terms} {A : Call → Op → Prop} {e : Event} (h : Logged P A log) (he : e ∈ log)
    (hfills : Fills key e) :
    ∃ i call w c body answer after, e = .did i (.putIfAbsent key body (Sha256.digest body)) answer
        w.objects after ∧
      Issued P A log i (.putIfAbsent key body (Sha256.digest body)) answer w.objects after call w c ∧
      after = w.objects.insert key ⟨body, c.stamp.version, c.stamp.timeNs⟩ := by
  cases e with
  | started i call => exact hfills.elim
  | returned i out => exact hfills.elim
  | did i r answer before after =>
    obtain ⟨call, w, c, hissued⟩ := h i r answer before after he
    obtain ⟨hbefore, hafter⟩ := hfills
    obtain rfl := hissued.before_eq
    have heffect : (inject c.fault w.objects c.stamp r).2 = after := congrArg Prod.snd hissued.answered
    obtain ⟨body, rfl, hobjs⟩ := eq_put_of_fills hbefore (heffect ▸ hafter)
    exact ⟨i, call, w, c, body, answer, after, rfl, hissued, heffect.symm.trans hobjs⟩

/-- What the outside does to other keys than `key`. -/
def Spares (key : Str) : Outside → Prop
  | .tick _ => True
  | .write key' _ | .delete key' => key' ≠ key

omit [Sha256] in
lemma get?_of_spares {e : Outside} (he : Spares key e) : (w.outside e).objects.get? key = w.objects.get? key := by
  cases e with
  | tick clock => rfl
  | write key' stored => exact OrderedMap.get?_insert_of_ne _ _ (Ne.symm he)
  | delete key' => exact OrderedMap.get?_erase_of_ne _ (Ne.symm he)

/-- **A key that nobody deletes** is present exactly if the log fills it. -/
theorem run_filled_iff
    (hA : ∀ cfg i call, P.start cfg i call → call.prog.Emits fun o => o ≠ .store (.delete key))
    (henv : ∀ w e, P.env w e → Spares key e) (hw : w.log = []) (habsent : w.objects.get? key = none)
    (hrun : machine.Run P (Machine.initial w) cfg) :
    cfg.world.objects.get? key ≠ none ↔ ∃ e ∈ cfg.world.log, Fills key e := by
  induction hrun with
  | refl =>
    show w.objects.get? key ≠ none ↔ ∃ e ∈ w.log, Fills key e
    simp [hw, habsent]
  | @tail cfg1 cfg2 hbefore hstep ih =>
    have haccounted := run_accounted (A := fun _ o => o ≠ .store (.delete key)) hA hw hbefore
    have hquiet : ∀ e : Event, (∀ i r answer before after, e ≠ .did i r answer before after) →
        (cfg1.world.objects.get? key ≠ none ↔ ∃ e' ∈ e :: cfg1.world.log, Fills key e') := by
      intro e he
      rw [ih]
      constructor
      · rintro ⟨e', hmem, hfills⟩
        exact ⟨e', List.mem_cons_of_mem _ hmem, hfills⟩
      · rintro ⟨e', hmem, hfills⟩
        rcases List.mem_cons.mp hmem with rfl | hmem
        · cases e' with
          | did i r answer before after => exact absurd rfl (he i r answer before after)
          | _ => exact hfills.elim
        · exact ⟨e', hmem, hfills⟩
    cases step_happens hstep with
    | noted e he hworld =>
      rw [hworld]
      exact hquiet e he
    | asked i call r k c hthread hadm hcfg =>
      -- a request keeps the key if it was there, and otherwise logs its creation
      have hkeeps : r ≠ .delete key := fun h => (haccounted.2 i _ hthread).2.2.1 (congrArg Op.store h)
      rw [hcfg]
      constructor
      · intro hpresent
        by_cases hold : cfg1.world.objects.get? key = none
        · exact ⟨_, List.mem_cons_self, hold, hpresent⟩
        · obtain ⟨e, hmem, hfills⟩ := ih.mp hold
          exact ⟨e, List.mem_cons_of_mem _ hmem, hfills⟩
      · rintro ⟨e, hmem, hfills⟩
        rcases List.mem_cons.mp hmem with rfl | hmem
        · exact hfills.2
        · exact present_of_inject (ih.mpr ⟨e, hmem, hfills⟩) hkeeps
    | moved e hadm hworld =>
      rw [hworld, get?_of_spares (henv _ e hadm), World.outside_log]
      exact ih
    | silent hobjs hlog =>
      rw [hobjs, hlog]
      exact ih

/-! ## Objects that nobody replaces -/

/-- The request neither deletes nor overwrites the key. -/
def Preserves (key : Str) (o : Op) : Prop :=
  o ≠ .store (.delete key) ∧ ∀ body sha256 version, o ≠ .store (.cas key body sha256 version)

lemma get?_of_preserves {fault : Option Fault} {objs : Objects} {stamp : Stamp}
    (hr : Preserves key (.store r)) (h : objs.get? key = some stored) :
    (inject fault objs stamp r).2.get? key = some stored := by
  have hchange := inject_change fault objs stamp r
  generalize (inject fault objs stamp r).2 = objs' at hchange
  cases hchange with
  | same => exact h
  | created key' body hreq habsent =>
    have hne : key ≠ key' := by
      rintro rfl
      rw [habsent] at h
      cases h
    rwa [OrderedMap.get?_insert_of_ne _ _ hne]
  | replaced key' body old hreq hpresent =>
    have hne : key ≠ key' := by
      rintro rfl
      exact hr.2 _ _ _ (congrArg Op.store hreq)
    rwa [OrderedMap.get?_insert_of_ne _ _ hne]
  | removed key' hreq =>
    have hne : key ≠ key' := by
      rintro rfl
      exact hr.1 (congrArg Op.store hreq)
    rwa [OrderedMap.get?_erase_of_ne _ hne]

/-- Everyone preserves the key. -/
structure Lasting (P : Terms) (key : Str) : Prop where
  calls : ∀ cfg i call, P.start cfg i call → call.prog.Emits (Preserves key)
  env : ∀ w e, P.env w e → Spares key e

/-- **An object that everyone preserves stays.** -/
theorem run_preserved (hkey : Lasting P key) (hw : w.log = []) (hrun : machine.Run P (Machine.initial w) cfg)
    (hrun' : machine.Run P cfg cfg') (h : cfg.world.objects.get? key = some stored) :
    cfg'.world.objects.get? key = some stored := by
  induction hrun' with
  | refl => exact h
  | @tail cfg1 cfg2 hbefore hstep ih =>
    have haccounted := run_accounted (A := fun _ => Preserves key) hkey.calls hw (hrun.trans hbefore)
    cases step_happens hstep with
    | noted e he hworld =>
      rw [hworld]
      exact ih
    | asked i call r k c hthread hadm hcfg =>
      rw [hcfg]
      exact get?_of_preserves (haccounted.2 i _ hthread).2.2.1 ih
    | moved e hadm hworld =>
      rw [hworld, get?_of_spares (hkey.env _ e hadm)]
      exact ih
    | silent hobjs hlog =>
      rw [hobjs]
      exact ih

/-! ## Conditions on what happens -/

/-- The terms `P`, while every request that is made leaves an event with `K` in the log. -/
def only (P : Terms) (K : Event → Prop) : Terms :=
  { P with step := fun w i call o c => P.step w i call o c ∧ ∀ e, (w.exec i o c).2.log = e :: w.log → K e }

/-- The log of a run grows, and a run all of whose new events have a property is one under terms that ask for it
at every request. -/
lemma run_only (hrun : machine.Run P cfg cfg') : ∃ new, cfg'.world.log = new ++ cfg.world.log ∧
      ∀ K : Event → Prop, (∀ e ∈ new, K e) → machine.Run (only P K) cfg cfg' := by
  induction hrun with
  | refl => exact ⟨[], rfl, fun _ _ => .refl⟩
  | tail _ hstep ih =>
    obtain ⟨new, hnew, ih⟩ := ih
    cases hstep with
    | start i call w' hfree hadm hrun =>
      cases hrun
      exact ⟨_ :: new, congrArg (List.cons _) hnew, fun K hK =>
        (ih K fun e he => hK e (List.mem_cons_of_mem _ he)).tail (.start i call _ hfree hadm rfl)⟩
    | step i call o k c r w' hthread hadm hrun =>
      obtain ⟨rfl, rfl⟩ := Prod.mk.inj (Option.some.inj hrun)
      cases o with
      | store r =>
        refine ⟨_ :: new, congrArg (List.cons _) hnew, fun K hK =>
          (ih K fun e he => hK e (List.mem_cons_of_mem _ he)).tail (.step i call _ k c _ _ hthread ⟨hadm, ?_⟩ rfl)⟩
        intro e he
        exact hK e ((List.cons.inj he).1 ▸ List.mem_cons_self)
      | _ => exact ⟨new, hnew, fun K hK => (ih K hK).tail (.step i call _ k c _ _ hthread
          ⟨hadm, fun e he => absurd he.symm (List.cons_ne_self e _)⟩ rfl)⟩
    | choose i call k b hthread => exact ⟨new, hnew, fun K hK => (ih K hK).tail (.choose i call k b hthread)⟩
    | finish i call out w' hret hrun =>
      obtain rfl := finish_eq_some hrun
      exact ⟨_ :: new, congrArg (List.cons _) hnew, fun K hK =>
        (ih K fun e he => hK e (List.mem_cons_of_mem _ he)).tail (.finish i call out _ hret hrun)⟩
    | env e w' hadm hrun =>
      cases hrun
      refine ⟨new, ?_, fun K hK => (ih K hK).tail (.env e _ hadm rfl)⟩
      cases e <;> exact hnew

/-- One event of a log happened before another. -/
def Precedes (log : List Event) (a b : Event) : Prop :=
  ∃ later earlier, log = later ++ b :: earlier ∧ a ∈ earlier

omit [Sha256] in
lemma Precedes.left_mem {a b : Event} (h : Precedes log a b) : a ∈ log := by
  obtain ⟨later, earlier, rfl, hmem⟩ := h
  exact List.mem_append_right _ (List.mem_cons_of_mem _ hmem)

/-! ## Objects and the log -/

/-- The objects after the newest request of a log. -/
def replay (init : Objects) : List Event → Objects
  | [] => init
  | .did _ _ _ _ after :: _ => after
  | .started _ _ :: log => replay init log
  | .returned _ _ :: log => replay init log

/-- Every request found what the one before it left. -/
def Chained (init : Objects) : List Event → Prop
  | [] => True
  | .did _ _ _ before _ :: log => before = replay init log ∧ Chained init log
  | .started _ _ :: log => Chained init log
  | .returned _ _ :: log => Chained init log

omit [Sha256] in
/-- An object that none of the later requests has changed. -/
lemma replay_kept {init : Objects} {later : List Event} (hchained : Chained init (later ++ log))
    (hget : (replay init log).get? key = some stored)
    (hlater : ∀ i r answer before after, .did i r answer before after ∈ later → before.get? key = some stored →
      after.get? key = some stored) : (replay init (later ++ log)).get? key = some stored := by
  induction later with
  | nil => exact hget
  | cons e later ih =>
    have hrest : ∀ i r answer before after, .did i r answer before after ∈ later →
        before.get? key = some stored → after.get? key = some stored :=
      fun i r answer before after hmem => hlater i r answer before after (List.mem_cons_of_mem _ hmem)
    cases e with
    | did i r answer before after =>
      obtain ⟨rfl, hchained⟩ := hchained
      exact hlater i r answer _ after List.mem_cons_self (ih hchained hrest)
    | _ => exact ih hchained hrest

/-- Where time is all that passes outside, a step is a request of a call, or it leaves the objects and the
requests in the log as they are. -/
lemma step_cases (henv : ∀ w e, P.env w e → ∃ clock, e = .tick clock) (hstep : machine.Step P cfg cfg') :
    (cfg'.world.objects = cfg.world.objects ∧ ∀ i r answer before after,
      .did i r answer before after ∈ cfg'.world.log → .did i r answer before after ∈ cfg.world.log) ∨
    ∃ i call r k c, cfg.threads i = some ⟨call, .op (.store r) k⟩ ∧ P.step cfg.world i call (.store r) c ∧
      cfg'.world = cfg.world.request i r c := by
  cases step_happens hstep with
  | noted e he hworld =>
    refine .inl ⟨by rw [hworld]; rfl, fun i r answer before after hmem => ?_⟩
    rw [hworld] at hmem
    exact (List.mem_cons.mp hmem).resolve_left (he i r answer before after).symm
  | asked i call r k c hthread hadm hcfg => exact .inr ⟨i, call, r, k, c, hthread, hadm, by rw [hcfg]; rfl⟩
  | moved e hadm hworld =>
    obtain ⟨clock, rfl⟩ := henv _ e hadm
    rw [hworld]
    exact .inl ⟨rfl, fun _ _ _ _ _ hmem => hmem⟩
  | silent hobjs hlog => exact .inl ⟨hobjs, fun _ _ _ _ _ hmem => hlog ▸ hmem⟩

/-- **Where time is all that passes outside, the log tells the objects.** -/
theorem run_chained (henv : ∀ w e, P.env w e → ∃ clock, e = .tick clock) (hw : w.log = [])
    (hrun : machine.Run P (Machine.initial w) cfg) :
    cfg.world.objects = replay w.objects cfg.world.log ∧ Chained w.objects cfg.world.log := by
  induction hrun with
  | refl =>
    show w.objects = replay w.objects w.log ∧ Chained w.objects w.log
    rw [hw]
    exact ⟨rfl, trivial⟩
  | tail _ hstep ih =>
    cases step_happens hstep with
    | noted e he hworld =>
      rw [hworld]
      cases e with
      | did i r answer before after => exact absurd rfl (he i r answer before after)
      | _ => exact ih
    | asked i call r k c hthread hadm hcfg =>
      rw [hcfg]
      exact ⟨rfl, ih.1, ih.2⟩
    | moved e hadm hworld =>
      obtain ⟨clock, rfl⟩ := henv _ e hadm
      rw [hworld]
      exact ih
    | silent hobjs hlog =>
      rw [hobjs, hlog]
      exact ih

end Interleaving
end StowQ
