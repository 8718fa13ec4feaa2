import StowQ.Core.Judgments
import StowQ.Core.Space
import StowQ.Interleaving

/-!
# Calls that all move the world the same way

Each call has a preorder on worlds that serves as its rely and as its path, and every
request moves along the preorders of all calls.  The rules here reduce such a system to
the effect of its single requests.
-/

namespace StowQ
namespace Interleaving

open Data StowQ.Core Store Concurrent

section Uniform

variable [Sha256]

/-- The discipline in which everyone moves along all of `moves`. -/
def uniform (P : Terms) (inv : World → Prop) (moves : Nat → Rely World) (i : Nat) (call : Call) :
    Discipline World Op Res where
  service := machine.service P inv i call
  rely := moves i
  guar w w' := ∀ j, (moves j).rel w w'
  order := moves i
  rely_order _ _ _ h := h
  guar_order _ _ _ _ h := h i

variable {P : Terms} {inv : World → Prop} {moves : Nat → Rely World} {i : Nat} {call : Call}
  {w : World}
  {α β : Type}

lemma holds_uniform {o : Op} {f : Res o → Routine β} {Q : Except Error β → World → Prop}
    (h : ∀ w1 c, (moves i).rel w w1 → inv w1 → P.step w1 i call o c →
      (inv (w1.exec i o c).2 ∧ ∀ j, (moves j).rel w1 (w1.exec i o c).2) ∧
        Holds (uniform P inv moves i call) (f (w1.exec i o c).1) Q (w1.exec i o c).2) :
    Holds (uniform P inv moves i call) (Budgeted.request o >>= f) Q w := by
  refine Holds.request fun w1 hw1 hi r w2 hr => ?_
  obtain ⟨c, hc, rfl, rfl⟩ := answers_iff.mp hr
  obtain ⟨⟨hinv, hmoves⟩, hcont⟩ := h w1 c hw1 hi hc
  exact ⟨hinv, hmoves, hcont⟩

lemma holds_uniform_last {o : Op} {Q : Res o → World → Prop}
    (h : ∀ w1 c, (moves i).rel w w1 → inv w1 → P.step w1 i call o c →
      (inv (w1.exec i o c).2 ∧ ∀ j, (moves j).rel w1 (w1.exec i o c).2) ∧
        ∀ w2, (moves i).rel (w1.exec i o c).2 w2 → Q (w1.exec i o c).1 w2) :
    Holds (uniform P inv moves i call) (Budgeted.request o : Routine (Res o)) (OnOk Q) w := by
  intro b w1 hw1 hi r w2 hr
  obtain ⟨c, hc, rfl, rfl⟩ := answers_iff.mp hr
  obtain ⟨⟨hinv, hmoves⟩, hlast⟩ := h w1 c hw1 hi hc
  refine ⟨hinv, hmoves, fun w3 hw3 _ a ha => ?_⟩
  cases ha
  exact hlast w3 hw3

lemma holds_uniform_get {key : Str} {f : StoreResult Object → Routine β}
    {Q : Except Error β → World → Prop}
    (hkeeps : ∀ w1 c, inv w1 → P.step w1 i call (.store (.get key)) c →
      inv (w1.request i (.get key) c) ∧ ∀ j, (moves j).rel w1 (w1.request i (.get key) c))
    (h : ∀ w' r, inv w' → (moves i).rel w w' → (∀ obj, r = .ok obj → ∃ stored, w'.objects.get? key = some stored ∧
        obj = ⟨stored.info, stored.body⟩) →
      (r = .error .notFound → w'.objects.get? key = none) →
      Holds (uniform P inv moves i call) (f r) Q w') :
    Holds (uniform P inv moves i call) (Routine.get key >>= f) Q w := by
  refine holds_uniform fun w1 c hw1 hi hc => ?_
  have hkept := hkeeps w1 c hi hc
  have hobjs : (w1.request i (.get key) c).objects = w1.objects := inject_reads rfl
  refine ⟨hkept, h _ _ hkept.1 ((moves i).trans hw1 (hkept.2 i)) (fun obj hobj => ?_) fun habsent => ?_⟩
  · show ∃ stored, (w1.request i (.get key) c).objects.get? key = _ ∧ _
    rw [hobjs]
    exact answer_get hobj
  · show (w1.request i (.get key) c).objects.get? key = none
    rw [hobjs]
    exact answer_get_notFound habsent

lemma holds_uniform_list {pre : Str} {after : Option Str} {limit : Nat}
    (hkeeps : ∀ w1 c, inv w1 → P.step w1 i call (.store (.list pre after limit)) c →
      inv (w1.request i (.list pre after limit) c) ∧
        ∀ j, (moves j).rel w1 (w1.request i (.list pre after limit) c)) :
    Holds (uniform P inv moves i call) (Routine.list pre after limit)
      (OnOk fun r _ => ∀ page, r = .ok page → ∀ x ∈ page.items, pre <+: x.key) w := by
  refine holds_uniform_last (o := .store (.list pre after limit)) fun w1 c _ hi hc =>
    ⟨hkeeps w1 c hi hc, fun w2 _ page hpage x hx => ?_⟩
  obtain rfl := answer_list hpage
  obtain ⟨stored, -, -, hsel⟩ := mem_listPage hx
  exact selects_pre hsel

/-- A program of requests that, from `w` on, keep the invariant along `moves`. -/
lemma holds_uniform_of_emits {A : Op → Prop} {m : Routine α} (h : ∀ b, (m b).Emits A)
    (hA : ∀ o, A o → ∀ w1 c, (moves i).rel w w1 → inv w1 → P.step w1 i call o c →
      inv (w1.exec i o c).2 ∧ ∀ j, (moves j).rel w1 (w1.exec i o c).2) :
    Holds (uniform P inv moves i call) m (fun _ _ => True) w := by
  intro b
  refine Safe.of_emits_while (h b) (fun w1 w2 hr hK => (moves i).trans hK hr)
    (fun o ho w1 r w2 hi hK hr => ?_) ((moves i).refl w)
  obtain ⟨c, hc, rfl, rfl⟩ := answers_iff.mp hr
  obtain ⟨hinv, hmoves⟩ := hA o ho w1 c hK hi hc
  exact ⟨hinv, hmoves, (moves i).trans hK (hmoves i)⟩

/-- The obligations of a system whose participants all move along `moves`.  The record of a
return need not move along the preorder of the call that returns. -/
lemma uniform_obligations (moves : Nat → Rely World) {post : Nat → Call → Except Error Output → World → Prop}
    (hstart : ∀ (cfg : Calls) i call, inv cfg.world →
      (∀ j call' out, cfg.Returned j call' out → post j call' out cfg.world) →
      P.start cfg i call → inv (cfg.world.record (.started i call)) ∧
        (∀ j, (moves j).rel cfg.world (cfg.world.record (.started i call))) ∧
        Holds (uniform P inv moves i call) (call.action.task call.queue) (post i call)
          (cfg.world.record (.started i call)))
    (hfinish : ∀ i out w, inv w → inv (w.record (.returned i out)) ∧
      ∀ j, j ≠ i → (moves j).rel w (w.record (.returned i out)))
    (hpost : ∀ i call out w w', inv w' → (moves i).rel (w.record (.returned i out)) w' →
      post i call out w → post i call out w')
    (henv : ∀ w e, inv w → P.env w e → inv (w.outside e) ∧ ∀ j, (moves j).rel w (w.outside e)) :
    Obligations machine P inv (fun i _ => moves i) (fun _ _ w w' => ∀ j, (moves j).rel w w')
      post where
  start cfg i call w' hinv hpost hadm hrun := by
    cases hrun
    obtain ⟨hi, hmoves, hholds⟩ := hstart cfg i call hinv hpost hadm
    exact ⟨hi, fun j _ _ => hmoves j, Safe.map (hholds _)⟩
  finish i out w w' hinv hrun := by
    obtain rfl := finish_eq_some hrun
    obtain ⟨hi, hmoves⟩ := hfinish i out w hinv
    exact ⟨hi, fun j _ hj => hmoves j hj, fun call hsafe w' hw' hi' =>
      hpost i call out w w' hi' hw' (hsafe w ((moves i).refl w) hinv)⟩
  env w e w' hinv hadm hrun := by
    cases hrun
    obtain ⟨hi, hmoves⟩ := henv w e hinv hadm
    exact ⟨hi, fun j _ => hmoves j⟩
  compat _ _ j _ _ _ _ _ _ h := h j

/-- A preorder that contains those of all calls relates the ends of a run. -/
lemma uniform_run_moves (moves : Nat → Rely World) {post : Nat → Call → Except Error Output → World → Prop} {cfg cfg' : Calls}
    (all : Rely World) (hall : ∀ i w w', (moves i).rel w w' → all.rel w w')
    (O : Obligations machine P inv (fun i _ => moves i) (fun _ _ w w' => ∀ j, (moves j).rel w w')
      post)
    (henv : ∀ w e, inv w → P.env w e → all.rel w (w.outside e))
    (h : Obligations.Good machine P inv (fun i _ => moves i)
      (fun _ _ w w' => ∀ j, (moves j).rel w w') post cfg)
    (hrun : machine.Run P cfg cfg') : all.rel cfg.world cfg'.world := by
  refine O.run_moves all (fun i _ w w' hr => hall i w w' hr) (fun i _ w w' hg => hall i w w' (hg i))
    (fun e w w' hi hadm hrun => ?_) h hrun
  cases hrun
  exact henv w e hi hadm

end Uniform

end Interleaving
end StowQ
