import StowQ.Core.Judgments
import StowQ.Custody.Invariant

/-!
# Reasoning about the programs of a custody run

A discipline here is given by three sets of events: those other participants may log,
those the program itself may log, and those the path from its start may contain.  The
rules reduce a program to its requests, and a request to being permitted.
-/

namespace StowQ
namespace Custody

open Data StowQ.Core Store Format Concurrent Interleaving

variable {key : Str}

/-- What the outside may do in a custody run: any operation but garbage collection on a
handle of the queue, with handles that were issued in the run; any fault, version and
draw; and writes by others outside the custody planes.  With `timed`, store times do not go
back and floors have been reached. -/
def profile [Sha256] (S : Site) (timed : Prop) :
    Profile World Op Res Choice Outside Call (Except Error Output) where
  start cfg _ call :=
    call.queue.site = S ∧ (∀ a b c, call.action ≠ .gc a b c) ∧ ∀ handle ∈ call.action.handle, ∃ j call' out,
        cfg.Returned j call' (.ok out) ∧ handle ∈ out.handles
  step w _ call _ c := Punctuality timed w call c
  env _ e :=
    match e with
    | .tick _ => True
    | .write key _ | .delete key => ∀ plane ∈ custodyPlanes, S.plane key ≠ some plane

/-- The discipline of a program of call `i`. -/
def discipline [Sha256] (S : Site) (timed : Prop) (i : Nat) (call : Call)
    (tolerated emitted path : Event → Prop) (ht : ∀ e, tolerated e → path e)
    (he : ∀ e, emitted e → path e) : Discipline World Op Res where
  service := machine.service (profile S timed) (Inv S timed) i call
  rely := Grows.rely S tolerated
  guar := Grows S emitted
  order := Grows.rely S path
  rely_order _ _ _ h := h.mono ht
  guar_order _ _ _ _ h := h.mono he

section Rules

variable [Sha256] {S : Site} {timed : Prop} {i : Nat} {call : Call}
  {tolerated emitted path : Event → Prop} {ht : ∀ e, tolerated e → path e}
  {he : ∀ e, emitted e → path e} {w : World} {α β : Type} {Q : Except Error β → World → Prop}

/-- A permitted request, with the continuation at the world it leaves. -/
lemma holds_permitted {o : Op} {f : Res o → Routine β} (hlog : ∀ e, LoggedAs i o e → emitted e)
    (h : ∀ w1, Grows S tolerated w w1 → Inv S timed w1 → Permitted S i call w1 o ∧
      ∀ c, Inv S timed (w1.exec i o c).2 → Grows S emitted w1 (w1.exec i o c).2 →
        Holds (discipline S timed i call tolerated emitted path ht he) (f (w1.exec i o c).1) Q
          (w1.exec i o c).2) :
    Holds (discipline S timed i call tolerated emitted path ht he) (Budgeted.request o >>= f) Q w := by
  refine Holds.request fun w1 hw1 hi r w2 hr => ?_
  obtain ⟨c, hc, rfl, rfl⟩ := answers_iff.mp hr
  obtain ⟨hp, hcont⟩ := h w1 hw1 hi
  obtain ⟨hinv, hgrows⟩ := hp.keeps hi hc
  exact ⟨hinv, hgrows.mono hlog, hcont c hinv (hgrows.mono hlog)⟩

/-- Requests that are permitted everywhere. -/
def Harmless (S : Site) (o : Op) : Prop :=
  ∀ i call w, Permitted S i call w o

lemma safe_of_harmless {A : Op → Prop} {p : Prog Op Res α} (h : p.Emits A)
    (hA : ∀ o, A o → Harmless S o) (hlog : ∀ o, A o → ∀ e, LoggedAs i o e → emitted e) (w : World) :
    Safe (discipline S timed i call tolerated emitted path ht he).service (Grows.rely S tolerated)
      (Grows S emitted) p (fun _ _ => True) w := by
  refine Safe.of_emits h (fun o ho w1 r w2 hi hr => ?_) w
  obtain ⟨c, hc, rfl, rfl⟩ := answers_iff.mp hr
  obtain ⟨hinv, hgrows⟩ := (hA o ho i call w1).keeps hi hc
  exact ⟨hinv, hgrows.mono (hlog o ho)⟩

/-- A discipline with smaller steps and a finer path. -/
lemma holds_embed {emitted' path' : Event → Prop} {ht' : ∀ e, tolerated e → path' e}
    {he' : ∀ e, emitted' e → path' e} {m : Routine α} {Q : Except Error α → World → Prop}
    (h : Holds (discipline S timed i call tolerated emitted' path' ht' he') m Q w)
    (hemit : ∀ e, emitted' e → emitted e) :
    Holds (discipline S timed i call tolerated emitted path ht he) m
      (fun r w' => Q r w' ∧ Grows S path' w w') w :=
  fun b => ((h b).above).weaken (fun _ _ hR => hR) fun _ _ hG => hG.mono hemit

/-- The same for facts about values, with the finer path. -/
lemma holds_embed_ok {emitted' path' : Event → Prop} {ht' : ∀ e, tolerated e → path' e}
    {he' : ∀ e, emitted' e → path' e} {m : Routine α} {Q : α → World → Prop}
    (h : Holds (discipline S timed i call tolerated emitted' path' ht' he') m (OnOk Q) w)
    (hemit : ∀ e, emitted' e → emitted e) :
    Holds (discipline S timed i call tolerated emitted path ht he) m
      (OnOk fun a w' => Q a w' ∧ Grows S path' w w') w := by
  refine (holds_embed h hemit).mono fun r w' _ _ hq => ?_
  rintro a rfl
  exact ⟨hq.1 a rfl, hq.2⟩

/-! ## Reads -/

/-- What an answered read says about the objects it leaves. -/
lemma exec_get (i : Nat) (key : Str) (w1 : World) (c : Choice) :
    (w1.exec i (.store (.get key)) c).2.objects = w1.objects ∧
      (∀ obj, (w1.exec i (.store (.get key)) c).1 = .ok obj →
        ∃ stored, w1.objects.get? key = some stored ∧ obj = ⟨stored.info, stored.body⟩) ∧
      ((w1.exec i (.store (.get key)) c).1 = .error .notFound → w1.objects.get? key = none) :=
  ⟨inject_reads rfl, fun _ h => answer_get h, fun h => answer_get_notFound h⟩

lemma holds_get {f : StoreResult Object → Routine β}
    (hlog : ∀ e, LoggedAs i (.store (.get key)) e → emitted e) (h : ∀ w' r, Inv S timed w' → Grows S path w w' →
      (∀ obj, r = .ok obj → ∃ stored, w'.objects.get? key = some stored ∧ obj = ⟨stored.info, stored.body⟩) →
      (r = .error .notFound → w'.objects.get? key = none) →
      Holds (discipline S timed i call tolerated emitted path ht he) (f r) Q w') :
    Holds (discipline S timed i call tolerated emitted path ht he) (Routine.get key >>= f) Q w := by
  refine holds_permitted hlog fun w1 hw1 hi => ⟨.read _ rfl, fun c hinv hgrows => ?_⟩
  obtain ⟨hobjs, hok, hnone⟩ := exec_get i key w1 c
  refine h _ _ hinv ((hw1.mono ht).trans (hgrows.mono he)) (fun obj hobj => ?_) fun habsent => ?_
  · rw [hobjs]
    exact hok obj hobj
  · rw [hobjs]
    exact hnone habsent

lemma holds_head {f : StoreResult Meta → Routine β}
    (hlog : ∀ e, LoggedAs i (.store (.head key)) e → emitted e)
    (h : ∀ w' r, Inv S timed w' → Grows S path w w' →
      (∀ m, r = .ok m → ∃ stored, w'.objects.get? key = some stored ∧ m = stored.info) →
      Holds (discipline S timed i call tolerated emitted path ht he) (f r) Q w') :
    Holds (discipline S timed i call tolerated emitted path ht he) (Routine.head key >>= f) Q w := by
  refine holds_permitted hlog fun w1 hw1 hi => ⟨.read _ rfl, fun c hinv hgrows => ?_⟩
  have hobjs : (w1.exec i (.store (.head key)) c).2.objects = w1.objects := inject_reads rfl
  refine h _ _ hinv ((hw1.mono ht).trans (hgrows.mono he)) fun m hm => ?_
  rw [hobjs]
  exact answer_head hm

lemma holds_list {pre : Str} {after : Option Str} {limit : Nat} {f : StoreResult Page → Routine β}
    (hlog : ∀ e, LoggedAs i (.store (.list pre after limit)) e → emitted e)
    (h : ∀ w' r, Inv S timed w' → Grows S path w w' →
      (∀ page, r = .ok page → page = listPage w'.objects pre after limit) →
      Holds (discipline S timed i call tolerated emitted path ht he) (f r) Q w') :
    Holds (discipline S timed i call tolerated emitted path ht he)
      (Routine.list pre after limit >>= f) Q w := by
  refine holds_permitted hlog fun w1 hw1 hi => ⟨.read _ rfl, fun c hinv hgrows => ?_⟩
  have hobjs : (w1.exec i (.store (.list pre after limit)) c).2.objects = w1.objects := inject_reads rfl
  refine h _ _ hinv ((hw1.mono ht).trans (hgrows.mono he)) fun page hpage => ?_
  rw [hobjs]
  exact answer_list hpage

lemma holds_put {body : Bytes} {digest : Digest} {f : StoreResult PutOutcome → Routine β}
    (hlog : ∀ e, LoggedAs i (.store (.putIfAbsent key body digest)) e → emitted e)
    (hpermitted : ∀ w1, Grows S path w w1 → Inv S timed w1 →
      Permitted S i call w1 (.store (.putIfAbsent key body digest)))
    (h : ∀ w' r, Inv S timed w' → Grows S path w w' →
      (∀ v, r = .ok (.committed v) → ∃ stored, w'.objects.get? key = some stored ∧ stored.body = body) →
      Holds (discipline S timed i call tolerated emitted path ht he) (f r) Q w') :
    Holds (discipline S timed i call tolerated emitted path ht he)
      (Routine.putIfAbsent key body digest >>= f) Q w := by
  refine holds_permitted hlog fun w1 hw1 hi => ⟨hpermitted w1 (hw1.mono ht) hi,
    fun c hinv hgrows => ?_⟩
  refine h _ _ hinv ((hw1.mono ht).trans (hgrows.mono he)) fun v hv => ?_
  obtain ⟨-, hobjs⟩ := answer_put_committed hv
  refine ⟨⟨body, c.stamp.version, c.stamp.timeNs⟩, ?_, rfl⟩
  show (inject c.fault w1.objects c.stamp _).2.get? key = _
  rw [hobjs]
  exact OrderedMap.get?_insert_self _ _ _

end Rules

end Custody
end StowQ
