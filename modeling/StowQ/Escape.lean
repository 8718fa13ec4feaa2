import StowQ.Core.Evals
import StowQ.Core.Overrun
import StowQ.Core.Sealing
import StowQ.Scenario.Basic

/-!
# Outcomes that leave a write path

A store on which only conditional writes fail, at most four times in a row, before or after they are applied.  A
write path resolves such outcomes by reading back and repeating.  Transport failures and unknown outcomes stay
inside every write path but two: `init` passes on whatever its one write meets, and `advanceWatermark` passes on
a transport failure of its write.  `write_paths_sealed_iff` says exactly when an outcome escapes, for every set
of faults and every store; where it does, a path of the program is constructed that ends with it.
-/

namespace StowQ
namespace Escape

open Data Concurrent Store Format StowQ.Core Core.Sealing
open Budgeted (Evals Keeps)

variable {r : Request} {s : Condition} {α : Type} {m : Routine α} {fault : Fault} {floorNs : UInt64}

section Schedules

variable [Sha256]

/-- The objects and the number of faults since the last request without one. -/
structure Condition where
  objects : Objects
  streak : Nat

/-- A store that nobody else uses.  A conditional write meets one of the permitted faults or
none, with at most four faults in a row; every other request is answered. -/
def flaky (permits : Fault → Prop) : Service Condition Op Res where
  answers
    | .store r, s, answer, s' => ∃ fault stamp,
        (∀ f, fault = some f → conditional r = true ∧ permits f ∧ s.streak < 4) ∧
        inject fault s.objects stamp r = (answer, s'.objects) ∧
        s'.streak = if fault.isSome then s.streak + 1 else 0
    | _, s, _, s' => s' = s
  inv _ := True

/-- A write path with its arguments. -/
inductive WritePath
  | init (handle : Nat) (root : Str) (opts : OpenOptions) (format : FormatRecord)
  | call (q : Queue) (action : { action : Interleaving.Action // foreground action = true })

def WritePath.task : WritePath → Routine (Queue ⊕ Interleaving.Output)
  | .init handle root opts format => do pure (.inl (← Queue.init handle root opts format))
  | .call q action => do pure (.inr (← action.1.task q))

/-- With a sufficient budget, and whatever faults the store meets, no transport failure and no
unknown outcome is returned. -/
def Sealed (permits : Fault → Prop) (objs : Objects) {α : Type} (m : Routine α) : Prop :=
  ∃ enough, ∀ budget, enough ≤ budget → ∀ os e left s',
    (m budget).Path (flaky permits) ⟨objs, 0⟩ os (.ret (.error e, left)) s' → escapes e = false

/-- The watermark is missing, or it is a record below the bucket of the floor. -/
def Due (q : Queue) (objs : Objects) (floorNs : UInt64) : Prop :=
  ∀ stored, objs.get? (q.absolute .watermark) = some stored → ∃ w,
    q.decodeAt .watermark stored.body = .ok (.watermark w) ∧
    w.highestObservedWallBucket < floorNs / q.format.delayedBucketWidthNs

/-- Where a write path meets no fault it does not resolve. -/
def WritePath.Shielded (permits : Fault → Prop) (objs : Objects) : WritePath → Prop
  | .init _ _ _ format => format.validate = .ok () → ∀ fault, ¬ permits fault
  | .call q ⟨.advanceWatermark floorNs, _⟩ => Due q objs floorNs → ¬ permits .preTransmit
  | .call .. => True

variable {permits : Fault → Prop} {objs : Objects} {q : Queue}

/-! ## What the store answers -/

/-- The answers of the store, in some condition. -/
def Answered (permits : Fault → Prop) (o : Op) (r : Res o) : Prop :=
  ∃ s s', (flaky permits).answers o s r s'

lemma perform_of_answers {s' : Condition} {answer : StoreResult r.Answer} (hr : conditional r = false)
    (h : (flaky permits).answers (.store r) s answer s') :
    ∃ stamp, perform s.objects stamp r = (answer, s'.objects) := by
  obtain ⟨fault, stamp, hfault, hinject, -⟩ := h
  cases fault with
  | none => exact ⟨stamp, hinject⟩
  | some f =>
    obtain ⟨hconditional, -⟩ := hfault f rfl
    rw [hr] at hconditional
    cases hconditional

lemma reliable : Reliable (Answered permits) := by
  rintro r answer hr ⟨s, s', h⟩ e rfl
  obtain ⟨stamp, hperform⟩ := perform_of_answers hr h
  have hanswer : (perform s.objects stamp r).1 = .error e := congrArg Prod.fst hperform
  cases r with
  | putIfAbsent key body digest => cases hr
  | cas key body digest v => cases hr
  | list pre after limit => cases hanswer
  | delete key => cases hanswer
  | get key =>
    simp only [perform, Store.get] at hanswer
    split at hanswer
    · cases hanswer
    · cases hanswer
      rfl
  | head key =>
    simp only [perform, Store.head] at hanswer
    split at hanswer
    · cases hanswer
    · cases hanswer
      rfl

/-- What the store itself answers to a write is final. -/
lemma perform_write {stamp : Stamp} {e : StoreError} (hr : conditional r = true)
    (h : (perform objs stamp r).1 = .error e) : retryable e = false := by
  cases r with
  | putIfAbsent key body digest =>
    simp only [perform, putIfAbsent] at h
    split at h
    · cases h
      rfl
    · split at h <;> cases h
  | cas key body digest v =>
    simp only [perform, cas] at h
    split at h
    · cases h
      rfl
    · split at h
      · cases h
        rfl
      · split at h <;> cases h
  | _ => cases hr

/-- A retryable answer to a write comes from a permitted fault; a transport failure from a fault
before the transmission. -/
lemma fault_of_answered {e : StoreError} (hr : conditional r = true)
    (h : Answered permits (.store r) (.error e)) :
    retryable e = false ∨ ∃ fault, permits fault ∧ (e = .transport → fault = .preTransmit) := by
  obtain ⟨s, s', fault, stamp, hfault, hinject, -⟩ := h
  have hanswer : (inject fault s.objects stamp r).1 = .error e := congrArg Prod.fst hinject
  cases fault with
  | none => exact .inl (perform_write hr hanswer)
  | some f =>
    obtain ⟨-, hpermits, -⟩ := hfault f rfl
    cases f with
    | preTransmit => exact .inr ⟨_, hpermits, fun _ => rfl⟩
    | postTransmit why =>
      cases hanswer
      exact .inr ⟨_, hpermits, nofun⟩
    | postTransmitAfter why =>
      simp only [inject] at hanswer
      split at hanswer
      · next hperform =>
          cases hanswer
          exact .inl (perform_write hr hperform)
      · cases hanswer
        exact .inr ⟨_, hpermits, nofun⟩

/-! ## Sealed paths -/

lemma sealed_of_seals (h : Seals (Answered permits) m) : Sealed permits objs m := by
  refine ⟨0, fun budget _ os e left s' hpath => ?_⟩
  have hissues := hpath.issues (A := fun _ => True) (J := fun _ => True) (V := Answered permits)
    (fun _ _ _ _ _ _ _ => trivial) (fun o s r s' _ hr => ⟨s, s', hr⟩) (Prog.Emits.any _) trivial
  exact ((h budget).issues hissues).2.1

/-! ## A watermark that is not written -/

/-- The store as long as nobody writes. -/
def resting (permits : Fault → Prop) (objs : Objects) : Discipline Condition Op Res where
  service := { flaky permits with inv := fun s => s.objects = objs }
  rely := ⟨Eq, fun _ => rfl, Eq.trans⟩
  guar _ _ := True
  order := ⟨fun _ _ => True, fun _ => trivial, fun _ _ => trivial⟩
  rely_order _ _ _ _ := trivial
  guar_order _ _ _ _ _ := trivial

/-- What a read of a key ends with if the retries and the budget suffice. -/
def found (objs : Objects) (abs : Str) : Except Error Object :=
  match objs.get? abs with
  | some stored => .ok ⟨stored.info, stored.body⟩
  | none => .error (.store .notFound)

/-- What a read ends with: it gives up, or it finds what is there. -/
def Reads {α : Type} (expected r : Except Error α) : Prop :=
  r = .error .budgetExhausted ∨ r = .error .transportExhausted ∨ r = expected

lemma holds_readRetrying (abs : Str) (hs : s.objects = objs) :
    Holds (resting permits objs) (Queue.readRetrying abs) (fun r _ => Reads (found objs abs) r) s := by
  apply Holds.retry _ (fun _ _ _ => .inr (.inl rfl)) hs
  intro s1 hs1 _
  apply Holds.spend
  · apply Holds.request (o := Op.store (.get abs))
    rintro s2 - (hs2 : s2.objects = objs) answer s3 hanswer
    obtain ⟨stamp, hperform⟩ := perform_of_answers rfl hanswer
    have hkeeps : s3.objects = objs := (congrArg Prod.snd hperform).symm.trans hs2
    obtain rfl : Store.get s2.objects abs = answer := congrArg Prod.fst hperform
    refine ⟨hkeeps, trivial, ?_⟩
    rw [hs2]
    cases hget : objs.get? abs with
    | none =>
      rw [Store.get, hget]
      apply Holds.fail
      intro _ _ _
      constructor
      · intro obj hobj
        cases hobj
      · intro e he
        cases he
        exact .inr (.inr (by rw [found, hget]))
    | some stored =>
      rw [Store.get, hget]
      apply Holds.pure
      intro _ _ _
      constructor
      · intro obj hobj
        cases Except.ok.inj hobj
        exact .inr (.inr (by rw [found, hget]))
      · intro e he
        cases he
  · intro _ _ _
    constructor
    · intro obj hobj
      cases hobj
    · intro e he
      exact .inl (congrArg Except.error (Except.error.inj he).symm)

/-- The watermark of the store, as a read of it ends. -/
def watermarkIn (q : Queue) (objs : Objects) : Except Error (Option WatermarkRecord) :=
  match objs.get? (q.absolute .watermark) with
  | none => .ok none
  | some stored =>
    match q.decodeAt .watermark stored.body with
    | .ok (.watermark w) => .ok (some w)
    | .ok _ => .error (.record "watermark key holds a non-watermark record")
    | .error e => .error (.record (recordErrorText e))

lemma holds_watermark (hs : s.objects = objs) :
    Holds (resting permits objs) q.watermark (fun r _ => Reads (watermarkIn q objs) r) s := by
  apply (holds_readRetrying (q.absolute .watermark) hs).attempted.bind
  · intro r s1 hs1 _ hr
    obtain ⟨r, hr', hread⟩ := hr s1 rfl hs1
    cases hr'
    obtain rfl | rfl | rfl := hread
    · exact Holds.fail fun _ _ _ => .inl rfl
    · exact Holds.fail fun _ _ _ => .inr (.inl rfl)
    · unfold found watermarkIn
      cases objs.get? (q.absolute .watermark) with
      | none => exact Holds.pure fun _ _ _ => .inr (.inr rfl)
      | some stored =>
        dsimp only
        cases hdecode : q.decodeAt .watermark stored.body with
        | error e => exact Holds.fail fun _ _ _ => .inr (.inr rfl)
        | ok record =>
          cases record with
          | watermark w => exact Holds.pure fun _ _ _ => .inr (.inr rfl)
          | _ => exact Holds.fail fun _ _ _ => .inr (.inr rfl)
  · rintro e s1 - - ⟨r, hr, -⟩
    cases hr

/-- A store whose watermark is not due has one that cannot be read or that covers the floor. -/
lemma not_due (h : ¬ Due q objs floorNs) :
    (∃ e, watermarkIn q objs = .error e ∧ escapes e = false) ∨ ∃ w, watermarkIn q objs = .ok (some w) ∧
      floorNs / q.format.delayedBucketWidthNs ≤ w.highestObservedWallBucket := by
  unfold Due at h
  push Not at h
  obtain ⟨stored, hget, hcovers⟩ := h
  unfold watermarkIn
  rw [hget]
  dsimp only
  cases hdecode : q.decodeAt .watermark stored.body with
  | error e => exact .inl ⟨_, rfl, rfl⟩
  | ok record =>
    cases record with
    | watermark w => exact .inr ⟨w, rfl, UInt64.not_lt.mp (hcovers w hdecode)⟩
    | _ => exact .inl ⟨_, rfl, rfl⟩

/-- No outcome of a write is among the errors. -/
def Clean {α : Type} (r : Except Error α) (_ : Condition) : Prop := ∀ e, r = .error e → escapes e = false

lemma holds_last {β : Type} (h : Holds (resting permits objs) m Clean s) (f : α → β) :
    Holds (resting permits objs) (m >>= fun a => pure (f a)) Clean s := by
  apply h.bind
  · exact fun a s1 _ _ _ => Holds.pure fun _ _ _ => nofun
  · intro e s1 _ _ he e' he'
    cases he'
    exact he e rfl

lemma holds_advanceWatermark (h : ¬ Due q objs floorNs) (hs : s.objects = objs) :
    Holds (resting permits objs) (q.advanceWatermark floorNs) Clean s := by
  have hgaveUp : ∀ {α : Type} (e : Error) (r : Except Error α), r = .error .budgetExhausted ∨
      r = .error .transportExhausted → r = .error e → escapes e = false := by
    rintro α e r (rfl | rfl) he <;> obtain rfl := Except.error.inj he <;> rfl
  -- a round finds nothing to write: the record covers the bucket, or reading it fails cleanly
  have hround : ∀ s', s'.objects = objs → Holds (resting permits objs)
      (q.advanceRound (floorNs / q.format.delayedBucketWidthNs)) (fun r _ =>
        (∀ e, r = .error e → escapes e = false) ∧ r ≠ .ok false) s' := by
    intro s' hs'
    apply (holds_watermark hs').bind
    · intro current s1 hs1 _ hcurrent
      obtain hcurrent | hcurrent | hcurrent := hcurrent s1 rfl hs1
      · cases hcurrent
      · cases hcurrent
      · obtain ⟨e, he, -⟩ | ⟨w, hw, hcovers⟩ := not_due h
        · rw [he] at hcurrent
          cases hcurrent
        · cases hcurrent.trans hw
          have hnext : Queue.nextWatermark (floorNs / q.format.delayedBucketWidthNs) (some w) = none :=
            if_pos hcovers
          rw [hnext]
          exact Holds.pure fun _ _ _ => ⟨nofun, nofun⟩
    · intro e s1 hs1 _ he
      refine ⟨fun e' he' => ?_, nofun⟩
      cases he'
      obtain he | he | he := he
      · exact hgaveUp e _ (.inl he) rfl
      · exact hgaveUp e _ (.inr he) rfl
      · obtain ⟨e', he', hescapes⟩ | ⟨w, hw, -⟩ := not_due h
        · cases he.trans he'
          exact hescapes
        · rw [hw] at he
          cases he
  have hbucket : Math.bucketNumber floorNs q.format.delayedBucketWidthNs =
      some (floorNs / q.format.delayedBucketWidthNs) := if_neg q.bucketWidths_ne_zero.2.1
  unfold Queue.advanceWatermark
  rw [hbucket]
  apply Holds.loop (I := fun _ _ => True) _ _ trivial hs
  · intro _ s1 hs1 _ _
    apply (hround s1 hs1).bind
    · intro done s2 hs2 _ hdone
      cases done with
      | false => exact absurd rfl (hdone s2 rfl hs2).2
      | true => exact Holds.pure fun _ _ _ => ⟨nofun, nofun, nofun⟩
    · intro e s2 _ _ he
      refine ⟨nofun, nofun, fun e' he' e'' he'' => ?_⟩
      cases he'
      cases he''
      exact he.1 e rfl
  · intro _ s1 _ _ _ s2 _ _ e he
    cases he
    rfl

lemma sealed_of_holds (h : Holds (resting permits objs) m Clean ⟨objs, 0⟩) : Sealed permits objs m := by
  refine ⟨0, fun budget _ os e left s' hpath => ?_⟩
  exact hpath.safe (S := flaky permits) (T := (resting permits objs).service) (fun _ _ _ _ hr => hr) (h budget) rfl e rfl

/-! ## Outcomes that escape -/

/-- The fault that strikes a request. -/
def struck (fault : Fault) (s : Condition) (r : Request) : Option Fault :=
  if conditional r = true ∧ s.streak < 4 then some fault else none

/-- The schedule that strikes the first conditional writes. -/
def striking (fault : Fault) : Handler Op Res Condition
  | .store r, s =>
    let out := inject (struck fault s r) s.objects Overrun.someStamp r
    (out.1, ⟨out.2, if (struck fault s r).isSome then s.streak + 1 else 0⟩)
  | .freshToken, s => (List.Vector.replicate 16 0, s)
  | .cachedFloor _, s => (none, s)
  | .cacheFloor .., s => ((), s)
  | .isMemoizedTerminal .., s => (false, s)
  | .memoizeTerminal .., s => ((), s)

lemma answers_striking (hpermits : permits fault) (o : Op) (s : Condition) :
    (flaky permits).answers o s (striking fault o s).1 (striking fault o s).2 := by
  cases o with
  | store r =>
    refine ⟨struck fault s r, Overrun.someStamp, fun f hf => ?_, rfl, rfl⟩
    unfold struck at hf
    split at hf
    · next h =>
        cases hf
        exact ⟨h.1, hpermits, h.2⟩
    · cases hf
  | _ => rfl

/-- With large budgets `m` returns such an error when its first writes are struck. -/
def Leaks (fault : Fault) (objs : Objects) {α : Type} (m : Routine α) : Prop :=
  ∃ enough e s', escapes e = true ∧ ∀ spare, ∃ left, Evals (striking fault) m (spare + enough) ⟨objs, 0⟩ (.error e) left s'

lemma Leaks.not_sealed (hpermits : permits fault) (h : Leaks fault objs m) : ¬ Sealed permits objs m := by
  rintro ⟨enough, hsealed⟩
  obtain ⟨enough', e, s', hescapes, hleaks⟩ := h
  obtain ⟨left, heval⟩ := hleaks enough
  obtain ⟨os, hpath⟩ := Prog.Path.of_run (answers_striking hpermits) (m (enough + enough')) ⟨objs, 0⟩
  rw [heval] at hpath
  rw [hsealed _ (Nat.le_add_right _ _) os e left s' hpath] at hescapes
  cases hescapes

lemma Leaks.bind {β : Type} {f : α → Routine β} (h : Leaks fault objs m) : Leaks fault objs (m >>= f) := by
  obtain ⟨enough, e, s', hescapes, hleaks⟩ := h
  refine ⟨enough, e, s', hescapes, fun spare => ?_⟩
  obtain ⟨left, heval⟩ := hleaks spare
  exact ⟨left, heval.bind_error⟩

lemma serves_striking {ans : StoreResult r.Answer} {objs' : Objects} {f : Option Fault}
    (hf : struck fault ⟨objs, 0⟩ r = f) (h : inject f objs Overrun.someStamp r = (ans, objs')) :
    Serves (striking fault) ⟨objs, 0⟩ r ans ⟨objs', if f.isSome then 1 else 0⟩ := by
  subst hf
  simp only [Serves, striking, h, Nat.zero_add]
  rfl

lemma serves_struck (objs : Objects) (fault : Fault) (key : Str) (body : Bytes) : ∃ e s', retryable e = true ∧
    Serves (striking fault) ⟨objs, 0⟩ (.putIfAbsent key body (Sha256.digest body)) (.error e) s' := by
  cases fault with
  | preTransmit => exact ⟨_, _, rfl, rfl⟩
  | postTransmit why => exact ⟨_, _, rfl, rfl⟩
  | postTransmitAfter why =>
    obtain ⟨outcome, houtcome⟩ := Overrun.put_answered objs key body
    have hinject : inject (some (.postTransmitAfter why)) objs Overrun.someStamp
        (.putIfAbsent key body (Sha256.digest body)) = (.error (.outcomeUnknown why),
          (perform objs Overrun.someStamp (.putIfAbsent key body (Sha256.digest body))).2) := by
      simp only [inject, houtcome]
    exact ⟨_, _, rfl, serves_striking rfl hinject⟩

lemma leaks_init {handle : Nat} {root : Str} {opts : OpenOptions} {format : FormatRecord} (fault : Fault)
    (hformat : format.validate = .ok ()) : Leaks fault objs (Queue.init handle root opts format) := by
  obtain ⟨e, s', hretryable, hserves⟩ := serves_struck objs fault
    ((⟨slashed root, opts.queueId⟩ : Site).absolute .format)
    ((⟨slashed root, opts.queueId⟩ : Site).encodeAt .format (.format format))
  refine ⟨0, .store e, s', hretryable, fun spare => ⟨spare, ?_⟩⟩
  unfold Queue.init
  rw [hformat]
  exact evals_store hserves (Evals.bind_error (Evals.fail _))

lemma serves_preTransmit (hr : conditional r = true) :
    Serves (striking .preTransmit) ⟨objs, 0⟩ r (.error .transport) ⟨objs, 1⟩ :=
  serves_striking (f := some .preTransmit) (if_pos ⟨hr, Nat.succ_pos 3⟩) rfl

lemma leaks_advanceWatermark (hdue : Due q objs floorNs) :
    Leaks .preTransmit objs (q.advanceWatermark floorNs) := by
  have hbucket : Math.bucketNumber floorNs q.format.delayedBucketWidthNs =
      some (floorNs / q.format.delayedBucketWidthNs) := if_neg q.bucketWidths_ne_zero.2.1
  refine ⟨3, .store .transport, ⟨objs, 1⟩, rfl, fun spare => ?_⟩
  unfold Queue.advanceWatermark
  rw [hbucket]
  cases hstored : objs.get? (q.absolute .watermark) with
  | none =>
    have hget : Serves (striking .preTransmit) ⟨objs, 0⟩ (.get (q.absolute .watermark)) (.error .notFound)
        ⟨objs, 0⟩ := serves_striking rfl (get_absent hstored)
    refine ⟨spare + 1, Evals.loop_error (Evals.bind_error ((evals_watermark_absent hget).bind ?_))⟩
    exact Evals.bind (evals_spend (serves_preTransmit rfl).evals) (Evals.fail _)
  | some stored =>
    obtain ⟨w, hdecode, hlt⟩ := hdue stored hstored
    have hget : Serves (striking .preTransmit) ⟨objs, 0⟩ (.get (q.absolute .watermark))
        (.ok ⟨stored.info, stored.body⟩) ⟨objs, 0⟩ :=
      serves_striking rfl (get_present hstored)
    have hhead : Serves (striking .preTransmit) ⟨objs, 0⟩ (.head (q.absolute .watermark)) (.ok stored.info)
        ⟨objs, 0⟩ := serves_striking rfl (head_present hstored)
    have hnext : Queue.nextWatermark (floorNs / q.format.delayedBucketWidthNs) (some w) =
        some ⟨floorNs / q.format.delayedBucketWidthNs, w.sequence + 1⟩ := if_neg (UInt64.not_le.mpr hlt)
    refine ⟨spare, Evals.loop_error (Evals.bind_error ((evals_watermark hget hdecode).bind ?_))⟩
    rw [hnext]
    exact Evals.bind (evals_spend (evals_spend (evals_store hhead ((Evals.pure _).bind
      (serves_preTransmit rfl).evals)))) (Evals.fail _)

/-- A watermark advance on a store whose writes are all transmitted. -/
lemma seals_advanceWatermark (htransmitted : ¬ permits .preTransmit) (floorNs : UInt64) :
    Seals (Answered permits) (q.advanceWatermark floorNs) := by
  have hwrite : ∀ r, conditional r = true → ¬ Answered permits (.store r) (.error .transport) := by
    intro r hr h
    obtain hfinal | ⟨fault, hpermits, hfault⟩ := fault_of_answered hr h
    · cases hfinal
    · exact htransmitted (hfault rfl ▸ hpermits)
  exact advanceWatermark reliable (fun _ _ _ => hwrite _ rfl) (fun _ _ _ _ => hwrite _ rfl) floorNs

/-- **Outcomes of writes stay inside the write paths**, with two exceptions.  With enough budget a write path
returns no transport failure and no unknown outcome exactly if it is shielded: `init` if its write can meet no
fault, an advance that is due if no write fails before it is transmitted, and every other path always. -/
theorem write_paths_sealed_iff (permits : Fault → Prop) (objs : Objects) (path : WritePath) :
    Sealed permits objs path.task ↔ path.Shielded permits objs := by
  cases path with
  | init handle root opts format =>
    constructor
    · intro hsealed hformat fault hpermits
      exact (leaks_init fault hformat).bind.not_sealed hpermits hsealed
    · intro hshielded
      apply sealed_of_seals
      refine Keeps.bind ?_ fun _ => Keeps.pure _
      apply init reliable
      intro hformat key body digest e he
      obtain hfinal | ⟨fault, hpermits, -⟩ := fault_of_answered rfl he
      · exact hfinal
      · exact absurd hpermits (hshielded hformat fault)
  | call q action =>
    obtain ⟨action, hforeground⟩ := action
    by_cases hwatermark : ∃ floorNs, action = .advanceWatermark floorNs
    · obtain ⟨floorNs, rfl⟩ := hwatermark
      constructor
      · intro hsealed hdue hpermits
        exact (leaks_advanceWatermark hdue).bind.bind.not_sealed hpermits hsealed
      · intro hshielded
        by_cases hdue : Due q objs floorNs
        · apply sealed_of_seals
          exact Keeps.bind ((seals_advanceWatermark (hshielded hdue) floorNs).bind fun _ => Keeps.pure _)
            fun _ => Keeps.pure _
        · exact sealed_of_holds (holds_last (holds_last (holds_advanceWatermark hdue rfl) _) _)
    · have hshielded : WritePath.Shielded permits objs (.call q ⟨action, hforeground⟩) := by
        cases action with
        | advanceWatermark floorNs => exact absurd ⟨floorNs, rfl⟩ hwatermark
        | _ => trivial
      refine iff_of_true (sealed_of_seals ?_) hshielded
      exact (task reliable hforeground fun floorNs h => absurd ⟨floorNs, h⟩ hwatermark).bind fun _ => Keeps.pure _

end Schedules

/-- On an empty store one fault makes a write path with this budget return a retryable error. -/
def Escapes [Sha256] (path : WritePath) (budget : Nat) (e : StoreError) : Prop :=
  ∃ os left s, (path.task budget).Path (flaky fun _ => True) ⟨OrderedMap.empty, 0⟩ os
    (.ret (.error (.store e), left)) s ∧ s.streak = 1

/-- One lost response escapes from `init`, and one failed transmission from `advanceWatermark`, at every budget that
lets them get as far as the write. -/
theorem outcomes_escape : ¬ ∃ (_ : Sha256) (budget : Nat),
    ¬ Escapes (.init 0 ['q'] Scenario.demo.opts Scenario.demo.format) budget (.outcomeUnknown .timeout) ∨
      3 ≤ budget ∧ ¬ Escapes (.call Scenario.demo ⟨.advanceWatermark 0, rfl⟩) budget .transport := by
  rintro ⟨_, budget, hinit | ⟨hbudget, hadvance⟩⟩
  · have hwrite : ∀ key body, (flaky fun _ => True).answers (.store (.putIfAbsent key body (Sha256.digest body)))
        ⟨OrderedMap.empty, 0⟩ (.error (.outcomeUnknown .timeout)) ⟨OrderedMap.empty.insert key ⟨body, _, _⟩, 1⟩ :=
      fun _ _ => ⟨some (.postTransmitAfter .timeout), Overrun.someStamp, fun _ _ => ⟨rfl, trivial, Nat.succ_pos 3⟩,
        put_absent_unanswered _ rfl, rfl⟩
    exact hinit ⟨_, _, _, .op (hwrite _ _) (.refl _ _), rfl⟩
  · obtain ⟨spare, rfl⟩ := Nat.exists_eq_add_of_le' hbudget
    have hread : (flaky fun _ => True).answers (.store (.get (Scenario.demo.absolute .watermark)))
        ⟨OrderedMap.empty, 0⟩ (.error .notFound) ⟨OrderedMap.empty, 0⟩ :=
      ⟨none, Overrun.someStamp, nofun, rfl, rfl⟩
    have hwrite : ∀ r, conditional r = true → (flaky fun _ => True).answers (.store r)
        ⟨OrderedMap.empty, 0⟩ (.error .transport) ⟨OrderedMap.empty, 1⟩ := fun r hr =>
      ⟨some .preTransmit, Overrun.someStamp, fun _ _ => ⟨hr, trivial, Nat.succ_pos 3⟩, rfl, rfl⟩
    exact hadvance ⟨_, _, _, .op hread (.op (hwrite _ rfl) (.refl _ _)), rfl⟩

end Escape
end StowQ
