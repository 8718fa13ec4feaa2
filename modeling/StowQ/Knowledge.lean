import StowQ.History
import StowQ.Listing

/-!
# What a call has seen

The history of a call is the list of its store requests with their answers, newest first.
A call is analysed against its history alone: answers are arbitrary, other participants do
not appear, and the discipline `knowing A` asks that every request be issued on the evidence
that `A` requires.  `Holds (knowing A)` is then lifted to runs: the history of call `i` is what
the log says of it, so at every moment of every run the next request of a call is backed by
the log (`run_asks`), and so is a returned value (`run_answers`).  `run_at` finds the moment of
a request in the log.
-/

namespace StowQ
namespace Interleaving

open Data StowQ.Core Store Format Concurrent Keys

variable {i : Nat} {r : Request} {answer : StoreResult r.Answer} {before after : Objects}
  {h' : List Exchange} {log : List Event} {body : Bytes}

/-- A store request and its answer. -/
structure Exchange where
  request : Request
  answer : StoreResult request.Answer

/-- The history of call `i` in a log. -/
def own (i : Nat) : List Event → List Exchange
  | [] => []
  | .did j r answer _ _ :: log => if j = i then ⟨r, answer⟩ :: own i log else own i log
  | .started _ _ :: log => own i log
  | .returned _ _ :: log => own i log

lemma mem_own {x : Exchange} : x ∈ own i log ↔ ∃ before after, .did i x.request x.answer before after ∈ log := by
  induction log with
  | nil => simp [own]
  | cons e log ih =>
    cases e with
    | did j r answer before after =>
      unfold own
      by_cases hj : j = i
      · subst hj
        rw [if_pos rfl, List.mem_cons, ih]
        constructor
        · rintro (rfl | ⟨b, a, hmem⟩)
          · exact ⟨before, after, List.mem_cons_self⟩
          · exact ⟨b, a, List.mem_cons_of_mem _ hmem⟩
        · rintro ⟨b, a, hmem⟩
          rcases List.mem_cons.mp hmem with heq | hmem
          · cases heq
            exact .inl rfl
          · exact .inr ⟨b, a, hmem⟩
      · rw [if_neg hj, ih]
        refine exists_congr fun b => exists_congr fun a => ⟨List.mem_cons_of_mem _, fun hmem => ?_⟩
        rcases List.mem_cons.mp hmem with heq | hmem
        · cases heq
          exact absurd rfl hj
        · exact hmem
    | _ => simp [own, ih]

lemma own_suffix {log' : List Event} (h : log <:+ log') : own i log <:+ own i log' := by
  obtain ⟨later, rfl⟩ := h
  induction later with
  | nil => exact List.suffix_refl _
  | cons e later ih =>
    rw [List.cons_append]
    cases e with
    | did j r answer before after =>
      change own i log <:+ if j = i then ⟨r, answer⟩ :: own i (later ++ log) else own i (later ++ log)
      split
      · exact ih.trans (List.suffix_cons _ _)
      · exact ih
    | _ => exact ih

lemma own_split {x : Exchange} {h : List Exchange} (hsuffix : x :: h <:+ own i log) :
    ∃ later earlier before after, log = later ++ .did i x.request x.answer before after :: earlier ∧
      own i earlier = h := by
  induction log with
  | nil => exact absurd (List.suffix_nil.mp hsuffix) (List.cons_ne_nil _ _)
  | cons e log ih =>
    have hearlier : x :: h <:+ own i log → ∃ later earlier before after,
        e :: log = later ++ .did i x.request x.answer before after :: earlier ∧ own i earlier = h := by
      intro hsuffix
      obtain ⟨later, earlier, before, after, rfl, hown⟩ := ih hsuffix
      exact ⟨e :: later, earlier, before, after, rfl, hown⟩
    cases e with
    | did j r answer before after =>
      unfold own at hsuffix
      split at hsuffix
      · next hj =>
          subst hj
          rcases List.suffix_cons_iff.mp hsuffix with heq | hsuffix
          · cases heq
            exact ⟨[], log, before, after, rfl, rfl⟩
          · exact hearlier hsuffix
      · exact hearlier hsuffix
    | _ => exact hearlier hsuffix

/-! ## Judging a call by its history -/

/-- Every request of the history was issued on the evidence that `A` requires. -/
def Licensed (A : List Exchange → Request → Prop) : List Exchange → Prop
  | [] => True
  | x :: earlier => A earlier x.request ∧ Licensed A earlier

/-- Requests as a call sees them: any answer, and the history grows. -/
def recording (A : List Exchange → Request → Prop) : Service (List Exchange) Op Res where
  answers
    | .store r, h, answer, h' => h' = ⟨r, answer⟩ :: h
    | _, h, _, h' => h' = h
  inv := Licensed A

/-- Histories grow at the front. -/
def growing : Rely (List Exchange) where
  rel h h' := h <:+ h'
  refl h := List.suffix_refl h
  trans := List.IsSuffix.trans

/-- Every request is issued on the evidence that `A` requires; parts of a call that run side by
side add to one history. -/
def knowing (A : List Exchange → Request → Prop) : Discipline (List Exchange) Op Res where
  service := recording A
  rely := growing
  guar h h' := h <:+ h'
  order := growing
  rely_order _ _ _ h := h
  guar_order _ _ _ _ h := h

section Rules

variable {A : List Exchange → Request → Prop} {h : List Exchange} {α β : Type}

lemma holds_ask_newest {f : StoreResult r.Answer → Routine β} {Q : Except Error β → List Exchange → Prop}
    (hA : ∀ h1, h <:+ h1 → Licensed A h1 → A h1 r)
    (hf : ∀ answer h1, h <:+ h1 → Licensed A (⟨r, answer⟩ :: h1) →
      Holds (knowing A) (f answer) Q (⟨r, answer⟩ :: h1)) : Holds (knowing A) (Routine.store r >>= f) Q h := by
  refine Holds.request fun h1 hh1 hi answer h2 heq => ?_
  obtain rfl : h2 = ⟨r, answer⟩ :: h1 := heq
  have hlicensed : Licensed A (⟨r, answer⟩ :: h1) := ⟨hA h1 hh1 hi, hi⟩
  exact ⟨hlicensed, List.suffix_cons _ _, hf answer h1 hh1 hlicensed⟩

lemma holds_ask {f : StoreResult r.Answer → Routine β} {Q : Except Error β → List Exchange → Prop}
    (hA : ∀ h1, h <:+ h1 → Licensed A h1 → A h1 r)
    (hf : ∀ answer h1, h <:+ h1 → ⟨r, answer⟩ ∈ h1 → Licensed A h1 → Holds (knowing A) (f answer) Q h1) :
    Holds (knowing A) (Routine.store r >>= f) Q h :=
  holds_ask_newest hA fun answer _ hh1 hlicensed =>
    hf answer _ (hh1.trans (List.suffix_cons _ _)) List.mem_cons_self hlicensed

lemma safe_ask (hA : ∀ h1, h <:+ h1 → Licensed A h1 → A h1 r) :
    Safe (recording A) growing (· <:+ ·) (Prog.request (.store r) : Prog Op Res _)
      (fun answer h' => ⟨r, answer⟩ ∈ h') h := by
  intro h1 hh1 hi answer h2 heq
  obtain rfl : h2 = ⟨r, answer⟩ :: h1 := heq
  exact ⟨⟨hA h1 hh1 hi, hi⟩, List.suffix_cons _ _, fun h3 hh3 _ =>
    List.IsSuffix.subset hh3 List.mem_cons_self⟩

lemma safe_join {p : Prog Op Res α} {q : Prog Op Res β} {P : α → List Exchange → Prop}
    {Q : β → List Exchange → Prop} (hp : Safe (recording A) growing (· <:+ ·) p P h)
    (hq : Safe (recording A) growing (· <:+ ·) q Q h) :
    Safe (recording A) growing (· <:+ ·) (p.join q) (fun out h' => P out.1 h' ∧ Q out.2 h') h :=
  (Safe.join hp hq (fun _ _ _ _ hg => hg) fun _ _ _ _ hg => hg).weaken (fun _ _ hr => ⟨hr, hr⟩)
    fun _ _ hg => hg.elim id id

lemma holds_beside {p : Prog Op Res β} {m : Routine α} {P : β → List Exchange → Prop}
    {Q : Except Error α → List Exchange → Prop}
    (hp : Safe (recording A) growing (· <:+ ·) p P h) (hm : Holds (knowing A) m Q h) :
    Holds (knowing A) (Budgeted.beside p m) (OnOk fun out h' => P out.1 h' ∧ Q out.2 h') h :=
  Holds.beside (fun _ _ hg => hg) (fun _ _ _ _ hg => hg) hp hm

/-- `true` is the answer of a look that found nothing. -/
lemma holds_provenAbsent {q : Queue} {rel : Key}
    (hA : ∀ h1, h <:+ h1 → Licensed A h1 → A h1 (.head (q.absolute rel))) :
    Holds (knowing A) (q.provenAbsent rel) (OnOk fun absent h' =>
      absent = true → ⟨.head (q.absolute rel), .error .notFound⟩ ∈ h') h := by
  refine holds_spend (holds_ask hA fun answer h1 _ hmem _ => ?_)
  split
  · exact holds_pure nofun
  · exact holds_pure fun _ _ hh2 _ => List.IsSuffix.subset hh2 hmem
  · exact holds_fail

/-- A body that is read back was the answer of a read. -/
lemma holds_readRetrying [Sha256] {key : Str} (hA : ∀ h1, h <:+ h1 → Licensed A h1 → A h1 (.get key))
    (hinv : Licensed A h) :
    Holds (knowing A) (Queue.readRetrying key) (OnOk fun obj h' => ⟨.get key, .ok obj⟩ ∈ h') h := by
  refine holds_retrying hinv fun h1 _ hh1 => holds_spend ?_
  refine holds_ask (fun h2 hh2 => hA h2 (List.IsSuffix.trans hh1 hh2)) fun answer h2 _ hmem _ => ?_
  cases answer with
  | error e => exact holds_retryOrFail nofun
  | ok obj =>
    refine holds_pure fun h3 _ hh3 v hv => ?_
    cases hv
    exact List.IsSuffix.subset hh3 hmem

/-! ### Resolved writes -/

section Resolved

variable [Sha256] {q : Queue} {rel : Key} {record : Record}

/-- A read that found the record at its key. -/
def ReadBack (q : Queue) (rel : Key) (record : Record) (h : List Exchange) : Prop :=
  ∃ obj, ⟨.get (q.absolute rel), .ok obj⟩ ∈ h ∧ q.decodeAt rel obj.body = .ok record

/-- The evidence of a committed record: its write was answered so, or it was read back. -/
def Won (q : Queue) (rel : Key) (record : Record) (h : List Exchange) : Prop :=
  (∃ v, ⟨.putIfAbsent (q.absolute rel) (q.encodeAt rel record)
      (Sha256.digest (q.encodeAt rel record)), .ok (.committed v)⟩ ∈ h) ∨
    ReadBack q rel record h

lemma ReadBack.mono (hr : ReadBack q rel record h) (hh : h <:+ h') : ReadBack q rel record h' := by
  obtain ⟨obj, hmem, hdec⟩ := hr
  exact ⟨obj, List.IsSuffix.subset hh hmem, hdec⟩

lemma Won.mono (hwon : Won q rel record h) (hh : h <:+ h') : Won q rel record h' := by
  rcases hwon with ⟨v, hmem⟩ | hread
  · exact .inl ⟨v, List.IsSuffix.subset hh hmem⟩
  · exact .inr (hread.mono hh)

/-- An object is known to be at the key: a create was answered, or it was seen or read. -/
def Placed (key : Str) (h : List Exchange) : Prop :=
  (∃ body sha256 outcome, ⟨.putIfAbsent key body sha256, .ok outcome⟩ ∈ h) ∨
    (∃ info, ⟨.head key, .ok info⟩ ∈ h) ∨ ∃ obj, ⟨.get key, .ok obj⟩ ∈ h

omit [Sha256] in
lemma Placed.mono {key : Str} (hp : Placed key h) (hh : h <:+ h') : Placed key h' := by
  rcases hp with ⟨body, sha256, outcome, hmem⟩ | ⟨info, hmem⟩ | ⟨obj, hmem⟩
  · exact .inl ⟨body, sha256, outcome, List.IsSuffix.subset hh hmem⟩
  · exact .inr (.inl ⟨info, List.IsSuffix.subset hh hmem⟩)
  · exact .inr (.inr ⟨obj, List.IsSuffix.subset hh hmem⟩)

lemma evidence_eq_committed : q.evidence rel record body = .committed ↔ q.decodeAt rel body = .ok record := by
  unfold Queue.evidence
  cases q.decodeAt rel body with
  | error e => simp
  | ok found => simp

/-- What the outcome of a write is reported on. -/
def Resolves (q : Queue) (rel : Key) (record : Record) (res : Resolved) (h : List Exchange) : Prop :=
  (res = .committed → Won q rel record h) ∧ (res ≠ .notCommitted → Placed (q.absolute rel) h)

lemma holds_resolveUnknown
    (hhead : ∀ h1, h <:+ h1 → Licensed A h1 → A h1 (.head (q.absolute rel)))
    (hget : ∀ h1, h <:+ h1 → Licensed A h1 → A h1 (.get (q.absolute rel))) (hinv : Licensed A h) :
    Holds (knowing A) (q.resolveUnknown (q.absolute rel) record rel)
      (OnOk (Resolves q rel record)) h := by
  refine holds_retrying hinv fun h1 _ hh1 => holds_spend ?_
  refine holds_ask (fun h2 hh2 => hhead h2 (List.IsSuffix.trans hh1 hh2)) fun answer h2 hh2 _ hi2 => ?_
  cases answer with
  | error e =>
    have hretry := holds_retryOrFail (D := knowing A) (w := h2) (e := e)
      (Q := fun r h' => ∀ v, r = some v → Resolves q rel record v h') nofun
    cases e with
    | notFound =>
      refine holds_pure fun _ _ _ v hv => ?_
      cases hv
      exact ⟨nofun, fun hne => absurd rfl hne⟩
    | _ => exact hretry
  | ok info =>
    have hread := holds_readRetrying (h := h2)
      (fun h3 hh3 => hget h3 ((List.IsSuffix.trans hh1 hh2).trans hh3)) hi2
    refine hread.andThen fun obj h3 _ _ hmem => holds_pure fun h4 _ hh4 v hv => ?_
    cases hv
    have hmem4 := List.IsSuffix.subset hh4 hmem
    exact ⟨fun hcommitted => .inr ⟨obj, hmem4, evidence_eq_committed.mp hcommitted⟩,
      fun _ => .inr (.inr ⟨obj, hmem4⟩)⟩

/-- **The outcome of a write is backed by evidence.** -/
theorem holds_putRecord
    (hput : ∀ h1, h <:+ h1 → Licensed A h1 → A h1 (.putIfAbsent (q.absolute rel)
      (q.encodeAt rel record) (Sha256.digest (q.encodeAt rel record))))
    (hhead : ∀ h1, h <:+ h1 → Licensed A h1 → A h1 (.head (q.absolute rel)))
    (hget : ∀ h1, h <:+ h1 → Licensed A h1 → A h1 (.get (q.absolute rel))) (hinv : Licensed A h) :
    Holds (knowing A) (q.putRecord rel record) (OnOk (Resolves q rel record)) h := by
  refine holds_retrying hinv fun h1 _ hh1 => holds_spend ?_
  refine holds_ask (fun h2 hh2 => hput h2 (List.IsSuffix.trans hh1 hh2)) fun answer h2 hh2 hmem hi2 => ?_
  cases answer with
  | ok outcome =>
    have hplaced : ∀ {h3}, h2 <:+ h3 → Placed (q.absolute rel) h3 :=
      fun hh3 => .inl ⟨_, _, outcome, List.IsSuffix.subset hh3 hmem⟩
    cases outcome with
    | committed v =>
      exact holds_pure fun h3 _ hh3 _ _ =>
        ⟨fun _ => .inl ⟨v, List.IsSuffix.subset hh3 hmem⟩, fun _ => hplaced hh3⟩
    | rejected =>
      refine holds_pure fun h3 _ hh3 res hres => ?_
      cases hres
      exact ⟨nofun, fun _ => hplaced hh3⟩
  | error e =>
    cases e with
    | transport => exact holds_pure nofun
    | outcomeUnknown why =>
      have hunknown : Holds (knowing A) (q.resolveUnknown (q.absolute rel) record rel)
          (OnOk (Resolves q rel record)) h2 :=
        holds_resolveUnknown (fun h3 hh3 => hhead h3 ((List.IsSuffix.trans hh1 hh2).trans hh3))
          (fun h3 hh3 => hget h3 ((List.IsSuffix.trans hh1 hh2).trans hh3)) hi2
      refine hunknown.andThen fun found h3 _ _ hfound => ?_
      cases found with
      | committed =>
        exact holds_pure fun h4 _ hh4 _ _ =>
          ⟨fun _ => (hfound.1 rfl).mono hh4, fun _ => (hfound.2 nofun).mono hh4⟩
      | lost =>
        refine holds_pure fun h4 _ hh4 res hres => ?_
        cases hres
        exact ⟨nofun, fun _ => (hfound.2 nofun).mono hh4⟩
      | notCommitted => exact holds_pure nofun
    | _ => exact holds_fail

end Resolved

/-- The pages of a listing that a history holds. -/
def Shown (h : List Exchange) (pre : Str) (limit : Nat) (after : Option Str) (page : Page) : Prop :=
  ⟨.list pre after limit, .ok page⟩ ∈ h

lemma Shown.mono {pre : Str} {limit : Nat} {after : Option Str} {page : Page}
    (hshown : Shown h pre limit after page) (hh : h <:+ h') : Shown h' pre limit after page :=
  List.IsSuffix.subset hh hshown

/-- A walk through a listing sees its items in order. -/
lemma holds_walk {σ : Type} {pre : Str} {limit : Nat} {item : σ → Listing → σ}
    (hA : ∀ after h1, h <:+ h1 → Licensed A h1 → A h1 (.list pre after limit))
    (hinv : Licensed A h) (s : σ) :
    Holds (knowing A) (Routine.pages false pre limit (fun s x => pure (item s x)) s)
      (OnOk fun s' h' => ∃ items, Walked (Shown h' pre limit) items ∧ s' = items.foldl item s) h := by
  refine holds_loop (I := fun next h' => ∃ items, Walk (Shown h' pre limit) next.2 items ∧
    next.1 = items.foldl item s) (fun next h1 hi1 hh1 hI => ?_) ⟨[], .start, rfl⟩ hinv
  obtain ⟨items, hwalk, hs⟩ := hI
  obtain ⟨s1, after⟩ := next
  refine holds_spend (holds_ask (fun h2 hh2 => hA after h2 (hh1.trans hh2))
    fun answer h2 hh2 hmem hi2 => holds_ofStore fun page hpage => ?_)
  subst hpage
  simp only [Bool.false_and, Bool.false_eq_true, if_false]
  rw [Budgeted.foldM_pure]
  -- the page extends the walk, or ends it
  have hwalk2 : Walk (Shown h2 pre limit) after items := hwalk.mono fun _ _ hp => hp.mono hh2
  have hfold : page.items.foldl item s1 = (items ++ page.items).foldl item s := by
    rw [List.foldl_append, ← hs]
  cases hnext : page.nextAfter with
  | some k =>
    refine holds_pure fun h3 _ hh3 => ⟨items ++ page.items, ?_, hfold⟩
    exact (hwalk2.next hmem hnext).mono fun _ _ hp => hp.mono hh3
  | none =>
    refine holds_pure fun h3 _ hh3 => ⟨items ++ page.items, ?_, hfold⟩
    exact Walked.mono ⟨after, items, page, hwalk2, hmem, hnext, rfl⟩ fun _ _ hp => hp.mono hh3

/-- A program whose requests need no evidence that could be missing. -/
lemma safe_of_asks {B : Op → Prop} {p : Prog Op Res α} (hp : p.Emits B)
    (hA : ∀ r, B (.store r) → ∀ h1, h <:+ h1 → A h1 r) :
    Safe (recording A) growing (· <:+ ·) p (fun _ _ => True) h := by
  refine Safe.of_emits_while (K := fun h1 => h <:+ h1) hp (fun _ _ hr hK => hK.trans hr)
    (fun o ho h1 r h2 hi hK hr => ?_) (List.suffix_refl h)
  cases o with
  | store r' =>
    obtain rfl : h2 = ⟨r', r⟩ :: h1 := hr
    exact ⟨⟨hA r' ho h1 hK, hi⟩, List.suffix_cons _ _, hK.trans (List.suffix_cons _ _)⟩
  | _ =>
    obtain rfl : h2 = h1 := hr
    exact ⟨hi, List.suffix_refl _, hK⟩

lemma holds_of_asks {B : Op → Prop} {m : Routine α} (hm : ∀ b, (m b).Emits B)
    (hA : ∀ r, B (.store r) → ∀ h1, h <:+ h1 → A h1 r) :
    Holds (knowing A) m (fun _ _ => True) h :=
  fun b => safe_of_asks (hm b) hA

end Rules

/-! ## Runs -/

section Runs

variable {P : Terms} {A : Call → List Exchange → Request → Prop}
  {Q : Call → Except Error Output → List Exchange → Prop} {w : World} {cfg cfg' : Calls}

/-- Every call is what its history leaves of its program. -/
def Recalls (A : Call → List Exchange → Request → Prop)
    (Q : Call → Except Error Output → List Exchange → Prop) (cfg : Calls) : Prop :=
  ∀ i, match cfg.threads i with
    | none => own i cfg.world.log = []
    | some t => Licensed (A t.call) (own i cfg.world.log) ∧
        Safe (recording (A t.call)) growing (· <:+ ·) t.prog (Q t.call) (own i cfg.world.log)

lemma Recalls.some {t : Thread Op Res Call (Except Error Output)} (h : Recalls A Q cfg)
    (ht : cfg.threads i = .some t) :
    Licensed (A t.call) (own i cfg.world.log) ∧
      Safe (recording (A t.call)) growing (· <:+ ·) t.prog (Q t.call) (own i cfg.world.log) := by
  have hi := h i
  rwa [ht] at hi

/-- A call moves on; the histories of the others stay. -/
lemma Recalls.set {t : Thread Op Res Call (Except Error Output)} {w' : World} (h : Recalls A Q cfg)
    (hothers : ∀ j, j ≠ i → own j w'.log = own j cfg.world.log) (ht : Licensed (A t.call) (own i w'.log) ∧
      Safe (recording (A t.call)) growing (· <:+ ·) t.prog (Q t.call) (own i w'.log)) :
    Recalls A Q (cfg.set w' i t) := by
  intro j
  by_cases hj : j = i
  · subst hj
    rw [Config.set_threads_self]
    exact ht
  · rw [Config.set_threads_ne cfg w' t hj, Config.set_world, hothers j hj]
    exact h j

/-- A thread that stays, in a world with the same histories. -/
lemma Recalls.congr {w' : World} (h : Recalls A Q cfg)
    (hown : ∀ j, own j w'.log = own j cfg.world.log) : Recalls A Q { cfg with world := w' } := by
  intro j
  have hj := h j
  cases ht : cfg.threads j with
  | none =>
    rw [ht] at hj
    exact (hown j).trans hj
  | some t =>
    rw [ht] at hj
    rw [← hown j] at hj
    exact hj

variable [Sha256]

lemma step_recalls (hA : ∀ cfg i call, P.start cfg i call →
      Holds (knowing (A call)) (call.action.task call.queue) (Q call) [])
    (h : Recalls A Q cfg) (hstep : machine.Step P cfg cfg') : Recalls A Q cfg' := by
  cases hstep with
  | start i call w' hfree hadm hrun =>
    cases hrun
    have hnone := h i
    rw [hfree] at hnone
    have hown : ∀ j, own j (cfg.world.record (.started i call)).log = own j cfg.world.log :=
      fun _ => rfl
    refine h.set (fun j _ => hown j) ?_
    rw [hown, hnone]
    exact ⟨trivial, Safe.map (hA cfg i call hadm call.budget)⟩
  | step i call o k c r w' hthread hadm hrun =>
    obtain ⟨hlicensed, hsafe⟩ := h.some hthread
    cases o with
    | store req =>
      cases hrun
      -- only the call's own exchanges count for it
      have hself : own i (cfg.world.request i req c).log =
          ⟨req, (inject c.fault cfg.world.objects c.stamp req).1⟩ :: own i cfg.world.log :=
        if_pos rfl
      refine h.set (fun j hj => if_neg (Ne.symm hj)) ?_
      rw [hself]
      obtain ⟨hinv, -, hnext⟩ := hsafe _ (List.suffix_refl _) hlicensed _ _ (show _ = _ from rfl)
      exact ⟨hinv, hnext⟩
    | _ =>
      cases hrun
      obtain ⟨hinv, -, hnext⟩ := hsafe _ (List.suffix_refl _) hlicensed _ _ (show _ = _ from rfl)
      exact h.set (fun j hj => rfl) ⟨hinv, hnext⟩
  | choose i call k b hthread =>
    obtain ⟨hlicensed, hsafe⟩ := h.some hthread
    exact h.set (fun _ _ => rfl) ⟨hlicensed, hsafe b⟩
  | finish i call out w' hret hrun =>
    obtain rfl := finish_eq_some hrun
    exact h.congr fun _ => rfl
  | env e w' hadm hrun =>
    cases hrun
    refine h.congr fun _ => ?_
    cases e <;> rfl

lemma run_recalls (hA : ∀ cfg i call, P.start cfg i call →
      Holds (knowing (A call)) (call.action.task call.queue) (Q call) [])
    (hw : w.log = []) (hrun : machine.Run P (Machine.initial w) cfg) : Recalls A Q cfg := by
  induction hrun with
  | refl =>
    intro i
    show own i w.log = []
    rw [hw]
    rfl
  | tail _ hstep ih => exact step_recalls hA ih hstep

/-- A call that has not started has done nothing. -/
lemma run_unstarted (hw : w.log = []) (hrun : machine.Run P (Machine.initial w) cfg)
    (hfree : cfg.threads i = none) : .did i r answer before after ∉ cfg.world.log := by
  intro hmem
  have hrecalls := run_recalls (A := fun _ _ _ => True) (Q := fun _ _ _ => True)
    (fun _ _ _ _ => holds_of_asks (fun _ => .any _) fun _ _ _ _ => trivial) hw hrun i
  rw [hfree] at hrecalls
  have hown : ⟨r, answer⟩ ∈ own i cfg.world.log := mem_own.mpr ⟨before, after, hmem⟩
  rw [show own i cfg.world.log = [] from hrecalls] at hown
  cases hown

/-- **The next request of a call is backed by the log.** -/
theorem run_asks (hA : ∀ cfg i call, P.start cfg i call →
      Holds (knowing (A call)) (call.action.task call.queue) (Q call) []) (hw : w.log = [])
    (hrun : machine.Run P (Machine.initial w) cfg) {call : Call}
    {k : StoreResult r.Answer → Prog Op Res (Except Error Output)}
    (hthread : cfg.threads i = some ⟨call, .op (.store r) k⟩) : A call (own i cfg.world.log) r := by
  obtain ⟨hlicensed, hsafe⟩ := (run_recalls hA hw hrun).some hthread
  exact (hsafe _ (List.suffix_refl _) hlicensed (.error .transport) _ (show _ = _ from rfl)).1.1

/-- **A returned value is backed by the log.** -/
theorem run_answers (hA : ∀ cfg i call, P.start cfg i call →
      Holds (knowing (A call)) (call.action.task call.queue) (Q call) []) (hw : w.log = [])
    (hrun : machine.Run P (Machine.initial w) cfg) {call : Call} {out : Except Error Output}
    (hret : cfg.Returned i call out) : Q call out (own i cfg.world.log) := by
  obtain ⟨hlicensed, hsafe⟩ := (run_recalls hA hw hrun).some hret
  exact hsafe _ (List.suffix_refl _) hlicensed

/-- The moment of a request: the configuration in which call `i` is about to issue it, at the
log `earlier`. -/
structure Moment (P : Terms) (w : World) (earlier : List Event) (i : Nat) (r : Request)
    (answer : StoreResult r.Answer) (before after : Objects) (cfg : Calls) (call : Call)
    (k : StoreResult r.Answer → Prog Op Res (Except Error Output)) (c : Choice) : Prop where
  run : machine.Run P (Machine.initial w) cfg
  thread : cfg.threads i = some ⟨call, .op (.store r) k⟩
  log : cfg.world.log = earlier
  objects : cfg.world.objects = before
  step : P.step cfg.world i call (.store r) c
  answered : inject c.fault before c.stamp r = (answer, after)

/-- The moment, and the run from there: the request is the next step. -/
lemma run_through (hw : w.log = []) (hrun : machine.Run P (Machine.initial w) cfg)
    {later earlier : List Event} (hlog : cfg.world.log = later ++ .did i r answer before after :: earlier) :
    ∃ at_ call k c, Moment P w earlier i r answer before after at_ call k c ∧
      machine.Run P (at_.set (at_.world.request i r c) i ⟨call, k answer⟩) cfg := by
  induction hrun generalizing later with
  | refl =>
    rw [show (Machine.initial w : Calls).world.log = [] from hw] at hlog
    simp at hlog
  | @tail cfg1 cfg2 hbefore hstep ih =>
    -- either the last step wrote the entry, or it is already in the log before it
    have hcase : cfg2.world.log = cfg1.world.log ∨ ∃ e, cfg2.world.log = e :: cfg1.world.log ∧
        ∀ j r' answer' b a, e = .did j r' answer' b a → ∃ call k c,
          Moment P w cfg1.world.log j r' answer' b a cfg1 call k c ∧
            cfg1.set (cfg1.world.request j r' c) j ⟨call, k answer'⟩ = cfg2 := by
      cases step_happens hstep with
      | noted e he hworld =>
        exact .inr ⟨e, by rw [hworld]; rfl, fun j r' answer' b a heq => absurd heq (he j r' answer' b a)⟩
      | asked j call req k c hthread hadm hcfg =>
        refine .inr ⟨_, by rw [hcfg]; rfl, fun j' r' answer' b a heq => ?_⟩
        cases heq
        exact ⟨call, k, c, ⟨hbefore, hthread, rfl, rfl, hadm, rfl⟩, hcfg.symm⟩
      | moved e hadm hworld => exact .inl (by rw [hworld, World.outside_log])
      | silent hobjs hlog => exact .inl hlog
    have hearlier : ∀ {later' : List Event}, cfg1.world.log = later' ++ .did i r answer before after :: earlier →
        ∃ at_ call k c, Moment P w earlier i r answer before after at_ call k c ∧
          machine.Run P (at_.set (at_.world.request i r c) i ⟨call, k answer⟩) cfg2 := by
      intro later' hlog'
      obtain ⟨at_, call, k, c, hm, hrest⟩ := ih hlog'
      exact ⟨at_, call, k, c, hm, hrest.tail hstep⟩
    rcases hcase with hsame | ⟨e, hnew, hmoment⟩
    · exact hearlier (hsame ▸ hlog)
    · rw [hnew] at hlog
      cases later with
      | nil =>
        cases hlog
        obtain ⟨call, k, c, hm, rfl⟩ := hmoment i r answer before after rfl
        exact ⟨_, call, k, c, hm, .refl⟩
      | cons e' later => exact hearlier (List.cons.inj hlog).2

/-- **Every request in the log had its moment.** -/
theorem run_at (hw : w.log = []) (hrun : machine.Run P (Machine.initial w) cfg) {later earlier : List Event}
    (hlog : cfg.world.log = later ++ .did i r answer before after :: earlier) :
    ∃ at_ call k c, Moment P w earlier i r answer before after at_ call k c := by
  obtain ⟨at_, call, k, c, hm, -⟩ := run_through hw hrun hlog
  exact ⟨at_, call, k, c, hm⟩

/-- Every answer in the log is one of the store. -/
lemma run_answered (hw : w.log = []) (hrun : machine.Run P (Machine.initial w) cfg)
    (hmem : .did i r answer before after ∈ cfg.world.log) :
    ∃ c : Choice, inject c.fault before c.stamp r = (answer, after) := by
  obtain ⟨later, earlier, hlog⟩ := List.append_of_mem hmem
  obtain ⟨_, _, _, c, hm⟩ := run_at hw hrun hlog
  exact ⟨c, hm.answered⟩

end Runs

/-! ## Objects that nobody replaces -/

namespace Lasting

variable [Sha256] {P : Terms} {key : Str} {w : World} {cfg : Calls} {i : Nat} {stored : Stored}

section Log

variable (hkey : Lasting P key) (hw : w.log = []) (hrun : machine.Run P (Machine.initial w) cfg)

include hkey hw hrun

/-- **What a request left is still there.** -/
theorem left (hmem : .did i r answer before after ∈ cfg.world.log) (hafter : after.get? key = some stored) :
    cfg.world.objects.get? key = some stored := by
  obtain ⟨later, earlier, hlog⟩ := List.append_of_mem hmem
  obtain ⟨at_, call, k, c, hm, hrest⟩ := run_through hw hrun hlog
  have hanswer : (inject c.fault at_.world.objects c.stamp r).1 = answer := by
    rw [hm.objects, hm.answered]
  have hstep : machine.Step P at_ (at_.set (at_.world.request i r c) i ⟨call, k answer⟩) :=
    .step i call (Op.store r) k c _ _ hm.thread hm.step (by rw [← hanswer]; rfl)
  have hthere : (at_.world.request i r c).objects.get? key = some stored := by
    show (inject c.fault at_.world.objects c.stamp r).2.get? key = _
    rwa [hm.objects, hm.answered]
  exact run_preserved hkey hw (hm.run.tail hstep) hrest hthere

lemma found (hmem : .did i r answer before after ∈ cfg.world.log) (hbefore : before.get? key = some stored) :
    cfg.world.objects.get? key = some stored := by
  obtain ⟨call, w', c, hissued⟩ := run_logged (A := fun _ => Preserves key) hkey.calls hw hrun i r
    answer before after hmem
  refine hkey.left hw hrun hmem ?_
  have hkept : (inject c.fault before c.stamp r).2.get? key = some stored :=
    get?_of_preserves hissued.listed hbefore
  rwa [hissued.answered] at hkept

lemma got {obj : Object} (hmem : ⟨.get key, .ok obj⟩ ∈ own i cfg.world.log) :
    ∃ stored, cfg.world.objects.get? key = some stored ∧ obj = ⟨stored.info, stored.body⟩ := by
  obtain ⟨before, after, hdid⟩ := mem_own.mp hmem
  obtain ⟨c, hanswered⟩ := run_answered hw hrun hdid
  obtain ⟨stored, hstored, hobj⟩ := answer_get (congrArg Prod.fst hanswered)
  exact ⟨stored, hkey.found hw hrun hdid hstored, hobj⟩

lemma seen {info : Meta} (hmem : ⟨.head key, .ok info⟩ ∈ own i cfg.world.log) :
    ∃ stored, cfg.world.objects.get? key = some stored := by
  obtain ⟨before, after, hdid⟩ := mem_own.mp hmem
  obtain ⟨c, hanswered⟩ := run_answered hw hrun hdid
  obtain ⟨stored, hstored, -⟩ := answer_head (congrArg Prod.fst hanswered)
  exact ⟨stored, hkey.found hw hrun hdid hstored⟩

lemma committed {sha256 : Digest} {v : Version}
    (hmem : ⟨.putIfAbsent key body sha256, .ok (.committed v)⟩ ∈ own i cfg.world.log) :
    ∃ stored, cfg.world.objects.get? key = some stored ∧ stored.body = body := by
  obtain ⟨before, after, hdid⟩ := mem_own.mp hmem
  obtain ⟨c, hanswered⟩ := run_answered hw hrun hdid
  obtain ⟨-, hinsert⟩ := answer_put_committed (congrArg Prod.fst hanswered)
  have hafter : after = before.insert key ⟨body, c.stamp.version, c.stamp.timeNs⟩ :=
    (congrArg Prod.snd hanswered).symm.trans hinsert
  have hthere : after.get? key = some ⟨body, c.stamp.version, c.stamp.timeNs⟩ := by
    rw [hafter, OrderedMap.get?_insert_self]
  exact ⟨_, hkey.left hw hrun hdid hthere, rfl⟩

lemma answered {sha256 : Digest} {outcome : PutOutcome}
    (hmem : ⟨.putIfAbsent key body sha256, .ok outcome⟩ ∈ own i cfg.world.log) :
    ∃ stored, cfg.world.objects.get? key = some stored := by
  cases outcome with
  | committed v =>
    obtain ⟨stored, hget, -⟩ := hkey.committed hw hrun hmem
    exact ⟨stored, hget⟩
  | rejected =>
    obtain ⟨before, after, hdid⟩ := mem_own.mp hmem
    obtain ⟨c, hanswered⟩ := run_answered hw hrun hdid
    obtain ⟨stored, hstored⟩ := answer_put_rejected (congrArg Prod.fst hanswered)
    exact ⟨stored, hkey.found hw hrun hdid hstored⟩

/-- The object that a call knows to be there. -/
lemma placed (hplaced : Placed key (own i cfg.world.log)) :
    ∃ stored, cfg.world.objects.get? key = some stored := by
  rcases hplaced with ⟨body, sha256, outcome, hmem⟩ | ⟨info, hmem⟩ | ⟨obj, hmem⟩
  · exact hkey.answered hw hrun hmem
  · exact hkey.seen hw hrun hmem
  · obtain ⟨stored, hget, -⟩ := hkey.got hw hrun hmem
    exact ⟨stored, hget⟩

end Log

/-- Call `i` issued the create of an object, in the configuration `at_`. -/
structure Created (P : Terms) (B : Call → Op → Prop) (w : World) (cfg : Calls) (key : Str)
    (body : Bytes) (i : Nat) (call : Call) (at_ : Calls) : Prop where
  run : machine.Run P (Machine.initial w) at_
  thread : ∃ k, at_.threads i = some ⟨call, .op (.store (.putIfAbsent key body (Sha256.digest body))) k⟩
  earlier : at_.world.log <:+ cfg.world.log
  filled : ∃ r answer before after, .did i r answer before after ∈ cfg.world.log ∧
    Fills key (.did i r answer before after)
  started : .started i call ∈ cfg.world.log
  admitted : ∃ cfg', P.start cfg' i call
  listed : B call (.put key body)

/-- **What stands at such a key was created by a call.** -/
theorem origin {B : Call → Op → Prop} (hkey : Lasting P key)
    (hB : ∀ cfg i call, P.start cfg i call → call.prog.Emits (B call)) (hw : w.log = [])
    (habsent : w.objects.get? key = none) (hrun : machine.Run P (Machine.initial w) cfg)
    (hget : cfg.world.objects.get? key = some stored) :
    ∃ i call at_, Created P B w cfg key stored.body i call at_ := by
  have hkeeps : ∀ cfg i call, P.start cfg i call → call.prog.Emits fun o => o ≠ .store (.delete key) :=
    fun cfg i call h => (hkey.calls cfg i call h).mono fun _ ho => ho.1
  have hpresent : cfg.world.objects.get? key ≠ none := by
    rw [hget]
    exact Option.some_ne_none stored
  obtain ⟨e, hmem, hfills⟩ := (run_filled_iff hkeeps hkey.env hw habsent hrun).mp hpresent
  obtain ⟨i, call', w', c, body, answer, after, rfl, -, rfl⟩ := Issued.of_fills (run_logged hB hw hrun) hmem hfills
  have hnow := hkey.left hw hrun hmem (OrderedMap.get?_insert_self _ _ _)
  cases hnow.symm.trans hget
  obtain ⟨later, earlier, hlog⟩ := List.append_of_mem hmem
  obtain ⟨at_, call, k, c', hm⟩ := run_at hw hrun hlog
  obtain ⟨hstarted, hadmitted, hlisted⟩ := (run_accounted hB hw hm.run).2 i _ hm.thread
  have hearlier : at_.world.log <:+ cfg.world.log := by
    rw [hm.log, hlog]
    exact (List.suffix_cons _ _).trans (List.suffix_append later _)
  exact ⟨i, call, at_, hm.run, ⟨k, hm.thread⟩, hearlier, ⟨_, _, _, _, hmem, hfills⟩,
    hearlier.subset hstarted, hadmitted, hlisted.1⟩

end Lasting

end Interleaving
end StowQ
