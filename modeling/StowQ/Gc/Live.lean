import StowQ.Core.GcRules
import StowQ.History

/-!
# Live jobs under collection

A job is live from the request that creates its record until a terminal record is written.
A collection decides to delete on the strength of one look: at the job record, which must
be missing, or at a terminal record, which must be there.  Neither look can mislead it about
a job that is live at that moment.  The danger is a job that is created between the look and
the deletes, so the condition here is about creations: there is no terminal record left, and
no collection that is still running has looked at the job.

`Watch` names a job, the terminal records that count as its end, and the keys that must not
be deleted while it lives.  `Watch.obligations` is about every interleaving of collections,
enqueues and claim scans: a live job has its record and no terminal record, and whoever deletes
one of the keys is a collection that has looked at the job and not returned since
(`Watch.Sound`); what is held for a live job stays (`Watch.run_stays`).
-/

namespace StowQ
namespace Gc

open Data StowQ.Core Store Format Concurrent Interleaving Keys

variable {key : Str} {e : Event}

/-- The call is a collection. -/
def Collects (call : Call) : Prop :=
  ∃ nowNs retentionNs orphanHorizonNs, call.action = .gc nowNs retentionNs orphanHorizonNs

/-- A job, what ends it, and what is held for it while it lives. -/
structure Watch [Sha256] (S : Site) where
  shard : UInt16
  jobId : ByteArr 16
  /-- Terminal keys. -/
  Ends : Str → Prop
  /-- Keys that are not to be deleted. -/
  Held : Str → Prop
  /-- The handles that take part. -/
  Uses : Queue → Prop
  held_job : Held (S.absolute (.job shard jobId))
  held_plane : ∀ key, Held key → ∃ seg ∈ [jobsSeg, claimsSeg, payloadsSeg], S.plane key = some seg
  ends_job : ¬ Ends (S.absolute (.job shard jobId))
  /-- A graph that holds one of the keys belongs to one of the terminal records. -/
  ends_graph : ∀ kind s j key, GraphKey S s j key ∨ key = S.absolute (.job s j) → Held key →
    Ends (S.absolute (Queue.terminalRel kind s j))
  /-- An orphan that is held belongs to the job. -/
  orphan : ∀ q s j key, q.site = S → Uses q → OrphanKey q s j key → Held key → s = shard ∧ j = jobId

namespace Watch

variable [Sha256] {S : Site} (V : Watch S)

/-- The job record's key. -/
def job : Str := S.absolute (.job V.shard V.jobId)

/-- The job was created, and no terminal record was written since. -/
def Live : List Event → Prop
  | [] => False
  | e :: log => Fills V.job e ∨ (Live log ∧ ∀ t, V.Ends t → ¬ Fills t e)

/-- Call `i` looks at the job record or a terminal record. -/
def Looks (i : Nat) (e : Event) : Prop :=
  ∃ key answer before after, e = .did i (.head key) answer before after ∧ (key = V.job ∨ V.Ends key)

/-- Call `i` has looked at the job and not returned since. -/
def Deciding (i : Nat) : List Event → Prop
  | [] => False
  | e :: log => V.Looks i e ∨ (Deciding i log ∧ ∀ out, e ≠ .returned i out)

/-- The job is created only when nothing is left of its end, and no running collection has
looked at it. -/
def Clear (w : World) (o : Op) : Prop :=
  ∀ body sha256, o = .store (.putIfAbsent V.job body sha256) → w.objects.get? V.job = none →
    (∀ t, V.Ends t → w.objects.get? t = none) ∧
      ∀ i call, .started i call ∈ w.log → Collects call → ¬ V.Deciding i w.log

/-- A request that did not preserve a held key was made by a collection that was deciding about the job. -/
def Judged : List Event → Prop
  | [] => True
  | e :: log => Judged log ∧ ∀ i r answer before after, e = .did i r answer before after → ∀ key, V.Held key →
      ¬ Preserves key (.store r) → (∃ call, .started i call ∈ log ∧ Collects call) ∧ V.Deciding i log

/-- A live job has its record and no terminal record, and what is held was deleted only by those who had looked. -/
def Sound (w : World) : Prop :=
  (V.Live w.log → w.objects.get? V.job ≠ none ∧ ∀ t, V.Ends t → w.objects.get? t = none) ∧ V.Judged w.log

/-- Moves that do not include the return of call `i`.  What is held for a live job stays, and
a job that a collection is deciding about is not brought to life. -/
def Onward (i : Nat) (w w' : World) : Prop :=
  ∃ new, w'.log = new ++ w.log ∧ (∀ out, .returned i out ∉ new) ∧
    (V.Live w.log → (∀ e ∈ new, ∀ t, V.Ends t → ¬ Fills t e) → ∀ key stored, V.Held key →
      w.objects.get? key = some stored → w'.objects.get? key = some stored) ∧
    ∀ k call, .started k call ∈ w.log → Collects call → V.Deciding k w.log →
      (∀ out, .returned k out ∉ new) → ¬ V.Live w.log → ¬ V.Live w'.log

variable {V} {i : Nat} {w w' : World} {log new : List Event}

lemma Live.append (h : V.Live log) (hnew : ∀ e ∈ new, ∀ t, V.Ends t → ¬ Fills t e) : V.Live (new ++ log) := by
  induction new with
  | nil => exact h
  | cons e new ih =>
    exact .inr ⟨ih fun e' he' => hnew e' (List.mem_cons_of_mem e he'), hnew e List.mem_cons_self⟩

lemma Deciding.append (h : V.Deciding i log) (hnew : ∀ out, .returned i out ∉ new) :
    V.Deciding i (new ++ log) := by
  induction new with
  | nil => exact h
  | cons e new ih =>
    refine .inr ⟨ih fun out hmem => hnew out (List.mem_cons_of_mem e hmem), ?_⟩
    rintro out rfl
    exact hnew out List.mem_cons_self

lemma Judged.decided {later : List Event} {r : Request} {answer : StoreResult r.Answer}
    {before after : Objects} (h : V.Judged (later ++ .did i r answer before after :: log)) (hkey : V.Held key)
    (hnot : ¬ Preserves key (.store r)) :
    (∃ call, .started i call ∈ log ∧ Collects call) ∧ V.Deciding i log := by
  induction later with
  | nil => exact h.2 i r answer before after rfl key hkey hnot
  | cons e later ih => exact ih h.1

/-- The moves of call `i` and of those beside it. -/
def onward (V : Watch S) (i : Nat) : Rely World where
  rel := V.Onward i
  refl w := ⟨[], rfl, fun _ h => (List.not_mem_nil h).elim, fun _ _ _ _ _ h => h,
    fun _ _ _ _ _ _ h => h⟩
  trans {w w' w''} h h' := by
    obtain ⟨new, hlog, hret, hheld, hdecide⟩ := h
    obtain ⟨new', hlog', hret', hheld', hdecide'⟩ := h'
    refine ⟨new' ++ new, by rw [hlog', hlog, List.append_assoc], fun out hmem => ?_,
      fun hlive hends key stored hkey hget => ?_, fun k call hstart hcollects hk hnone hdead => ?_⟩
    · rcases List.mem_append.mp hmem with h | h
      · exact hret' out h
      · exact hret out h
    · have hends1 : ∀ e ∈ new, ∀ t, V.Ends t → ¬ Fills t e :=
        fun e he => hends e (List.mem_append_right new' he)
      refine hheld' (hlog ▸ hlive.append hends1) (fun e he => hends e (List.mem_append_left new he))
        key stored hkey (hheld hlive hends1 key stored hkey hget)
    · have hnone1 : ∀ out, .returned k out ∉ new :=
        fun out hmem => hnone out (List.mem_append_right new' hmem)
      refine hdecide' k call (hlog ▸ List.mem_append_right new hstart) hcollects
        (hlog ▸ hk.append hnone1) (fun out hmem => hnone out (List.mem_append_left new hmem))
        (hdecide k call hstart hcollects hk hnone1 hdead)

/-- An event that is no store request changes nothing here. -/
lemma live_cons (he : ∀ i r answer before after, e ≠ .did i r answer before after) :
    V.Live (e :: log) ↔ V.Live log := by
  have hfills : ∀ key, ¬ Fills key e := by
    intro key hf
    cases e with
    | did i r answer before after => exact he i r answer before after rfl
    | started i call => exact hf
    | returned i out => exact hf
  constructor
  · rintro (h | h)
    · exact absurd h (hfills _)
    · exact h.1
  · exact fun h => .inr ⟨h, fun t _ => hfills t⟩

lemma Sound.record (h : V.Sound w) (he : ∀ i r answer before after, e ≠ .did i r answer before after) :
    V.Sound (w.record e) :=
  ⟨fun hlive => h.1 ((live_cons he).mp hlive), h.2, fun i r answer before after heq =>
    absurd heq (he i r answer before after)⟩

lemma onward_record (he : ∀ i r answer before after, e ≠ .did i r answer before after)
    (hi : ∀ out, e ≠ .returned i out) : V.Onward i w (w.record e) :=
  ⟨[e], rfl, fun out hmem => hi out (List.mem_singleton.mp hmem).symm, fun _ _ _ _ _ h => h,
    fun _ _ _ _ _ _ hdead hlive => hdead ((live_cons he).mp hlive)⟩

lemma onward_tick {clock : UInt64} : V.Onward i w (w.outside (.tick clock)) :=
  ⟨[], rfl, fun _ h => (List.not_mem_nil h).elim, fun _ _ _ _ _ h => h, fun _ _ _ _ _ _ h => h⟩

/-! ## Requests -/

variable {r : Request} {c : Choice}

/-- Call `i` is a collection that has looked at the job and found it not alive. -/
def Decided (V : Watch S) (i : Nat) (w : World) : Prop :=
  (∃ call, .started i call ∈ w.log ∧ Gc.Collects call) ∧ V.Deciding i w.log ∧ ¬ V.Live w.log

lemma Decided.onward (h : V.Decided i w) (hw : V.Onward i w w') : V.Decided i w' := by
  obtain ⟨⟨call, hstart, hcollects⟩, hdeciding, hdead⟩ := h
  obtain ⟨new, hlog, hret, -, hdecide⟩ := hw
  refine ⟨⟨call, ?_, hcollects⟩, ?_, hdecide i call hstart hcollects hdeciding hret hdead⟩
  · rw [hlog]
    exact List.mem_append_right new hstart
  · rw [hlog]
    exact hdeciding.append hret

/-- A request that preserves what is held, or is made on a look that found the job not alive. -/
lemma Sound.request (h : V.Sound w) (hclear : V.Clear w (.store r))
    (hkey : ∀ key, V.Held key → ¬ Preserves key (.store r) → V.Decided i w) :
    V.Sound (w.request i r c) ∧ ∀ j, V.Onward j w (w.request i r c) := by
  have hheld : V.Live w.log → ∀ key stored, V.Held key → w.objects.get? key = some stored →
      (w.request i r c).objects.get? key = some stored := by
    intro hlive key stored hheld hget
    refine get?_of_preserves ?_ hget
    by_contra hnot
    exact (hkey key hheld hnot).2.2 hlive
  refine ⟨⟨fun hlive => ?_, h.2, fun i' r' answer before after heq key hheld hnot => ?_⟩, fun j => ?_⟩
  · rcases hlive with ⟨hbefore, hafter⟩ | ⟨hlive, hends⟩
    · -- the job is created
      obtain ⟨body, hreq, hobjs⟩ := eq_put_of_fills hbefore hafter
      obtain ⟨hnone, -⟩ := hclear body _ (congrArg Op.store hreq) hbefore
      refine ⟨hafter, fun t ht => ?_⟩
      have hne : t ≠ V.job := by
        rintro rfl
        exact V.ends_job ht
      show (inject c.fault w.objects c.stamp r).2.get? t = none
      rw [hobjs, OrderedMap.get?_insert_of_ne _ _ hne]
      exact hnone t ht
    · obtain ⟨hjob, hnone⟩ := h.1 hlive
      obtain ⟨stored, hstored⟩ := Option.ne_none_iff_exists'.mp hjob
      refine ⟨?_, fun t ht => ?_⟩
      · rw [hheld hlive V.job stored V.held_job hstored]
        exact Option.some_ne_none stored
      · by_contra hfilled
        exact hends t ht ⟨hnone t ht, hfilled⟩
  · cases heq
    obtain ⟨hcollects, hdeciding, -⟩ := hkey key hheld hnot
    exact ⟨hcollects, hdeciding⟩
  · refine ⟨[_], rfl, fun out hmem => ?_, fun hlive _ => hheld hlive,
      fun k call hstart hcollects hk _ hdead hlive => ?_⟩
    · cases List.mem_singleton.mp hmem
    · rcases hlive with ⟨hbefore, hafter⟩ | ⟨hlive, -⟩
      · obtain ⟨body, hreq, -⟩ := eq_put_of_fills hbefore hafter
        exact (hclear body _ (congrArg Op.store hreq) hbefore).2 k call hstart hcollects hk
      · exact hdead hlive

lemma onward_same (hlog : w'.log = w.log) (hobjs : w'.objects = w.objects) : V.Onward i w w' :=
  ⟨[], hlog, fun _ h => (List.not_mem_nil h).elim, fun _ _ _ _ _ h => by rwa [hobjs],
    fun _ _ _ _ _ _ h => by rwa [hlog]⟩

/-- Requests that never take anything away from the job. -/
def Gentle (V : Watch S) : Op → Prop
  | .store (.delete _) => False
  | .store (.cas key _ _ _) => ¬ V.Held key
  | _ => True

lemma Gentle.preserves (ho : V.Gentle (.store r)) (hkey : V.Held key) : Preserves key (.store r) := by
  refine ⟨fun heq => ?_, fun body digest v heq => ?_⟩
  · rw [heq] at ho
    exact ho
  · rw [heq] at ho
    exact ho hkey

lemma Sound.gentle (h : V.Sound w) {o : Op} (ho : V.Gentle o) (hclear : V.Clear w o) :
    V.Sound (w.exec i o c).2 ∧ ∀ j, V.Onward j w (w.exec i o c).2 := by
  cases o with
  | store r =>
    exact h.request hclear fun key hheld hnot => absurd (ho.preserves hheld) hnot
  | freshToken => exact ⟨h, fun _ => onward_same rfl rfl⟩
  | cachedFloor handle => exact ⟨h, fun _ => onward_same rfl rfl⟩
  | cacheFloor handle floorNs => exact ⟨h, fun _ => onward_same rfl rfl⟩
  | isMemoizedTerminal handle shard jobId version => exact ⟨h, fun _ => onward_same rfl rfl⟩
  | memoizeTerminal handle shard jobId version => exact ⟨h, fun _ => onward_same rfl rfl⟩

/-! ## Calls -/

/-- The operations that take part: collections, enqueues and claim scans. -/
def Participates (action : Action) : Prop :=
  (∃ nowNs retentionNs orphanHorizonNs, action = .gc nowNs retentionNs orphanHorizonNs) ∨
    (∃ input, action = .enqueue input) ∨ (∃ opts, action = .claim opts) ∨
    ∃ opts max, action = .claimMany opts max

/-- Terms under which the job is created only when nothing threatens it. -/
structure Governs (V : Watch S) (P : Terms) : Prop where
  start : ∀ cfg i call, P.start cfg i call → call.queue.site = S ∧ V.Uses call.queue ∧ Participates call.action
  step : ∀ w i call o c, P.step w i call o c → V.Clear w o
  env : ∀ w e, P.env w e → ∃ clock, e = .tick clock

/-- The discipline of every call. -/
abbrev under (V : Watch S) (P : Terms) (i : Nat) (call : Call) : Discipline World Op Res :=
  uniform P V.Sound V.onward i call

variable {P : Terms} {q : Queue} {call : Call} {α : Type}

lemma tame_gentle : Tame V.Gentle where
  freshToken := trivial
  cachedFloor _ := trivial
  cacheFloor _ _ := trivial
  isMemoizedTerminal _ _ _ _ := trivial
  head _ := trivial
  list _ _ _ := trivial

lemma not_held_tail (hq : q.site = S) (s : UInt16) (j : ByteArr 16) : ¬ V.Held (q.absolute (.tail s j)) := by
  intro hheld
  obtain ⟨seg, hseg, hplane⟩ := V.held_plane _ hheld
  rw [← hq, plane_absolute] at hplane
  have heq : tailsSeg = seg := Option.some.inj hplane
  rw [← heq] at hseg
  revert hseg
  decide

lemma probing_gentle (hq : q.site = S) (s : UInt16) (j : ByteArr 16) : Footprint.Probing V.Gentle q s j where
  tame := tame_gentle
  get _ := trivial
  put _ _ _ := trivial
  cas _ _ := not_held_tail hq s j

lemma holds_gentle (hP : V.Governs P) {m : Routine α} (hm : Budgeted.Emits V.Gentle m) :
    Holds (V.under P i call) m (fun _ _ => True) w :=
  holds_uniform_of_emits hm.prog fun _ ho _ _ _ hi hc => hi.gentle ho (hP.step _ _ _ _ _ hc)

/-! ## Collections -/

lemma decided_of_look (hstart : ∃ call, .started i call ∈ w.log ∧ Gc.Collects call)
    (hkey : key = V.job ∨ V.Ends key) (hdead : ¬ V.Live w.log) : V.Decided i (w.request i (.head key) c) := by
  have hobjs : (w.request i (.head key) c).objects = w.objects := inject_reads rfl
  have hfills : ∀ k, ¬ Fills k (.did i (.head key) (inject c.fault w.objects c.stamp
      (.head key)).1 w.objects (w.request i (.head key) c).objects) := by
    rintro k ⟨hbefore, hafter⟩
    rw [hobjs] at hafter
    exact hafter hbefore
  obtain ⟨call, hmem, hcollects⟩ := hstart
  refine ⟨⟨call, List.mem_cons_of_mem _ hmem, hcollects⟩, .inl ⟨key, _, _, _, rfl, hkey⟩, ?_⟩
  rintro (h | h)
  · exact hfills _ h
  · exact hdead h.1

lemma Sound.read (h : V.Sound w) (hr : r.reads = true) :
    V.Sound (w.request i r c) ∧ ∀ j, V.Onward j w (w.request i r c) := by
  have hclear : V.Clear w (.store r) := by
    rintro body digest heq -
    injection heq with heq
    rw [heq] at hr
    cases hr
  refine h.request hclear fun key _ hnot => absurd ⟨fun heq => ?_, fun _ _ _ heq => ?_⟩ hnot
  all_goals
    rw [Op.store.inj heq] at hr
    cases hr

lemma clear_delete : V.Clear w (.store (.delete key)) := by
  rintro body digest heq -
  cases heq

/-- A delete of a key that is not held, or by a collection that has found the job not alive. -/
lemma Sound.delete (h : V.Sound w) (hkey : V.Held key → V.Decided i w) :
    V.Sound (w.request i (.delete key) c) ∧ ∀ j, V.Onward j w (w.request i (.delete key) c) := by
  refine h.request clear_delete fun key' hheld hnot => ?_
  obtain rfl : key' = key := by
    by_contra hne
    exact hnot ⟨fun heq => hne (by cases heq; rfl), nofun⟩
  exact hkey hheld

lemma holds_discard_of (hkey : V.Held key → V.Decided i w) :
    Holds (V.under P i call) (Queue.discard key) (OnOk Any) w := by
  refine holds_discard (K := fun _ => True) (fun _ _ _ _ h => h) ?_
  refine holds_uniform_last (o := .store (.delete key)) fun w1 c hw1 hi _ =>
    ⟨hi.delete fun hheld => (hkey hheld).onward hw1, fun _ _ => trivial⟩

lemma not_held_of_plane {seg : Str} (hplane : S.plane key = some seg)
    (hseg : seg ∉ [jobsSeg, claimsSeg, payloadsSeg]) : ¬ V.Held key := by
  intro hheld
  obtain ⟨seg', hmem, hplane'⟩ := V.held_plane key hheld
  rw [hplane] at hplane'
  exact hseg (Option.some.inj hplane' ▸ hmem)

lemma holds_discard_plane {seg : Str} (hplane : S.plane key = some seg)
    (hseg : seg ∉ [jobsSeg, claimsSeg, payloadsSeg]) :
    Holds (V.under P i call) (Queue.discard key) (OnOk Any) w :=
  holds_discard_of fun hheld => absurd hheld (not_held_of_plane hplane hseg)

lemma holds_under_list {pre : Str} {after : Option Str} {limit : Nat} :
    Holds (V.under P i call) (Routine.list pre after limit) (OnOk fun r _ =>
      ∀ page, r = .ok page → ∀ x ∈ page.items, pre <+: x.key ∧ True) w :=
  (holds_uniform_list fun _ _ hi _ => hi.read rfl).mono fun _ _ _ _ h r hr page hpage x hx =>
    ⟨h r hr page hpage x hx, trivial⟩

/-- What a collection knows: a missing job record and a terminal record both tell that the
job is not alive, and it stays so until the collection returns. -/
def verdicts (V : Watch S) (i : Nat) : Verdicts World where
  listed _ _ := True
  absent s j w' := s = V.shard → j = V.jobId → V.Decided i w'
  ended k s j w' := V.Ends (S.absolute (Queue.terminalRel k s j)) → V.Decided i w'
  cleared _ _ _ := True
  gone _ _ _ := True

lemma watch_collects (cutoff : UInt64) (hq : q.site = S) (huses : V.Uses q) (hinv : V.Sound w)
    (hstart : ∃ call, .started i call ∈ w.log ∧ Gc.Collects call) :
    Core.Collects (V.under P i call) q w cutoff (V.verdicts i) where
  inv := hinv
  kept := ⟨fun _ _ _ _ _ h => h, fun _ _ _ _ _ hab h hs hj => (h hs hj).onward hab,
    fun _ _ _ _ _ _ hab h hends => (h hends).onward hab, fun _ _ _ _ _ _ h => h, fun _ _ _ _ _ _ h => h⟩
  list pre after limit w' _ _ := holds_under_list
  head key w' _ _ := holds_uniform_last (o := .store (.head key)) fun w1 c _ hi _ =>
    ⟨hi.read rfl, fun _ _ => trivial⟩
  job s j w' _ ho := by
    subst hq
    refine holds_uniform_last (o := .store (.head _)) fun w1 c hw1 hi _ =>
      ⟨hi.read rfl, fun w2 hw2 hnone hs hj => ?_⟩
    subst hs hj
    obtain ⟨new, hlog, -⟩ := (V.onward i).trans ho hw1
    obtain ⟨call', hmem, hcollects⟩ := hstart
    -- a live job would have been found
    have hdead : ¬ V.Live w1.log := fun hlive => (hi.1 hlive).1 (answer_head_notFound hnone)
    exact (decided_of_look ⟨call', hlog ▸ List.mem_append_right new hmem, hcollects⟩ (.inl rfl)
      hdead).onward hw2
  terminal k s j key w' _ ho _ _ _ := by
    subst hq
    refine holds_uniform_last (o := .store (.head _)) fun w1 c hw1 hi _ =>
      ⟨hi.read rfl, fun w2 hw2 info hok _ hends => ?_⟩
    obtain ⟨new, hlog, -⟩ := (V.onward i).trans ho hw1
    obtain ⟨call', hmem, hcollects⟩ := hstart
    obtain ⟨stored, hget, -⟩ := answer_head hok
    -- a live job has no terminal record
    have hdead : ¬ V.Live w1.log := by
      intro hlive
      rw [(hi.1 hlive).2 _ hends] at hget
      cases hget
    exact (decided_of_look ⟨call', hlog ▸ List.mem_append_right new hmem, hcollects⟩ (.inr hends)
      hdead).onward hw2
  discardOrphan s j key w' _ _ hkey habsent := holds_discard_of fun hheld => by
      obtain ⟨hs, hj⟩ := V.orphan q s j key hq huses hkey hheld
      exact habsent hs hj
  discardBeacon key hkey w' _ _ := by
    subst hq
    exact holds_discard_plane (q.site.plane_of_dir (by decide) hkey) (by decide)
  discardIndex key hkey w' _ _ := by
    subst hq
    exact holds_discard_plane hkey (by decide)
  discardInner k s j key w' _ _ hkey hended := by
    subst hq
    exact holds_discard_of fun hheld => hended (V.ends_graph k s j key (.inl hkey) hheld)
  clearClaims k s j w' hi _ hended := by
    subst hq
    refine (holds_discardAll (L := fun _ _ => True) hi (fun _ _ _ _ _ h => h)
      (fun after w1 _ _ => holds_under_list) fun key hkey w1 _ ho1 => holds_discard_of fun hheld =>
        (hended (V.ends_graph k s j key (.inl (.claim hkey)) hheld)).onward ho1).mono
      fun _ _ _ _ _ _ _ => trivial
  discardJob k s j w' _ _ hended _ := by
    subst hq
    exact (holds_discard_of fun hheld => hended (V.ends_graph k s j _ (.inr rfl) hheld)).mono
      fun _ _ _ _ _ _ _ => trivial
  discardTerminal k s j w' _ _ _ _ := by
    subst hq
    refine holds_discard_plane (plane_absolute _ _) ?_
    cases k with
    | receipt =>
      show receiptsSeg ∉ _
      decide
    | dead =>
      show deadSeg ∉ _
      decide

/-! ## All runs -/

lemma obligations (hP : V.Governs P) : Obligations machine P V.Sound (fun i _ => V.onward i)
    (fun _ _ w w' => ∀ j, (V.onward j).rel w w') (fun _ _ _ _ => True) := by
  refine uniform_obligations V.onward (fun cfg i call hinv _ hadm => ?_) (fun i out w hinv => ?_)
    (fun _ _ _ _ _ _ _ h => h) fun w e hinv he => ?_
  · have hsound : V.Sound (cfg.world.record (.started i call)) := hinv.record (Event.started_ne_did i call)
    have hnot : ∀ j out, Event.started i call ≠ .returned j out := nofun
    refine ⟨hsound, fun j => onward_record (Event.started_ne_did i call) (hnot j), ?_⟩
    obtain ⟨q, action, budget⟩ := call
    obtain ⟨hq, huses, hgc | ⟨input, rfl⟩ | ⟨opts, rfl⟩ | ⟨opts, max, rfl⟩⟩ := hP.start cfg i _ hadm
    · obtain ⟨nowNs, retentionNs, orphanHorizonNs, rfl⟩ := hgc
      have hstarted : ∃ call, .started i call ∈ (cfg.world.record (.started i
          ⟨q, .gc nowNs retentionNs orphanHorizonNs, budget⟩)).log ∧ Gc.Collects call :=
        ⟨_, List.mem_cons_self, nowNs, retentionNs, orphanHorizonNs, rfl⟩
      refine Holds.mono (Q := OnOk Any) ?_ fun _ _ _ _ _ => trivial
      exact ((watch_collects _ hq huses hsound hstarted).holds_gc orphanHorizonNs).andThen
        fun _ _ _ _ _ => holds_any
    · exact holds_gentle hP ((Footprint.enqueue tame_gentle (fun _ => trivial) (fun _ => trivial)
        (fun _ => trivial) fun _ _ _ => trivial).bind fun _ => Budgeted.Keeps.pure _)
    · exact holds_gentle hP ((Footprint.claim (probing_gentle hq) fun _ _ _ _ => trivial).bind fun _ =>
        Budgeted.Keeps.pure _)
    · exact holds_gentle hP ((Footprint.claimMany (probing_gentle hq) fun _ _ _ _ => trivial).bind fun _ =>
        Budgeted.Keeps.pure _)
  · refine ⟨hinv.record (Event.returned_ne_did i out), fun j hj => ?_⟩
    apply onward_record
    · exact Event.returned_ne_did i out
    · rintro out' heq
      injection heq with heq
      exact hj heq.symm
  · obtain ⟨clock, rfl⟩ := hP.env w e he
    exact ⟨hinv, fun _ => onward_tick⟩

lemma Sound.of_nil (hw : w.log = []) : V.Sound w := by
  unfold Sound
  rw [hw]
  exact ⟨fun hlive => hlive.elim, trivial⟩

/-- The log grows, and what is held for a live job stays. -/
def stays (V : Watch S) : Rely World where
  rel w w' := ∃ new, w'.log = new ++ w.log ∧ (V.Live w.log →
    (∀ e ∈ new, ∀ t, V.Ends t → ¬ Fills t e) → ∀ key stored, V.Held key →
      w.objects.get? key = some stored → w'.objects.get? key = some stored)
  refl w := ⟨[], rfl, fun _ _ _ _ _ h => h⟩
  trans {w w' w''} h h' := by
    obtain ⟨new, hlog, hheld⟩ := h
    obtain ⟨new', hlog', hheld'⟩ := h'
    refine ⟨new' ++ new, by rw [hlog', hlog, List.append_assoc],
      fun hlive hends key stored hkey hget => ?_⟩
    have hends1 : ∀ e ∈ new, ∀ t, V.Ends t → ¬ Fills t e :=
      fun e he => hends e (List.mem_append_right new' he)
    exact hheld' (hlog ▸ hlive.append hends1) (fun e he => hends e (List.mem_append_left new he))
      key stored hkey (hheld hlive hends1 key stored hkey hget)

/-- What is held for a live job stays along every run. -/
lemma run_stays (hP : V.Governs P) {cfg cfg' : Calls}
    (h : Obligations.Good machine P V.Sound (fun i _ => V.onward i)
      (fun _ _ w w' => ∀ j, (V.onward j).rel w w') (fun _ _ _ _ => True) cfg)
    (hrun : machine.Run P cfg cfg') : V.stays.rel cfg.world cfg'.world := by
  refine uniform_run_moves V.onward V.stays (fun i w w' hw => ?_) (obligations hP)
    (fun w e _ he => ?_) h hrun
  · obtain ⟨new, hlog, -, hheld, -⟩ := hw
    exact ⟨new, hlog, hheld⟩
  · obtain ⟨clock, rfl⟩ := hP.env w e he
    exact ⟨[], rfl, fun _ _ _ _ _ h => h⟩

end Watch

end Gc
end StowQ
