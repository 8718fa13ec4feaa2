import StowQ.Audit.Orderly
import StowQ.Calm
import StowQ.Concurrent.Affords

/-!
# A scan of an orderly store

A repair scan goes through the shards of a queue.  It lists the job records, the claims and the
terminal records, audits every chain of claims, restores the index entries that are missing, and
writes down whatever does not fit.  It runs beside other calls, so that a directory may grow
between two of its pages.

`scanning` is the discipline it runs in: every request is answered without a fault, the store is
orderly at every moment, and every job that has claims was there when the scan began.  The scan
itself leaves the audited planes alone.  It writes index entries, and a quarantine record only
where a job has both a receipt and a dead record (`Leaves`).

The passes are taken one by one as `Yields`, whose costs add up.  `affords_repairShard` says that
the scan of a shard reports the jobs that ended twice and nothing else, and `ends_repairFrom` says
it of the whole scan: nothing else is reported under any budget, and if nothing grows (`total`) a
budget that the objects determine is enough to report them all.
-/

namespace StowQ
namespace Audit

open Data StowQ.Core Store Format Concurrent Interleaving Custody Keys

variable {items : List Listing} {kind : TermKind} {stored : Stored} {pre : Str} {k : Key}

section Scan

variable [Sha256]

/-- What a scan can count on while it runs. -/
structure Sound (S : Site) (total : Prop) (objs0 objs : Objects) : Prop where
  orderly : Orderly S objs
  grown : Grown S objs0 objs
  founded : ∀ shard jobId g e, claimAt S objs shard jobId g = some e →
    objs0.get? (S.absolute (.job shard jobId)) ≠ none
  still : total → Same S objs0 objs

/-- What a scan does to the store: the audited planes stay, and a quarantine record is
written only where there are receipts. -/
def Leaves (S : Site) (objs objs' : Objects) : Prop :=
  Same S objs objs' ∧ ∀ key, S.plane key = some quarantineSeg → objs'.get? key ≠ objs.get? key →
    ∃ shard jobId, objs.get? (S.absolute (.receipt shard jobId)) ≠ none

def growing (S : Site) : Rely Objects where
  rel := Grown S
  refl _ _ _ _ h := h
  trans h h' := h.trans h'

/-- The discipline of a scan that began at `objs0`. -/
def scanning (S : Site) (total : Prop) (objs0 : Objects) : Discipline Objects Op Res where
  service := { Calm.service with inv := Sound S total objs0 }
  rely := growing S
  guar := Leaves S
  order := growing S
  rely_order _ _ _ h := h
  guar_order _ _ _ _ h := h.1.grown

variable {S : Site} {total : Prop} {objs0 objs objs' : Objects} {α β : Type} {n : Nat} {key : Str}
  {Q : β → Objects → Prop} {f : α → Routine β}

lemma Sound.congr (h : Sound S total objs0 objs) (hsame : Same S objs objs') : Sound S total objs0 objs' where
  orderly := h.orderly.congr hsame
  grown := h.grown.trans hsame.grown
  founded shard jobId g e he := h.founded shard jobId g e ((hsame.claimAt_eq g).symm.trans he)
  still ht key hkey := (hsame key hkey).trans (h.still ht key hkey)

/-! ## Requests -/

/-- A request that leaves the store as a scan may leave it. -/
lemma affords_store {r : Request} {f : StoreResult r.Answer → Routine β}
    (h : ∀ objs1 stamp, Grown S objs objs1 → Sound S total objs0 objs1 →
      Leaves S objs1 (inject none objs1 stamp r).2 ∧
        Affords (scanning S total objs0) total (f (inject none objs1 stamp r).1) n Q objs1) :
    Affords (scanning S total objs0) total (Routine.store r >>= f) n Q objs := by
  refine Affords.request (o := Op.store r) fun objs1 hobjs1 hi1 answer objs2 ⟨stamp, hstamp⟩ => ?_
  obtain ⟨hleaves, hf⟩ := h objs1 stamp hobjs1 hi1
  rw [hstamp] at hleaves hf
  exact ⟨Sound.congr hi1 hleaves.1, hleaves, hf.later hleaves.1.grown⟩

omit [Sha256] in
lemma Leaves.refl (objs : Objects) : Leaves S objs objs := ⟨fun _ _ => rfl, fun _ _ h => absurd rfl h⟩

lemma affords_head {f : StoreResult Meta → Routine β} (hkey : key ∈ steady S)
    (hget : objs.get? key = some stored)
    (h : Affords (scanning S total objs0) total (f (.ok stored.info)) n Q objs) :
    Affords (scanning S total objs0) total (Routine.head key >>= f) n Q objs := by
  refine affords_store (r := .head key) fun objs1 stamp hobjs1 _ => ⟨Leaves.refl objs1, ?_⟩
  have hthere : Store.head objs1 key = .ok stored.info := by
    unfold Store.head
    rw [hobjs1 key hkey stored hget]
  show Affords _ total (f (Store.head objs1 key)) n Q objs1
  rw [hthere]
  exact h.later hobjs1

lemma affords_get {f : StoreResult Object → Routine β} (hkey : key ∈ steady S)
    (hget : objs.get? key = some stored)
    (h : Affords (scanning S total objs0) total (f (.ok ⟨stored.info, stored.body⟩)) n Q objs) :
    Affords (scanning S total objs0) total (Routine.get key >>= f) n Q objs := by
  refine affords_store (r := .get key) fun objs1 stamp hobjs1 _ => ⟨Leaves.refl objs1, ?_⟩
  have hthere : Store.get objs1 key = .ok ⟨stored.info, stored.body⟩ := by
    unfold Store.get
    rw [hobjs1 key hkey stored hget]
  show Affords _ total (f (Store.get objs1 key)) n Q objs1
  rw [hthere]
  exact h.later hobjs1

lemma affords_look {f : StoreResult Meta → Routine β}
    (hsome : ∀ info, Affords (scanning S total objs0) total (f (.ok info)) n Q objs)
    (hnone : Affords (scanning S total objs0) total (f (.error .notFound)) n Q objs) :
    Affords (scanning S total objs0) total (Routine.head key >>= f) n Q objs := by
  refine affords_store (r := .head key) fun objs1 stamp hobjs1 _ => ⟨Leaves.refl objs1, ?_⟩
  show Affords _ total (f (Store.head objs1 key)) n Q objs1
  unfold Store.head
  cases objs1.get? key with
  | none => exact hnone.later hobjs1
  | some stored => exact (hsome _).later hobjs1

lemma affords_put {body : Bytes} {f : StoreResult PutOutcome → Routine β} (hkey : key ∉ steady S)
    (hquarantine : S.plane key = some quarantineSeg →
      ∃ shard jobId, objs.get? (S.absolute (.receipt shard jobId)) ≠ none)
    (h : ∀ outcome, Affords (scanning S total objs0) total (f (.ok outcome)) n Q objs) :
    Affords (scanning S total objs0) total (Routine.put key body >>= f) n Q objs := by
  refine affords_store (r := .putIfAbsent key body _) fun objs1 stamp hobjs1 _ => ?_
  cases hget : objs1.get? key with
  | some stored =>
    rw [put_present hget]
    exact ⟨Leaves.refl objs1, (h _).later hobjs1⟩
  | none =>
    rw [put_absent hget]
    refine ⟨⟨fun key' hkey' => ?_, fun key' hplane hchanged => ?_⟩, (h _).later hobjs1⟩
    · exact OrderedMap.get?_insert_of_ne _ _ (by rintro rfl; exact hkey hkey')
    · obtain rfl : key' = key := by
        by_contra hne
        exact hchanged (OrderedMap.get?_insert_of_ne _ _ hne)
      obtain ⟨shard, jobId, hreceipt⟩ := hquarantine hplane
      obtain ⟨stored, hstored⟩ := Option.ne_none_iff_exists'.mp hreceipt
      refine ⟨shard, jobId, ?_⟩
      rw [hobjs1 _ (absolute_mem_steady.mpr (by simp [planeOf, audited])) stored hstored]
      simp

lemma affords_ofStore {r : StoreResult α} {a : α} (hr : r = .ok a)
    (h : Affords (scanning S total objs0) total (f a) n Q objs) :
    Affords (scanning S total objs0) total (Routine.ofStore r >>= f) n Q objs := by
  subst hr
  exact h

lemma affords_fail {e : Error} (h : ¬ total) :
    Affords (scanning S total objs0) total (Budgeted.fail e >>= f) n Q objs :=
  fun _ => Ends.fail fun _ _ _ => ⟨nofun, fun ht => absurd ht h⟩

lemma affords_pure_bind {a : α} (h : Affords (scanning S total objs0) total (f a) n Q objs) :
    Affords (scanning S total objs0) total (pure a >>= f) n Q objs := h

/-! ## Listings -/

section Listings

variable {seg : Str} {shard : UInt16} {follows : Str → Str → Prop}

lemma affords_page {after : Option Str} (hpre : ∀ key, pre <+: key → key ∈ steady S)
    (hadjoins : ∀ objs, Orderly S objs → Adjoins pre follows objs)
    (hwalk : Walking pre follows objs0 objs items after) :
    Affords (scanning S total objs0) total (do
      Routine.spend
      let page ← Routine.ofStore (← Routine.list pre after 64)
      if true && page.items.isEmpty then pure (.inr items)
      else do
        let t ← Budgeted.foldM (fun s x => pure (s ++ [x])) items page.items
        match page.nextAfter with
        | some k => pure (.inl (t, some k))
        | none => pure (.inr t) : Routine ((List Listing × Option Str) ⊕ List Listing)) 1
      (fun next objs' => Sum.elim (fun t => Walking pre follows objs0 objs' t.1 t.2 ∧
          (total → (remaining objs0 pre t.2).length + 1 + 1 ≤ (remaining objs0 pre after).length + 1))
        (fun t => Traced pre follows objs0 objs' t) next) objs := by
  refine Affords.spend (affords_store (r := .list pre after 64) fun objs1 stamp hobjs1 hi1 =>
    ⟨Leaves.refl objs1, ?_⟩)
  have hlater : ∀ {a b : Objects}, Grown S a b → ∀ key stored, pre <+: key → a.get? key = some stored →
      b.get? key = some stored := fun hab key stored hkey => hab key (hpre key hkey) stored
  have hstart : ∀ key, pre <+: key → objs0.get? key ≠ none → objs1.get? key ≠ none := by
    intro key hkey hne
    obtain ⟨stored, hget⟩ := Option.ne_none_iff_exists'.mp hne
    rw [hlater hi1.grown key stored hkey hget]
    simp
  have hadjoins1 := hadjoins objs1 hi1.orderly
  have hfinish : ∀ {found : List Listing}, found = remaining objs1 pre after →
      Affords (scanning S total objs0) total (pure (.inr (items ++ found)) :
        Routine ((List Listing × Option Str) ⊕ List Listing)) 0
      (fun next objs' => Sum.elim (fun t => Walking pre follows objs0 objs' t.1 t.2 ∧
          (total → (remaining objs0 pre t.2).length + 1 + 1 ≤ (remaining objs0 pre after).length + 1))
        (fun t => Traced pre follows objs0 objs' t) next) objs1 := by
    rintro _ rfl
    refine Affords.pure fun objs2 hobjs2 _ => ?_
    have hdone := hwalk.finish (hlater hobjs1) hadjoins1 hstart
      (n := (remaining objs1 pre after).length) List.take_length
    rw [List.take_length] at hdone
    exact hdone.later (hlater hobjs2)
  refine affords_ofStore rfl ?_
  split
  · next hempty =>
      rw [Bool.true_and, List.isEmpty_iff, items_listPage, List.take_eq_nil_iff] at hempty
      have hnil : remaining objs1 pre after = [] := hempty.resolve_left (by decide)
      have hdone := hfinish hnil.symm
      rwa [List.append_nil] at hdone
  · rw [Budgeted.foldM_pure, foldl_concat]
    refine affords_pure_bind ?_
    split
    · next k hnext =>
        refine Affords.pure fun objs2 hobjs2 _ => ⟨?_, fun ht => ?_⟩
        · exact (hwalk.next (hlater hobjs1) hadjoins1 hstart hnext).later (hlater hobjs2)
        · -- the store has not changed, so the page was one of `objs0`
          have hsame : ∀ key, pre <+: key → objs1.get? key = objs0.get? key :=
            fun key hkey => hi1.still ht key (hpre key hkey)
          rw [listPage_congr hsame] at hnext
          show (remaining objs0 pre (some k)).length + 1 + 1 ≤ _
          rw [remaining_next hnext, List.length_drop]
          rw [nextAfter_listPage] at hnext
          split at hnext
          · omega
          · cases hnext
    · next hnext => exact hfinish (items_last (by decide) hnext)

/-- **A listing of a directory that may grow.** -/
theorem affords_listAuthoritative (hpre : ∀ key, pre <+: key → key ∈ steady S)
    (hadjoins : ∀ objs, Orderly S objs → Adjoins pre follows objs) (hinv : Sound S total objs0 objs) :
    Affords (scanning S total objs0) total (Queue.listAuthoritative pre)
      ((remaining objs0 pre none).length + 1) (fun items objs' => Traced pre follows objs0 objs' items)
      objs := by
  have hlater : ∀ {a b : Objects}, Grown S a b → ∀ key stored, pre <+: key → a.get? key = some stored →
      b.get? key = some stored := fun hab key stored hkey => hab key (hpre key hkey) stored
  unfold Queue.listAuthoritative Routine.pages
  refine Affords.loop (D := scanning S total objs0)
    (I := fun (t : List Listing × Option Str) objs' => Walking pre follows objs0 objs' t.1 t.2)
    (c := fun t => (remaining objs0 pre t.2).length + 1)
    (fun ⟨items, after⟩ objs1 _ _ hwalk => ⟨1, fun _ => ⟨Nat.one_pos, Nat.le_add_left 1 _⟩, ?_⟩)
    (s := ([], none)) Walking.start hinv
  refine (affords_page hpre hadjoins hwalk).mono (fun _ => Nat.le_refl _) fun next objs2 _ _ hnext => ?_
  cases next with
  | inl t => exact hnext
  | inr t => exact fun objs3 hobjs3 _ => Traced.later hnext (hlater hobjs3)

omit [Sha256] in
lemma steady_of_dir (hseg : seg ∈ audited) {key : Str} (h : S.dir [seg, hex16 shard] <+: key) :
    key ∈ steady S := by
  refine ⟨seg, hseg, S.plane_of_dir (slash_not_mem_shardDir seg ?_ shard) h⟩
  revert hseg
  generalize seg = s
  intro hseg
  simp only [audited, List.mem_cons, List.not_mem_nil, or_false] at hseg
  rcases hseg with rfl | rfl | rfl | rfl | rfl <;> decide

/-- A claim is listed after the claim before it. -/
lemma adjoins_claims (horder : Orderly S objs) : Adjoins (S.dir [claimsSeg, hex16 shard]) (Next S) objs := by
  rintro key key' hthere hpre ⟨shard', jobId, g, hnext, hg, rfl, rfl⟩
  obtain rfl := shard_of_dir (by decide) rfl hpre
  obtain ⟨stored, hget⟩ := Option.ne_none_iff_exists'.mp hthere
  have hdir : ∀ (jobId : ByteArr 16) (g : UInt32), S.dir [claimsSeg, hex16 shard'] <+:
      S.absolute (.claim shard' jobId g) := fun jobId g =>
    ⟨hex jobId.toList ++ '/' :: hex32 g, by simp [Site.dir, Site.absolute, Key.fmt]⟩
  obtain ⟨_, _, _, e, heq, he⟩ := horder.claims _ stored hget (plane_absolute S _)
  cases S.absolute_inj.mp heq
  have hback : g + 1 - 1 = g := by simp
  obtain ⟨-, hone | ⟨p, hp⟩⟩ := horder.chained shard' jobId (g + 1) e he
  · exact absurd (by simpa using hone) hg
  · rw [hback] at hp
    have hlt : g < g + 1 := by
      rw [UInt32.lt_iff_toNat_lt, UInt32.toNat_add]
      have hpos : (g + 1).toNat ≠ 0 := fun h => hnext (UInt32.toNat_inj.mp h)
      rw [UInt32.toNat_add] at hpos
      have hunit : (1 : UInt32).toNat = 1 := rfl
      have hbound := g.toNat_lt
      omega
    refine ⟨hdir jobId g, S.claim_lt_claim hlt, ?_, fun z hz hzpre hzlt => ?_⟩
    · obtain ⟨stored', hget', -⟩ := get?_of_claimAt hp
      rw [hget']
      simp
    · obtain ⟨stored', hget'⟩ := Option.ne_none_iff_exists'.mp hz
      have hplane := S.plane_of_dir (slash_not_mem_shardDir claimsSeg (by decide) shard') hzpre
      obtain ⟨shard1, jobId1, g1, e1, rfl, -⟩ := horder.claims z stored' hget' hplane
      obtain rfl := shard_of_dir (by decide) rfl hzpre
      exact claim_le_of_lt_next hnext hzlt

omit [Sha256] in
lemma adjoins_nothing : Adjoins pre (fun _ _ => False) objs := fun _ _ _ _ h => h.elim

end Listings

/-! ## Passes -/

/-- The values of a part of the scan, from the objects it starts at. -/
def Yields (S : Site) (total : Prop) (objs0 : Objects) (m : Routine α) (n : Nat) (P : α → Prop)
    (objs : Objects) : Prop :=
  Affords (scanning S total objs0) total m n (fun a _ => P a) objs

namespace Yields

variable {m : Routine α} {k : Nat} {P P' : α → Prop} {R : β → Prop} {σ ι : Type}

lemma mono (h : Yields S total objs0 m n P objs) (hn : total → n ≤ k) (hP : ∀ a, P a → P' a) :
    Yields S total objs0 m k P' objs :=
  Affords.mono h hn fun a _ _ _ ha => hP a ha

lemma later (h : Yields S total objs0 m n P objs) (hobjs : Grown S objs objs') :
    Yields S total objs0 m n P objs' :=
  Affords.later h hobjs

lemma pure {a : α} (h : P a) : Yields S total objs0 (Pure.pure a) n P objs := Affords.pure fun _ _ _ => h

lemma bind {f : α → Routine β} (h : Yields S total objs0 m n P objs)
    (hf : ∀ a, P a → Yields S total objs0 (f a) k R objs) :
    Yields S total objs0 (m >>= f) (n + k) R objs :=
  Affords.bind h fun a _ _ hobjs' ha => (hf a ha).later hobjs'

lemma andThen {f : α → Routine β} (h : Yields S total objs0 m 0 P objs)
    (hf : ∀ a, P a → Yields S total objs0 (f a) k R objs) : Yields S total objs0 (m >>= f) k R objs :=
  Affords.andThen h fun a _ _ hobjs' ha => (hf a ha).later hobjs'

lemma spend {f : Unit → Routine β} (h : Yields S total objs0 (f ()) n R objs) :
    Yields S total objs0 (Routine.spend >>= f) (n + 1) R objs :=
  Affords.spend h

lemma foldM {f : σ → ι → Routine σ} {I : List ι → σ → Prop} {c : Nat} {xs : List ι} {s : σ}
    (hinit : I [] s)
    (hstep : ∀ done x s, x ∈ xs → I done s → Yields S total objs0 (f s x) c (I (done ++ [x])) objs)
    (hinv : Sound S total objs0 objs) (hn : xs.length * c = n) :
    Yields S total objs0 (Budgeted.foldM f s xs) n (I xs) objs :=
  Affords.mono (Affords.foldM (D := scanning S total objs0) (I := fun done s _ => I done s) (c := fun _ => c)
    (fun _ _ _ _ _ _ h => h) xs (fun done x s _ hx _ hobjs' hI => (hstep done x s hx hI).later hobjs')
    hinit hinv) (fun _ => by simp [← hn]) fun _ _ _ _ h => h

/-- A fold that costs nothing and returns what it was given. -/
lemma foldKeep {f : σ → ι → Routine σ} {s : σ} {xs : List ι}
    (hstep : ∀ x ∈ xs, Yields S total objs0 (f s x) 0 (· = s) objs) (hinv : Sound S total objs0 objs) :
    Yields S total objs0 (Budgeted.foldM f s xs) 0 (· = s) objs :=
  foldM (I := fun _ s' => s' = s) rfl (fun _ x _ hx hs => hs ▸ hstep x hx) hinv (Nat.mul_zero _)

lemma foldAny {f : σ → ι → Routine σ} {I : List ι → σ → Prop} {c : ι → Nat} (xs : List ι)
    (hstep : ∀ done x s, x ∈ xs → I done s → Yields S total objs0 (f s x) (c x) (I (done ++ [x])) objs)
    {s : σ} (hinit : I [] s) :
    Yields S total objs0 (Budgeted.foldAny f s xs) (xs.map c).sum (fun s' => ∃ ys, xs.Perm ys ∧ I ys s') objs :=
  Affords.foldAny (D := scanning S total objs0) (I := fun done s _ => I done s)
    (fun _ _ _ _ _ _ h => h) xs (fun done x s _ hx _ hobjs' hI => (hstep done x s hx hI).later hobjs')
    fun _ _ _ => hinit

end Yields

section Passes

variable {q : Queue} {shard : UInt16} {jobId : ByteArr 16} {report : RepairReport} {item : Listing}

/-- Two reports with the same findings. -/
def Alike (report report' : RepairReport) : Prop := report'.findings = report.findings

omit [Sha256] in
lemma alike_regenerated (missing : Bool) : Alike report (report.regenerated missing) := by
  unfold RepairReport.regenerated
  split <;> rfl

/-- The planes of the indexes. -/
def indexes : List Str := [leasesSeg, delayedSeg, termidxSeg]

lemma yields_ensureIndex (hk : planeOf k ∈ indexes) :
    Yields S total objs0 (Queue.ensureIndex (S.absolute k)) 1 (fun _ => True) objs := by
  have hsteady : S.absolute k ∉ steady S := by
    rw [absolute_mem_steady]
    revert hk
    generalize planeOf k = seg
    intro hk
    simp only [indexes, List.mem_cons, List.not_mem_nil, or_false] at hk
    rcases hk with rfl | rfl | rfl <;> decide
  have hquarantine : S.plane (S.absolute k) ≠ some quarantineSeg := by
    rw [plane_absolute]
    intro heq
    rw [Option.some.inj heq] at hk
    exact absurd hk (by decide)
  refine affords_look (fun info => Affords.pure fun _ _ _ => trivial) ?_
  exact Affords.spend (affords_put hsteady (fun h => absurd h hquarantine) fun _ =>
    Affords.pure fun _ _ _ => trivial)

lemma yields_regenerated (hk : planeOf k ∈ indexes) (report : RepairReport) : Yields S total objs0 (do
      let missing ← Queue.ensureIndex (S.absolute k)
      pure (report.regenerated missing)) 1 (Alike report) objs :=
  (yields_ensureIndex hk).bind (k := 0) fun missing _ => .pure (alike_regenerated missing)

lemma yields_repairJob {job : JobRecord} (hget : objs.get? (q.absolute (.job shard jobId)) = some stored)
    (hdec : q.decodeAt (.job shard jobId) stored.body = .ok (.job job))
    (hpayload : ∀ rel, job.payloadKey = some rel → ∃ digest payload, rel = (Key.payload jobId digest).fmt ∧
        objs.get? (q.absolute (.payload jobId digest)) = some payload) :
    Yields q.site total objs0 (q.repairJob shard jobId report item) 2 (Alike report) objs := by
  have hcheck : Yields q.site total objs0 (q.checkPayload report job item.info.storeTimeNs) 1
      (· = report) objs := by
    unfold Queue.checkPayload
    cases hkey : job.payloadKey with
    | none => exact .pure rfl
    | some rel =>
      obtain ⟨digest, payload, rfl, hthere⟩ := hpayload rel hkey
      exact .spend (affords_head (absolute_mem_steady.mpr (by simp [planeOf, audited])) hthere
        (.pure fun _ _ _ => rfl))
  have hdelay : Yields q.site total objs0 (q.restoreDelay shard jobId report job) 1 (Alike report) objs := by
    unfold Queue.restoreDelay
    split
    · exact .pure rfl
    · split
      · exact .pure rfl
      · exact yields_regenerated (by simp [planeOf, indexes]) report
  refine affords_get (absolute_mem_steady.mpr (by simp [planeOf, audited])) hget ?_
  dsimp only
  rw [hdec]
  refine Yields.bind hcheck (k := 1) ?_
  rintro _ rfl
  exact hdelay

/-- The job pass sees every listed job and finds nothing. -/
lemma yields_repairJobs {jobs : List Listing}
    (htraced : Traced (q.shardDir jobsSeg shard) (fun _ _ => False) objs0 objs jobs)
    (hinv : Sound q.site total objs0 objs) (report : RepairReport) :
    Yields q.site total objs0 (Budgeted.foldM (q.repairJobs shard) (report, []) jobs) (2 * jobs.length)
      (fun state => Alike report state.1 ∧
        ∀ x ∈ jobs, ∀ jobId, x.key = q.absolute (.job shard jobId) → jobId ∈ state.2) objs := by
  refine Yields.foldM (f := q.repairJobs shard) (s := (report, [])) (I := fun done state => Alike report state.1 ∧
    ∀ x ∈ done, ∀ jobId, x.key = q.absolute (.job shard jobId) → jobId ∈ state.2) ⟨rfl, nofun⟩
    (fun done x state hx hI => ?_) hinv (Nat.mul_comm _ 2)
  obtain ⟨hpre, stored, hget, -⟩ := htraced.present x hx
  have hplane := q.site.plane_of_dir (slash_not_mem_shardDir jobsSeg (by decide) shard) hpre
  obtain ⟨shard', jobId, job, hkey, hdec, hpayload⟩ := hinv.orderly.jobs x.key stored hget hplane
  rw [hkey] at hpre hget
  obtain rfl := shard_of_dir (by decide) rfl hpre
  unfold Queue.repairJobs
  rw [hkey, Queue.parseRel_absolute]
  refine Yields.bind (yields_repairJob hget hdec hpayload) (k := 0) fun report' hreport' => .pure ⟨?_, ?_⟩
  · exact hreport'.trans hI.1
  · intro y hy jobId' hykey
    rcases List.mem_append.mp hy with hy | hy
    · exact List.mem_append_left _ (hI.2 y hy jobId' hykey)
    · obtain rfl := List.mem_singleton.mp hy
      rw [hkey] at hykey
      cases q.site.absolute_inj.mp hykey
      exact List.mem_append_right _ (List.mem_singleton_self _)

/-- The claims of a shard are sorted into chains. -/
lemma yields_collectChain {claims : List Listing}
    (htraced : Traced (q.shardDir claimsSeg shard) (Next q.site) objs0 objs claims)
    (hinv : Sound q.site total objs0 objs) (report : RepairReport) :
    Yields q.site total objs0 (Budgeted.foldM q.collectChain (report, []) claims) 0
      (· = (report, chainsOf q claims)) objs := by
  refine Yields.foldM (I := fun done state => state = (report, chainsOf q done)) rfl
    (fun done x state hx hI => ?_) hinv (Nat.mul_zero _)
  obtain ⟨jobId, g, e, hkey, -, -⟩ := claim_of_traced hinv.orderly htraced hx
  unfold Queue.collectChain
  rw [hkey, Queue.parseRel_absolute]
  refine .pure ?_
  rw [hI, chainsOf_concat, claimOf, hkey, Queue.parseRel_absolute]
  rfl

section Chain

variable {links : Links}

lemma yields_auditRecords (hlinked : Linked q.site objs shard jobId links)
    (hinv : Sound q.site total objs0 objs) (report : RepairReport) :
    Yields q.site total objs0 (Budgeted.foldM (q.auditRecord shard jobId) (report, []) links) links.length
      (· = (report, links.map (Linked.recordOf q.site objs shard jobId))) objs := by
  refine Yields.foldM (I := fun done state => state = (report, done.map (Linked.recordOf q.site objs shard jobId)))
    rfl (fun done l state hl hI => ?_) hinv (Nat.mul_one _)
  obtain ⟨-, e, he, -⟩ := hlinked.claims l hl
  obtain ⟨stored, hget, hdec⟩ := decode_of_claimAt he
  change q.decodeAt (.claim shard jobId l.1.toUInt32) stored.body = _ at hdec
  refine .spend (affords_get (absolute_mem_steady.mpr (by simp [planeOf, audited])) hget ?_)
  dsimp only
  rw [hdec]
  refine Yields.pure ?_
  rw [hI, List.map_append]
  simp [Linked.recordOf, he]

lemma yields_auditClaimChain (hlinked : Linked q.site objs shard jobId links)
    (hinv : Sound q.site total objs0 objs) (report : RepairReport) :
    Yields q.site total objs0 (q.auditClaimChain shard jobId links report) links.length
      (fun out => out.1 = report) objs := by
  have hcontiguous : Yields q.site total objs0
      (Budgeted.foldM (q.auditContiguity shard jobId) report (links.zip links.tail)) 0 (· = report) objs := by
    refine Yields.foldKeep (fun pair hpair => ?_) hinv
    unfold Queue.auditContiguity
    rw [if_neg (not_not.mpr (hlinked.consecutive hpair))]
    exact .pure rfl
  have hevidence : Yields q.site total objs0 (Budgeted.foldM (q.auditEvidence shard jobId) report
      ((links.zip (links.map (Linked.recordOf q.site objs shard jobId))).zip
        (links.zip (links.map (Linked.recordOf q.site objs shard jobId))).tail)) 0 (· = report) objs := by
    refine Yields.foldKeep (fun pair hpair => ?_) hinv
    obtain ⟨prev, next, hprev, hnext, hadmissible⟩ := hlinked.evidence hinv.orderly hpair
    unfold Queue.auditEvidence
    rw [hprev, hnext]
    dsimp only
    rw [if_pos hadmissible]
    exact .pure rfl
  have hhead : Yields q.site total objs0 (q.auditHead shard jobId report (links.headD (0, emptyMeta))) 0
      (· = report) objs := by
    unfold Queue.auditHead
    rw [if_neg (not_not.mpr (hlinked.first _))]
    exact .pure rfl
  refine hcontiguous.andThen fun r hr => ?_
  subst r
  refine hhead.andThen fun r hr => ?_
  subst r
  refine (yields_auditRecords hlinked hinv report).bind (k := 0) ?_
  rintro _ rfl
  refine hevidence.andThen fun r hr => ?_
  subst r
  exact .pure rfl

lemma yields_repairChain {jobIds : List (ByteArr 16)} (hlinked : Linked q.site objs shard jobId links)
    (hinv : Sound q.site total objs0 objs) (hjob : jobId ∈ jobIds) (report : RepairReport) :
    Yields q.site total objs0 (q.repairChain shard jobIds report (jobId, links)) (links.length + 1)
      (Alike report) objs := by
  unfold Queue.repairChain
  have hcontains : (!jobIds.contains jobId) = false := by simpa using hjob
  simp only [hcontains, hlinked.mergeSort, Bool.false_eq_true, if_false]
  refine (yields_auditClaimChain hlinked hinv _).bind (k := 1) ?_
  rintro ⟨_, tailGen, tailMeta, tailDuration⟩ rfl
  have hlease : ∀ r, Alike report r → Yields q.site total objs0
      (q.restoreLease shard jobId r tailGen tailMeta tailDuration) 1 (Alike report) objs := by
    intro r hr
    unfold Queue.restoreLease
    split
    · exact .pure hr
    · exact (yields_regenerated (by simp [planeOf, indexes]) r).mono (fun _ => Nat.le_refl _)
        fun _ h => Eq.trans h hr
  exact hlease _ rfl

end Chain

/-! Terminal records. -/

/-- The key of a terminal record. -/
def terminalKey : TermKind → UInt16 → ByteArr 16 → Key
  | .receipt => .receipt
  | .dead => .dead

/-- The plane of a kind of terminal records. -/
def terminalSeg : TermKind → Str
  | .receipt => receiptsSeg
  | .dead => deadSeg

lemma terminal_of_traced
    (htraced : Traced (q.shardDir (terminalSeg kind) shard) (fun _ _ => False) objs0 objs items)
    (horder : Orderly q.site objs) {x : Listing} (hx : x ∈ items) :
    ∃ jobId, x.key = q.absolute (terminalKey kind shard jobId) := by
  obtain ⟨hpre, stored, hget, -⟩ := htraced.present x hx
  have hslash : '/' ∉ terminalSeg kind := by cases kind <;> decide
  have hplane := q.site.plane_of_dir (slash_not_mem_shardDir _ hslash shard) hpre
  obtain ⟨shard', jobId, hkey⟩ : ∃ shard' jobId, x.key = q.absolute (terminalKey kind shard' jobId) := by
    cases kind with
    | receipt => exact horder.receipts x.key stored hget hplane
    | dead => exact horder.dead x.key stored hget hplane
  rw [hkey] at hpre
  have hsegments : (terminalKey kind shard' jobId).segments = [terminalSeg kind, hex16 shard', hex jobId.toList] := by
    cases kind <;> rfl
  exact ⟨jobId, shard_of_dir hslash hsegments hpre ▸ hkey⟩

/-- The jobs of listed terminal records. -/
structure Ended (q : Queue) (kind : TermKind) (shard : UInt16) (items : List Listing)
    (jobs : List (ByteArr 16 × UInt64)) : Prop where
  length : jobs.length = items.length
  listed : ∀ job ∈ jobs, ∃ x ∈ items, x.key = q.absolute (terminalKey kind shard job.1)
  complete : ∀ x ∈ items, ∀ jobId, x.key = q.absolute (terminalKey kind shard jobId) → ∃ job ∈ jobs, job.1 = jobId

omit [Sha256] in
lemma Ended.present {jobs : List (ByteArr 16 × UInt64)} (h : Ended q kind shard items jobs)
    (htraced : Traced (q.shardDir (terminalSeg kind) shard) (fun _ _ => False) objs0 objs items)
    {job : ByteArr 16 × UInt64} (hjob : job ∈ jobs) :
    objs.get? (q.absolute (terminalKey kind shard job.1)) ≠ none := by
  obtain ⟨x, hx, hkey⟩ := h.listed job hjob
  obtain ⟨-, stored, hget, -⟩ := htraced.present x hx
  rw [← hkey, hget]
  simp

lemma yields_repairTerminal {x : Listing} (hkey : x.key = q.absolute (terminalKey kind shard jobId))
    (state : RepairReport × List (ByteArr 16 × UInt64)) :
    Yields q.site total objs0 (q.repairTerminal shard state x) 1
      (fun out => Alike state.1 out.1 ∧ out.2 = state.2 ++ [(jobId, x.info.storeTimeNs)]) objs := by
  unfold Queue.repairTerminal
  rw [hkey, Queue.parseRel_absolute]
  cases kind
  all_goals
    dsimp only [terminalKey]
    split
    · exact .pure ⟨rfl, rfl⟩
    · exact (yields_ensureIndex (by simp [planeOf, indexes])).bind (k := 0) fun missing _ =>
        .pure ⟨alike_regenerated missing, rfl⟩

lemma yields_repairTerminals
    (htraced : Traced (q.shardDir (terminalSeg kind) shard) (fun _ _ => False) objs0 objs items)
    (hinv : Sound q.site total objs0 objs) (report : RepairReport) :
    Yields q.site total objs0 (Budgeted.foldM (q.repairTerminal shard) (report, []) items) items.length
      (fun state => Alike report state.1 ∧ Ended q kind shard items state.2) objs := by
  refine Yields.foldM (f := q.repairTerminal shard) (s := (report, []))
    (I := fun done state => Alike report state.1 ∧ Ended q kind shard done state.2)
    ⟨rfl, rfl, nofun, nofun⟩ (fun done x state hx hI => ?_) hinv (Nat.mul_one _)
  obtain ⟨halike, hended⟩ := hI
  obtain ⟨jobId, hkey⟩ := terminal_of_traced htraced hinv.orderly hx
  refine (yields_repairTerminal hkey state).mono (fun _ => Nat.le_refl _) ?_
  rintro ⟨report', jobs⟩ ⟨halike', hjobs⟩
  obtain rfl : jobs = state.2 ++ [(jobId, x.info.storeTimeNs)] := hjobs
  refine ⟨Eq.trans halike' halike, ?_, fun job hjob => ?_, fun y hy j hj => ?_⟩
  · rw [List.length_append, List.length_append, hended.length, List.length_singleton, List.length_singleton]
  · rcases List.mem_append.mp hjob with hjob | hjob
    · obtain ⟨y, hy, hykey⟩ := hended.listed job hjob
      exact ⟨y, List.mem_append_left _ hy, hykey⟩
    · obtain rfl := List.mem_singleton.mp hjob
      exact ⟨x, List.mem_append_right _ (List.mem_singleton_self x), hkey⟩
  · rcases List.mem_append.mp hy with hy | hy
    · obtain ⟨job, hjob, hid⟩ := hended.complete y hy j hj
      exact ⟨job, List.mem_append_left _ hjob, hid⟩
    · obtain rfl := List.mem_singleton.mp hy
      refine ⟨_, List.mem_append_right _ (List.mem_singleton_self _), ?_⟩
      have heq := q.site.absolute_inj.mp (hkey.symm.trans hj)
      cases kind <;> (cases heq; rfl)

/-- The finding for a job with two terminal records. -/
def duplicateAt (S : Site) (shard : UInt16) (jobId : ByteArr 16) : Finding :=
  ⟨.duplicateTerminal, S.absolute (.receipt shard jobId), 0x0007⟩

lemma yields_findDuplicate {receipt : ByteArr 16 × UInt64}
    (hthere : objs.get? (q.absolute (.receipt shard receipt.1)) ≠ none) (report : RepairReport) :
    Yields q.site total objs0 (q.findDuplicate shard report receipt) 1
      (fun r => r.findings = report.findings ++ [duplicateAt q.site shard receipt.1]) objs := by
  have hwrite : Yields q.site total objs0
      (q.writeQuarantine (Key.receipt shard receipt.1).fmt 0x0007 receipt.2 none) 1
      (fun _ => True) objs := by
    unfold Queue.writeQuarantine
    split
    · exact .pure trivial
    · unfold Math.bucketNumber
      split
      · next hzero => exact affords_fail fun _ => q.terminalBucketWidth_ne_zero hzero
      · refine Affords.retry (Affords.spend (affords_put ?_ (fun _ => ⟨_, _, hthere⟩) fun _ =>
          Affords.pure fun _ _ _ => ⟨_, rfl, fun _ _ _ => trivial⟩))
        rw [absolute_mem_steady]
        exact (by decide : quarantineSeg ∉ audited)
  exact hwrite.bind (k := 0) fun _ _ => .pure rfl

/-! ## Shards -/

/-- What the scan of a shard adds to a report: the jobs with two terminal records. -/
structure Reported (S : Site) (objs0 objs : Objects) (shard : UInt16) (report r : RepairReport) : Prop where
  kept : report.findings ⊆ r.findings
  only : ∀ f ∈ r.findings, f ∈ report.findings ∨ ∃ jobId, f = duplicateAt S shard jobId ∧
    objs.get? (S.absolute (.receipt shard jobId)) ≠ none ∧ objs.get? (S.absolute (.dead shard jobId)) ≠ none
  all : ∀ jobId, objs0.get? (S.absolute (.receipt shard jobId)) ≠ none →
    objs0.get? (S.absolute (.dead shard jobId)) ≠ none → duplicateAt S shard jobId ∈ r.findings

/-- The items of a shard. -/
def listed (q : Queue) (objs : Objects) (seg : Str) (shard : UInt16) : List Listing :=
  remaining objs (q.shardDir seg shard) none

/-- The budget that is enough for a shard. -/
def shardCost (q : Queue) (objs : Objects) (shard : UInt16) : Nat :=
  let jobs := (listed q objs jobsSeg shard).length
  let claims := listed q objs claimsSeg shard
  let receipts := (listed q objs receiptsSeg shard).length
  let dead := (listed q objs deadSeg shard).length
  (jobs + 1) + (2 * jobs + ((claims.length + 1) +
    (((chainsOf q claims).map fun c => c.2.length + 1).sum +
      ((receipts + 1) + (receipts + ((dead + 1) + (dead + receipts)))))))

omit [Sha256] in
lemma dir_prefix_job (S : Site) (shard : UInt16) (jobId : ByteArr 16) :
    S.dir [jobsSeg, hex16 shard] <+: S.absolute (.job shard jobId) :=
  ⟨hex jobId.toList, by simp [Site.dir, Site.absolute, Key.fmt]⟩

omit [Sha256] in
lemma dir_prefix_terminal (S : Site) (kind : TermKind) (shard : UInt16) (jobId : ByteArr 16) :
    S.dir [terminalSeg kind, hex16 shard] <+: S.absolute (terminalKey kind shard jobId) := by
  refine ⟨hex jobId.toList, ?_⟩
  cases kind <;> simp [Site.dir, Site.absolute, Key.fmt, terminalSeg, terminalKey]

omit [Sha256] in
lemma terminalSeg_audited (kind : TermKind) : terminalSeg kind ∈ audited := by
  cases kind <;> decide

/-- In a store that stays, a listing shows all there is. -/
lemma Traced.eq_listed {seg : Str} (hseg : seg ∈ audited) {follows : Str → Str → Prop}
    (h : Traced (q.shardDir seg shard) follows objs0 objs items) (hinv : Sound q.site total objs0 objs)
    (ht : total) : items = listed q objs0 seg shard :=
  Store.Traced.eq_remaining h fun key hkey => hinv.still ht key (steady_of_dir hseg hkey)

omit [Sha256] in
lemma ne_none_of_grown {a b : Objects} (h : Grown S a b) (hk : planeOf k ∈ audited)
    (hget : a.get? (S.absolute k) ≠ none) : b.get? (S.absolute k) ≠ none := by
  obtain ⟨stored, hstored⟩ := Option.ne_none_iff_exists'.mp hget
  rw [h _ (absolute_mem_steady.mpr hk) stored hstored]
  simp

lemma yields_repairChains {claims : List Listing} {jobIds : List (ByteArr 16)}
    (htraced : Traced (q.shardDir claimsSeg shard) (Next q.site) objs0 objs claims)
    (hinv : Sound q.site total objs0 objs)
    (hjobs : ∀ jobId, objs0.get? (q.absolute (.job shard jobId)) ≠ none → jobId ∈ jobIds)
    (report : RepairReport) :
    Yields q.site total objs0 (Budgeted.foldAny (q.repairChain shard jobIds) report (chainsOf q claims))
      ((chainsOf q claims).map fun c => c.2.length + 1).sum (Alike report) objs := by
  refine (Yields.foldAny (I := fun _ r => Alike report r) (chainsOf q claims) (fun done c r hc hI => ?_) rfl).mono
    (fun _ => Nat.le_refl _) fun _ halike => halike.choose_spec.2
  obtain ⟨jobId, links⟩ := c
  obtain ⟨hlinks, hne⟩ := (chainsOf_spec claims).1 _ hc
  obtain rfl : links = linksOf q claims jobId := hlinks
  have hlinked := linked_of_traced hinv.orderly htraced hne
  obtain ⟨l, hl⟩ := List.exists_mem_of_ne_nil _ hne
  obtain ⟨-, e, he, -⟩ := hlinked.claims l hl
  refine (yields_repairChain hlinked hinv (hjobs jobId (hinv.founded shard jobId _ e he)) r).mono
    (fun _ => Nat.le_refl _) fun r' hr' => Eq.trans hr' hI

lemma affords_terminals
    (hinv : Sound q.site total objs0 objs) (report : RepairReport) :
    Affords (scanning q.site total objs0) total (do
      let receipts ← Queue.listAuthoritative (q.shardDir receiptsSeg shard)
      let (report, receiptJobs) ← Budgeted.foldM (q.repairTerminal shard) (report, []) receipts
      let dead ← Queue.listAuthoritative (q.shardDir deadSeg shard)
      let (report, deadJobs) ← Budgeted.foldM (q.repairTerminal shard) (report, []) dead
      let duplicates := receiptJobs.filter fun r => deadJobs.any fun d => d.1 = r.1
      Budgeted.foldAny (q.findDuplicate shard) report duplicates)
      (((listed q objs0 receiptsSeg shard).length + 1) + ((listed q objs0 receiptsSeg shard).length +
        (((listed q objs0 deadSeg shard).length + 1) + ((listed q objs0 deadSeg shard).length +
          (listed q objs0 receiptsSeg shard).length))))
      (fun r objs' => Reported q.site objs0 objs' shard report r) objs := by
  have hlist : ∀ kind objs, Sound q.site total objs0 objs → Affords (scanning q.site total objs0) total
      (Queue.listAuthoritative (q.shardDir (terminalSeg kind) shard))
      ((listed q objs0 (terminalSeg kind) shard).length + 1)
      (fun items objs' => Traced (q.shardDir (terminalSeg kind) shard) (fun _ _ => False) objs0 objs' items)
      objs := fun kind objs hi =>
    affords_listAuthoritative (fun _ => steady_of_dir (terminalSeg_audited kind))
      (fun _ _ => adjoins_nothing) hi
  have hpass : ∀ kind objs items report, Sound q.site total objs0 objs →
      Traced (q.shardDir (terminalSeg kind) shard) (fun _ _ => False) objs0 objs items →
      Yields q.site total objs0 (Budgeted.foldM (q.repairTerminal shard) (report, []) items)
        (listed q objs0 (terminalSeg kind) shard).length
        (fun state => Alike report state.1 ∧ Ended q kind shard items state.2) objs :=
    fun kind objs items report hi htraced => (yields_repairTerminals htraced hi report).mono
      (fun ht => by rw [Traced.eq_listed (terminalSeg_audited kind) htraced hi ht]) fun _ h => h
  refine (hlist .receipt objs hinv).bind fun receipts objs1 hi1 ho1 hreceipts => ?_
  refine Affords.bind (hpass .receipt objs1 receipts report hi1 hreceipts) fun state objs2 hi2 ho2 hstate => ?_
  obtain ⟨report1, receiptJobs⟩ := state
  obtain ⟨halike1, hended1⟩ := hstate
  refine (hlist .dead objs2 hi2).bind fun dead objs3 hi3 ho3 hdead => ?_
  refine Affords.bind (hpass .dead objs3 dead report1 hi3 hdead) fun state objs4 hi4 ho4 hstate => ?_
  obtain ⟨report2, deadJobs⟩ := state
  obtain ⟨halike2, hended2⟩ := hstate
  dsimp only at halike1 hended1 halike2 hended2 ⊢
  generalize hdups : (receiptJobs.filter fun r => deadJobs.any fun d => d.1 = r.1) = duplicates
  have hmem : ∀ job, job ∈ duplicates ↔ job ∈ receiptJobs ∧ ∃ d ∈ deadJobs, d.1 = job.1 := by
    intro job
    simp [← hdups]
  have hgrown : Grown q.site objs1 objs4 := (Grown.trans ho2 ho3).trans ho4
  have hpresent1 : ∀ job ∈ receiptJobs, objs4.get? (q.absolute (.receipt shard job.1)) ≠ none := by
    intro job hjob
    exact ne_none_of_grown (k := .receipt shard job.1) hgrown (by simp [planeOf, audited])
      (hended1.present hreceipts hjob)
  have hpresent2 : ∀ job ∈ deadJobs, objs4.get? (q.absolute (.dead shard job.1)) ≠ none := by
    intro job hjob
    exact ne_none_of_grown (k := .dead shard job.1) ho4 (by simp [planeOf, audited])
      (hended2.present hdead hjob)
  have hfold : Yields q.site total objs0 (Budgeted.foldAny (q.findDuplicate shard) report2 duplicates)
      (duplicates.map fun _ => 1).sum (fun r => ∃ visited, duplicates.Perm visited ∧ r.findings =
        report.findings ++ visited.map fun d => duplicateAt q.site shard d.1) objs4 := by
    refine Yields.foldAny duplicates (fun done job r hjob hI => ?_) ?_
    · refine (yields_findDuplicate (hpresent1 job ((hmem job).mp hjob).1) r).mono
        (fun _ => Nat.le_refl _) fun r' hr' => ?_
      rw [hr', hI, List.map_append, List.append_assoc]
      rfl
    · rw [List.map_nil, List.append_nil]
      exact Eq.trans halike2 halike1
  refine Affords.mono hfold (fun ht => ?_) fun r objs5 _ ho5 hvisited => ?_
  · have hcount : (duplicates.map fun _ => 1).sum = duplicates.length := by simp
    rw [hcount, ← hdups]
    refine Nat.le_trans (List.length_filter_le _ _) (le_of_eq ?_)
    rw [hended1.length, Traced.eq_listed (terminalSeg_audited .receipt) hreceipts hi1 ht]
    rfl
  -- the order in which the duplicates were visited does not matter
  obtain ⟨visited, hperm, hr⟩ := hvisited
  refine ⟨?_, fun f hf => ?_, fun jobId h1 h2 => ?_⟩
  · rw [hr]
    exact List.subset_append_left _ _
  · rw [hr] at hf
    rcases List.mem_append.mp hf with hf | hf
    · exact .inl hf
    · obtain ⟨job, hjob, rfl⟩ := List.mem_map.mp hf
      obtain ⟨hjob, d, hd, hid⟩ := (hmem job).mp (hperm.mem_iff.mpr hjob)
      refine .inr ⟨job.1, rfl, ?_, ?_⟩
      · exact ne_none_of_grown ho5 (by simp [planeOf, audited]) (hpresent1 job hjob)
      · exact ne_none_of_grown ho5 (by simp [planeOf, audited]) (hid ▸ hpresent2 d hd)
  · obtain ⟨x, hx, hxkey⟩ := hreceipts.complete _ (dir_prefix_terminal q.site .receipt shard jobId) h1
    obtain ⟨y, hy, hykey⟩ := hdead.complete _ (dir_prefix_terminal q.site .dead shard jobId) h2
    obtain ⟨job, hjob, rfl⟩ := hended1.complete x hx jobId hxkey
    obtain ⟨d, hd, hid⟩ := hended2.complete y hy job.1 hykey
    rw [hr]
    exact List.mem_append_right _
      (List.mem_map.mpr ⟨job, hperm.mem_iff.mp ((hmem job).mpr ⟨hjob, d, hd, hid⟩), rfl⟩)

/-- **The scan of a shard of an orderly store** finds the jobs with two terminal records, and
nothing else. -/
theorem affords_repairShard
    (hinv : Sound q.site total objs0 objs) (shard : UInt16) (report : RepairReport) :
    Affords (scanning q.site total objs0) total (q.repairShard shard report) (shardCost q objs0 shard)
      (fun r objs' => Reported q.site objs0 objs' shard report r) objs := by
  unfold Queue.repairShard shardCost
  dsimp only
  refine (affords_listAuthoritative (fun _ => steady_of_dir (by simp [audited]))
    (fun _ _ => adjoins_nothing) hinv).bind fun jobs objs1 hi1 ho1 hjobs => ?_
  have hjobsPass := (yields_repairJobs hjobs hi1 report).mono
    (k := 2 * (listed q objs0 jobsSeg shard).length)
    (fun ht => by rw [Traced.eq_listed (by simp [audited]) hjobs hi1 ht]) fun _ h => h
  refine Affords.bind hjobsPass fun state objs2 hi2 ho2 hstate => ?_
  obtain ⟨report1, ids⟩ := state
  obtain ⟨halike1, hids⟩ := hstate
  dsimp only at halike1 hids ⊢
  have hseen : ∀ jobId, objs0.get? (q.absolute (.job shard jobId)) ≠ none → jobId ∈ ids := by
    intro jobId hjob
    obtain ⟨x, hx, hkey⟩ := hjobs.complete _ (dir_prefix_job q.site shard jobId) hjob
    exact hids x hx jobId hkey
  have hadjoins : ∀ objs, Orderly q.site objs → Adjoins (q.shardDir claimsSeg shard) (Next q.site) objs :=
    fun _ h => adjoins_claims h
  refine (affords_listAuthoritative (fun _ => steady_of_dir (by simp [audited])) hadjoins hi2).bind
    fun claims objs3 hi3 ho3 hclaims => ?_
  refine Affords.andThen (yields_collectChain hclaims hi3 report1) fun state objs4 hi4 ho4 hstate => ?_
  subst hstate
  dsimp only
  have hclaims4 : Traced (q.shardDir claimsSeg shard) (Next q.site) objs0 objs4 claims :=
    hclaims.later fun key stored hkey => ho4 key (steady_of_dir (by simp [audited]) hkey) stored
  have hchainsPass := (yields_repairChains hclaims4 hi4 hseen report1).mono
    (k := ((chainsOf q (listed q objs0 claimsSeg shard)).map fun c => c.2.length + 1).sum)
    (fun ht => by rw [Traced.eq_listed (by simp [audited]) hclaims hi3 ht]) fun _ h => h
  refine Affords.bind hchainsPass fun report2 objs5 hi5 ho5 halike2 => ?_
  have hsame : report2.findings = report.findings := Eq.trans halike2 halike1
  refine (affords_terminals hi5 report2).mono (fun _ => Nat.le_refl _) fun r objs6 _ _ hr => ?_
  exact ⟨hsame ▸ hr.kept, hsame ▸ hr.only, hr.all⟩

/-! ## The whole scan -/

/-- A finding names a job of the shards from `next` on that ended twice. -/
def Duplicate (S : Site) (objs : Objects) (next left : Nat) (f : Finding) : Prop :=
  ∃ i < left, ∃ jobId, f = duplicateAt S (UInt16.ofNat (next + i)) jobId ∧
    objs.get? (S.absolute (.receipt (UInt16.ofNat (next + i)) jobId)) ≠ none ∧
    objs.get? (S.absolute (.dead (UInt16.ofNat (next + i)) jobId)) ≠ none

/-- What a scan from shard `next` on, over `left` shards, adds to a report. -/
structure Scanned (S : Site) (objs : Objects) (next left : Nat) (report r : RepairReport) : Prop where
  kept : report.findings ⊆ r.findings
  only : ∀ f ∈ r.findings, f ∈ report.findings ∨ Duplicate S objs next left f

/-- The jobs that ended twice in a range of shards are reported. -/
def Covers (S : Site) (objs0 : Objects) (next left : Nat) (r : RepairReport) : Prop :=
  ∀ i < left, ∀ jobId, objs0.get? (S.absolute (.receipt (UInt16.ofNat (next + i)) jobId)) ≠ none →
    objs0.get? (S.absolute (.dead (UInt16.ofNat (next + i)) jobId)) ≠ none →
    duplicateAt S (UInt16.ofNat (next + i)) jobId ∈ r.findings

/-- The budget that is enough for a range of shards. -/
def scanCost (q : Queue) (objs : Objects) : Nat → Nat → Nat
  | _, 0 => 5
  | next, left + 1 => shardCost q objs (UInt16.ofNat next) + scanCost q objs (next + 1) left

omit [Sha256] in
lemma five_le_scanCost (q : Queue) (objs : Objects) (next left : Nat) : 5 ≤ scanCost q objs next left := by
  induction left generalizing next with
  | zero => exact Nat.le_refl 5
  | succ left ih => exact Nat.le_trans (ih (next + 1)) (Nat.le_add_left _ _)

/-- Whatever the budget, the scan reports nothing but jobs that ended twice; with enough of it,
it reports all of them and has covered every shard. -/
lemma ends_repairFrom (left : Nat) :
    ∀ (next b : Nat) (report : RepairReport) (objs : Objects), Sound q.site total objs0 objs →
      Ends (scanning q.site total objs0) (q.repairFrom next left report) b (fun out _ objs' =>
        (∀ r resume, out = .ok (r, resume) → Scanned q.site objs' next left report r) ∧
        (total → scanCost q objs0 next left ≤ b → ∃ r, out = .ok (r, none) ∧
          Covers q.site objs0 next left r)) objs := by
  induction left with
  | zero =>
    intro next b report objs _
    refine Ends.pure fun objs' _ _ => ⟨fun r resume hr => ?_, fun _ _ => ⟨report, rfl, fun i hi => ?_⟩⟩
    · cases hr
      exact ⟨fun _ h => h, fun f hf => .inl hf⟩
    · exact absurd hi (Nat.not_lt_zero i)
  | succ left ih =>
    intro next b report objs hinv
    have hshard := affords_repairShard hinv (UInt16.ofNat next) report b
    refine hshard.bind (fun report1 left1 objs1 hi1 hM => ?_) fun e left1 objs1 _ hM => ?_
    · obtain ⟨hok, henough⟩ := hM
      have hreported := hok report1 rfl
      generalize hcounted : ({ report1 with shardsScanned := report1.shardsScanned + 1 } : RepairReport)
        = report2
      have hfindings : report2.findings = report1.findings := by rw [← hcounted]
      have hscanned : ∀ {r : RepairReport} {objs' : Objects}, Grown q.site objs1 objs' →
          Scanned q.site objs' (next + 1) left report2 r →
          Scanned q.site objs' next (left + 1) report r := by
        intro r objs' hgrown h
        refine ⟨fun f hf => h.kept (hfindings ▸ hreported.kept hf), fun f hf => ?_⟩
        rcases h.only f hf with hf | ⟨i, hi, jobId, hdup⟩
        · rw [hfindings] at hf
          rcases hreported.only f hf with hf | ⟨jobId, rfl, h1, h2⟩
          · exact .inl hf
          · exact .inr ⟨0, Nat.succ_pos left, jobId, rfl, ne_none_of_grown hgrown (by simp [planeOf, audited]) h1,
              ne_none_of_grown hgrown (by simp [planeOf, audited]) h2⟩
        · have hindex : next + 1 + i = next + (i + 1) := by omega
          rw [hindex] at hdup
          exact .inr ⟨i + 1, Nat.succ_lt_succ hi, jobId, hdup⟩
      refine Ends.remaining ?_
      split
      · next hlow =>
          refine Ends.pure fun objs' hobjs' _ => ⟨fun r resume hr => ?_, fun ht hb => ?_⟩
          · cases hr
            exact hscanned hobjs' ⟨fun _ h => h, fun f hf => .inl hf⟩
          · have hleft := (henough ht (by unfold scanCost at hb; omega)).2
            have hfive := five_le_scanCost q objs0 (next + 1) left
            unfold scanCost at hb
            omega
      · refine (show Ends _ _ left1 (fun out _ objs' => Grown q.site objs1 objs' ∧ _) objs1 from
          (ih (next + 1) left1 report2 objs1 hi1).mono fun _ _ _ _ ho hq => ⟨ho, hq⟩).mono
          fun out left2 objs2 _ _ hq => ⟨fun r resume hr => ?_, fun ht hb => ?_⟩
        · exact hscanned hq.1 (hq.2.1 r resume hr)
        · have hleft := (henough ht (by unfold scanCost at hb; omega)).2
          obtain ⟨r, hr, hcovers⟩ := hq.2.2 ht (by unfold scanCost at hb; omega)
          refine ⟨r, hr, fun i hi jobId h1 h2 => ?_⟩
          cases i with
          | zero => exact (hq.2.1 r none hr).kept (hfindings ▸ hreported.all jobId h1 h2)
          | succ i =>
            have hindex : next + (i + 1) = next + 1 + i := by omega
            rw [hindex] at h1 h2 ⊢
            exact hcovers i (Nat.lt_of_succ_lt_succ hi) jobId h1 h2
    · refine ⟨fun r resume hr => (by cases hr), fun ht hb => ?_⟩
      obtain ⟨⟨r, hr⟩, -⟩ := hM.2 ht (by unfold scanCost at hb; omega)
      cases hr

end Passes

end Scan

end Audit
end StowQ
