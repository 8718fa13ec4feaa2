import StowQ.Core.Space
import StowQ.Custody.Chain

/-!
# Custody chains in the store

What the objects of a store say about jobs: the job record, the claims and the fail
records of each job, read through the codec.  `Kept` says that the claims plane holds one
custody chain per job and nothing else; `Kept.put_claim` extends a chain by a create that
is `Due`.
-/

namespace StowQ
namespace Custody

open Data StowQ.Core Store Format Keys

variable {g : UInt32} {r : ClaimRecord} {floorNs t : UInt64} {c : Chain} {e p : Entry}

section Views

variable [Sha256] (S : Site) (objs : Objects) (shard : UInt16) (jobId : ByteArr 16)

def jobAt : Option JobRecord :=
  match recordAt S objs (.job shard jobId) with
  | some (.job r) => some r
  | _ => none

def failAt (generation : UInt32) : Option FailRecord :=
  match recordAt S objs (.fail shard jobId generation) with
  | some (.fail r) => some r
  | _ => none

/-- The claim of a generation and its store time. -/
def claimAt (generation : UInt32) : Option Entry :=
  match objs.get? (S.absolute (.claim shard jobId generation)) with
  | none => none
  | some stored =>
    match S.decodeAt (.claim shard jobId generation) stored.body with
    | .ok (.claim r) => some ⟨r, stored.storeTimeNs⟩
    | _ => none

end Views

/-- The planes custody is read from. -/
def custodyPlanes : List Str := [jobsSeg, claimsSeg, failsSeg]

/-- Objects in the custody planes stay as they are. -/
def Extends (S : Site) (objs objs' : Objects) : Prop :=
  ∀ key stored plane, S.plane key = some plane → plane ∈ custodyPlanes →
    objs.get? key = some stored → objs'.get? key = some stored

namespace Extends

variable {S : Site} {a b c : Objects}

lemma refl (S : Site) (a : Objects) : Extends S a a := fun _ _ _ _ _ h => h

lemma trans (hab : Extends S a b) (hbc : Extends S b c) : Extends S a c :=
  fun key stored plane hp hm h => hbc key stored plane hp hm (hab key stored plane hp hm h)

lemma insert {key : Str} {stored : Stored} (h : a.get? key = none) : Extends S a (a.insert key stored) := by
  intro key' stored' _ _ _ hget
  have hne : key' ≠ key := by
    rintro rfl
    rw [h] at hget
    cases hget
  rw [OrderedMap.get?_insert_of_ne _ _ hne]
  exact hget

lemma of_outside {key : Str} (hkey : ∀ plane ∈ custodyPlanes, S.plane key ≠ some plane)
    (h : ∀ k, k ≠ key → b.get? k = a.get? k) : Extends S a b := by
  intro key' stored plane hp hm hget
  have hne : key' ≠ key := by
    rintro rfl
    exact hkey plane hm hp
  rw [h key' hne]
  exact hget

variable [Sha256] {shard : UInt16} {jobId : ByteArr 16}

lemma recordAt {k : Key} {r : Record} (h : Extends S a b) (hk : planeOf k ∈ custodyPlanes)
    (hr : recordAt S a k = some r) : recordAt S b k = some r := by
  unfold Core.recordAt at hr ⊢
  obtain ⟨stored, hget, hdec⟩ := Option.bind_eq_some_iff.mp hr
  rw [h _ stored _ (plane_absolute S k) hk hget]
  exact hdec

lemma jobAt {r : JobRecord} (h : Extends S a b) (hr : jobAt S a shard jobId = some r) :
    jobAt S b shard jobId = some r := by
  unfold Custody.jobAt at hr ⊢
  split at hr
  · next r' hrec => rw [h.recordAt (by simp [planeOf, custodyPlanes]) hrec]; exact hr
  · cases hr

lemma failAt {r : FailRecord} (h : Extends S a b) (hr : failAt S a shard jobId g = some r) :
    failAt S b shard jobId g = some r := by
  unfold Custody.failAt at hr ⊢
  split at hr
  · next r' hrec => rw [h.recordAt (by simp [planeOf, custodyPlanes]) hrec]; exact hr
  · cases hr

lemma claimAt (h : Extends S a b) (he : claimAt S a shard jobId g = some e) :
    claimAt S b shard jobId g = some e := by
  unfold Custody.claimAt at he ⊢
  split at he
  · cases he
  · next stored hget =>
      rw [h _ stored _ (plane_absolute S _) (by simp [planeOf, custodyPlanes]) hget]
      exact he

end Extends

section Kept

variable [Sha256] {S : Site} {timed : Prop} {objs objs' : Objects} {shard : UInt16}
  {jobId : ByteArr 16}

lemma claimAt_of_get? {stored : Stored} (hr : r.WellFormed)
    (hget : objs.get? (S.absolute (.claim shard jobId g)) = some stored)
    (hbody : stored.body = S.encodeAt (.claim shard jobId g) (.claim r)) :
    claimAt S objs shard jobId g = some ⟨r, stored.storeTimeNs⟩ := by
  have hdec : S.decodeAt (.claim shard jobId g) stored.body = .ok (.claim r) := by
    rw [hbody]
    exact decode_encode (.claim r) hr _ _
  simp [claimAt, hget, hdec]

lemma get?_of_claimAt (h : claimAt S objs shard jobId g = some e) :
    ∃ stored, objs.get? (S.absolute (.claim shard jobId g)) = some stored ∧ stored.storeTimeNs = e.timeNs := by
  unfold claimAt at h
  split at h
  · cases h
  · next stored hget =>
      split at h
      · cases h
        exact ⟨stored, hget, rfl⟩
      · cases h

lemma claimAt_congr (h : objs'.get? (S.absolute (.claim shard jobId g)) =
    objs.get? (S.absolute (.claim shard jobId g))) :
    claimAt S objs' shard jobId g = claimAt S objs shard jobId g := by
  unfold claimAt
  rw [h]

/-- The claims of a job are those of a chain: generation `k + 1` is entry `k`. -/
structure Represents (S : Site) (objs : Objects) (shard : UInt16) (jobId : ByteArr 16)
    (c : Chain) : Prop where
  length : c.entries.length < 2 ^ 32
  claim : ∀ g : UInt32, claimAt S objs shard jobId g =
    if g = 0 then none else c.entries[g.toNat - 1]?

/-- A claim stays within the attempts of its job and, in time, after its delay. -/
def Allowed (S : Site) (timed : Prop) (objs : Objects) (shard : UInt16) (jobId : ByteArr 16)
    (e : Entry) : Prop :=
  ∃ job, jobAt S objs shard jobId = some job ∧ e.record.attempt ≤ job.maximumAttempts ∧
    (timed → e.record.continuation = false → job.notBeforeNs.getD 0 ≤ e.timeNs)

/-- The claims plane holds custody chains and nothing else.  `timed` adds what holds when
the store's clock can be relied on. -/
structure Kept (S : Site) (timed : Prop) (objs : Objects) : Prop where
  claims : ∀ key stored, objs.get? key = some stored → S.plane key = some claimsSeg →
    ∃ shard jobId g, key = S.absolute (.claim shard jobId g) ∧ ∃ e, claimAt S objs shard jobId g = some e
  chains : ∀ shard jobId, ∃ c : Chain, Represents S objs shard jobId c ∧ (timed → c.Timed) ∧
    ∀ e ∈ c.entries, Allowed S timed objs shard jobId e
  evidence : ∀ shard jobId g p e, claimAt S objs shard jobId g = some p →
    claimAt S objs shard jobId (g + 1) = some e → p.Supports e.record

lemma Allowed.extends (h : Allowed S timed objs shard jobId e) (hext : Extends S objs objs') :
    Allowed S timed objs' shard jobId e := by
  obtain ⟨job, hjob, hrest⟩ := h
  exact ⟨job, hext.jobAt hjob, hrest⟩

lemma Kept.of_vacant (h : ∀ key, S.plane key = some claimsSeg → objs.get? key = none) : Kept S timed objs where
  claims key stored hget hplane := by
    rw [h key hplane] at hget
    cases hget
  chains shard jobId := by
    refine ⟨Chain.empty, ⟨by simp [Chain.empty], fun g => ?_⟩, fun _ => List.isChain_nil,
      by simp [Chain.empty]⟩
    simp [claimAt, h _ (plane_absolute S (.claim shard jobId g)), Chain.empty]
  evidence shard jobId g p e hp := by
    simp [claimAt, h _ (plane_absolute S (.claim shard jobId g))] at hp

/-- Changes that keep the claims plane and extend the others. -/
lemma Kept.of_same_claims (h : Kept S timed objs) (hext : Extends S objs objs')
    (hsame : ∀ key, S.plane key = some claimsSeg → objs'.get? key = objs.get? key) :
    Kept S timed objs' where
  claims key stored hget hplane := by
    rw [hsame key hplane] at hget
    obtain ⟨shard, jobId, g, hkey, e, he⟩ := h.claims key stored hget hplane
    exact ⟨shard, jobId, g, hkey, e, hext.claimAt he⟩
  chains shard jobId := by
    obtain ⟨c, hrep, htimed, hallowed⟩ := h.chains shard jobId
    refine ⟨c, ⟨hrep.length, fun g => ?_⟩, htimed, fun e he => (hallowed e he).extends hext⟩
    rw [claimAt_congr (hsame _ (plane_absolute S _)), hrep.claim g]
  evidence shard jobId g p e hp he := by
    rw [claimAt_congr (hsame _ (plane_absolute S _))] at hp he
    exact h.evidence shard jobId g p e hp he

/-- What a claim record must be to be put at generation `g + 1`: it links to the claim at
`g`, and takeovers respect the floor. -/
structure Due (S : Site) (objs : Objects) (shard : UInt16) (jobId : ByteArr 16) (g : UInt32)
    (r : ClaimRecord) (floorNs : UInt64) : Prop where
  room : g.toNat + 1 < 2 ^ 32
  generation : r.generation.toNat = g.toNat + 1
  wellFormed : r.WellFormed
  job : ∃ job, jobAt S objs shard jobId = some job ∧ r.attempt ≤ job.maximumAttempts ∧
    (r.continuation = false → job.notBeforeNs.getD 0 ≤ floorNs)
  prev : (g = 0 ∧ Opens r) ∨ ∃ p, claimAt S objs shard jobId g = some p ∧ Follows p.record r ∧
    (r.continuation = false → satAdd p.timeNs p.record.leaseDurationNs ≤ floorNs) ∧
    p.Supports r

lemma Due.extends (h : Due S objs shard jobId g r floorNs) (hext : Extends S objs objs') :
    Due S objs' shard jobId g r floorNs where
  room := h.room
  generation := h.generation
  wellFormed := h.wellFormed
  job := by
    obtain ⟨job, hjob, hrest⟩ := h.job
    exact ⟨job, hext.jobAt hjob, hrest⟩
  prev := by
    rcases h.prev with hopen | ⟨p, hp, hrest⟩
    · exact .inl hopen
    · exact .inr ⟨p, hext.claimAt hp, hrest⟩

lemma Due.next_toNat (h : Due S objs shard jobId g r floorNs) : (g + 1).toNat = g.toNat + 1 := by
  have hroom := h.room
  rw [UInt32.toNat_add]
  exact Nat.mod_eq_of_lt hroom

lemma Due.next_ne_zero (h : Due S objs shard jobId g r floorNs) : g + 1 ≠ 0 := by
  intro hzero
  have hnat := h.next_toNat
  rw [hzero] at hnat
  simp at hnat

/-- If the next generation is absent, `g` is the last one. -/
lemma Due.length_eq (h : Due S objs shard jobId g r floorNs) (hrep : Represents S objs shard jobId c)
    (habsent : claimAt S objs shard jobId (g + 1) = none) : c.entries.length = g.toNat := by
  have hle : c.entries.length ≤ g.toNat := by
    have hnext := hrep.claim (g + 1)
    rw [habsent, if_neg h.next_ne_zero, h.next_toNat, Nat.add_sub_cancel] at hnext
    exact List.getElem?_eq_none_iff.mp hnext.symm
  rcases h.prev with ⟨rfl, -⟩ | ⟨p, hp, -⟩
  · simpa using hle
  · have hcur := hrep.claim g
    rw [hp] at hcur
    split at hcur
    · cases hcur
    · obtain ⟨hlt, -⟩ := List.getElem?_eq_some_iff.mp hcur.symm
      omega

lemma Due.last (h : Due S objs shard jobId g r floorNs) (hrep : Represents S objs shard jobId c)
    (habsent : claimAt S objs shard jobId (g + 1) = none) (hp : p ∈ c.entries.getLast?) :
    claimAt S objs shard jobId g = some p := by
  have hlen := h.length_eq hrep habsent
  rw [List.getLast?_eq_getElem?] at hp
  have hne : g ≠ 0 := by
    rintro rfl
    simp only [UInt32.toNat_zero, List.length_eq_zero_iff] at hlen
    simp [hlen] at hp
  rw [hrep.claim g, if_neg hne, ← hlen]
  exact hp

lemma Due.admits (h : Due S objs shard jobId g r floorNs) (hrep : Represents S objs shard jobId c)
    (habsent : claimAt S objs shard jobId (g + 1) = none) : c.Admits ⟨r, t⟩ where
  generation := by rw [h.length_eq hrep habsent]; exact h.generation
  first hnil := by
    have hlen := h.length_eq hrep habsent
    rcases h.prev with ⟨-, hopen⟩ | ⟨p, hp, -⟩
    · exact hopen
    · rw [hnil, List.length_nil] at hlen
      have hzero : g = 0 := UInt32.toNat_inj.mp hlen.symm
      rw [hrep.claim g, if_pos hzero] at hp
      cases hp
  linked p hp := by
    have hlast := h.last hrep habsent hp
    rcases h.prev with ⟨rfl, -⟩ | ⟨p', hp', hlink, -⟩
    · rw [hrep.claim 0, if_pos rfl] at hlast
      cases hlast
    · rw [hp'] at hlast
      cases hlast
      exact hlink

/-- The grown chain is what the store holds after the create. -/
lemma Represents.append (hrep : Represents S objs shard jobId c) (h : Due S objs shard jobId g r floorNs)
    (habsent : claimAt S objs shard jobId (g + 1) = none)
    (hnew : claimAt S objs' shard jobId (g + 1) = some ⟨r, t⟩)
    (hold : ∀ g', g' ≠ g + 1 → claimAt S objs' shard jobId g' = claimAt S objs shard jobId g') :
    Represents S objs' shard jobId (c.append ⟨r, t⟩ (h.admits hrep habsent)) where
  length := by
    have hlen := h.length_eq hrep habsent
    have hroom := h.room
    simp only [Chain.append, List.length_append, List.length_singleton]
    omega
  claim g' := by
    have hlen := h.length_eq hrep habsent
    have hnext := h.next_toNat
    show _ = if g' = 0 then none else (c.entries ++ [⟨r, t⟩])[g'.toNat - 1]?
    by_cases hg : g' = g + 1
    · rw [hg, hnew, if_neg h.next_ne_zero, hnext, Nat.add_sub_cancel, ← hlen,
        List.getElem?_append_right (Nat.le_refl _), Nat.sub_self]
      rfl
    · rw [hold g' hg, hrep.claim g']
      by_cases hzero : g' = 0
      · rw [if_pos hzero, if_pos hzero]
      · rw [if_neg hzero, if_neg hzero]
        have hne : g'.toNat ≠ g.toNat + 1 := fun heq =>
          hg (UInt32.toNat_inj.mp (heq.trans hnext.symm))
        have hpos : g'.toNat ≠ 0 := fun heq => hzero (UInt32.toNat_inj.mp heq)
        rw [List.getElem?_append]
        split
        · rfl
        · rw [List.getElem?_eq_none (by omega), List.getElem?_eq_none (by
            simp only [List.length_singleton]
            omega)]

lemma Due.timely (h : Due S objs shard jobId g r floorNs) (hrep : Represents S objs shard jobId c)
    (habsent : claimAt S objs shard jobId (g + 1) = none) (hfloor : r.continuation = false → floorNs ≤ t)
    (hprev : ∀ p, claimAt S objs shard jobId g = some p → p.timeNs ≤ t) (hp : p ∈ c.entries.getLast?) :
    p.Timely ⟨r, t⟩ := by
  have hlast := h.last hrep habsent hp
  unfold Entry.Timely
  split
  · exact hprev p hlast
  · next hcont =>
      have hto : r.continuation = false := by simpa using hcont
      rcases h.prev with ⟨rfl, -⟩ | ⟨p', hp', -, hend, -⟩
      · rw [hrep.claim 0, if_pos rfl] at hlast
        cases hlast
      · rw [hp'] at hlast
        cases hlast
        exact UInt64.le_trans (hend hto) (hfloor hto)

/-- The new claim supports the last one, and there is none above it. -/
lemma Due.supports {g' : UInt32} (h : Due S objs shard jobId g r floorNs)
    (hrep : Represents S objs shard jobId c) (habsent : claimAt S objs shard jobId (g + 1) = none)
    (hold : ∀ g', g' ≠ g + 1 → claimAt S objs' shard jobId g' = claimAt S objs shard jobId g')
    (hnew : claimAt S objs' shard jobId (g + 1) = some ⟨r, t⟩)
    (hevidence : ∀ g p e, claimAt S objs shard jobId g = some p →
      claimAt S objs shard jobId (g + 1) = some e → p.Supports e.record)
    (hp : claimAt S objs' shard jobId g' = some p) (he : claimAt S objs' shard jobId (g' + 1) = some e) :
    p.Supports e.record := by
  by_cases hg : g' = g
  · subst hg
    rw [hnew] at he
    cases he
    rw [hold g' (by simp)] at hp
    rcases h.prev with ⟨rfl, -⟩ | ⟨p', hp', -, -, hsupports⟩
    · rw [hrep.claim 0, if_pos rfl] at hp
      cases hp
    · rw [hp'] at hp
      cases hp
      exact hsupports
  · rw [hold (g' + 1) (by simpa using hg)] at he
    by_cases hnext : g' = g + 1
    · -- nothing stands above the new claim
      subst hnext
      have hlen := h.length_eq hrep habsent
      have htwo := hrep.claim (g + 1 + 1)
      rw [he] at htwo
      split at htwo
      · cases htwo
      · next hzero =>
          obtain ⟨hlt, -⟩ := List.getElem?_eq_some_iff.mp htwo.symm
          have hone := h.next_toNat
          have hpos : (g + 1 + 1).toNat ≠ 0 := fun heq => hzero (UInt32.toNat_inj.mp heq)
          rw [UInt32.toNat_add, hone] at hlt hpos
          have hunit : (1 : UInt32).toNat = 1 := rfl
          have hroom := h.room
          omega
    · rw [hold g' hnext] at hp
      exact hevidence g' p e hp he

/-- **A due create extends the chain of its job.** -/
theorem Kept.put_claim {v : Version} (hk : Kept S timed objs) (hd : Due S objs shard jobId g r floorNs)
    (habsent : objs.get? (S.absolute (.claim shard jobId (g + 1))) = none)
    (htime : timed → (r.continuation = false → floorNs ≤ t) ∧
      ∀ p, claimAt S objs shard jobId g = some p → p.timeNs ≤ t) :
    Kept S timed (objs.insert (S.absolute (.claim shard jobId (g + 1)))
      ⟨S.encodeAt (.claim shard jobId (g + 1)) (.claim r), v, t⟩) := by
  generalize hobjs' : objs.insert (S.absolute (.claim shard jobId (g + 1))) _ = objs'
  have hext : Extends S objs objs' := hobjs' ▸ Extends.insert habsent
  have hnew : claimAt S objs' shard jobId (g + 1) = some ⟨r, t⟩ := by
    subst hobjs'
    exact claimAt_of_get? hd.wellFormed (OrderedMap.get?_insert_self _ _ _) rfl
  have hold : ∀ s j g', (s, j, g') ≠ (shard, jobId, g + 1) → claimAt S objs' s j g' = claimAt S objs s j g' := by
    intro s j g' hne
    apply claimAt_congr
    subst hobjs'
    apply OrderedMap.get?_insert_of_ne
    simpa using hne
  have habsent' : claimAt S objs shard jobId (g + 1) = none := by simp [claimAt, habsent]
  constructor
  -- nothing but claims stands in the plane
  · intro key stored hget hplane
    by_cases hkey : key = S.absolute (.claim shard jobId (g + 1))
    · exact ⟨shard, jobId, g + 1, hkey, _, hnew⟩
    · have hget' : objs.get? key = some stored := by
        rw [← hget, ← hobjs', OrderedMap.get?_insert_of_ne _ _ hkey]
      obtain ⟨s, j, g', hkey', e, he⟩ := hk.claims key stored hget' hplane
      exact ⟨s, j, g', hkey', e, hext.claimAt he⟩
  -- the chain of this job grows by one link, the others are as before
  · intro s j
    obtain ⟨c, hrep, htimed, hallowed⟩ := hk.chains s j
    by_cases hsj : s = shard ∧ j = jobId
    · obtain ⟨rfl, rfl⟩ := hsj
      refine ⟨c.append ⟨r, t⟩ (hd.admits hrep habsent'),
        hrep.append hd habsent' hnew fun g' hg' => hold s j g' (by simpa using hg'),
        fun ht => ?_, fun e he => ?_⟩
      · exact Chain.timed_append _ (htimed ht) fun p hp =>
          hd.timely hrep habsent' (htime ht).1 (htime ht).2 hp
      · rcases List.mem_append.mp he with he | he
        · exact (hallowed e he).extends hext
        · obtain rfl := List.mem_singleton.mp he
          obtain ⟨job, hjob, hmax, hnb⟩ := hd.job
          exact ⟨job, hext.jobAt hjob, hmax, fun ht hto =>
            UInt64.le_trans (hnb hto) ((htime ht).1 hto)⟩
    · refine ⟨c, ⟨hrep.length, fun g' => ?_⟩, htimed, fun e he => (hallowed e he).extends hext⟩
      rw [hold s j g' (fun heq => hsj ⟨congrArg Prod.fst heq, congrArg (fun x => x.2.1) heq⟩), hrep.claim g']
  -- the evidence of every link
  · intro s j g' p e hp he
    by_cases hsj : s = shard ∧ j = jobId
    · obtain ⟨rfl, rfl⟩ := hsj
      obtain ⟨c, hrep, -, -⟩ := hk.chains s j
      exact hd.supports hrep habsent' (fun g' hg' => hold s j g' (by simpa using hg')) hnew
        (hk.evidence s j) hp he
    · have hne : ∀ g', (s, j, g') ≠ (shard, jobId, g + 1) := fun g' heq =>
        hsj ⟨congrArg Prod.fst heq, congrArg (fun x => x.2.1) heq⟩
      rw [hold s j _ (hne _)] at hp he
      exact hk.evidence s j g' p e hp he

end Kept

end Custody
end StowQ
