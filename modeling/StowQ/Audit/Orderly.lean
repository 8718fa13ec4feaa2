import StowQ.Core.Clearing
import StowQ.Core.Repair
import StowQ.Custody.State
import StowQ.Growing

/-!
# Orderly stores

What an audit finds nothing wrong with: every key of the audited planes parses, every job
record and claim record decodes, detached payloads are there, and the claims of every job
form a chain from generation 1 on, each claim with evidence for the one before it.

A scan learns the chains from a listing that may have been read while the store was growing.
What such a listing still guarantees (`Traced`) is enough for the audit of a chain.
-/

namespace StowQ
namespace Audit

open Data StowQ.Core Store Format Custody Keys

variable {S : Site} {jobId : ByteArr 16} {g : UInt32} {shard : UInt16} {objs : Objects} {e : Entry}

/-- The planes an audit reads. -/
def audited : List Str :=
  [jobsSeg, payloadsSeg, claimsSeg, receiptsSeg, deadSeg]

/-- The keys an audit reads. -/
def steady (S : Site) : Set Str := {key | ∃ plane ∈ audited, S.plane key = some plane}

lemma absolute_mem_steady {k : Key} : S.absolute k ∈ steady S ↔ planeOf k ∈ audited := by
  constructor
  · rintro ⟨plane, hmem, hplane⟩
    rw [plane_absolute] at hplane
    exact Option.some.inj hplane ▸ hmem
  · exact fun h => ⟨_, h, plane_absolute S k⟩

section Orderly

variable [Sha256]

/-- The evidence of a claim is what an audit accepts. -/
def Admits (p e : Entry) : Prop :=
  ∀ info : Meta, info.storeTimeNs = p.timeNs → admissible info p.record e.record = true

/-- A store that an audit finds nothing wrong with, but for jobs that ended twice. -/
structure Orderly (S : Site) (objs : Objects) : Prop where
  jobs : ∀ key stored, objs.get? key = some stored → S.plane key = some jobsSeg →
    ∃ shard jobId job, key = S.absolute (.job shard jobId) ∧
      S.decodeAt (.job shard jobId) stored.body = .ok (.job job) ∧
      ∀ rel, job.payloadKey = some rel → ∃ digest payload, rel = (Key.payload jobId digest).fmt ∧
          objs.get? (S.absolute (.payload jobId digest)) = some payload
  claims : ∀ key stored, objs.get? key = some stored → S.plane key = some claimsSeg →
    ∃ shard jobId g e, key = S.absolute (.claim shard jobId g) ∧ claimAt S objs shard jobId g = some e
  owned : ∀ shard jobId g e, claimAt S objs shard jobId g = some e →
    objs.get? (S.absolute (.job shard jobId)) ≠ none
  chained : ∀ shard jobId g e, claimAt S objs shard jobId g = some e →
    g ≠ 0 ∧ (g = 1 ∨ ∃ p, claimAt S objs shard jobId (g - 1) = some p)
  supported : ∀ shard jobId g p e, claimAt S objs shard jobId g = some p →
    claimAt S objs shard jobId (g + 1) = some e → Admits p e
  receipts : ∀ key stored, objs.get? key = some stored → S.plane key = some receiptsSeg →
    ∃ shard jobId, key = S.absolute (.receipt shard jobId)
  dead : ∀ key stored, objs.get? key = some stored → S.plane key = some deadSeg →
    ∃ shard jobId, key = S.absolute (.dead shard jobId)

/-- The objects of the audited planes are the same. -/
def Same (S : Site) (objs objs' : Objects) : Prop :=
  ∀ key ∈ steady S, objs'.get? key = objs.get? key

/-- Nothing is lost from the audited planes. -/
def Grown (S : Site) (objs objs' : Objects) : Prop :=
  ∀ key ∈ steady S, ∀ stored, objs.get? key = some stored → objs'.get? key = some stored

omit [Sha256] in
lemma Same.grown {objs' : Objects} (h : Same S objs objs') : Grown S objs objs' :=
  fun key hkey _ hget => (h key hkey).trans hget

omit [Sha256] in
lemma Grown.trans {a b c : Objects} (h : Grown S a b) (h' : Grown S b c) : Grown S a c :=
  fun key hkey stored hget => h' key hkey stored (h key hkey stored hget)

variable {S : Site} {objs objs' : Objects} {shard : UInt16} {jobId : ByteArr 16}

lemma Same.claimAt_eq (h : Same S objs objs') (g : UInt32) :
    claimAt S objs' shard jobId g = claimAt S objs shard jobId g :=
  claimAt_congr (h _ (absolute_mem_steady.mpr (by simp [planeOf, audited])))

/-- An orderly store stays so if the audited planes stay. -/
lemma Orderly.congr (h : Orderly S objs) (hsame : Same S objs objs') : Orderly S objs' := by
  have hget : ∀ {key seg : Str}, seg ∈ audited → S.plane key = some seg →
      objs'.get? key = objs.get? key := fun hseg hplane => hsame _ ⟨_, hseg, hplane⟩
  have hown : ∀ {k : Key}, planeOf k ∈ audited → objs'.get? (S.absolute k) = objs.get? (S.absolute k) :=
    fun hk => hget hk (plane_absolute S _)
  constructor
  · intro key stored hstored hplane
    rw [hget (by simp [audited]) hplane] at hstored
    obtain ⟨shard, jobId, job, hkey, hdec, hpayload⟩ := h.jobs key stored hstored hplane
    refine ⟨shard, jobId, job, hkey, hdec, fun rel hrel => ?_⟩
    obtain ⟨digest, payload, hfmt, hthere⟩ := hpayload rel hrel
    refine ⟨digest, payload, hfmt, ?_⟩
    rw [hown (by simp [planeOf, audited])]
    exact hthere
  · intro key stored hstored hplane
    rw [hget (by simp [audited]) hplane] at hstored
    obtain ⟨shard, jobId, g, e, hkey, he⟩ := h.claims key stored hstored hplane
    exact ⟨shard, jobId, g, e, hkey, (hsame.claimAt_eq g).trans he⟩
  · intro shard jobId g e he
    rw [hown (by simp [planeOf, audited])]
    exact h.owned shard jobId g e ((hsame.claimAt_eq g).symm.trans he)
  · intro shard jobId g e he
    rw [hsame.claimAt_eq] at he
    obtain ⟨hne, hone | ⟨p, hp⟩⟩ := h.chained shard jobId g e he
    · exact ⟨hne, .inl hone⟩
    · exact ⟨hne, .inr ⟨p, (hsame.claimAt_eq _).trans hp⟩⟩
  · intro shard jobId g p e hp he
    rw [hsame.claimAt_eq] at hp he
    exact h.supported shard jobId g p e hp he
  · intro key stored hstored hplane
    rw [hget (by simp [audited]) hplane] at hstored
    exact h.receipts key stored hstored hplane
  · intro key stored hstored hplane
    rw [hget (by simp [audited]) hplane] at hstored
    exact h.dead key stored hstored hplane

/-- A claim that is still there was there before. -/
lemma claimAt_of_shrunk (h : Shrunk objs objs') (he : claimAt S objs' shard jobId g = some e) :
    claimAt S objs shard jobId g = some e := by
  obtain ⟨stored, hget, -⟩ := get?_of_claimAt he
  rw [← he]
  exact (claimAt_congr (hget.trans (h _ _ hget).symm)).symm

/-- What has to be known about a key so that an orderly store can do without it: no job refers
to it, no claim needs it as its job, and it is not a claim that another one follows. -/
structure Spare (S : Site) (objs : Objects) (key : Str) : Prop where
  payload : ∀ shard jobId stored job digest, objs.get? (S.absolute (.job shard jobId)) = some stored →
    S.decodeAt (.job shard jobId) stored.body = .ok (.job job) →
    job.payloadKey = some (Key.payload jobId digest).fmt → key ≠ S.absolute (.payload jobId digest)
  job : ∀ shard jobId g e, claimAt S objs shard jobId g = some e → key ≠ S.absolute (.job shard jobId)
  claim : ∀ shard jobId g e, key = S.absolute (.claim shard jobId g) →
    claimAt S objs shard jobId g = some e → claimAt S objs shard jobId (g + 1) = none

lemma Orderly.erase (h : Orderly S objs) {key : Str} (hspare : Spare S objs key) :
    Orderly S (objs.erase key) := by
  have hshrunk := Shrunk.erase objs key
  have hclaim : ∀ {shard jobId g e}, claimAt S (objs.erase key) shard jobId g = some e →
      claimAt S objs shard jobId g = some e := fun he => claimAt_of_shrunk hshrunk he
  constructor
  · intro key' stored hget hplane
    obtain ⟨shard, jobId, job, rfl, hdec, hpayload⟩ := h.jobs key' stored (hshrunk _ _ hget) hplane
    refine ⟨shard, jobId, job, rfl, hdec, fun rel hrel => ?_⟩
    obtain ⟨digest, payload, rfl, hthere⟩ := hpayload rel hrel
    refine ⟨digest, payload, rfl, ?_⟩
    rw [OrderedMap.get?_erase_of_ne _
      (Ne.symm (hspare.payload shard jobId stored job digest (hshrunk _ _ hget) hdec hrel))]
    exact hthere
  · intro key' stored hget hplane
    obtain ⟨shard, jobId, g, e, rfl, he⟩ := h.claims key' stored (hshrunk _ _ hget) hplane
    exact ⟨shard, jobId, g, e, rfl, by
      rw [← he]
      exact claimAt_congr (hget.trans (hshrunk _ _ hget).symm)⟩
  · intro shard jobId g e he
    rw [OrderedMap.get?_erase_of_ne _ (Ne.symm (hspare.job shard jobId g e (hclaim he)))]
    exact h.owned shard jobId g e (hclaim he)
  · intro shard jobId g e he
    obtain ⟨hne, hone | ⟨p, hp⟩⟩ := h.chained shard jobId g e (hclaim he)
    · exact ⟨hne, .inl hone⟩
    · refine ⟨hne, .inr ⟨p, ?_⟩⟩
      rw [← hp]
      refine claimAt_congr (OrderedMap.get?_erase_of_ne _ fun heq => ?_)
      have hnone := hspare.claim shard jobId (g - 1) p heq.symm hp
      rw [show g - 1 + 1 = g by simp, hclaim he] at hnone
      cases hnone
  · exact fun shard jobId g p e hp he => h.supported shard jobId g p e (hclaim hp) (hclaim he)
  · exact fun key' stored hget hplane => h.receipts key' stored (hshrunk _ _ hget) hplane
  · exact fun key' stored hget hplane => h.dead key' stored (hshrunk _ _ hget) hplane

/-- A key outside the planes of jobs, claims and payloads is spare. -/
lemma spare_of_plane {key seg : Str} (hplane : S.plane key = some seg)
    (hseg : seg ∉ [jobsSeg, claimsSeg, payloadsSeg]) : Spare S objs key := by
  have hne : ∀ k : Key, planeOf k ∈ [jobsSeg, claimsSeg, payloadsSeg] →
      key ≠ S.absolute k := fun k hk => ne_absolute_of_plane hplane fun heq => hseg (heq ▸ hk)
  exact ⟨fun _ _ _ _ _ _ _ _ => hne _ (by simp [planeOf]), fun _ _ _ _ _ => hne _ (by simp [planeOf]),
    fun _ _ _ _ heq => absurd heq (hne _ (by simp [planeOf]))⟩

end Orderly

/-! ## Shard directories -/

lemma slash_not_mem_shardDir (seg : Str) (hseg : '/' ∉ seg) (shard : UInt16) :
    ∀ s ∈ [seg, hex16 shard], '/' ∉ s := by
  have hx := slash_not_mem_hex
  simp [hseg, hex16, hx]

/-- The shard of a key in a shard directory. -/
lemma shard_of_dir {seg : Str} (hseg : '/' ∉ seg) {shard' : UInt16} {k : Key} {rest : List Str}
    (hk : k.segments = seg :: hex16 shard' :: rest) (h : S.dir [seg, hex16 shard] <+: S.absolute k) :
    shard' = shard := by
  obtain ⟨rest', hrest⟩ := S.segmentsOf_of_dir (slash_not_mem_shardDir seg hseg shard) h
  rw [Site.segmentsOf_absolute, hk] at hrest
  simp only [Option.some.injEq, List.cons_append, List.nil_append, List.cons.injEq, true_and] at hrest
  have hread := hexDecodeU16_hex16 shard'
  rw [hrest.1, hexDecodeU16_hex16] at hread
  exact (Option.some.inj hread).symm

lemma append_lt_append_of_lt {a b : Str} (hlen : a.length = b.length) (h : a < b) (s t : Str) :
    a ++ s < b ++ t := by
  induction a generalizing b with
  | nil =>
    obtain rfl : b = [] := List.length_eq_zero_iff.mp hlen.symm
    exact absurd h (lt_irrefl _)
  | cons x a ih =>
    cases b with
    | nil => cases hlen
    | cons y b =>
      rw [List.cons_append, List.cons_append, List.cons_lt_cons_iff]
      rcases List.cons_lt_cons_iff.mp h with hlt | ⟨rfl, hlt⟩
      · exact .inl hlt
      · exact .inr ⟨rfl, ih (Nat.succ.inj hlen) hlt⟩

/-- No claim of the shard sorts between two generations that follow each other. -/
lemma claim_le_of_lt_next {jobId' : ByteArr 16} {g' : UInt32} (hg : g + 1 ≠ 0)
    (h : S.absolute (.claim shard jobId' g') < S.absolute (.claim shard jobId (g + 1))) :
    S.absolute (.claim shard jobId' g') ≤ S.absolute (.claim shard jobId g) := by
  have hnext : (g + 1).toNat = g.toNat + 1 := by
    have hpos : (g + 1).toNat ≠ 0 := fun hzero => hg (UInt32.toNat_inj.mp hzero)
    rw [UInt32.toNat_add] at hpos ⊢
    have hone : (1 : UInt32).toNat = 1 := rfl
    have hlt := g.toNat_lt
    omega
  have hkey : ∀ (j : ByteArr 16) (g : UInt32), S.absolute (.claim shard j g) =
      (S.root ++ (claimsSeg ++ '/' :: (hex16 shard ++ ['/']))) ++ (hex j.toList ++ '/' :: hex32 g) := by
    intro j g
    simp [Site.absolute, Key.fmt]
  have hlen : ∀ j j' : ByteArr 16, (hex j.toList).length = (hex j'.toList).length := by
    intro j j'
    simp
  by_cases hjob : jobId' = jobId
  · subst hjob
    rcases Nat.lt_trichotomy g'.toNat g.toNat with hlt | heq | hlt
    · exact le_of_lt (S.claim_lt_claim (UInt32.lt_iff_toNat_lt.mpr hlt))
    · rw [UInt32.toNat_inj.mp heq]
    · rcases Nat.lt_or_eq_of_le (hnext ▸ hlt : (g + 1).toNat ≤ g'.toNat) with hlt' | heq
      · exact absurd h (lt_asymm (S.claim_lt_claim (UInt32.lt_iff_toNat_lt.mpr hlt')))
      · rw [UInt32.toNat_inj.mp heq] at h
        exact absurd h (lt_irrefl _)
  · have hne : hex jobId'.toList ≠ hex jobId.toList := fun heq =>
      hjob (List.Vector.eq _ _ (hex_injective heq))
    rcases lt_or_gt_of_ne hne with hlt | hlt
    · rw [hkey, hkey]
      exact le_of_lt (List.append_left_lt (append_lt_append_of_lt (hlen _ _) hlt _ _))
    · rw [hkey, hkey] at h
      exact absurd h (lt_asymm (List.append_left_lt (append_lt_append_of_lt (hlen _ _) hlt _ _)))

/-! ## Chains -/

/-- A claim key and the one of the generation after it. -/
def Next (S : Site) (key key' : Str) : Prop :=
  ∃ shard jobId g, g + 1 ≠ 0 ∧ g ≠ 0 ∧ key = S.absolute (.claim shard jobId g) ∧
    key' = S.absolute (.claim shard jobId (g + 1))

lemma eq_range_of_closed {l : List Nat} (hasc : l.Pairwise (· < ·))
    (hclosed : ∀ n ∈ l, n ≠ 0 ∧ (n = 1 ∨ n - 1 ∈ l)) : l = List.range' 1 l.length := by
  induction l using List.reverseRecOn with
  | nil => rfl
  | append_singleton l n ih =>
    rw [List.pairwise_append] at hasc
    obtain ⟨hl, -, hbelow⟩ := hasc
    have hlast : ∀ x ∈ l, x < n := fun x hx => hbelow x hx n (List.mem_singleton_self n)
    have hrange := ih hl fun x hx => by
      obtain ⟨hne, hone | hmem⟩ := hclosed x (List.mem_append_left _ hx)
      · exact ⟨hne, .inl hone⟩
      · refine ⟨hne, .inr ?_⟩
        rcases List.mem_append.mp hmem with hmem | hmem
        · exact hmem
        · obtain hx' := List.mem_singleton.mp hmem
          have := hlast x hx
          omega
    -- the last number follows the largest of the others
    have hn : n = l.length + 1 := by
      obtain ⟨hne, hcase⟩ := hclosed n (List.mem_append_right _ (List.mem_singleton_self n))
      have hle : n ≤ l.length + 1 := by
        rcases hcase with hone | hmem
        · omega
        · rcases List.mem_append.mp hmem with hmem | hmem
          · rw [hrange, List.mem_range'_1] at hmem
            omega
          · have := List.mem_singleton.mp hmem
            omega
      have hge : l.length < n := by
        rcases Nat.eq_zero_or_pos l.length with hzero | hpos
        · omega
        · have hmem : l.length ∈ List.range' 1 l.length := List.mem_range'_1.mpr ⟨hpos, by omega⟩
          rw [← hrange] at hmem
          exact hlast _ hmem
      omega
    rw [List.length_append, List.length_singleton, List.range'_concat, ← hrange, Nat.one_mul]
    congr 1
    rw [hn, Nat.add_comm]

section Links

variable [Sha256] (q : Queue)

/-- The claim that a listed key names. -/
def claimOf (x : Listing) : Option (ByteArr 16 × (UInt64 × Meta)) :=
  match q.parseRel x.key with
  | some (.claim _ jobId g) => some (jobId, (g.toUInt64, x.info))
  | _ => none

/-- The links of one job in a listing. -/
def linksOf (items : List Listing) (jobId : ByteArr 16) : Links :=
  items.filterMap fun x => (claimOf q x).bind fun c => if c.1 = jobId then some c.2 else none

/-- The chains of a listing. -/
def chainsOf (items : List Listing) : List (ByteArr 16 × Links) :=
  items.foldl (fun chains x => ((claimOf q x).map fun c => addLink chains c.1 c.2).getD chains) []

variable {q} {items : List Listing}

omit [Sha256] in
lemma chainsOf_concat (x : Listing) : chainsOf q (items ++ [x]) =
    ((claimOf q x).map fun c => addLink (chainsOf q items) c.1 c.2).getD (chainsOf q items) := by
  rw [chainsOf, List.foldl_append]
  rfl

omit [Sha256] in
lemma linksOf_concat (x : Listing) (jobId : ByteArr 16) : linksOf q (items ++ [x]) jobId =
    linksOf q items jobId ++ ((claimOf q x).bind fun c => if c.1 = jobId then some c.2 else none).toList := by
  rw [linksOf, List.filterMap_append]
  cases h : (claimOf q x).bind fun c => if c.1 = jobId then some c.2 else none <;>
    simp [linksOf, h]

omit [Sha256] in
/-- Each chain holds the links of its job, and each job that was listed has a chain. -/
lemma chainsOf_spec (items : List Listing) : (∀ c ∈ chainsOf q items, c.2 = linksOf q items c.1 ∧ c.2 ≠ []) ∧
      ∀ jobId, linksOf q items jobId ≠ [] → ∃ c ∈ chainsOf q items, c.1 = jobId := by
  induction items using List.reverseRecOn with
  | nil => exact ⟨nofun, fun _ h => absurd rfl h⟩
  | append_singleton items x ih =>
    obtain ⟨hlinks, hchains⟩ := ih
    rw [chainsOf_concat]
    simp only [linksOf_concat]
    cases claimOf q x with
    | none =>
      simp only [Option.map_none, Option.getD_none, Option.bind_none, Option.toList_none, List.append_nil]
      exact ⟨hlinks, hchains⟩
    | some c =>
      obtain ⟨jobId, link⟩ := c
      simp only [Option.map_some, Option.getD_some, Option.bind_some]
      unfold addLink
      split
      -- a chain of the job is already there, and the link is added to it
      · next hany =>
          obtain ⟨c0, hc0, heq⟩ := List.any_eq_true.mp hany
          refine ⟨fun c hc => ?_, fun j hj => ?_⟩
          · obtain ⟨c', hc', rfl⟩ := List.mem_map.mp hc
            by_cases hjob : c'.1 = jobId
            · simp [hjob, (hlinks c' hc').1]
            · simpa [hjob, Ne.symm hjob] using hlinks c' hc'
          · by_cases hjob : jobId = j
            · exact ⟨_, List.mem_map_of_mem hc0, by simp_all⟩
            · obtain ⟨c', hc', rfl⟩ := hchains j (by simpa [hjob] using hj)
              exact ⟨_, List.mem_map_of_mem hc', by simp [Ne.symm hjob]⟩
      · next hnone =>
          -- no chain yet, so that no earlier claim of the job was listed
          have hnil : linksOf q items jobId = [] := by
            by_contra hne
            obtain ⟨c', hc', hjob⟩ := hchains jobId hne
            exact hnone (List.any_eq_true.mpr ⟨c', hc', by simpa using hjob⟩)
          refine ⟨fun c hc => ?_, fun j hj => ?_⟩
          · rcases List.mem_append.mp hc with hc | hc
            · have hjob : jobId ≠ c.1 := fun heq =>
                hnone (List.any_eq_true.mpr ⟨c, hc, by simpa using heq.symm⟩)
              simpa [hjob] using hlinks c hc
            · obtain rfl := List.mem_singleton.mp hc
              simp [hnil]
          · by_cases hjob : jobId = j
            · exact ⟨_, List.mem_append_right _ (List.mem_singleton_self _), hjob⟩
            · obtain ⟨c', hc', heq⟩ := hchains j (by simpa [hjob] using hj)
              exact ⟨c', List.mem_append_left _ hc', heq⟩

omit [Sha256] in
lemma mem_linksOf {link : UInt64 × Meta} : link ∈ linksOf q items jobId ↔
    ∃ x ∈ items, ∃ shard g, x.key = q.absolute (.claim shard jobId g) ∧ link = (g.toUInt64, x.info) := by
  simp only [linksOf, List.mem_filterMap, claimOf]
  constructor
  · rintro ⟨x, hx, hlink⟩
    split at hlink
    · next shard jobId' g hparse =>
        simp only [Option.bind_some, Option.ite_none_right_eq_some, Option.some.injEq] at hlink
        obtain ⟨rfl, rfl⟩ := hlink
        exact ⟨x, hx, shard, g, (Queue.absolute_of_parseRel hparse).symm, rfl⟩
    · cases hlink
  · rintro ⟨x, hx, shard, g, hkey, rfl⟩
    refine ⟨x, hx, ?_⟩
    rw [hkey, Queue.parseRel_absolute]
    simp

/-- The listed claims of a job: generations from 1 on, each with the time and the record that
the store has for it. -/
structure Linked (S : Site) (objs : Objects) (shard : UInt16) (jobId : ByteArr 16) (links : Links) :
    Prop where
  nonempty : links ≠ []
  generations : links.map (fun l => l.1.toNat) = List.range' 1 links.length
  claims : ∀ l ∈ links, l.1.toUInt32.toUInt64 = l.1 ∧ ∃ e,
    claimAt S objs shard jobId l.1.toUInt32 = some e ∧ l.2.storeTimeNs = e.timeNs

lemma decode_of_claimAt (h : claimAt S objs shard jobId g = some e) :
    ∃ stored, objs.get? (S.absolute (.claim shard jobId g)) = some stored ∧
      S.decodeAt (.claim shard jobId g) stored.body = .ok (.claim e.record) := by
  unfold claimAt at h
  split at h
  · cases h
  · next stored hget =>
      split at h
      · next r hdec =>
          cases h
          exact ⟨stored, hget, hdec⟩
      · cases h

lemma time_of_claimAt {stored : Stored} (he : claimAt S objs shard jobId g = some e)
    (hget : objs.get? (S.absolute (.claim shard jobId g)) = some stored) : stored.storeTimeNs = e.timeNs := by
  obtain ⟨stored', hget', htime⟩ := get?_of_claimAt he
  rw [hget] at hget'
  cases hget'
  exact htime

variable {objs0 objs : Objects} {shard : UInt16}

/-- A listed claim is a claim of the shard. -/
lemma claim_of_traced (horder : Orderly q.site objs)
    (htraced : Traced (q.shardDir claimsSeg shard) (Next q.site) objs0 objs items) {x : Listing}
    (hx : x ∈ items) : ∃ jobId g e, x.key = q.absolute (.claim shard jobId g) ∧
      claimAt q.site objs shard jobId g = some e ∧ x.info.storeTimeNs = e.timeNs := by
  obtain ⟨hpre, stored, hget, hinfo⟩ := htraced.present x hx
  have hplane := q.site.plane_of_dir (slash_not_mem_shardDir claimsSeg (by decide) shard) hpre
  obtain ⟨shard', jobId, g, e, hkey, he⟩ := horder.claims x.key stored hget hplane
  rw [hkey] at hpre hget
  obtain rfl := shard_of_dir (by decide) rfl hpre
  refine ⟨jobId, g, e, hkey, he, ?_⟩
  rw [hinfo]
  exact time_of_claimAt he hget

/-- **A traced listing shows chains without gaps.** -/
theorem linked_of_traced (horder : Orderly q.site objs)
    (htraced : Traced (q.shardDir claimsSeg shard) (Next q.site) objs0 objs items)
    (hne : linksOf q items jobId ≠ []) : Linked q.site objs shard jobId (linksOf q items jobId) where
  nonempty := hne
  claims l hl := by
    obtain ⟨x, hx, shard', g, hkey, rfl⟩ := mem_linksOf.mp hl
    obtain ⟨jobId', g', e, hkey', he, htime⟩ := claim_of_traced horder htraced hx
    rw [hkey] at hkey'
    cases q.site.absolute_inj.mp hkey'
    exact ⟨by simp, e, by simpa using he, htime⟩
  generations := by
    -- keys of one job sort by generation
    have hlt : ∀ x ∈ items, ∀ y ∈ items, x.key < y.key → ∀ s s' g g',
        x.key = q.absolute (.claim s jobId g) → y.key = q.absolute (.claim s' jobId g') → g < g' := by
      intro x hx y hy hxy s s' g g' hkey hkey'
      obtain ⟨jobId1, g1, e1, hx', -⟩ := claim_of_traced horder htraced hx
      obtain ⟨jobId2, g2, e2, hy', -⟩ := claim_of_traced horder htraced hy
      cases q.site.absolute_inj.mp (hkey.symm.trans hx')
      cases q.site.absolute_inj.mp (hkey'.symm.trans hy')
      rw [hx', hy'] at hxy
      rcases Nat.lt_trichotomy g.toNat g'.toNat with hlt | heq | hlt
      · exact UInt32.lt_iff_toNat_lt.mpr hlt
      · rw [UInt32.toNat_inj.mp heq] at hxy
        exact absurd hxy (lt_irrefl _)
      · exact absurd hxy (lt_asymm (q.site.claim_lt_claim (UInt32.lt_iff_toNat_lt.mpr hlt)))
    have hasc : ((linksOf q items jobId).map fun l => l.1.toNat).Pairwise (· < ·) := by
      rw [List.pairwise_map]
      refine List.Pairwise.filterMap _ (fun x y hxy l hl l' hl' => ?_)
        (List.Pairwise.and_mem.mp htraced.ascending)
      obtain ⟨hx, hy, hkeys⟩ := hxy
      have hl1 : l ∈ linksOf q [x] jobId := by simpa [linksOf] using hl
      have hl2 : l' ∈ linksOf q [y] jobId := by simpa [linksOf] using hl'
      obtain ⟨x', hx', s, g, hkey, rfl⟩ := mem_linksOf.mp hl1
      obtain ⟨y', hy', s', g', hkey', rfl⟩ := mem_linksOf.mp hl2
      obtain rfl := List.mem_singleton.mp hx'
      obtain rfl := List.mem_singleton.mp hy'
      simpa using UInt32.lt_iff_toNat_lt.mp (hlt _ hx _ hy hkeys s s' g g' hkey hkey')
    have hrange := eq_range_of_closed hasc fun n hn => ?_
    · rwa [List.length_map] at hrange
    obtain ⟨l, hl, rfl⟩ := List.mem_map.mp hn
    obtain ⟨x, hx, s, g, hkey, rfl⟩ := mem_linksOf.mp hl
    obtain ⟨jobId', g', e, hkey', he, -⟩ := claim_of_traced horder htraced hx
    cases q.site.absolute_inj.mp (hkey.symm.trans hkey')
    obtain ⟨hzero, hcase⟩ := horder.chained shard jobId g e he
    have hpos : g.toNat ≠ 0 := fun h => hzero (UInt32.toNat_inj.mp h)
    refine ⟨by simpa using hpos, ?_⟩
    by_cases hone : g = 1
    · exact .inl (by simp [hone])
    · -- the generation before it is listed as well
      have hpred : (g - 1).toNat = g.toNat - 1 := by
        rw [UInt32.toNat_sub_of_le]
        · rfl
        · rw [UInt32.le_iff_toNat_le]
          exact Nat.one_le_iff_ne_zero.mpr hpos
      have hback : g - 1 + 1 = g := by simp
      have hne1 : g.toNat ≠ 1 := fun h => hone (UInt32.toNat_inj.mp h)
      have hnext : Next q.site (q.absolute (.claim shard jobId (g - 1))) x.key := by
        refine ⟨shard, jobId, g - 1, by rwa [hback], fun h => ?_, rfl, by rw [hback]; exact hkey⟩
        rw [h] at hpred
        have hnone : (0 : UInt32).toNat = 0 := rfl
        omega
      obtain ⟨y, hy, hykey⟩ := htraced.closed x hx _ hnext
      refine .inr (List.mem_map.mpr ⟨_, mem_linksOf.mpr ⟨y, hy, shard, g - 1, hykey, rfl⟩, ?_⟩)
      rw [UInt32.toNat_toUInt64, UInt32.toNat_toUInt64]
      exact hpred

/-! What an audit asks of the links. -/

namespace Linked

variable {S : Site} {jobId : ByteArr 16} {links : Links}

lemma getElem_toNat (h : Linked S objs shard jobId links) {i : Nat} (hi : i < links.length) :
    (links[i].1).toNat = i + 1 := by
  have hget : (links.map fun l => l.1.toNat)[i]? = (List.range' 1 links.length)[i]? := by
    rw [h.generations]
  rw [List.getElem?_map, List.getElem?_eq_getElem hi, List.getElem?_range' hi] at hget
  have heq : links[i].1.toNat = 1 + 1 * i := Option.some.inj hget
  omega

lemma consecutive (h : Linked S objs shard jobId links) {pair : (UInt64 × Meta) × (UInt64 × Meta)}
    (hpair : pair ∈ links.zip links.tail) : pair.2.1 = pair.1.1 + 1 := by
  obtain ⟨i, hi, rfl⟩ := List.getElem_of_mem hpair
  rw [List.length_zip, List.length_tail] at hi
  have hfirst := h.getElem_toNat (i := i) (by omega)
  have hsecond := h.getElem_toNat (i := i + 1) (by omega)
  have hsmall : links[i].1.toNat < 2 ^ 32 := by
    rw [← (h.claims _ (List.getElem_mem (by omega))).1, UInt32.toNat_toUInt64]
    exact UInt32.toNat_lt _
  apply UInt64.toNat_inj.mp
  rw [List.getElem_zip, List.getElem_tail]
  show links[i + 1].1.toNat = (links[i].1 + 1).toNat
  rw [UInt64.toNat_add]
  have hunit : (1 : UInt64).toNat = 1 := rfl
  omega

lemma first (h : Linked S objs shard jobId links) (fallback : UInt64 × Meta) : (links.headD fallback).1 = 1 := by
  have hpos : 0 < links.length := List.length_pos_of_ne_nil h.nonempty
  have hfirst := h.getElem_toNat hpos
  apply UInt64.toNat_inj.mp
  rw [List.headD_eq_head?_getD, List.head?_eq_getElem?, List.getElem?_eq_getElem hpos]
  exact hfirst

lemma mergeSort (h : Linked S objs shard jobId links) : (links.mergeSort fun a b => a.1 ≤ b.1) = links := by
  refine List.mergeSort_of_pairwise (List.pairwise_iff_getElem.mpr fun i j hi hj hij => ?_)
  have hfirst := h.getElem_toNat hi
  have hsecond := h.getElem_toNat hj
  simp only [decide_eq_true_eq, UInt64.le_iff_toNat_le]
  omega

/-- The record of a listed claim. -/
def recordOf (S : Site) (objs : Objects) (shard : UInt16) (jobId : ByteArr 16) (l : UInt64 × Meta) :
    Option ClaimRecord :=
  (claimAt S objs shard jobId l.1.toUInt32).map Entry.record

/-- Each claim has evidence for the one before it. -/
lemma evidence (h : Linked S objs shard jobId links) (horder : Orderly S objs)
    {pair : ((UInt64 × Meta) × Option ClaimRecord) × ((UInt64 × Meta) × Option ClaimRecord)}
    (hpair : pair ∈ (links.zip (links.map (recordOf S objs shard jobId))).zip
      (links.zip (links.map (recordOf S objs shard jobId))).tail) :
    ∃ prev next, pair.1.2 = some prev ∧ pair.2.2 = some next ∧ admissible pair.1.1.2 prev next = true := by
  obtain ⟨i, hi, rfl⟩ := List.getElem_of_mem hpair
  simp only [List.length_zip, List.length_map, List.length_tail, Nat.min_self] at hi
  have hfirst : i < links.length := by omega
  have hsecond : i + 1 < links.length := by omega
  obtain ⟨-, p, hp, htime⟩ := h.claims links[i] (List.getElem_mem hfirst)
  obtain ⟨-, e, he, -⟩ := h.claims links[i + 1] (List.getElem_mem hsecond)
  have hnext : links[i + 1].1.toUInt32 = links[i].1.toUInt32 + 1 := by
    have hmem : (links[i], links[i + 1]) ∈ links.zip links.tail := by
      rw [List.mem_iff_getElem]
      refine ⟨i, by rw [List.length_zip, List.length_tail]; omega, ?_⟩
      rw [List.getElem_zip, List.getElem_tail]
    rw [show links[i + 1].1 = links[i].1 + 1 from h.consecutive hmem, UInt64.toUInt32_add]
    rfl
  refine ⟨p.record, e.record, ?_, ?_, ?_⟩
  · simp [recordOf, hp]
  · simp [recordOf, he]
  · rw [hnext] at he
    have hadmits := horder.supported shard jobId _ p e hp he links[i].2 htime
    simpa using hadmits

end Linked

end Links

end Audit
end StowQ
