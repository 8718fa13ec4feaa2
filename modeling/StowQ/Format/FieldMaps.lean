import StowQ.Format.Codec
import StowQ.Format.ValuePath

/-!
# Records in maps

`entries` lists the fields of a record in table order, absent ones included.  A
sorted map that names only fields of the table is determined by its lookups, so
a map decodes to a record exactly if every lookup finds what `entries` lists
(`fromFields_eq_ok`).
-/

namespace StowQ
namespace Format

open Data Cbor Value

variable {allowed : List Str}

/-! ## Maps with text keys -/

section Lookup

variable {m : List (Value × Value)} {names : List Str} {key : Str} {v : Value}

/-- The pairs of the fields that are present. -/
def pairsOf (entries : List (Str × Option Value)) : List (Value × Value) :=
  entries.filterMap fun e => e.2.map fun v => (.text e.1, v)

@[simp] lemma pairsOf_nil : pairsOf [] = [] := rfl

@[simp] lemma pairsOf_cons_none (name : Str) (entries : List (Str × Option Value)) :
    pairsOf ((name, none) :: entries) = pairsOf entries := rfl

@[simp] lemma pairsOf_cons_some (name : Str) (v : Value) (entries : List (Str × Option Value)) :
    pairsOf ((name, some v) :: entries) = (.text name, v) :: pairsOf entries := rfl

lemma pairsOf_cons (name : Str) (v : Option Value) (entries : List (Str × Option Value)) :
    pairsOf ((name, v) :: entries) = (v.map fun v => (.text name, v)).toList ++ pairsOf entries := by
  cases v <;> rfl

lemma isText_eq_true {k : Value} : isText key k = true ↔ k = .text key := by
  cases k <;> simp [isText]

lemma mem_of_field (h : field m key = some v) : (.text key, v) ∈ m := by
  obtain ⟨p, hp, rfl⟩ := Option.map_eq_some_iff.mp h
  have htext := List.find?_some (p := fun p : Value × Value => isText key p.1) hp
  rw [← isText_eq_true.mp htext]
  exact List.mem_of_find?_eq_some hp

/-- In a sorted map the first pair with a key is the only one. -/
lemma field_of_mem (hsorted : (keys m).Pairwise (· < ·)) (h : (.text key, v) ∈ m) : field m key = some v := by
  induction m with
  | nil => cases h
  | cons p m ih =>
    obtain ⟨hlt, hrest⟩ := List.pairwise_cons.mp hsorted
    unfold field
    rcases List.mem_cons.mp h with rfl | h
    · rw [List.find?_cons_of_pos (p := fun p : Value × Value => isText key p.1) (isText_eq_true.mpr rfl)]
      rfl
    · have hne : ¬ isText key p.1 = true := by
        intro hp
        have hself : Value.encode p.1 < Value.encode (.text key) := hlt _ (List.mem_map_of_mem h)
        rw [isText_eq_true.mp hp] at hself
        exact List.lt_irrefl _ hself
      rw [List.find?_cons_of_neg (p := fun p : Value × Value => isText key p.1) hne]
      exact ih hrest h

/-- The encoded names of a table, which has to list them in ascending order. -/
def Ascending (names : List Str) : Prop :=
  (names.map fun name => Value.encode (.text name)).Pairwise (· < ·)

instance (names : List Str) : Decidable (Ascending names) :=
  inferInstanceAs (Decidable (List.Pairwise _ _))

lemma keys_pairsOf_sublist (entries : List (Str × Option Value)) :
    (keys (pairsOf entries)).Sublist ((entries.map Prod.fst).map fun name => Value.encode (.text name)) := by
  induction entries with
  | nil => exact List.Sublist.refl _
  | cons e entries ih =>
    obtain ⟨name, v⟩ := e
    cases v with
    | none => exact ih.cons _
    | some v => exact ih.cons_cons _

lemma keys_pairsOf {entries : List (Str × Option Value)} (h : Ascending (entries.map Prod.fst)) :
    (keys (pairsOf entries)).Pairwise (· < ·) :=
  h.sublist (keys_pairsOf_sublist entries)

/-- **A sorted map is determined by its lookups.** -/
theorem eq_pairsOf {entries : List (Str × Option Value)} (hentries : Ascending (entries.map Prod.fst))
    (hsorted : (keys m).Pairwise (· < ·)) (hnames : ∀ p ∈ m, ∃ name ∈ entries.map Prod.fst, p.1 = .text name)
    (h : ∀ e ∈ entries, field m e.1 = e.2) : m = pairsOf entries := by
  have hkeys := keys_pairsOf hentries
  have hirrefl : ∀ {l : List (Value × Value)}, (keys l).Pairwise (· < ·) → l.Nodup := by
    intro l hl
    refine (List.pairwise_map.mp hl).imp fun {a b} hlt heq => ?_
    subst heq
    exact List.lt_irrefl _ hlt
  have hmem : ∀ p, p ∈ m ↔ p ∈ pairsOf entries := by
    intro p
    simp only [pairsOf, List.mem_filterMap, Option.map_eq_some_iff]
    constructor
    · intro hp
      obtain ⟨name, hname, hkey⟩ := hnames p hp
      obtain ⟨e, he, rfl⟩ := List.mem_map.mp hname
      obtain ⟨k, v⟩ := p
      obtain rfl : k = .text e.1 := hkey
      exact ⟨e, he, v, (h e he).symm.trans (field_of_mem hsorted hp), rfl⟩
    · rintro ⟨e, he, v, hv, rfl⟩
      exact mem_of_field ((h e he).trans hv)
  have hperm : m.Perm (pairsOf entries) := (List.perm_ext_iff_of_nodup (hirrefl hsorted) (hirrefl hkeys)).mpr hmem
  refine hperm.eq_of_pairwise (fun a b _ _ hab hba => ?_) (List.pairwise_map.mp hsorted) (List.pairwise_map.mp hkeys)
  exact absurd hab (List.lt_asymm hba)

/-- The lookups in what is present of a table. -/
lemma field_pairsOf {entries : List (Str × Option Value)} (hentries : Ascending (entries.map Prod.fst))
    {e : Str × Option Value} (he : e ∈ entries) : field (pairsOf entries) e.1 = e.2 := by
  cases hv : e.2 with
  | some v =>
    refine field_of_mem (keys_pairsOf hentries) ?_
    exact List.mem_filterMap.mpr ⟨e, he, by rw [hv]; rfl⟩
  | none =>
    by_contra hne
    obtain ⟨v, hfield⟩ := Option.ne_none_iff_exists'.mp hne
    obtain ⟨e', he', heq⟩ := List.mem_filterMap.mp (mem_of_field hfield)
    obtain ⟨v', hv', heq⟩ := Option.map_eq_some_iff.mp heq
    have hname : e'.1 = e.1 := Value.text.inj (Prod.mk.inj heq).1
    have hnodup : (entries.map Prod.fst).Nodup := by
      refine (List.pairwise_map.mp hentries).imp fun {a b} hlt heq => ?_
      subst heq
      exact List.lt_irrefl _ hlt
    have hsame : e' = e := List.inj_on_of_nodup_map hnodup he' he hname
    rw [hsame, hv] at hv'
    cases hv'

end Lookup

/-! ## Getters -/

section Getters

variable {α β : Type} {m : List (Value × Value)} {key : Str} {x : Except RecordError α}

lemma except_bind_eq_ok {f : α → Except RecordError β} {b : β} :
    (x >>= f) = .ok b ↔ ∃ a, x = .ok a ∧ f a = .ok b := by
  cases x with
  | error e => exact ⟨nofun, fun ⟨_, h, _⟩ => (by cases h)⟩
  | ok a => exact ⟨fun h => ⟨a, rfl, h⟩, fun ⟨_, h, hf⟩ => (by cases h; exact hf)⟩

lemma except_map_eq_ok {f : α → β} {b : β} : f <$> x = .ok b ↔ ∃ a, x = .ok a ∧ f a = b := by
  cases x <;> simp

lemma except_check_eq_ok {c : Prop} [Decidable c] {e : RecordError} {a : α} :
    (if c then .error e else x) = .ok a ↔ ¬c ∧ x = .ok a := by
  split_ifs with h
  · exact ⟨nofun, fun hx => absurd h hx.1⟩
  · exact (and_iff_right h).symm

lemma throw_eq_error {e : RecordError} : (throw e : Except RecordError α) = .error e := rfl

lemma except_pure_eq_ok {a b : α} : (pure a : Except RecordError α) = .ok b ↔ b = a :=
  ⟨fun h => (Except.ok.inj h).symm, fun h => congrArg _ h.symm⟩

lemma getU64_eq_ok {n : UInt64} : getU64 m key = .ok n ↔ field m key = some (.uint n) := by
  unfold getU64
  split <;> simp_all

lemma getOptU64_eq_ok {n : Option UInt64} : getOptU64 m key = .ok n ↔ field m key = n.map .uint := by
  unfold getOptU64
  cases n <;> split <;> simp_all

lemma getText_eq_ok {t : Str} : getText m key = .ok t ↔ field m key = some (.text t) := by
  unfold getText
  split <;> simp_all

lemma getBool_eq_ok {b : Bool} : getBool m key = .ok b ↔ field m key = some (.bool b) := by
  unfold getBool
  cases b <;> split <;> simp_all

lemma width_eq_ok {n : Nat} {b : Bytes} {v : ByteArr n} : width n b = .ok v ↔ b = v.toList := by
  unfold width
  split
  · next hlen => exact ⟨fun h => congrArg List.Vector.toList (Except.ok.inj h), fun h => congrArg _ (Subtype.ext h)⟩
  · next hlen => exact ⟨nofun, fun h => absurd (h ▸ v.toList_length) hlen⟩

lemma getBytes_eq_ok {n : Nat} {v : ByteArr n} :
    getBytes n m key = .ok v ↔ field m key = some (.bytes v.toList) := by
  unfold getBytes
  split <;> simp_all [width_eq_ok]

lemma inlineOf_eq_ok {v : Option Bytes} : inlineOf m = .ok v ↔ field m Field.payloadInline = v.map .bytes := by
  unfold inlineOf
  cases v <;> split <;> simp_all

lemma payloadKeyOf_eq_ok {v : Option Str} : payloadKeyOf m = .ok v ↔ field m Field.payloadKey = v.map .text := by
  unfold payloadKeyOf
  cases v <;> split <;> simp_all

lemma detailOf_eq_ok {v : Option UInt64} : detailOf m = .ok v ↔ field m Field.detail = v.map .uint := by
  unfold detailOf
  cases v <;> split <;> simp_all

lemma prevTokenOf_eq_ok {v : Option (ByteArr 16)} :
    prevTokenOf m = .ok v ↔ field m Field.prevToken = v.map fun t => .bytes t.toList := by
  unfold prevTokenOf
  cases v <;> split <;> simp_all [except_bind_eq_ok, width_eq_ok, pure, Except.pure]

lemma digestItems_eq_ok {items : List Value} {ds : List Digest} :
    digestItems items = .ok ds ↔ items = ds.map fun d => .bytes d.toList := by
  induction items generalizing ds with
  | nil =>
    cases ds with
    | nil => exact ⟨fun _ => rfl, fun _ => rfl⟩
    | cons d ds => exact ⟨nofun, nofun⟩
  | cons v items ih =>
    cases v with
    | bytes b =>
      unfold digestItems
      split
      · next hlen =>
          rw [except_bind_eq_ok]
          constructor
          · rintro ⟨ds', hds', hpure⟩
            obtain rfl : _ :: ds' = ds := Except.ok.inj hpure
            rw [ih.mp hds']
            rfl
          · intro h
            cases ds with
            | nil => cases h
            | cons d ds =>
              obtain ⟨hd, hds⟩ := List.cons.inj h
              refine ⟨ds, ih.mpr hds, congrArg (fun x => Except.ok (x :: ds)) ?_⟩
              exact Subtype.ext (Value.bytes.inj hd)
      · next hlen =>
          refine ⟨nofun, fun h => ?_⟩
          cases ds with
          | nil => cases h
          | cons d ds =>
            have hb : b = d.toList := Value.bytes.inj (List.cons.inj h).1
            exact absurd (hb ▸ d.toList_length) hlen
    | uint | bool | text | array | map =>
      refine ⟨nofun, fun h => ?_⟩
      cases ds with
      | nil => cases h
      | cons d ds => cases (List.cons.inj h).1

lemma outputsOf_eq_ok {ds : List Digest} : outputsOf m = .ok ds ↔
    field m Field.outputDigests = if ds.isEmpty then none else some (.array (ds.map fun d => .bytes d.toList)) := by
  unfold outputsOf
  cases hfield : field m Field.outputDigests with
  | none => cases ds <;> simp
  | some v =>
    cases v with
    | array items =>
      cases items with
      | nil => cases ds <;> simp
      | cons v items =>
        dsimp only
        rw [if_neg (by simp), digestItems_eq_ok]
        cases ds <;> simp
    | uint | bool | bytes | text | map => cases ds <;> simp

lemma expectKeys_eq_ok : expectKeys m allowed = .ok () ↔ ∀ p ∈ m, ∃ name ∈ allowed, p.1 = .text name := by
  induction m with
  | nil => exact ⟨nofun, fun _ => rfl⟩
  | cons p m ih =>
    obtain ⟨k, v⟩ := p
    rw [List.forall_mem_cons, ← ih]
    cases k with
    | text t =>
      rw [expectKeys]
      split
      · next ht => exact ⟨fun h => ⟨⟨t, ht, rfl⟩, h⟩, fun h => h.2⟩
      · next ht =>
          refine ⟨nofun, ?_⟩
          rintro ⟨⟨name, hname, heq⟩, -⟩
          exact absurd (Value.text.inj heq ▸ hname) ht
    | uint | bool | bytes | array | map =>
      refine ⟨nofun, ?_⟩
      rintro ⟨⟨name, -, heq⟩, -⟩
      cases heq

/-- The keys of the map are among `names`. -/
def Names (m : List (Value × Value)) (names : List Str) : Prop :=
  ∀ p ∈ m, ∃ name ∈ names, p.1 = .text name

lemma Names.mono {names names' : List Str} (h : Names m names) (hsub : names ⊆ names') : Names m names' := by
  intro p hp
  obtain ⟨name, hname, heq⟩ := h p hp
  exact ⟨name, hsub hname, heq⟩

lemma names_allowIf (m : List (Value × Value)) (key : Str) (names names' : List Str) :
    Names m (names ++ allowIf m key ++ names') ↔ Names m (names ++ [key] ++ names') := by
  constructor
  · refine fun h => h.mono fun name hname => ?_
    simp only [List.mem_append, List.mem_singleton] at hname ⊢
    refine hname.imp (Or.imp_right fun hkey => ?_) id
    unfold allowIf at hkey
    split at hkey
    · exact List.mem_singleton.mp hkey
    · cases hkey
  · intro h p hp
    obtain ⟨name, hname, heq⟩ := h p hp
    refine ⟨name, ?_, heq⟩
    simp only [List.mem_append, List.mem_singleton] at hname ⊢
    refine hname.imp (Or.imp_right fun hkey => ?_) id
    subst hkey
    have hany : (m.any fun p => isText name p.1) = true := List.any_eq_true.mpr ⟨p, hp, isText_eq_true.mpr heq⟩
    unfold allowIf
    rw [if_pos hany]
    exact List.mem_singleton_self name

/-- The lookups in `m` find what `entries` lists, and `m` has no other keys. -/
structure Matches (m : List (Value × Value)) (entries : List (Str × Option Value)) : Prop where
  names : Names m (entries.map Prod.fst)
  found : ∀ e ∈ entries, field m e.1 = e.2

lemma matches_pairsOf {entries : List (Str × Option Value)} (h : Ascending (entries.map Prod.fst)) :
    Matches (pairsOf entries) entries := by
  refine ⟨fun p hp => ?_, fun e he => field_pairsOf h he⟩
  obtain ⟨e, he, heq⟩ := List.mem_filterMap.mp hp
  obtain ⟨v, -, rfl⟩ := Option.map_eq_some_iff.mp heq
  exact ⟨e.1, List.mem_map_of_mem he, rfl⟩

lemma Matches.eq_pairsOf {entries : List (Str × Option Value)} (h : Matches m entries)
    (hentries : Ascending (entries.map Prod.fst)) (hsorted : (keys m).Pairwise (· < ·)) : m = pairsOf entries :=
  Format.eq_pairsOf hentries hsorted h.names h.found

end Getters

/-! ## Record types -/

section Records

variable {m : List (Value × Value)}

/-- The takeover evidence in table order. -/
def basisEntries (b : ClaimBasis) : List (Str × Option Value) :=
  [(Field.prevDurationNs, some (.uint b.prevDurationNs)), (Field.prevStoreTimeNs, some (.uint b.prevStoreTimeNs)),
    (Field.observedWatermarkNs, some (.uint b.observedWatermarkNs))]

/-- The fields of a record in table order, absent ones included. -/
def Record.entries : Record → List (Str × Option Value)
  | .format r =>
    [(Field.shardCount, some (.uint r.shardCount.toUInt64)), (Field.inlineLimit, some (.uint r.inlineLimit)),
      (Field.leaseBucketWidthNs, some (.uint r.leaseBucketWidthNs)),
      (Field.requiredFeatureBits, some (.uint r.requiredFeatureBits)),
      (Field.delayedBucketWidthNs, some (.uint r.delayedBucketWidthNs)),
      (Field.terminalBucketWidthNs, some (.uint r.terminalBucketWidthNs))]
  | .job r =>
    [(Field.jobId, some (.bytes r.jobId.toList)), (Field.payloadKey, r.payloadKey.map .text),
      (Field.contentType, some (.text r.contentType)), (Field.notBeforeNs, r.notBeforeNs.map .uint),
      (Field.payloadDigest, some (.bytes r.payloadDigest.toList)),
      (Field.payloadInline, r.payloadInline.map .bytes), (Field.payloadLength, some (.uint r.payloadLength)),
      (Field.maximumAttempts, some (.uint r.maximumAttempts)),
      (Field.createdStoreTimeNs, some (.uint r.createdStoreTimeNs))]
  | .claim r =>
    [(Field.basis, r.basis.map fun b => .map (pairsOf (basisEntries b))),
      (Field.jobId, some (.bytes r.jobId.toList)), (Field.attempt, some (.uint r.attempt)),
      (Field.workerId, some (.text r.workerId)), (Field.generation, some (.uint r.generation)),
      (Field.prevToken, r.prevToken.map fun t => .bytes t.toList),
      (Field.continuation, some (.bool r.continuation)),
      (Field.workerToken, some (.bytes r.workerToken.toList)),
      (Field.leaseDurationNs, some (.uint r.leaseDurationNs))]
  | .fail r =>
    [(Field.jobId, some (.bytes r.jobId.toList)), (Field.reason, some (.uint r.reason)),
      (Field.attempt, some (.uint r.attempt)), (Field.generation, some (.uint r.generation)),
      (Field.retryNotBeforeNs, some (.uint r.retryNotBeforeNs))]
  | .receipt r =>
    [(Field.jobId, some (.bytes r.jobId.toList)), (Field.attempt, some (.uint r.attempt)),
      (Field.workerId, some (.text r.workerId)), (Field.generation, some (.uint r.generation)),
      (Field.workerToken, some (.bytes r.workerToken.toList)),
      (Field.outputDigests, if r.outputDigests.isEmpty then none
        else some (.array (r.outputDigests.map fun d => .bytes d.toList))),
      (Field.payloadDigest, some (.bytes r.payloadDigest.toList))]
  | .dead r =>
    [(Field.jobId, some (.bytes r.jobId.toList)), (Field.reason, some (.uint r.reason)),
      (Field.attempt, some (.uint r.attempt)), (Field.generation, some (.uint r.generation))]
  | .watermark r =>
    [(Field.sequence, some (.uint r.sequence)),
      (Field.highestObservedWallBucket, some (.uint r.highestObservedWallBucket))]
  | .quarantine r =>
    [(Field.qid, some (.bytes r.qid.toList)), (Field.detail, r.detail.map .uint),
      (Field.reason, some (.uint r.reason)), (Field.sourceKey, some (.text r.sourceKey)),
      (Field.observedStoreNs, some (.uint r.observedStoreNs))]

/-- The names of the fields, in the order of the decoder's tables. -/
def Record.names : Record → List Str
  | .format _ => formatKeys.map Prod.fst
  | .job _ => (jobKeys 64).map Prod.fst
  | .claim _ => (claimKeys 64).map Prod.fst
  | .fail _ => (failKeys 64).map Prod.fst
  | .receipt _ => (receiptKeys 64).map Prod.fst
  | .dead _ => (deadKeys 64).map Prod.fst
  | .watermark _ => watermarkKeys.map Prod.fst
  | .quarantine _ => (quarantineKeys 64).map Prod.fst

lemma map_fst_entries (r : Record) : r.entries.map Prod.fst = r.names := by
  cases r <;> rfl

/-- The tables list their names in the order of their encodings. -/
lemma ascending_entries (r : Record) : Ascending (r.entries.map Prod.fst) := by
  rw [map_fst_entries]
  cases r with
  | format => exact (by decide : Ascending (formatKeys.map Prod.fst))
  | job => exact (by decide : Ascending ((jobKeys 64).map Prod.fst))
  | claim => exact (by decide : Ascending ((claimKeys 64).map Prod.fst))
  | fail => exact (by decide : Ascending ((failKeys 64).map Prod.fst))
  | receipt => exact (by decide : Ascending ((receiptKeys 64).map Prod.fst))
  | dead => exact (by decide : Ascending ((deadKeys 64).map Prod.fst))
  | watermark => exact (by decide : Ascending (watermarkKeys.map Prod.fst))
  | quarantine => exact (by decide : Ascending ((quarantineKeys 64).map Prod.fst))

lemma ascending_basis (b : ClaimBasis) : Ascending ((basisEntries b).map Prod.fst) :=
  (by decide : Ascending (basisKeys.map Prod.fst))

/-- The names that a map may have, in whichever order they are listed. -/
lemma expectKeys_iff_names {names : List Str} (h : allowed ⊆ names) (h' : names ⊆ allowed) :
    expectKeys m allowed = .ok () ↔ Names m names :=
  expectKeys_eq_ok.trans ⟨fun hnames => Names.mono hnames h, fun hnames => Names.mono hnames h'⟩

/-- The checks of a record type on the fields themselves, whatever their lengths. -/
def Record.Shaped : Record → Prop
  | .format r => r.shardCount ≤ 65536
  | .job r => r.payloadInline.isSome ≠ r.payloadKey.isSome
  | .claim r => r.basis.isSome = !r.continuation ∧ r.prevToken.isSome = r.continuation
  | .fail _ | .receipt _ | .dead _ | .watermark _ | .quarantine _ => True

lemma fields_eq_ok {α : Type} {r : Record} {x : Except RecordError α} {a : α} (names : List Str)
    (hr : r.names = names) (hnames : expectKeys m allowed = .ok () ↔ Names m names)
    (hx : x = .ok a ↔ r.Shaped ∧ ∀ e ∈ r.entries, field m e.1 = e.2) :
    (expectKeys m allowed >>= fun _ => x) = .ok a ↔ r.Shaped ∧ Matches m r.entries := by
  rw [except_bind_eq_ok]
  constructor
  · rintro ⟨_, hkeys, hread⟩
    obtain ⟨hshape, hfound⟩ := hx.mp hread
    exact ⟨hshape, map_fst_entries r ▸ hr ▸ hnames.mp hkeys, hfound⟩
  · rintro ⟨hshape, hmatch, hfound⟩
    rw [map_fst_entries, hr] at hmatch
    exact ⟨(), hnames.mpr hmatch, hx.mpr ⟨hshape, hfound⟩⟩

lemma watermarkFields_eq_ok {r : WatermarkRecord} : watermarkFields m = .ok r ↔
    Record.Shaped (.watermark r) ∧ Matches m (Record.entries (.watermark r)) := by
  refine fields_eq_ok (watermarkKeys.map Prod.fst) rfl (expectKeys_iff_names (by decide) (by decide)) ?_
  cases r
  simp only [except_bind_eq_ok, getU64_eq_ok, except_pure_eq_ok, Record.Shaped, Record.entries, List.forall_mem_cons]
  grind

lemma failFields_eq_ok {r : FailRecord} : failFields m = .ok r ↔
    Record.Shaped (.fail r) ∧ Matches m (Record.entries (.fail r)) := by
  refine fields_eq_ok ((failKeys 64).map Prod.fst) rfl (expectKeys_iff_names (by decide) (by decide)) ?_
  cases r
  simp only [except_bind_eq_ok, getBytes_eq_ok, getU64_eq_ok, except_pure_eq_ok, Record.Shaped, Record.entries,
    List.forall_mem_cons]
  grind

lemma deadFields_eq_ok {r : DeadRecord} : deadFields m = .ok r ↔
    Record.Shaped (.dead r) ∧ Matches m (Record.entries (.dead r)) := by
  refine fields_eq_ok ((deadKeys 64).map Prod.fst) rfl (expectKeys_iff_names (by decide) (by decide)) ?_
  cases r
  simp only [except_bind_eq_ok, getBytes_eq_ok, getU64_eq_ok, except_pure_eq_ok, Record.Shaped, Record.entries,
    List.forall_mem_cons]
  grind

lemma formatFields_eq_ok {r : FormatRecord} : formatFields m = .ok r ↔
    Record.Shaped (.format r) ∧ Matches m (Record.entries (.format r)) := by
  refine fields_eq_ok (formatKeys.map Prod.fst) rfl (expectKeys_iff_names (by decide) (by decide)) ?_
  simp only [except_bind_eq_ok, throw_eq_error, except_check_eq_ok, getU64_eq_ok, except_pure_eq_ok, Record.Shaped, Record.entries,
    List.forall_mem_cons]
  constructor
  · rintro ⟨v, h1, hsmall, _, h2, _, h3, _, h4, _, h5, _, h6, rfl⟩
    obtain ⟨hv, hc⟩ := shard_iff.mp ⟨hsmall, rfl⟩
    exact ⟨hc, by rw [← hv]; exact h1, h5, h2, h6, h3, h4, nofun⟩
  · rintro ⟨hc, h1, h2, h3, h4, h5, h6, -⟩
    obtain ⟨hsmall, hcast⟩ := shard_iff.mpr ⟨rfl, hc⟩
    exact ⟨_, h1, hsmall, _, h3, _, h5, _, h6, _, h2, _, h4, by rw [← hcast]⟩

lemma quarantineFields_eq_ok {r : QuarantineRecord} : quarantineFields m = .ok r ↔
    Record.Shaped (.quarantine r) ∧ Matches m (Record.entries (.quarantine r)) := by
  have hallow := names_allowIf m Field.detail [Field.qid, Field.sourceKey, Field.reason, Field.observedStoreNs] []
  simp only [List.append_nil] at hallow
  refine fields_eq_ok ((quarantineKeys 64).map Prod.fst) rfl
    (expectKeys_eq_ok.trans (hallow.trans ⟨fun h => h.mono (by decide), fun h => h.mono (by decide)⟩)) ?_
  cases r
  simp only [except_bind_eq_ok, getBytes_eq_ok, getU64_eq_ok, getText_eq_ok, detailOf_eq_ok, except_pure_eq_ok,
    Record.Shaped, Record.entries, List.forall_mem_cons]
  grind

lemma receiptFields_eq_ok {r : ReceiptRecord} : receiptFields m = .ok r ↔
    Record.Shaped (.receipt r) ∧ Matches m (Record.entries (.receipt r)) := by
  refine fields_eq_ok ((receiptKeys 64).map Prod.fst) rfl (expectKeys_iff_names (by decide) (by decide)) ?_
  cases r
  simp only [except_bind_eq_ok, getBytes_eq_ok, getU64_eq_ok, getText_eq_ok, outputsOf_eq_ok, except_pure_eq_ok,
    Record.Shaped, Record.entries, List.forall_mem_cons]
  grind

lemma jobFields_eq_ok {r : JobRecord} : jobFields m = .ok r ↔
    Record.Shaped (.job r) ∧ Matches m (Record.entries (.job r)) := by
  -- one optional key after the other
  let fixed := [Field.jobId, Field.maximumAttempts, Field.contentType, Field.createdStoreTimeNs, Field.payloadDigest,
    Field.payloadLength]
  have hkey := names_allowIf m Field.payloadKey (fixed ++ allowIf m Field.notBeforeNs ++ allowIf m Field.payloadInline) []
  have hinline := names_allowIf m Field.payloadInline (fixed ++ allowIf m Field.notBeforeNs) [Field.payloadKey]
  have hdelay := names_allowIf m Field.notBeforeNs fixed ([Field.payloadInline] ++ [Field.payloadKey])
  simp only [List.append_nil] at hkey
  simp only [← List.append_assoc] at hdelay
  refine fields_eq_ok ((jobKeys 64).map Prod.fst) rfl (expectKeys_eq_ok.trans (hkey.trans (hinline.trans
    (hdelay.trans ⟨fun h => h.mono (by decide), fun h => h.mono (by decide)⟩)))) ?_
  cases r
  simp only [except_bind_eq_ok, throw_eq_error, except_check_eq_ok, getBytes_eq_ok, getU64_eq_ok, getOptU64_eq_ok, getText_eq_ok,
    inlineOf_eq_ok, payloadKeyOf_eq_ok, except_pure_eq_ok, Record.Shaped, Record.entries, List.forall_mem_cons]
  grind

/-- The takeover evidence in a map without repeated keys. -/
lemma basisOf_eq_ok {v : Option ClaimBasis}
    (hsorted : ∀ bm, field m Field.basis = some (.map bm) → (keys bm).Pairwise (· < ·)) :
    basisOf m = .ok v ↔ field m Field.basis = v.map fun b => .map (pairsOf (basisEntries b)) := by
  have hnames : ∀ bm, expectKeys bm [Field.prevStoreTimeNs, Field.prevDurationNs, Field.observedWatermarkNs] =
    .ok () ↔ Names bm (basisKeys.map Prod.fst) := fun bm => expectKeys_iff_names (by decide) (by decide)
  unfold basisOf
  cases hfield : field m Field.basis with
  | none => cases v <;> simp
  | some item =>
    cases item with
    | map bm =>
      simp only [except_bind_eq_ok, getU64_eq_ok, pure, Except.pure, Except.ok.injEq]
      constructor
      · rintro ⟨_, hkeys, time, h1, duration, h2, observed, h3, rfl⟩
        have hmatch : Matches bm (basisEntries ⟨time, duration, observed⟩) := by
          refine ⟨(hnames bm).mp hkeys, ?_⟩
          simp [basisEntries, h1, h2, h3]
        rw [hmatch.eq_pairsOf (ascending_basis _) (hsorted bm hfield)]
        rfl
      · intro h
        cases v with
        | none => cases h
        | some b =>
          obtain rfl : bm = pairsOf (basisEntries b) := Value.map.inj (Option.some.inj h)
          obtain ⟨hkeys, hfound⟩ := matches_pairsOf (ascending_basis b)
          simp only [basisEntries, List.forall_mem_cons] at hfound
          obtain ⟨h1, h2, h3, -⟩ := hfound
          exact ⟨(), (hnames _).mpr hkeys, _, h2, _, h1, _, h3, rfl⟩
    | uint | bool | bytes | text | array => cases v <;> simp

lemma claimFields_eq_ok {r : ClaimRecord}
    (hsorted : ∀ bm, field m Field.basis = some (.map bm) → (keys bm).Pairwise (· < ·)) :
    claimFields m = .ok r ↔ Record.Shaped (.claim r) ∧ Matches m (Record.entries (.claim r)) := by
  have hshape : ∀ c b t : Bool, ¬(c = b ∨ c ≠ t ∨ b = t) ↔ b = !c ∧ t = c := by decide
  refine fields_eq_ok ((claimKeys 64).map Prod.fst) rfl (expectKeys_iff_names (by decide) (by decide)) ?_
  cases r
  simp only [except_bind_eq_ok, throw_eq_error, except_check_eq_ok, getBytes_eq_ok, getU64_eq_ok, getText_eq_ok, getBool_eq_ok,
    basisOf_eq_ok hsorted, prevTokenOf_eq_ok, except_pure_eq_ok, hshape, Record.Shaped, Record.entries,
    List.forall_mem_cons]
  grind

/-- **What the value path reads out of a map** whose keys ascend. -/
theorem fromFields_eq_ok {t : UInt64} {r : Record} (hsorted : Sorted (.map m)) :
    fromFields t m = .ok r ↔ r.typeNumber = t ∧ r.Shaped ∧ m = pairsOf r.entries := by
  have hbasis : ∀ bm, field m Field.basis = some (.map bm) → (keys bm).Pairwise (· < ·) := fun bm h =>
    (all_map.mp ((all_map.mp hsorted).2 _ (mem_of_field h)).2).1
  have hlisted : ∀ r : Record, Matches m r.entries ↔ m = pairsOf r.entries := fun r =>
    ⟨fun h => h.eq_pairsOf (ascending_entries r) (all_map.mp hsorted).1,
      fun h => h ▸ matches_pairsOf (ascending_entries r)⟩
  unfold fromFields
  split_ifs
  case neg =>
    refine ⟨nofun, ?_⟩
    rintro ⟨rfl, -⟩
    cases r <;> simp_all [Record.typeNumber]
  all_goals
    subst t
    simp only [except_map_eq_ok, formatFields_eq_ok, jobFields_eq_ok, claimFields_eq_ok hbasis, failFields_eq_ok,
      receiptFields_eq_ok, deadFields_eq_ok, watermarkFields_eq_ok, quarantineFields_eq_ok, hlisted]
    cases r <;> simp [Record.typeNumber]

end Records

end Format
end StowQ
