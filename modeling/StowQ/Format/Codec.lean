import StowQ.Data.Reading
import StowQ.Format.Direct

/-!
# The record codec

The direct decoder accepts exactly what the encoder writes of a well-formed record.  `Parses` states this of a
reader: it succeeds on the bytes that a writer gives for a value, followed by anything, and on nothing else.
Items come first.  A fields map is read into a draft, field by field in table order: `draw` lists what is
written of the fields that a draft holds, and reading a field adds its bytes at the end of what is drawn so far,
because the table positions ascend (`parses_map`).  A record is a draft that passes the checks of its type
(`parses_record`).  The envelope binds a record to its queue, its key and its digest, so an accepted byte string
determines all of them: `codec_bijective`.
-/

namespace StowQ
namespace Format

open Data Cbor

variable {ds : List (Option Written)} {n pos i : Nat} {key : Str} {prev : Option Nat} {body found : Bytes}

variable {α σ : Type} {data rest : Bytes}

/-! ## Items -/

lemma liftCbor_eq_ok {p : Bytes → Except Cbor.Error (α × Bytes)} {a : α} :
    liftCbor p data = .ok (a, rest) ↔ p data = .ok (a, rest) := by
  unfold liftCbor
  cases p data <;> simp

lemma readHead_eq_ok {m : UInt8} {v : UInt64} :
    readHead data = .ok ((m, v), rest) ↔ data = pushHead m v ++ rest ∧ m < 8 := by
  refine liftCbor_eq_ok.trans ⟨fun h => (head_eq_ok h).symm, ?_⟩
  rintro ⟨rfl, hm⟩
  exact head_pushHead m hm v rest

lemma reads_liftCbor {p : Reader UInt8 Cbor.Error α} {b : Bytes} {a : α} (h : Reads p b a) :
    Reads (liftCbor p : Parser α) b a :=
  fun rest => liftCbor_eq_ok.mpr (h rest)

lemma takeItem_eq_ok {len : UInt64} {b : Bytes} : liftCbor (take (asUsize 64 len)) data = .ok (b, rest) ↔
    data = b ++ rest ∧ b.length < 2 ^ 64 ∧ UInt64.ofNat b.length = len := by
  rw [liftCbor_eq_ok, asUsize_eq]
  constructor
  · intro h
    obtain ⟨rfl, hlen⟩ := take_eq_ok h
    exact ⟨rfl, hlen ▸ len.toNat_lt, by rw [hlen, UInt64.ofNat_toNat]⟩
  · rintro ⟨rfl, hlt, rfl⟩
    rw [UInt64.toNat_ofNat_of_lt' hlt]
    exact take_append b rest

/-- An item of one kind: its head, and what follows. -/
lemma parses_headed {k : UInt8} (hk : k < 8) {e : RecordError} {p : UInt8 × UInt64 → Parser α}
    {f : UInt64 → Parser α} {arg : α → UInt64} {write : α → Bytes} {ok : α → Prop}
    (hp : ∀ m v, p (m, v) = if m ≠ k then throw e else f v)
    (hf : ∀ v data a rest, f v data = .ok (a, rest) ↔ data = write a ++ rest ∧ ok a ∧ arg a = v) :
    Parses (readHead >>= p) (fun a => pushHead k (arg a) ++ write a) ok := by
  intro data a rest
  rw [bind_eq_ok]
  constructor
  · rintro ⟨⟨m, v⟩, mid, hhead, h⟩
    rw [hp] at h
    split_ifs at h with hm
    · exact absurd h throw_eq_ok
    · obtain ⟨rfl, hok, rfl⟩ := (hf _ _ _ _).mp h
      rw [(readHead_eq_ok.mp hhead).1, not_not.mp hm, List.append_assoc]
      exact ⟨rfl, hok⟩
  · rintro ⟨rfl, hok⟩
    refine ⟨(k, arg a), write a ++ rest, readHead_eq_ok.mpr ⟨List.append_assoc .., hk⟩, ?_⟩
    rw [hp, if_neg (not_not.mpr rfl)]
    exact (hf _ _ _ _).mpr ⟨rfl, hok, rfl⟩

lemma parses_uint (e : RecordError) : Parses (uintItem e) (pushHead 0) fun _ => True := by
  have h : Parses (uintItem e) (fun v => pushHead 0 v ++ []) fun _ => True :=
    parses_headed (by decide : (0 : UInt8) < 8) (fun _ _ => rfl) fun v data a rest => by
      rw [pure_eq_ok]
      simp [and_comm]
  simp only [List.append_nil] at h
  exact h

lemma parses_bytes (e : RecordError) : Parses (bytesItem 64 e) putBytes fun b => b.length < 2 ^ 64 :=
  parses_headed (by decide : (2 : UInt8) < 8) (fun _ _ => rfl) fun _ _ _ _ => takeItem_eq_ok

lemma parses_text : Parses (readBorrowedText 64) putText fun t => (utf8 t).length < 2 ^ 64 := by
  refine parses_headed (by decide : (3 : UInt8) < 8) (fun _ _ => rfl) fun len data t rest => ?_
  rw [bind_eq_ok]
  constructor
  · rintro ⟨b, mid, htake, htext⟩
    obtain ⟨rfl, hlen⟩ := takeItem_eq_ok.mp htake
    cases ht : fromUtf8 b with
    | none =>
      rw [ht] at htext
      exact absurd htext throw_eq_ok
    | some t' =>
      rw [ht] at htext
      obtain ⟨rfl, rfl⟩ := pure_eq_ok.mp htext
      obtain rfl := utf8_of_fromUtf8 ht
      exact ⟨rfl, hlen⟩
  · rintro ⟨rfl, hlen⟩
    refine ⟨utf8 t, rest, takeItem_eq_ok.mpr ⟨rfl, hlen⟩, ?_⟩
    rw [fromUtf8_utf8]
    rfl

lemma parses_fixed (hn : n < 2 ^ 64) : Parses (readFixed 64 n) (fun v => putBytes v.toList) fun _ => True := by
  intro data v rest
  unfold readFixed fixed
  simp only [bind_eq_ok, readBorrowedBytes, parses_bytes _ _ _ _]
  constructor
  · rintro ⟨b, mid, ⟨rfl, -⟩, hfixed⟩
    split_ifs at hfixed with hlen
    · obtain ⟨rfl, rfl⟩ := pure_eq_ok.mp hfixed
      exact ⟨rfl, trivial⟩
    · exact absurd hfixed throw_eq_ok
  · rintro ⟨rfl, -⟩
    have hlen : v.toList.length = n := v.toList_length
    refine ⟨v.toList, rest, ⟨rfl, by rwa [hlen]⟩, ?_⟩
    rw [dif_pos hlen]
    rfl

lemma parses_bool : Parses readBool (fun v => [if v then 0xf5 else 0xf4]) fun _ => True := by
  intro data v rest
  constructor
  · intro h
    obtain ⟨⟨m, arg⟩, mid, hhead, hrest⟩ := bind_eq_ok.mp h
    dsimp only at hrest
    split_ifs at hrest with hfalse htrue
    · obtain ⟨rfl, rfl⟩ := pure_eq_ok.mp hrest
      rw [(readHead_eq_ok.mp hhead).1, hfalse.1, hfalse.2]
      exact ⟨rfl, trivial⟩
    · obtain ⟨rfl, rfl⟩ := pure_eq_ok.mp hrest
      rw [(readHead_eq_ok.mp hhead).1, htrue.1, htrue.2]
      exact ⟨rfl, trivial⟩
    · exact absurd hrest throw_eq_ok
  · rintro ⟨rfl, -⟩
    cases v <;> rfl

lemma require_bind_eq_ok {β : Type} {name : Str} {v : Option α} {f : α → Parser β} {b : β} :
    (require name v >>= f) data = .ok (b, rest) ↔ ∃ a, v = some a ∧ f a data = .ok (b, rest) := by
  cases v with
  | none =>
    refine ⟨nofun, ?_⟩
    rintro ⟨a, h, -⟩
    cases h
  | some a =>
    refine ⟨fun h => ⟨a, rfl, h⟩, ?_⟩
    rintro ⟨a', h, hf⟩
    cases h
    exact hf

/-! ## Fields maps -/

/-- What is written of a field, and whether it fits the wire. -/
structure Written where
  bytes : Bytes
  fits : Prop

/-- The pairs that are present, each name before its value. -/
def render : List Str → List (Option Written) → Bytes
  | name :: names, d :: ds => putOpt d (fun v => putText name ++ v.bytes) ++ render names ds
  | _, _ => []

/-- How many fields are present. -/
def present (ds : List (Option Written)) : Nat :=
  ds.countP Option.isSome

def writeMap (names : List Str) (ds : List (Option Written)) : Bytes :=
  pushHead 5 (UInt64.ofNat (present ds)) ++ render names ds

/-- All fields that are present fit. -/
def Fit (ds : List (Option Written)) : Prop :=
  ∀ d ∈ ds, ∀ v ∈ d, v.fits

lemma render_blank {names : List Str} (h : ∀ d ∈ ds, d = none) : render names ds = [] := by
  induction ds generalizing names with
  | nil => cases names <;> rfl
  | cons d ds ih =>
    cases names with
    | nil => rfl
    | cons name names =>
      rw [render, h d List.mem_cons_self, ih fun d hd => h d (List.mem_cons_of_mem _ hd)]
      rfl

lemma render_set {names : List Str} (v : Written) (hkey : names[i]? = some key) (hi : i < ds.length)
    (hblank : ∀ d ∈ ds.drop i, d = none) :
    render names (ds.set i (some v)) = render names ds ++ (putText key ++ v.bytes) ∧
      present (ds.set i (some v)) = present ds + 1 := by
  induction i generalizing names ds with
  | zero =>
    obtain ⟨d, ds, rfl⟩ := List.exists_cons_of_length_pos hi
    obtain ⟨name, names, rfl⟩ := List.exists_cons_of_ne_nil (fun h => by simp [h] at hkey : names ≠ [])
    cases hkey
    have hd : d = none := hblank d List.mem_cons_self
    have hrest : render names ds = [] := render_blank fun d' hd' => hblank d' (List.mem_cons_of_mem _ hd')
    subst hd
    rw [List.set_cons_zero, render, render, hrest, present, present]
    simp [putOpt]
  | succ i ih =>
    obtain ⟨d, ds, rfl⟩ := List.exists_cons_of_length_pos (Nat.lt_of_le_of_lt (Nat.zero_le _) hi)
    obtain ⟨name, names, rfl⟩ := List.exists_cons_of_ne_nil (fun h => by simp [h] at hkey : names ≠ [])
    have hstep : render names (ds.set i (some v)) = render names ds ++ (putText key ++ v.bytes) ∧
      present (ds.set i (some v)) = present ds + 1 := ih hkey (Nat.lt_of_succ_lt_succ hi) hblank
    obtain ⟨hrender, hcount⟩ := hstep
    rw [List.set_cons_succ, render, render, hrender, List.append_assoc]
    refine ⟨rfl, ?_⟩
    unfold present at hcount ⊢
    rw [List.countP_cons, List.countP_cons, hcount]
    omega

section Tables

variable (draw : σ → List (Option Written)) (cut : Nat → σ → σ)

/-- `reader` fills field `i` of a draft with what it consumes; `cut i` leaves the fields before it. -/
structure Row (i : Nat) (reader : σ → Parser σ) : Prop where
  takes : ∀ s data s' rest, reader s data = .ok (s', rest) →
    ∃ v : Written, data = v.bytes ++ rest ∧ v.fits ∧ draw s' = (draw s).set i (some v)
  gives : ∀ t v, (draw t)[i]? = some (some v) → v.fits → Reads (reader (cut i t)) v.bytes (cut (i + 1) t)
  skips : ∀ t, (draw t)[i]? = some none → cut (i + 1) t = cut i t

/-- Every reader of the table fills the field of its position, counted from `k`. -/
def Rows : Nat → Table σ → Prop
  | _, [] => True
  | k, (_, reader) :: table => Row draw cut k reader ∧ Rows (k + 1) table

/-- A draft type for a table, whose blank draft is `blank`. -/
structure Layout (table : Table σ) (blank : σ) : Prop where
  rows : Rows draw cut 0 table
  length : ∀ s, (draw s).length = table.length := by intros; rfl
  few : table.length < 2 ^ 64 := by decide
  distinct : (table.map Prod.fst).Nodup := by decide
  short : ∀ name ∈ table.map Prod.fst, (utf8 name).length < 2 ^ 64 := by decide
  empty : ∀ d ∈ draw blank, d = none := by decide
  cut_zero : ∀ t, cut 0 t = blank := by intros; rfl
  cut_all : ∀ t, cut table.length t = t := by intros; rfl

variable {draw cut} {table : Table σ} {blank : σ} {reader : σ → Parser σ}

lemma Rows.get {k : Nat} (h : Rows draw cut k table) (hpos : table[pos]? = some (key, reader)) :
    Row draw cut (k + pos) reader := by
  induction table generalizing k pos with
  | nil => cases hpos
  | cons entry table ih =>
    cases pos with
    | zero =>
      cases hpos
      exact h.1
    | succ pos =>
      have hrow := ih h.2 hpos
      rwa [Nat.add_assoc, Nat.add_comm 1] at hrow

lemma tablePos_eq_some (h : tablePos table key = some (pos, reader)) : table[pos]? = some (key, reader) := by
  induction table generalizing pos with
  | nil => cases h
  | cons entry table ih =>
    obtain ⟨name, reader'⟩ := entry
    unfold tablePos at h
    split at h
    · next hname =>
        cases h
        subst hname
        rfl
    · obtain ⟨⟨pos', reader''⟩, hfound, heq⟩ := Option.map_eq_some_iff.mp h
      cases heq
      exact ih hfound

lemma tablePos_of_getElem? (hnodup : (table.map Prod.fst).Nodup) (h : table[pos]? = some (key, reader)) :
    tablePos table key = some (pos, reader) := by
  induction table generalizing pos with
  | nil => cases h
  | cons entry table ih =>
    obtain ⟨name, reader'⟩ := entry
    obtain ⟨hname, hnodup⟩ := List.nodup_cons.mp hnodup
    unfold tablePos
    cases pos with
    | zero =>
      cases h
      rw [if_pos rfl]
    | succ pos =>
      have hmem : (key, reader) ∈ table := List.mem_of_getElem? h
      have hne : name ≠ key := by
        rintro rfl
        exact hname (List.mem_map.mpr ⟨_, hmem, rfl⟩)
      rw [if_neg hne, ih hnodup h]
      rfl

/-- The first position that may follow `prev`. -/
def following : Option Nat → Nat
  | none => 0
  | some p => p + 1

lemma checkOrder_eq_ok : checkOrder prev pos = .ok () ↔ following prev ≤ pos := by
  cases prev with
  | none => exact ⟨fun _ => Nat.zero_le _, fun _ => rfl⟩
  | some p =>
    simp only [checkOrder, following]
    split_ifs <;> simp <;> omega

/-- **The pairs of a map** were read from what is drawn. -/
theorem readPairs_eq_ok (hl : Layout draw cut table blank) {s s' : σ} (hfit : Fit (draw s))
    (hblank : ∀ d ∈ (draw s).drop (following prev), d = none)
    (h : readPairs 64 table n prev s data = .ok (s', rest)) :
    Fit (draw s') ∧ ∃ b, data = b ++ rest ∧
      render (table.map Prod.fst) (draw s') = render (table.map Prod.fst) (draw s) ++ b ∧
      present (draw s') = present (draw s) + n := by
  induction n generalizing prev s data with
  | zero =>
    obtain ⟨rfl, rfl⟩ := pure_eq_ok.mp h
    exact ⟨hfit, [], rfl, (List.append_nil _).symm, rfl⟩
  | succ n ih =>
    obtain ⟨key, mid, hkey, hrest⟩ := bind_eq_ok.mp h
    obtain ⟨rfl, -⟩ := (parses_text _ _ _).mp hkey
    cases hpos : tablePos table key with
    | none =>
      rw [hpos] at hrest
      exact absurd hrest throw_eq_ok
    | some found =>
      obtain ⟨pos, reader⟩ := found
      rw [hpos] at hrest
      obtain ⟨_, mid1, hcheck, hread⟩ := bind_eq_ok.mp hrest
      obtain ⟨horder, rfl⟩ := lift_eq_ok.mp hcheck
      obtain ⟨s1, mid2, hreader, hpairs⟩ := bind_eq_ok.mp hread
      have hentry := tablePos_eq_some hpos
      have hrow := hl.rows.get hentry
      rw [Nat.zero_add] at hrow
      obtain ⟨v, rfl, hfits, hdraw⟩ := hrow.takes s _ s1 mid2 hreader
      have hle := checkOrder_eq_ok.mp horder
      -- the fields from this position on are blank: order is checked before a field is read
      have hblank' : ∀ d ∈ (draw s).drop pos, d = none := fun d hd =>
        hblank d ((List.drop_sublist_drop_left _ hle).subset hd)
      have hlt : pos < (draw s).length := hl.length s ▸ (List.getElem?_eq_some_iff.mp hentry).1
      have hname : (table.map Prod.fst)[pos]? = some key := by rw [List.getElem?_map, hentry]; rfl
      obtain ⟨hrender, hcount⟩ := render_set v hname hlt hblank'
      have hfit1 : Fit (draw s1) := by
        intro d hd
        rw [hdraw] at hd
        rcases List.mem_or_eq_of_mem_set hd with hd | rfl
        · exact hfit d hd
        · intro v' hv'
          cases hv'
          exact hfits
      have hblank1 : ∀ d ∈ (draw s1).drop (following (some pos)), d = none := by
        intro d hd
        rw [show following (some pos) = pos + 1 from rfl, hdraw, List.drop_set_of_lt (Nat.lt_succ_self pos)] at hd
        exact hblank' d ((List.drop_sublist_drop_left _ (Nat.le_succ pos)).subset hd)
      -- the rest is read into a draft that differs in this one field
      obtain ⟨hfit', b, rfl, hrender', hcount'⟩ := ih hfit1 hblank1 hpairs
      refine ⟨hfit', putText key ++ v.bytes ++ b, by simp, ?_, ?_⟩
      · rw [hrender', hdraw, hrender, List.append_assoc]
      · rw [hcount', hdraw, hcount]
        omega

/-- The fields of a draft from position `i` on are read back. -/
lemma reads_pairs (hl : Layout draw cut table blank) {t : σ} (hfit : Fit (draw t)) {k : Nat}
    (hi : i + k = table.length) (hprev : following prev ≤ i) :
    Reads (readPairs 64 table (present ((draw t).drop i)) prev (cut i t))
      (render ((table.map Prod.fst).drop i) ((draw t).drop i)) t := by
  induction k generalizing i prev with
  | zero =>
    rw [List.drop_of_length_le (by rw [hl.length, ← hi]; exact Nat.le_refl _), List.drop_of_length_le (by rw [List.length_map, ← hi]; exact Nat.le_refl _),
      show i = table.length from hi, hl.cut_all]
    exact Reads.pure t
  | succ k ih =>
    have hlt : i < table.length := by omega
    obtain ⟨key, reader, hentry⟩ : ∃ key reader, table[i] = (key, reader) := ⟨_, _, rfl⟩
    have hget : table[i]? = some (key, reader) := by rw [List.getElem?_eq_getElem hlt, hentry]
    have hrow := hl.rows.get hget
    rw [Nat.zero_add] at hrow
    have hdraw : i < (draw t).length := hl.length t ▸ hlt
    have hrest := fun (prev : Option Nat) (hprev : following prev ≤ i + 1) => ih (by omega) hprev
    have hnames : i < (table.map Prod.fst).length := (List.length_map _).symm ▸ hlt
    rw [List.drop_eq_getElem_cons hdraw, List.drop_eq_getElem_cons hnames, List.getElem_map, hentry]
    cases hv : (draw t)[i] with
    | none =>
      have hskip := hrow.skips t (by rw [List.getElem?_eq_getElem hdraw, hv])
      rw [← hskip]
      exact hrest prev (Nat.le_succ_of_le hprev)
    | some v =>
      have hfits : v.fits := hfit _ (List.getElem_mem hdraw) v hv
      have hreads := hrow.gives t v (by rw [List.getElem?_eq_getElem hdraw, hv]) hfits
      have hkey : (utf8 key).length < 2 ^ 64 := hl.short key (List.mem_map.mpr ⟨_, List.getElem_mem hlt, by rw [hentry]⟩)
      show Reads (readPairs 64 table (present (some v :: (draw t).drop (i + 1))) prev (cut i t)) _ t
      rw [show present (some v :: (draw t).drop (i + 1)) = present ((draw t).drop (i + 1)) + 1 from
        List.countP_cons_of_pos rfl, render, putOpt, List.append_assoc]
      unfold readPairs
      refine (parses_text.reads hkey).bind ?_
      simp only [tablePos_of_getElem? hl.distinct hget, checkOrder_eq_ok.mpr hprev]
      exact (Reads.pure ()).bind (hreads.bind (hrest (some i) (Nat.le_refl _)))

/-- **A fields map**, from a draft that is still blank. -/
theorem parses_map (hl : Layout draw cut table blank) (e : RecordError) : Parses (readMap 64 table e blank)
    (fun t => writeMap (table.map Prod.fst) (draw t)) fun t => Fit (draw t) := by
  refine parses_headed (by decide : (5 : UInt8) < 8) (fun _ _ => rfl) fun n data t rest => ⟨fun h => ?_, ?_⟩
  · have hfit : Fit (draw blank) := fun d hd v hv => by rw [hl.empty d hd] at hv; cases hv
    have hstart : ∀ d ∈ (draw blank).drop (following none), d = none := hl.empty
    obtain ⟨hfit', b, rfl, hrender, hcount⟩ := readPairs_eq_ok hl hfit hstart h
    have hzero : present (draw blank) = 0 := List.countP_eq_zero.mpr fun d hd => by simp [hl.empty d hd]
    rw [render_blank hl.empty, List.nil_append] at hrender
    rw [hzero, Nat.zero_add] at hcount
    exact ⟨by rw [hrender], hfit', by rw [hcount, UInt64.ofNat_toNat]⟩
  · rintro ⟨rfl, hfit, rfl⟩
    have hcount : present (draw t) < 2 ^ 64 :=
      Nat.lt_of_le_of_lt (List.countP_le_length.trans (hl.length t).le) hl.few
    have hreads := reads_pairs hl hfit (Nat.zero_add _) (show following none ≤ 0 from Nat.le_refl _)
    rw [hl.cut_zero, List.drop_zero, List.drop_zero] at hreads
    rw [UInt64.toNat_ofNat_of_lt' hcount]
    exact hreads rest

/-- What is written of an optional field. -/
def cell (write : α → Bytes) (ok : α → Prop) (v : Option α) : Option Written :=
  v.map fun a => ⟨write a, ok a⟩

lemma Row.of {p : Parser α} {write : α → Bytes} {ok : α → Prop} {upd : σ → α → σ} (hp : Parses p write ok)
    (get : σ → Option α)
    (hdraw : ∀ s a, draw (upd s a) = (draw s).set i (some ⟨write a, ok a⟩) := by intros; rfl)
    (hget : ∀ t, (draw t)[i]? = some (cell write ok (get t)) := by intros; rfl)
    (hcut : ∀ t a, get t = some a → upd (cut i t) a = cut (i + 1) t := by rintro ⟨⟩ _ ⟨⟩; rfl)
    (hskip : ∀ t, get t = none → cut (i + 1) t = cut i t := by rintro ⟨⟩ ⟨⟩; rfl) :
    Row draw cut i (fun s => do Pure.pure (upd s (← p))) where
  takes s data s' rest h := by
    obtain ⟨a, mid, ha, hpure⟩ := bind_eq_ok.mp h
    obtain ⟨rfl, rfl⟩ := pure_eq_ok.mp hpure
    obtain ⟨rfl, hok⟩ := (hp _ _ _).mp ha
    exact ⟨⟨write a, ok a⟩, rfl, hok, hdraw s a⟩
  gives t v hv hfits := by
    rw [hget, Option.some.injEq] at hv
    obtain ⟨a, ha, rfl⟩ := Option.map_eq_some_iff.mp hv
    rw [← hcut t a ha]
    exact (hp.reads hfits).map
  skips t ht := by
    rw [hget, Option.some.injEq] at ht
    exact hskip t (Option.map_eq_none_iff.mp ht)

end Tables

/-! ## Record types -/

/-- **A record** is a draft that passes the checks of its type. -/
theorem parses_record {ρ : Type} {draw : σ → List (Option Written)} {cut : Nat → σ → σ} {table : Table σ} {blank : σ}
    {e : RecordError} {finish : σ → Parser ρ} {write : ρ → Bytes} {ok : ρ → Prop} (hl : Layout draw cut table blank)
    (draft : ρ → σ) (shape : ρ → Prop)
    (hfinish : ∀ d data r rest, Fit (draw d) →
      (finish d data = .ok (r, rest) ↔ (d = draft r ∧ shape r) ∧ data = rest))
    (hwrite : ∀ r, writeMap (table.map Prod.fst) (draw (draft r)) = write r)
    (hok : ∀ r, Fit (draw (draft r)) ∧ shape r ↔ ok r) : Parses (readMap 64 table e blank >>= finish) write ok := by
  have hmap := parses_map hl e
  intro data r rest
  rw [bind_eq_ok]
  constructor
  · rintro ⟨d, mid, hd, hr⟩
    obtain ⟨rfl, hfits⟩ := (hmap _ _ _).mp hd
    obtain ⟨⟨rfl, hshape⟩, rfl⟩ := (hfinish _ _ _ _ hfits).mp hr
    exact ⟨congrArg (· ++ _) (hwrite r), (hok r).mp ⟨hfits, hshape⟩⟩
  · rintro ⟨rfl, h⟩
    obtain ⟨hfits, hshape⟩ := (hok r).mpr h
    exact ⟨draft r, rest, (hmap _ _ _).mpr ⟨congrArg (· ++ _) (hwrite r).symm, hfits⟩,
      (hfinish _ _ _ _ hfits).mpr ⟨⟨rfl, hshape⟩, rfl⟩⟩

/-- What a draft keeps of field `i` when only the first `n` fields were read. -/
def keep (n i : Nat) (v : Option α) : Option α :=
  if i < n then v else none

def uintCell : Option UInt64 → Option Written := cell (pushHead 0) fun _ => True

def fixedCell {n : Nat} : Option (ByteArr n) → Option Written := cell (fun a => putBytes a.toList) fun _ => True

def textCell : Option Str → Option Written := cell putText fun t => (utf8 t).length < 2 ^ 64

lemma fit_nil : Fit [] := fun _ hd => absurd hd List.not_mem_nil

lemma fit_cell {write : α → Bytes} {ok : α → Prop} {v : Option α} :
    Fit (cell write ok v :: ds) ↔ (∀ a, v = some a → ok a) ∧ Fit ds := by
  refine List.forall_mem_cons.trans (and_congr_left' ?_)
  cases v <;> simp [cell]

lemma fit_uint {v : Option UInt64} : Fit (uintCell v :: ds) ↔ Fit ds :=
  fit_cell.trans (and_iff_right fun _ _ => trivial)

lemma fit_fixed {v : Option (ByteArr n)} :
    Fit (fixedCell v :: ds) ↔ Fit ds := fit_cell.trans (and_iff_right fun _ _ => trivial)

lemma fit_text {v : Option Str} :
    Fit (textCell v :: ds) ↔ (∀ t, v = some t → (utf8 t).length < 2 ^ 64) ∧ Fit ds := fit_cell

def WatermarkDraft.draw (d : WatermarkDraft) : List (Option Written) :=
  [uintCell d.sequence, uintCell d.highestObservedWallBucket]

def WatermarkDraft.cut (n : Nat) (d : WatermarkDraft) : WatermarkDraft :=
  ⟨keep n 0 d.sequence, keep n 1 d.highestObservedWallBucket⟩

lemma watermark_layout : Layout WatermarkDraft.draw WatermarkDraft.cut watermarkKeys {} where
  rows := ⟨.of (parses_uint _) (·.sequence), .of (parses_uint _) (·.highestObservedWallBucket), trivial⟩

lemma parses_watermark : Parses (readWatermark 64) (fun r => writeFields (.watermark r)) fun _ => True := by
  refine parses_record watermark_layout (fun r => ⟨some r.sequence, some r.highestObservedWallBucket⟩)
    (fun _ => True) (fun d data r rest _ => ?_) (fun r => ?_) (fun r => ?_)
  · cases d
    cases r
    simp only [require_bind_eq_ok, pure_eq_ok]
    grind
  · simp [writeMap, present, render, WatermarkDraft.draw, uintCell, cell, watermarkKeys, writeFields, putKey, putOpt]
  · simp only [WatermarkDraft.draw, fit_uint, fit_nil, and_self]

lemma shard_iff {v : UInt64} {c : UInt32} : ¬ 65536 < v ∧ c = v.toUInt32 ↔ v = c.toUInt64 ∧ c ≤ 65536 := by
  rw [UInt64.not_lt, UInt64.le_iff_toNat_le, UInt32.le_iff_toNat_le, ← UInt64.toNat_inj, ← UInt32.toNat_inj,
    UInt32.toNat_toUInt64, UInt64.toNat_toUInt32]
  show v.toNat ≤ 65536 ∧ _ ↔ _ ∧ c.toNat ≤ 65536
  omega

/-- The shard count, which is range-checked before the cast. -/
def shardItem : Parser UInt32 := do
  let v ← readUint
  if 65536 < v then throw (.field "shard_count") else pure v.toUInt32

lemma parses_shard : Parses shardItem (fun c => pushHead 0 c.toUInt64) (· ≤ 65536) := by
  intro data c rest
  unfold shardItem readUint
  simp only [bind_eq_ok, check_eq_ok, pure_eq_ok, parses_uint _ _ _ _]
  constructor
  · rintro ⟨v, mid, ⟨rfl, -⟩, hsmall, hcast, rfl⟩
    obtain ⟨rfl, hc⟩ := shard_iff.mp ⟨hsmall, hcast⟩
    exact ⟨rfl, hc⟩
  · rintro ⟨rfl, hc⟩
    obtain ⟨hsmall, hcast⟩ := shard_iff.mpr ⟨rfl, hc⟩
    exact ⟨c.toUInt64, rest, ⟨rfl, trivial⟩, hsmall, hcast, rfl⟩

def FormatDraft.draw (d : FormatDraft) : List (Option Written) :=
  [cell (fun c => pushHead 0 c.toUInt64) (· ≤ 65536) d.shardCount, uintCell d.inlineLimit,
    uintCell d.leaseBucketWidthNs, uintCell d.requiredFeatureBits, uintCell d.delayedBucketWidthNs,
    uintCell d.terminalBucketWidthNs]

def FormatDraft.cut (n : Nat) (d : FormatDraft) : FormatDraft :=
  ⟨keep n 0 d.shardCount, keep n 1 d.inlineLimit, keep n 2 d.leaseBucketWidthNs, keep n 3 d.requiredFeatureBits,
    keep n 4 d.delayedBucketWidthNs, keep n 5 d.terminalBucketWidthNs⟩

lemma row_shard : Row FormatDraft.draw FormatDraft.cut 0 (fun d => do
    let v ← readUint
    if 65536 < v then throw (.field "shard_count") else pure { d with shardCount := some v.toUInt32 }) := by
  have hrow : Row FormatDraft.draw FormatDraft.cut 0 (fun d => do pure { d with shardCount := some (← shardItem) }) :=
    .of parses_shard (·.shardCount)
  convert hrow using 2 with d
  rw [shardItem, bind_assoc]
  congr 1
  funext v
  split_ifs <;> rfl

lemma format_layout : Layout FormatDraft.draw FormatDraft.cut formatKeys {} where
  rows := ⟨row_shard, .of (parses_uint _) (·.inlineLimit), .of (parses_uint _) (·.leaseBucketWidthNs),
    .of (parses_uint _) (·.requiredFeatureBits), .of (parses_uint _) (·.delayedBucketWidthNs),
    .of (parses_uint _) (·.terminalBucketWidthNs), trivial⟩

lemma parses_format : Parses (readFormat 64) (fun r => writeFields (.format r)) fun r => r.shardCount ≤ 65536 := by
  refine parses_record format_layout (fun r => ⟨some r.shardCount, some r.inlineLimit, some r.leaseBucketWidthNs,
    some r.requiredFeatureBits, some r.delayedBucketWidthNs, some r.terminalBucketWidthNs⟩)
    (fun _ => True) (fun d data r rest _ => ?_) (fun r => ?_) (fun r => ?_)
  · cases d
    cases r
    simp only [require_bind_eq_ok, pure_eq_ok]
    grind
  · simp [writeMap, present, render, FormatDraft.draw, uintCell, cell, formatKeys, writeFields, putKey, putOpt]
  · simp [FormatDraft.draw, fit_cell, fit_uint, fit_nil]

def FailDraft.draw (d : FailDraft) : List (Option Written) :=
  [fixedCell d.jobId, uintCell d.reason, uintCell d.attempt, uintCell d.generation, uintCell d.retryNotBeforeNs]

def FailDraft.cut (n : Nat) (d : FailDraft) : FailDraft :=
  ⟨keep n 0 d.jobId, keep n 1 d.reason, keep n 2 d.attempt, keep n 3 d.generation, keep n 4 d.retryNotBeforeNs⟩

lemma fail_layout : Layout FailDraft.draw FailDraft.cut (failKeys 64) {} where
  rows := ⟨.of (parses_fixed (by decide)) (·.jobId), .of (parses_uint _) (·.reason), .of (parses_uint _) (·.attempt),
    .of (parses_uint _) (·.generation), .of (parses_uint _) (·.retryNotBeforeNs), trivial⟩

lemma parses_fail : Parses (readFail 64) (fun r => writeFields (.fail r)) fun _ => True := by
  refine parses_record fail_layout
    (fun r => ⟨some r.jobId, some r.reason, some r.attempt, some r.generation, some r.retryNotBeforeNs⟩)
    (fun _ => True) (fun d data r rest _ => ?_) (fun r => ?_) (fun r => ?_)
  · cases d
    cases r
    simp only [require_bind_eq_ok, pure_eq_ok]
    grind
  · simp [writeMap, present, render, FailDraft.draw, uintCell, fixedCell, cell, failKeys, writeFields, putKey,
      putKeyBytes, putOpt]
  · simp only [FailDraft.draw, fit_fixed, fit_uint, fit_nil, and_self]

def DeadDraft.draw (d : DeadDraft) : List (Option Written) :=
  [fixedCell d.jobId, uintCell d.reason, uintCell d.attempt, uintCell d.generation]

def DeadDraft.cut (n : Nat) (d : DeadDraft) : DeadDraft :=
  ⟨keep n 0 d.jobId, keep n 1 d.reason, keep n 2 d.attempt, keep n 3 d.generation⟩

lemma dead_layout : Layout DeadDraft.draw DeadDraft.cut (deadKeys 64) {} where
  rows := ⟨.of (parses_fixed (by decide)) (·.jobId), .of (parses_uint _) (·.reason), .of (parses_uint _) (·.attempt),
    .of (parses_uint _) (·.generation), trivial⟩

lemma parses_dead : Parses (readDead 64) (fun r => writeFields (.dead r)) fun _ => True := by
  refine parses_record dead_layout (fun r => ⟨some r.jobId, some r.reason, some r.attempt, some r.generation⟩)
    (fun _ => True) (fun d data r rest _ => ?_) (fun r => ?_) (fun r => ?_)
  · cases d
    cases r
    simp only [require_bind_eq_ok, pure_eq_ok]
    grind
  · simp [writeMap, present, render, DeadDraft.draw, uintCell, fixedCell, cell, deadKeys, writeFields, putKey,
      putKeyBytes, putOpt]
  · simp only [DeadDraft.draw, fit_fixed, fit_uint, fit_nil, and_self]

def QuarantineDraft.draw (d : QuarantineDraft) : List (Option Written) :=
  [fixedCell d.qid, uintCell d.detail, uintCell d.reason, textCell d.sourceKey, uintCell d.observedStoreNs]

def QuarantineDraft.cut (n : Nat) (d : QuarantineDraft) : QuarantineDraft :=
  ⟨keep n 0 d.qid, keep n 1 d.detail, keep n 2 d.reason, keep n 3 d.sourceKey, keep n 4 d.observedStoreNs⟩

lemma quarantine_layout : Layout QuarantineDraft.draw QuarantineDraft.cut (quarantineKeys 64) {} where
  rows := ⟨.of (parses_fixed (by decide)) (·.qid), .of (parses_uint _) (·.detail), .of (parses_uint _) (·.reason),
    .of parses_text (·.sourceKey), .of (parses_uint _) (·.observedStoreNs), trivial⟩

lemma parses_quarantine : Parses (readQuarantine 64) (fun r => writeFields (.quarantine r))
    fun r => (utf8 r.sourceKey).length < 2 ^ 64 := by
  refine parses_record quarantine_layout
    (fun r => ⟨some r.qid, r.detail, some r.reason, some r.sourceKey, some r.observedStoreNs⟩)
    (fun _ => True) (fun d data r rest _ => ?_) (fun r => ?_) (fun r => ?_)
  · cases d
    cases r
    simp only [require_bind_eq_ok, pure_eq_ok]
    grind
  · cases hdetail : r.detail <;> simp [writeMap, present, render, QuarantineDraft.draw, uintCell, fixedCell, textCell,
      cell, quarantineKeys, writeFields, putKey, putKeyBytes, putKeyText, putOpt, countSome, hdetail]
  · simp only [QuarantineDraft.draw, fit_fixed, fit_uint, fit_text, fit_nil, Option.some.injEq, forall_eq', and_true]

/-- The payload is inline or detached, and every length fits the wire. -/
structure JobRecord.WellFormed (r : JobRecord) : Prop where
  exclusive : r.payloadInline.isSome ≠ r.payloadKey.isSome
  contentType : (utf8 r.contentType).length < 2 ^ 64
  payloadInline : ∀ b, r.payloadInline = some b → b.length < 2 ^ 64
  payloadKey : ∀ k, r.payloadKey = some k → (utf8 k).length < 2 ^ 64

def JobDraft.draw (d : JobDraft) : List (Option Written) :=
  [fixedCell d.jobId, textCell d.payloadKey, textCell d.contentType, uintCell d.notBeforeNs,
    fixedCell d.payloadDigest, cell putBytes (fun b => b.length < 2 ^ 64) d.payloadInline, uintCell d.payloadLength,
    uintCell d.maximumAttempts, uintCell d.createdStoreTimeNs]

def JobDraft.cut (n : Nat) (d : JobDraft) : JobDraft :=
  ⟨keep n 0 d.jobId, keep n 1 d.payloadKey, keep n 2 d.contentType, keep n 3 d.notBeforeNs, keep n 4 d.payloadDigest,
    keep n 5 d.payloadInline, keep n 6 d.payloadLength, keep n 7 d.maximumAttempts, keep n 8 d.createdStoreTimeNs⟩

lemma job_layout : Layout JobDraft.draw JobDraft.cut (jobKeys 64) {} where
  rows := ⟨.of (parses_fixed (by decide)) (·.jobId), .of parses_text (·.payloadKey), .of parses_text (·.contentType),
    .of (parses_uint _) (·.notBeforeNs), .of (parses_fixed (by decide)) (·.payloadDigest),
    .of (parses_bytes _) (·.payloadInline), .of (parses_uint _) (·.payloadLength),
    .of (parses_uint _) (·.maximumAttempts), .of (parses_uint _) (·.createdStoreTimeNs), trivial⟩

lemma parses_job : Parses (readJob 64) (fun r => writeFields (.job r)) JobRecord.WellFormed := by
  refine parses_record job_layout (fun r => ⟨some r.jobId, r.payloadKey, some r.contentType, r.notBeforeNs,
      some r.payloadDigest, r.payloadInline, some r.payloadLength, some r.maximumAttempts, some r.createdStoreTimeNs⟩)
    (fun r => r.payloadInline.isSome ≠ r.payloadKey.isSome) (fun d data r rest _ => ?_) (fun r => ?_) (fun r => ?_)
  · cases d
    cases r
    simp only [check_eq_ok, require_bind_eq_ok, pure_eq_ok]
    grind
  · cases hkey : r.payloadKey <;> cases hdelay : r.notBeforeNs <;> cases hinline : r.payloadInline <;>
      simp [writeMap, present, render, JobDraft.draw, uintCell, fixedCell, textCell, cell, jobKeys, writeFields, putKey,
        putKeyBytes, putKeyText, putOpt, countSome, hkey, hdelay, hinline]
  · simp only [JobDraft.draw, fit_cell, fit_fixed, fit_uint, fit_text, fit_nil, Option.some.injEq, forall_eq', and_true]
    exact ⟨fun h => ⟨h.2, h.1.2.1, h.1.2.2, h.1.1⟩,
      fun h => ⟨⟨h.payloadKey, h.contentType, h.payloadInline⟩, h.exclusive⟩⟩

def BasisDraft.draw (d : BasisDraft) : List (Option Written) :=
  [uintCell d.prevDurationNs, uintCell d.prevStoreTimeNs, uintCell d.observedWatermarkNs]

def BasisDraft.cut (n : Nat) (d : BasisDraft) : BasisDraft :=
  ⟨keep n 0 d.prevDurationNs, keep n 1 d.prevStoreTimeNs, keep n 2 d.observedWatermarkNs⟩

lemma basis_layout : Layout BasisDraft.draw BasisDraft.cut basisKeys {} where
  rows := ⟨.of (parses_uint _) (·.prevDurationNs), .of (parses_uint _) (·.prevStoreTimeNs),
    .of (parses_uint _) (·.observedWatermarkNs), trivial⟩

/-- The fields map of a basis. -/
def putBasis (b : ClaimBasis) : Bytes :=
  pushHead 5 3 ++ putKey Field.prevDurationNs b.prevDurationNs ++ putKey Field.prevStoreTimeNs b.prevStoreTimeNs ++
    putKey Field.observedWatermarkNs b.observedWatermarkNs

lemma parses_basis : Parses (readBasis 64) putBasis fun _ => True := by
  refine parses_record basis_layout
    (fun b => ⟨some b.prevDurationNs, some b.prevStoreTimeNs, some b.observedWatermarkNs⟩)
    (fun _ => True) (fun d data r rest _ => ?_) (fun r => ?_) (fun r => ?_)
  · cases d
    cases r
    simp only [require_bind_eq_ok, pure_eq_ok]
    grind
  · simp [writeMap, present, render, BasisDraft.draw, uintCell, cell, basisKeys, putBasis, putKey, putOpt]
  · simp only [BasisDraft.draw, fit_uint, fit_nil, and_self]

/-- A takeover carries its basis, a continuation the token it continues. -/
structure ClaimRecord.WellFormed (r : ClaimRecord) : Prop where
  basis : r.basis.isSome = !r.continuation
  prevToken : r.prevToken.isSome = r.continuation
  workerId : (utf8 r.workerId).length < 2 ^ 64

def ClaimDraft.draw (d : ClaimDraft) : List (Option Written) :=
  [cell putBasis (fun _ => True) d.basis, fixedCell d.jobId, uintCell d.attempt, textCell d.workerId,
    uintCell d.generation, fixedCell d.prevToken, cell (fun c => [if c then 0xf5 else 0xf4]) (fun _ => True) d.continuation,
    fixedCell d.workerToken, uintCell d.leaseDurationNs]

def ClaimDraft.cut (n : Nat) (d : ClaimDraft) : ClaimDraft :=
  ⟨keep n 0 d.basis, keep n 1 d.jobId, keep n 2 d.attempt, keep n 3 d.workerId, keep n 4 d.generation,
    keep n 5 d.prevToken, keep n 6 d.continuation, keep n 7 d.workerToken, keep n 8 d.leaseDurationNs⟩

lemma claim_layout : Layout ClaimDraft.draw ClaimDraft.cut (claimKeys 64) {} where
  rows := ⟨.of parses_basis (·.basis), .of (parses_fixed (by decide)) (·.jobId), .of (parses_uint _) (·.attempt),
    .of parses_text (·.workerId), .of (parses_uint _) (·.generation), .of (parses_fixed (by decide)) (·.prevToken),
    .of parses_bool (·.continuation), .of (parses_fixed (by decide)) (·.workerToken),
    .of (parses_uint _) (·.leaseDurationNs), trivial⟩

lemma parses_claim : Parses (readClaim 64) (fun r => writeFields (.claim r)) ClaimRecord.WellFormed := by
  refine parses_record claim_layout (fun r => ⟨r.basis, some r.jobId, some r.attempt, some r.workerId,
      some r.generation, r.prevToken, some r.continuation, some r.workerToken, some r.leaseDurationNs⟩)
    (fun r => r.basis.isSome = !r.continuation ∧ r.prevToken.isSome = r.continuation)
    (fun d data r rest _ => ?_) (fun r => ?_) (fun r => ?_)
  · have hshape : ∀ c b t : Bool, ¬(c = b ∨ c ≠ t ∨ b = t) ↔ b = !c ∧ t = c := by decide
    cases d
    cases r
    simp only [check_eq_ok, require_bind_eq_ok, pure_eq_ok, hshape]
    grind
  · cases hbasis : r.basis <;> cases htoken : r.prevToken <;>
      simp [writeMap, present, render, ClaimDraft.draw, uintCell, fixedCell, textCell, cell, claimKeys, writeFields,
        putBasis, putKey, putKeyBytes, putKeyText, putKeyBool, putOpt, countSome, hbasis, htoken]
  · simp only [ClaimDraft.draw, fit_cell, fit_fixed, fit_uint, fit_text, fit_nil, Option.some.injEq, forall_eq',
      implies_true, true_and, and_true]
    exact ⟨fun h => ⟨h.2.1, h.2.2, h.1⟩, fun h => ⟨h.workerId, h.basis, h.prevToken⟩⟩

/-- Every length fits the wire. -/
structure ReceiptRecord.WellFormed (r : ReceiptRecord) : Prop where
  workerId : (utf8 r.workerId).length < 2 ^ 64
  outputDigests : r.outputDigests.length < 2 ^ 64

lemma readDigests_eq_ok {ds : List Digest} : readDigests 64 n data = .ok (ds, rest) ↔
    data = (ds.flatMap fun d => putBytes d.toList) ++ rest ∧ ds.length = n := by
  induction n generalizing data rest ds with
  | zero =>
    rw [readDigests, pure_eq_ok, List.length_eq_zero_iff]
    constructor <;> rintro ⟨rfl, rfl⟩ <;> exact ⟨rfl, rfl⟩
  | succ n ih =>
    simp only [readDigests, bind_eq_ok, pure_eq_ok, ih, parses_fixed (by decide : 32 < 2 ^ 64) _ _ _]
    constructor
    · rintro ⟨d, mid, ⟨rfl, -⟩, ds', mid', ⟨rfl, rfl⟩, rfl, rfl⟩
      exact ⟨by simp, rfl⟩
    · rintro ⟨rfl, hlen⟩
      obtain ⟨d, ds, rfl⟩ := List.exists_cons_of_length_eq_add_one hlen
      exact ⟨d, _, ⟨by rw [List.flatMap_cons, List.append_assoc], trivial⟩, ds, rest,
        ⟨rfl, Nat.succ.inj hlen⟩, rfl, rfl⟩

lemma parses_outputDigests : Parses (readOutputDigests 64)
    (fun ds => pushHead 4 (UInt64.ofNat ds.length) ++ ds.flatMap fun d => putBytes d.toList)
    fun ds => ds ≠ [] ∧ ds.length < 2 ^ 64 := by
  refine parses_headed (by decide : (4 : UInt8) < 8) (fun _ _ => rfl) fun n data ds rest => ?_
  rw [check_eq_ok, readDigests_eq_ok]
  constructor
  · rintro ⟨hn, rfl, hlen⟩
    have hback : UInt64.ofNat ds.length = n := by rw [hlen, UInt64.ofNat_toNat]
    refine ⟨rfl, ⟨?_, hlen ▸ n.toNat_lt⟩, hback⟩
    rintro rfl
    exact hn hback.symm
  · rintro ⟨rfl, ⟨hne, hlt⟩, rfl⟩
    have hback : (UInt64.ofNat ds.length).toNat = ds.length := UInt64.toNat_ofNat_of_lt' hlt
    refine ⟨fun hzero => hne ?_, rfl, hback.symm⟩
    rw [hzero] at hback
    exact List.length_eq_zero_iff.mp hback.symm

def ReceiptDraft.draw (d : ReceiptDraft) : List (Option Written) :=
  [fixedCell d.jobId, uintCell d.attempt, textCell d.workerId, uintCell d.generation, fixedCell d.workerToken,
    cell (fun ds => pushHead 4 (UInt64.ofNat ds.length) ++ ds.flatMap fun d => putBytes d.toList)
      (fun ds => ds ≠ [] ∧ ds.length < 2 ^ 64) d.outputDigests, fixedCell d.payloadDigest]

def ReceiptDraft.cut (n : Nat) (d : ReceiptDraft) : ReceiptDraft :=
  ⟨keep n 0 d.jobId, keep n 1 d.attempt, keep n 2 d.workerId, keep n 3 d.generation, keep n 4 d.workerToken,
    keep n 5 d.outputDigests, keep n 6 d.payloadDigest⟩

lemma receipt_layout : Layout ReceiptDraft.draw ReceiptDraft.cut (receiptKeys 64) {} where
  rows := ⟨.of (parses_fixed (by decide)) (·.jobId), .of (parses_uint _) (·.attempt), .of parses_text (·.workerId),
    .of (parses_uint _) (·.generation), .of (parses_fixed (by decide)) (·.workerToken),
    .of parses_outputDigests (·.outputDigests), .of (parses_fixed (by decide)) (·.payloadDigest), trivial⟩

lemma parses_receipt : Parses (readReceipt 64) (fun r => writeFields (.receipt r)) ReceiptRecord.WellFormed := by
  -- an empty output list is written as an absent field
  refine parses_record receipt_layout (fun r => ⟨some r.jobId, some r.attempt, some r.workerId, some r.generation,
      some r.workerToken, if r.outputDigests = [] then none else some r.outputDigests, some r.payloadDigest⟩)
    (fun _ => True) (fun d data r rest hfit => ?_) (fun r => ?_) (fun r => ?_)
  · have hne : d.outputDigests ≠ some [] := by
      intro h
      simp [Fit, ReceiptDraft.draw, cell, h] at hfit
    have houtputs : ∀ ds, ds = d.outputDigests.getD [] ↔ d.outputDigests = if ds = [] then none else some ds := by
      intro ds
      cases h : d.outputDigests <;> grind
    cases d
    cases r
    simp only [require_bind_eq_ok, pure_eq_ok, ReceiptRecord.mk.injEq, ReceiptDraft.mk.injEq, houtputs]
    grind
  · cases houtputs : r.outputDigests <;>
      simp [writeMap, present, render, ReceiptDraft.draw, uintCell, fixedCell, textCell, cell, receiptKeys, writeFields,
        putKey, putKeyBytes, putKeyText, putOpt, houtputs]
  · simp only [ReceiptDraft.draw, fit_cell, fit_fixed, fit_uint, fit_text, fit_nil, Option.some.injEq, forall_eq',
      and_true]
    cases houtputs : r.outputDigests with
    | nil => exact ⟨fun h => ⟨h.1, by rw [houtputs]; decide⟩, fun h => ⟨h.workerId, nofun⟩⟩
    | cons d ds =>
      refine ⟨fun h => ⟨h.1, houtputs ▸ (h.2 (d :: ds) rfl).2⟩, fun h => ⟨h.workerId, ?_⟩⟩
      rintro _ ⟨⟩
      exact ⟨List.cons_ne_nil d ds, houtputs ▸ h.outputDigests⟩

/-! ## The envelope -/

/-- The records `encode` can be inverted on. -/
def Record.WellFormed : Record → Prop
  | .format r => r.shardCount ≤ 65536
  | .job r => r.WellFormed
  | .claim r => r.WellFormed
  | .receipt r => r.WellFormed
  | .quarantine r => (utf8 r.sourceKey).length < 2 ^ 64
  | .fail _ | .dead _ | .watermark _ => True

/-- The fields of a record are what the encoder writes. -/
lemma parseFields_eq_ok {t : UInt64} {r : Record} : parseFields 64 t data = .ok (r, rest) ↔
    data = writeFields r ++ rest ∧ r.WellFormed ∧ r.typeNumber = t := by
  unfold parseFields
  split_ifs
  case neg =>
    refine ⟨fun h => absurd h throw_eq_ok, ?_⟩
    rintro ⟨-, -, rfl⟩
    cases r <;> simp_all [Record.typeNumber]
  all_goals
    subst t
    simp only [map_eq_ok, parses_format _ _ _, parses_job _ _ _, parses_claim _ _ _, parses_fail _ _ _,
      parses_receipt _ _ _, parses_dead _ _ _, parses_watermark _ _ _, parses_quarantine _ _ _]
    cases r <;> simp [Record.WellFormed, Record.typeNumber]

lemma typeName_isSome (r : Record) : typeName r.typeNumber = some ((typeName r.typeNumber).getD []) := by
  cases r <;> rfl

section Envelope

variable [Sha256] {queueId : ByteArr 16} {keyTag : ByteArr 8} {r : Record}

/-- The fields of a record, behind the checks of the envelope. -/
lemma checked_eq_ok {rtype : UInt64} {qid tag : Bytes} : (match typeName rtype with
      | none => throw RecordError.type
      | some typeStr =>
        if (recordDigest typeStr body).toList ≠ found.drop 2 then throw RecordError.digest
        else if qid ≠ queueId.toList ∨ tag ≠ keyTag.toList then throw (RecordError.field "queue binding")
        else parseFields 64 rtype : Parser Record) data = .ok (r, rest) ↔
    (recordDigest ((typeName r.typeNumber).getD []) body).toList = found.drop 2 ∧ (qid = queueId.toList ∧
      tag = keyTag.toList) ∧ data = writeFields r ++ rest ∧ r.WellFormed ∧ r.typeNumber = rtype := by
  cases htype : typeName rtype with
  | none =>
    refine ⟨fun h => absurd h throw_eq_ok, ?_⟩
    rintro ⟨-, -, -, -, rfl⟩
    rw [typeName_isSome] at htype
    cases htype
  | some typeStr =>
    simp only [check_eq_ok, parseFields_eq_ok, not_not, not_or, ne_eq]
    refine and_congr_left ?_
    rintro ⟨-, -, -, rfl⟩
    rw [htype]
    rfl

lemma decodeEnvelope_eq_ok : decodeEnvelope 64 body found queueId keyTag data = .ok (r, rest) ↔
    data = encodeBody r queueId keyTag ++ rest ∧ r.WellFormed ∧
      (recordDigest ((typeName r.typeNumber).getD []) body).toList = found.drop 2 := by
  unfold decodeEnvelope envUint envBytes
  simp only [bind_eq_ok, check_eq_ok, Prod.exists, parses_uint _ _ _ _, parses_bytes _ _ _ _, readHead_eq_ok, not_not,
    not_or, ne_eq]
  constructor
  · rintro ⟨_, _, _, ⟨rfl, -⟩, ⟨rfl, rfl⟩, _, _, ⟨rfl, -⟩, _, _, ⟨rfl, -⟩, _, _, ⟨rfl, -⟩, _, _, ⟨rfl, -⟩, _, _,
      ⟨rfl, -⟩, _, _, ⟨rfl, -⟩, rfl, ⟨rfl, rfl⟩, hfields⟩
    obtain ⟨hdigest, ⟨rfl, rfl⟩, rfl, hwell, rfl⟩ := checked_eq_ok.mp hfields
    exact ⟨by simp [encodeBody], hwell, hdigest⟩
  · rintro ⟨rfl, hwell, hdigest⟩
    have hqid : queueId.toList.length = 16 := queueId.toList_length
    have htag : keyTag.toList.length = 8 := keyTag.toList_length
    simp only [encodeBody, List.append_assoc]
    exact ⟨4, 7, _, ⟨rfl, by decide⟩, ⟨rfl, rfl⟩, _, _, ⟨rfl, trivial⟩, _, _, ⟨rfl, trivial⟩, _, _, ⟨rfl, trivial⟩,
      _, _, ⟨rfl, by omega⟩, _, _, ⟨rfl, by omega⟩, _, _, ⟨rfl, trivial⟩, rfl, ⟨rfl, rfl⟩,
      checked_eq_ok.mpr ⟨hdigest, ⟨rfl, rfl⟩, rfl, hwell, rfl⟩⟩

/-- The digest item that the body of a record of this type ends with. -/
def trailer (r : Record) (body : Bytes) : Bytes :=
  [0x58, 32] ++ (recordDigest ((typeName r.typeNumber).getD []) body).toList

lemma trailer_length (r : Record) (body : Bytes) : (trailer r body).length = 34 := by
  rw [trailer, List.length_append, List.Vector.toList_length]
  rfl

lemma encode_eq_trailer (r : Record) (queueId : ByteArr 16) (keyTag : ByteArr 8) :
    encode r queueId keyTag = encodeBody r queueId keyTag ++ trailer r (encodeBody r queueId keyTag) := by
  simp [encode, trailer]

lemma eq_trailer (hmark : found.take 2 = [0x58, 32])
    (hdigest : (recordDigest ((typeName r.typeNumber).getD []) body).toList = found.drop 2) :
    found = trailer r body := by
  rw [trailer, hdigest, ← hmark, List.take_append_drop]

omit [Sha256] in
/-- Both decoders split the digest item off the end of the input. -/
lemma framed_eq_ok {x : Except RecordError Record} {P : Bytes → Bytes → Prop}
    (hx : x = .ok r ↔ P (data.take (data.length - 34)) (data.drop (data.length - 34))) :
    (if data.length < 34 then .error .envelope
      else if (data.drop (data.length - 34)).take 2 ≠ [0x58, 32] then .error .envelope else x) = .ok r ↔
    ∃ body found, data = body ++ found ∧ found.length = 34 ∧ found.take 2 = [0x58, 32] ∧ P body found := by
  constructor
  · intro h
    split_ifs at h with hlen hmark
    refine ⟨_, _, (List.take_append_drop (data.length - 34) data).symm, ?_, not_not.mp hmark, hx.mp h⟩
    rw [List.length_drop]
    omega
  · rintro ⟨body, found, rfl, hfound, hmark, h⟩
    have hlen : (body ++ found).length - 34 = body.length := by rw [List.length_append, hfound, Nat.add_sub_cancel]
    rw [hlen, List.take_left, List.drop_left] at hx
    rw [hlen, List.drop_left, if_neg (by rw [List.length_append]; omega), if_neg (not_not.mpr hmark), hx.mpr h]

lemma decodeRecord_eq_ok {bits : Nat} : decodeRecord bits data queueId keyTag = .ok r ↔ ∃ body found,
    data = body ++ found ∧ found.length = 34 ∧ found.take 2 = [0x58, 32] ∧
    decodeEnvelope bits body found queueId keyTag body = .ok (r, []) := by
  refine framed_eq_ok ?_
  split <;> grind

/-- **The decoder accepts the encodings of well-formed records**, and nothing else. -/
theorem decode_iff_encode : decode data queueId keyTag = .ok r ↔ data = encode r queueId keyTag ∧ r.WellFormed := by
  simp only [decode, decodeRecord_eq_ok, decodeEnvelope_eq_ok, List.append_nil]
  constructor
  · rintro ⟨body, found, rfl, -, hmark, rfl, hwell, hdigest⟩
    rw [encode_eq_trailer, eq_trailer hmark hdigest]
    exact ⟨rfl, hwell⟩
  · rintro ⟨rfl, hwell⟩
    exact ⟨_, _, encode_eq_trailer r queueId keyTag, trailer_length r _, rfl, rfl, hwell, rfl⟩

lemma eq_encode_of_decode (h : decode data queueId keyTag = .ok r) :
    data = encode r queueId keyTag ∧ r.WellFormed := decode_iff_encode.mp h

lemma decode_encode (r : Record) (h : r.WellFormed) (queueId : ByteArr 16) (keyTag : ByteArr 8) :
    decode (encode r queueId keyTag) queueId keyTag = .ok r := decode_iff_encode.mpr ⟨rfl, h⟩

omit [Sha256] in
lemma encodeBody_inj {r' : Record} {queueId' : ByteArr 16} {keyTag' : ByteArr 8}
    (h : encodeBody r queueId keyTag = encodeBody r' queueId' keyTag') :
    queueId = queueId' ∧ keyTag = keyTag' := by
  have hform : ∀ (r : Record) (queueId : ByteArr 16) (keyTag : ByteArr 8), encodeBody r queueId keyTag =
      (pushHead 4 7 ++ pushHead 0 magic ++ pushHead 0 major ++ pushHead 0 minor ++ pushHead 2 16) ++
        (queueId.toList ++ (pushHead 2 8 ++ (keyTag.toList ++ (pushHead 0 r.typeNumber ++ writeFields r)))) := by
    intro r queueId keyTag
    have hqueue : UInt64.ofNat queueId.toList.length = 16 := by rw [queueId.toList_length]; rfl
    have htag : UInt64.ofNat keyTag.toList.length = 8 := by rw [keyTag.toList_length]; rfl
    simp only [encodeBody, putBytes, hqueue, htag, List.append_assoc]
  rw [hform, hform] at h
  have hrest := List.append_cancel_left h
  obtain ⟨hqueue, hrest⟩ := List.append_inj hrest (by rw [queueId.toList_length, queueId'.toList_length])
  have hrest := List.append_cancel_left hrest
  obtain ⟨htag, -⟩ := List.append_inj hrest (by rw [keyTag.toList_length, keyTag'.toList_length])
  exact ⟨List.Vector.toList_injective hqueue, List.Vector.toList_injective htag⟩

/-- **The record codec is a bijection** between the well-formed records and the accepted byte
strings, for each queue and key; and an accepted byte string determines all three. -/
theorem codec_bijective :
    (∀ b queueId keyTag r, decode b queueId keyTag = .ok r ↔ b = encode r queueId keyTag ∧ r.WellFormed) ∧
    ∀ b queueId keyTag r queueId' keyTag' r', decode b queueId keyTag = .ok r →
      decode b queueId' keyTag' = .ok r' → r = r' ∧ queueId = queueId' ∧ keyTag = keyTag' := by
  constructor
  · exact fun b queueId keyTag r => ⟨eq_encode_of_decode, fun ⟨hb, hwell⟩ => hb ▸ decode_encode r hwell queueId keyTag⟩
  · intro b queueId keyTag r queueId' keyTag' r' h h'
    have hsame := (eq_encode_of_decode h).1.symm.trans (eq_encode_of_decode h').1
    simp only [encode, List.append_assoc] at hsame
    obtain ⟨hbody, -⟩ := List.append_inj' hsame (by simp)
    obtain ⟨rfl, rfl⟩ := encodeBody_inj hbody
    exact ⟨Except.ok.inj (h.symm.trans h'), rfl, rfl⟩

end Envelope

/-- A watermark record is accepted, under the queue and the key it was written for. -/
theorem codec_bijective_watermark : ∃ (_ : Sha256) (b : Bytes) (queueId : ByteArr 16) (keyTag : ByteArr 8),
    decode b queueId keyTag = .ok (.watermark ⟨7, 1⟩) ∧ ∀ queueId' keyTag' r',
      decode b queueId' keyTag' = .ok r' → .watermark ⟨7, 1⟩ = r' ∧ queueId = queueId' ∧ keyTag = keyTag' := by
  let hash := Sha256.zero
  let queueId : ByteArr 16 := List.Vector.replicate 16 1
  let keyTag : ByteArr 8 := List.Vector.replicate 8 2
  have hdec := (codec_bijective.1 (encode (.watermark ⟨7, 1⟩) queueId keyTag) queueId keyTag
    (.watermark ⟨7, 1⟩)).mpr ⟨rfl, trivial⟩
  exact ⟨hash, _, queueId, keyTag, hdec, fun queueId' keyTag' r' h' =>
    codec_bijective.2 _ _ _ _ queueId' keyTag' r' hdec h'⟩

end Format
end StowQ
