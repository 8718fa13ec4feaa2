import StowQ.Format.Canonical

/-!
# The width of `usize`

Lengths and counts are 64-bit on the wire and pass through a cast to `usize`.  Where that type
has 32 bits the cast drops the high half.  An accepted input is a sequence of tokens: item
heads, each with the bytes of its string.  `Narrows p q` relates a reader `p` on a 32-bit target
to the same reader `q` on a 64-bit target: `p` accepts the tokens that `q` accepts once their
lengths are reduced modulo `2 ^ 32`.  The relation is closed under composition, so it holds of
the whole decoder (`narrows_value`).
-/

namespace StowQ
namespace Cbor

open Data

variable {data : Bytes} {v : Value} {t : Token} {ts : List Token}

/-! ## Tokens -/

/-- An item head with the bytes of its string, if it is one. -/
structure Token where
  major : UInt8
  arg : UInt64
  payload : Bytes

/-- A byte or a text string. -/
def isString (major : UInt8) : Bool := major == 2 || major == 3

/-- The string behind the head has the length that a 32-bit target takes it to have. -/
structure Token.Fitting (t : Token) : Prop where
  major : t.major < 8
  payload : t.payload.length = if isString t.major then asUsize 32 t.arg else 0

def Token.write (t : Token) : Bytes := pushHead t.major t.arg ++ t.payload

/-- The bytes of a sequence of tokens. -/
def write (ts : List Token) : Bytes := ts.flatMap Token.write

/-- The argument of a head, reduced if its major type is one of those that are `cut`. -/
def reduced (cut : UInt8 → Bool) (major : UInt8) (arg : UInt64) : UInt64 :=
  if cut major then UInt64.ofNat (asUsize 32 arg) else arg

def Token.lower (cut : UInt8 → Bool) (t : Token) : Token :=
  { t with arg := reduced cut t.major t.arg }

/-- The tokens with their lengths modulo `2 ^ 32`. -/
def lower (cut : UInt8 → Bool) (ts : List Token) : List Token := ts.map (Token.lower cut)

section Tokens

variable {cut : UInt8 → Bool} {major : UInt8} {arg : UInt64}

@[simp] lemma write_nil : write [] = [] := rfl

@[simp] lemma write_cons (t : Token) (ts : List Token) : write (t :: ts) = t.write ++ write ts := rfl

@[simp] lemma write_append (ts us : List Token) : write (ts ++ us) = write ts ++ write us := List.flatMap_append

@[simp] lemma lower_nil : lower cut [] = [] := rfl

@[simp] lemma lower_cons (t : Token) (ts : List Token) : lower cut (t :: ts) = t.lower cut :: lower cut ts := rfl

@[simp] lemma lower_append (ts us : List Token) : lower cut (ts ++ us) = lower cut ts ++ lower cut us :=
  List.map_append

lemma asUsize_lt (bits : Nat) (arg : UInt64) : asUsize bits arg < 2 ^ bits := Nat.mod_lt _ (Nat.two_pow_pos bits)

/-- The reduced length is the same on both targets. -/
lemma asUsize_ofNat_asUsize (arg : UInt64) : asUsize 64 (UInt64.ofNat (asUsize 32 arg)) = asUsize 32 arg :=
  asUsize_ofNat (Nat.lt_trans (asUsize_lt 32 arg) (by decide))

lemma ofNat_asUsize_of_lt (h : arg.toNat < 2 ^ 32) : UInt64.ofNat (asUsize 32 arg) = arg := by
  rw [asUsize, Nat.mod_eq_of_lt h, UInt64.ofNat_toNat]

lemma reduced_of_cut (h : cut major = true) (arg : UInt64) :
    reduced cut major arg = UInt64.ofNat (asUsize 32 arg) := by
  rw [reduced, if_pos h]

lemma reduced_of_not_cut (h : cut major = false) (arg : UInt64) : reduced cut major arg = arg := by
  rw [reduced, h]
  rfl

/-- Both targets take a reduced length for what a 32-bit target takes the length for. -/
lemma asUsize_of_reduced {arg' : UInt64} (hcut : cut major = true) (h : reduced cut major arg' = arg) :
    asUsize 32 arg' = asUsize 64 arg := by
  rw [← h, reduced_of_cut hcut, asUsize_ofNat_asUsize]

lemma pushHead_length (major : UInt8) (arg : UInt64) : (pushHead major arg).length =
    if arg.toNat ≤ 23 then 1 else if arg.toNat ≤ 0xff then 2 else if arg.toNat ≤ 0xffff then 3
      else if arg.toNat ≤ 0xffffffff then 5 else 9 := by
  have h1 : arg ≤ 23 ↔ arg.toNat ≤ 23 := UInt64.le_iff_toNat_le
  have h₂ : arg ≤ 0xff ↔ arg.toNat ≤ 0xff := UInt64.le_iff_toNat_le
  have h₃ : arg ≤ 0xffff ↔ arg.toNat ≤ 0xffff := UInt64.le_iff_toNat_le
  have h₄ : arg ≤ 0xffffffff ↔ arg.toNat ≤ 0xffffffff := UInt64.le_iff_toNat_le
  unfold pushHead
  simp only [h1, h₂, h₃, h₄]
  split_ifs <;> simp

lemma pushHead_reduced_le (cut : UInt8 → Bool) (major : UInt8) (arg : UInt64) :
    (pushHead major (reduced cut major arg)).length ≤ (pushHead major arg).length := by
  have hle : (reduced cut major arg).toNat ≤ arg.toNat := by
    unfold reduced
    split_ifs
    · rw [asUsize, UInt64.toNat_ofNat']
      omega
    · exact Nat.le_refl _
  rw [pushHead_length, pushHead_length]
  split_ifs <;> omega

lemma length_lower_le (cut : UInt8 → Bool) (ts : List Token) : (write (lower cut ts)).length ≤ (write ts).length := by
  induction ts with
  | nil => exact Nat.le_refl _
  | cons t ts ih =>
    have hhead := pushHead_reduced_le cut t.major t.arg
    simp only [lower_cons, write_cons, List.length_append, Token.write, Token.lower]
    omega

/-- A token is read back, and so is what follows it. -/
lemma write_cons_inj {u : Token} {b c : Bytes} (ht : t.Fitting) (hu : u.Fitting)
    (h : t.write ++ b = u.write ++ c) : t = u ∧ b = c := by
  have hread := head_pushHead t.major ht.major t.arg (t.payload ++ b)
  rw [← List.append_assoc] at hread
  change head (t.write ++ b) = _ at hread
  rw [h, Token.write, List.append_assoc, head_pushHead u.major hu.major] at hread
  obtain ⟨hhead, hrest⟩ := Prod.mk.inj (Except.ok.inj hread)
  obtain ⟨hmajor, harg⟩ := Prod.mk.inj hhead
  have hlen : u.payload.length = t.payload.length := by rw [ht.payload, hu.payload, hmajor, harg]
  obtain ⟨hpayload, hbc⟩ := List.append_inj hrest hlen
  refine ⟨?_, hbc.symm⟩
  cases t
  cases u
  simp_all

lemma Token.write_ne_nil (ht : t.Fitting) : t.write ≠ [] := by
  intro h
  have hread := head_pushHead t.major ht.major t.arg t.payload
  change head t.write = _ at hread
  rw [h] at hread
  cases hread

/-- **Tokens are read back.** -/
theorem write_inj {us : List Token} (hts : ∀ t ∈ ts, t.Fitting) (hus : ∀ u ∈ us, u.Fitting)
    (h : write ts = write us) : ts = us := by
  induction ts generalizing us with
  | nil =>
    cases us with
    | nil => rfl
    | cons u us => exact absurd (List.append_eq_nil_iff.mp h.symm).1 (Token.write_ne_nil (hus u List.mem_cons_self))
  | cons t ts ih =>
    cases us with
    | nil => exact absurd (List.append_eq_nil_iff.mp h).1 (Token.write_ne_nil (hts t List.mem_cons_self))
    | cons u us =>
      obtain ⟨rfl, hrest⟩ := write_cons_inj (hts t List.mem_cons_self) (hus u List.mem_cons_self) h
      rw [ih (fun x hx => hts x (List.mem_cons_of_mem _ hx)) (fun x hx => hus x (List.mem_cons_of_mem _ hx)) hrest]

lemma Token.Fitting.lower (ht : t.Fitting) (hcut : ∀ m, isString m = true → cut m = true) :
    (t.lower cut).Fitting := by
  refine ⟨ht.major, ?_⟩
  show t.payload.length = if isString t.major then asUsize 32 (reduced cut t.major t.arg) else 0
  rw [ht.payload]
  by_cases hs : isString t.major = true
  · rw [if_pos hs, if_pos hs, reduced_of_cut (hcut _ hs), asUsize, asUsize, UInt64.toNat_ofNat']
    omega
  · rw [if_neg hs, if_neg hs]

lemma fitting_lower (hcut : ∀ m, isString m = true → cut m = true) (h : ∀ t ∈ ts, t.Fitting) :
    ∀ t ∈ lower cut ts, t.Fitting := by
  intro t ht
  obtain ⟨u, hu, rfl⟩ := List.mem_map.mp ht
  exact (h u hu).lower hcut

end Tokens

/-! ## Readers on both targets -/

/-- A reader on a 32-bit target and on a 64-bit target: the first accepts tokens exactly if the second accepts
them with their lengths reduced, and the second accepts no long ones in a short input. -/
structure Narrows {ε α : Type} (cut : UInt8 → Bool) (p q : Reader UInt8 ε α) : Prop where
  lowers : ∀ {data a rest}, p data = .ok (a, rest) → ∃ ts, (∀ t ∈ ts, t.Fitting) ∧ data = write ts ++ rest ∧
    Reads q (write (lower cut ts)) a
  raises : ∀ {data a rest}, data.length < 2 ^ 32 → q data = .ok (a, rest) → ∃ ts, (∀ t ∈ ts, t.Fitting) ∧
    data = write ts ++ rest ∧ lower cut ts = ts ∧
    ∀ us, (∀ u ∈ us, u.Fitting) → lower cut us = ts → Reads p (write us) a

/-- The same for what follows a head of one major type. -/
structure After {ε α : Type} (cut : UInt8 → Bool) (major : UInt8) (f g : UInt64 → Reader UInt8 ε α) : Prop where
  lowers : ∀ {arg data a rest}, major < 8 → f arg data = .ok (a, rest) → ∃ payload ts,
    Token.Fitting ⟨major, arg, payload⟩ ∧ (∀ t ∈ ts, t.Fitting) ∧ data = payload ++ (write ts ++ rest) ∧
    Reads (g (reduced cut major arg)) (payload ++ write (lower cut ts)) a
  raises : ∀ {arg data a rest}, major < 8 → data.length < 2 ^ 32 → g arg data = .ok (a, rest) → ∃ payload ts,
    Token.Fitting ⟨major, arg, payload⟩ ∧ (∀ t ∈ ts, t.Fitting) ∧ data = payload ++ (write ts ++ rest) ∧
    reduced cut major arg = arg ∧ lower cut ts = ts ∧
    ∀ arg' us, reduced cut major arg' = arg → (∀ u ∈ us, u.Fitting) → lower cut us = ts →
      Reads (f arg') (payload ++ write us) a

/-- A reader of heads. -/
structure Heads {ε : Type} (h : Reader UInt8 ε (UInt8 × UInt64)) : Prop where
  reads : ∀ {major}, major < 8 → ∀ arg, Reads h (pushHead major arg) (major, arg)
  inverts : ∀ {data major arg rest}, h data = .ok ((major, arg), rest) → major < 8 ∧ data = pushHead major arg ++ rest

/-- A reader of so many bytes. -/
structure Takes {ε : Type} (k : Nat → Reader UInt8 ε Bytes) : Prop where
  reads : ∀ b, Reads (k b.length) b b
  inverts : ∀ {n data b rest}, k n data = .ok (b, rest) → data = b ++ rest ∧ b.length = n

section Closure

variable {ε α β : Type} {cut : UInt8 → Bool} {p q : Reader UInt8 ε α}

lemma fitting_append {us : List Token} (hts : ∀ t ∈ ts, t.Fitting) (hus : ∀ u ∈ us, u.Fitting) :
    ∀ t ∈ ts ++ us, t.Fitting := by
  intro t ht
  obtain ht | ht := List.mem_append.mp ht
  · exact hts t ht
  · exact hus t ht

namespace Narrows

lemma pure (a : α) : Narrows cut (Pure.pure a : Reader UInt8 ε α) (Pure.pure a) where
  lowers h := by
    obtain ⟨rfl, rfl⟩ := pure_eq_ok.mp h
    exact ⟨[], nofun, rfl, Reads.pure _⟩
  raises _ h := by
    obtain ⟨rfl, rfl⟩ := pure_eq_ok.mp h
    refine ⟨[], nofun, rfl, rfl, fun us _ hus => ?_⟩
    obtain rfl := List.map_eq_nil_iff.mp hus
    exact Reads.pure _

lemma throw (e e' : ε) : Narrows cut (MonadExcept.throw e : Reader UInt8 ε α) (MonadExcept.throw e') where
  lowers h := absurd h throw_eq_ok
  raises _ h := absurd h throw_eq_ok

lemma lift (r : Except ε α) : Narrows cut (liftM r : Reader UInt8 ε α) (liftM r) := by
  cases r with
  | ok a => exact pure a
  | error e => exact throw e e

lemma bind {f g : α → Reader UInt8 ε β} (hp : Narrows cut p q) (hf : ∀ a, Narrows cut (f a) (g a)) :
    Narrows cut (p >>= f) (q >>= g) where
  lowers h := by
    obtain ⟨a, mid, ha, hb⟩ := bind_eq_ok.mp h
    obtain ⟨ts, hts, rfl, hq⟩ := hp.lowers ha
    obtain ⟨us, hus, rfl, hg⟩ := (hf a).lowers hb
    refine ⟨ts ++ us, fitting_append hts hus, by simp, ?_⟩
    rw [lower_append, write_append]
    exact hq.bind hg
  raises hlen h := by
    obtain ⟨a, mid, ha, hb⟩ := bind_eq_ok.mp h
    obtain ⟨ts, hts, rfl, hsame, hread⟩ := hp.raises hlen ha
    obtain ⟨us, hus, rfl, hsame', hread'⟩ := (hf a).raises (by simp at hlen; omega) hb
    refine ⟨ts ++ us, fitting_append hts hus, by simp, by rw [lower_append, hsame, hsame'], fun vs hvs heq => ?_⟩
    -- the tokens of the two readers
    obtain ⟨vs1, vs2, rfl, heq1, heq2⟩ := List.map_eq_append_iff.mp heq
    rw [write_append]
    exact (hread vs1 (fun v hv => hvs v (List.mem_append_left _ hv)) heq1).bind
      (hread' vs2 (fun v hv => hvs v (List.mem_append_right _ hv)) heq2)

/-- A reader and a value computed from what it read. -/
lemma map {f : α → β} (hp : Narrows cut p q) : Narrows cut (do Pure.pure (f (← p))) (do Pure.pure (f (← q))) :=
  hp.bind fun a => pure (f a)

lemma many (hp : Narrows cut p q) (n : Nat) : Narrows cut (many p n) (many q n) := by
  induction n with
  | zero => exact pure []
  | succ n ih => exact hp.bind fun a => ih.bind fun rest => pure (a :: rest)

/-- A head, and what follows it by its major type. -/
lemma headed {h : Reader UInt8 ε (UInt8 × UInt64)} {f g : UInt8 → UInt64 → Reader UInt8 ε α} (hh : Heads h)
    (hafter : ∀ major, After cut major (f major) (g major)) :
    Narrows cut (h >>= fun x => f x.1 x.2) (h >>= fun x => g x.1 x.2) where
  lowers hread := by
    obtain ⟨⟨major, arg⟩, mid, hhead, hbody⟩ := bind_eq_ok.mp hread
    obtain ⟨hmajor, rfl⟩ := hh.inverts hhead
    obtain ⟨payload, ts, ht, hts, rfl, hg⟩ := (hafter major).lowers hmajor hbody
    refine ⟨⟨major, arg, payload⟩ :: ts, List.forall_mem_cons.mpr ⟨ht, hts⟩, by simp [Token.write], ?_⟩
    rw [lower_cons, write_cons, Token.write, List.append_assoc]
    exact (hh.reads hmajor _).bind hg
  raises hlen hread := by
    obtain ⟨⟨major, arg⟩, mid, hhead, hbody⟩ := bind_eq_ok.mp hread
    obtain ⟨hmajor, rfl⟩ := hh.inverts hhead
    obtain ⟨payload, ts, ht, hts, rfl, harg, hsame, hf⟩ :=
      (hafter major).raises hmajor (by rw [List.length_append] at hlen; omega) hbody
    refine ⟨⟨major, arg, payload⟩ :: ts, List.forall_mem_cons.mpr ⟨ht, hts⟩, by simp [Token.write], ?_, ?_⟩
    · rw [lower_cons, hsame, Token.lower, harg]
    · intro us hus heq
      obtain ⟨u, us, rfl, hu, hrest⟩ := List.map_eq_cons_iff.mp heq
      obtain ⟨umajor, uarg, upayload⟩ := u
      obtain ⟨rfl, huarg, rfl⟩ : umajor = major ∧ reduced cut umajor uarg = arg ∧ upayload = payload := by
        simpa [Token.lower] using hu
      rw [write_cons, Token.write, List.append_assoc]
      exact (hh.reads hmajor uarg).bind (hf uarg us huarg (fun x hx => hus x (List.mem_cons_of_mem _ hx)) hrest)

end Narrows

namespace After

variable {major : UInt8}

lemma throw (e : UInt64 → ε) :
    After cut major (fun arg => (MonadExcept.throw (e arg) : Reader UInt8 ε α)) (fun arg => MonadExcept.throw (e arg)) where
  lowers _ h := absurd h throw_eq_ok
  raises _ _ h := absurd h throw_eq_ok

lemma plain {f g : UInt64 → Reader UInt8 ε α} (hstring : isString major = false) (hcut : cut major = false)
    (h : ∀ arg, Narrows cut (f arg) (g arg)) : After cut major f g where
  lowers hmajor hread := by
    obtain ⟨ts, hts, rfl, hg⟩ := (h _).lowers hread
    refine ⟨[], ts, ⟨hmajor, by simp [hstring]⟩, hts, rfl, ?_⟩
    rwa [reduced_of_not_cut hcut, List.nil_append]
  raises hmajor hlen hread := by
    obtain ⟨ts, hts, rfl, hsame, hf⟩ := (h _).raises hlen hread
    refine ⟨[], ts, ⟨hmajor, by simp [hstring]⟩, hts, rfl, reduced_of_not_cut hcut _, hsame, ?_⟩
    intro arg' us harg hus heq
    rw [reduced_of_not_cut hcut] at harg
    rw [harg, List.nil_append]
    exact hf us hus heq

lemma string {k : Nat → Reader UInt8 ε Bytes} {f g : Bytes → Reader UInt8 ε α} (hk : Takes k)
    (hstring : isString major = true) (hcut : cut major = true) (h : ∀ b, Narrows cut (f b) (g b)) :
    After cut major (fun arg => k (asUsize 32 arg) >>= f) (fun arg => k (asUsize 64 arg) >>= g) where
  lowers hmajor hread := by
    obtain ⟨b, mid, hb, hrest⟩ := bind_eq_ok.mp hread
    obtain ⟨rfl, hlen⟩ := hk.inverts hb
    obtain ⟨ts, hts, rfl, hg⟩ := (h b).lowers hrest
    refine ⟨b, ts, ⟨hmajor, by simp [hstring, hlen]⟩, hts, rfl, ?_⟩
    rw [reduced_of_cut hcut, asUsize_ofNat_asUsize, ← hlen]
    exact (hk.reads b).bind hg
  raises := by
    intro arg data a rest hmajor hshort hread
    obtain ⟨b, mid, hb, hrest⟩ := bind_eq_ok.mp hread
    obtain ⟨rfl, hlen⟩ := hk.inverts hb
    rw [List.length_append] at hshort
    obtain ⟨ts, hts, rfl, hsame, hf⟩ := (h b).raises (by omega) hrest
    -- the string is part of the input, so its length is short
    rw [asUsize_eq] at hlen
    have hsmall : reduced cut major arg = arg := (reduced_of_cut hcut arg).trans (ofNat_asUsize_of_lt (by omega))
    refine ⟨b, ts, ⟨hmajor, ?_⟩, hts, rfl, hsmall, hsame, ?_⟩
    · rw [if_pos hstring, asUsize_of_reduced hcut hsmall, asUsize_eq, hlen]
    · intro arg' us harg hus heq
      rw [asUsize_of_reduced hcut harg, asUsize_eq, ← hlen]
      exact (hk.reads b).bind (hf us hus heq)

lemma bytes {k : Nat → Reader UInt8 ε Bytes} (hk : Takes k) (hstring : isString major = true)
    (hcut : cut major = true) : After cut major (fun arg => k (asUsize 32 arg)) (fun arg => k (asUsize 64 arg)) := by
  have hbind : After cut major (fun arg => k (asUsize 32 arg) >>= Pure.pure) fun arg => k (asUsize 64 arg) >>= Pure.pure :=
    string hk hstring hcut fun b => Narrows.pure b
  simpa only [bind_pure] using hbind

/-- So many items, each of which takes a byte. -/
lemma counted {p q : Reader UInt8 ε α} {f g : List α → Reader UInt8 ε β} (hstring : isString major = false)
    (hcut : cut major = true) (hitem : ∀ data a rest, q data = .ok (a, rest) → rest.length < data.length)
    (hp : Narrows cut p q) (h : ∀ items, Narrows cut (f items) (g items)) :
    After cut major (fun arg => many p (asUsize 32 arg) >>= f) (fun arg => many q (asUsize 64 arg) >>= g) where
  lowers hmajor hread := by
    obtain ⟨ts, hts, rfl, hg⟩ := ((hp.many _).bind h).lowers hread
    refine ⟨[], ts, ⟨hmajor, by simp [hstring]⟩, hts, rfl, ?_⟩
    rwa [reduced_of_cut hcut, asUsize_ofNat_asUsize, List.nil_append]
  raises := by
    intro arg data a rest hmajor hshort hread
    obtain ⟨items, mid, hitems, -⟩ := bind_eq_ok.mp hread
    have hcount := length_of_many hitem hitems
    rw [asUsize_eq] at hcount
    have hsmall : reduced cut major arg = arg := (reduced_of_cut hcut arg).trans (ofNat_asUsize_of_lt (by omega))
    obtain ⟨ts, hts, rfl, hsame, hf⟩ := ((hp.many _).bind h).raises hshort hread
    refine ⟨[], ts, ⟨hmajor, by simp [hstring]⟩, hts, rfl, hsmall, hsame, ?_⟩
    intro arg' us harg hus heq
    rw [asUsize_of_reduced hcut harg, List.nil_append]
    exact hf us hus heq

end After

end Closure

/-! ## Values -/

/-- The major types whose argument is cast to `usize`. -/
def isLength (major : UInt8) : Bool := isString major || major == 4 || major == 5

lemma heads_head : Heads (head : Reader UInt8 Error (UInt8 × UInt64)) where
  reads hmajor arg rest := head_pushHead _ hmajor arg rest
  inverts h := head_eq_ok h

lemma takes_take : Takes (take : Nat → Reader UInt8 Error Bytes) where
  reads b rest := take_append b rest
  inverts h := take_eq_ok h

namespace Value

lemma narrows_readPair {p q : Reader UInt8 Error Value} (hp : Narrows isLength p q) :
    Narrows isLength (readPair p) (readPair q) :=
  hp.bind fun k => hp.bind fun v => Narrows.pure (k, v)

lemma encode_ne_nil (v : Value) : encode v ≠ [] := by
  have hhead : ∀ (major : UInt8) (arg : UInt64), pushHead major arg ≠ [] := by
    intro major arg
    unfold pushHead
    dsimp only
    split_ifs <;> simp
  cases v with
  | uint n => simpa using hhead 0 n
  | bool b => simp
  | bytes b => simp [putBytes, hhead]
  | text t => simp [putText, hhead]
  | array items => simp [encode_array, hhead]
  | map pairs => simp [encode_map, hhead]

lemma length_of_value {n : Nat} {rest : Bytes} (h : value 64 n data = .ok (v, rest)) :
    rest.length < data.length := by
  obtain ⟨rfl, -⟩ := value_eq_ok h
  have hpos := List.length_pos_of_ne_nil (encode_ne_nil v)
  rw [List.length_append]
  omega

lemma after_valueBody {p q : Reader UInt8 Error Value} (hp : Narrows isLength p q)
    (hitem : ∀ data v rest, q data = .ok (v, rest) → rest.length < data.length) (major : UInt8) :
    After isLength major (valueBody 32 p major) (valueBody 64 q major) := by
  unfold valueBody
  by_cases h0 : major = 0
  · simp only [if_pos h0]
    exact .plain (by rw [h0]; rfl) (by rw [h0]; rfl) fun arg => .pure _
  simp only [if_neg h0]
  by_cases h2 : major = 2
  · simp only [if_pos h2]
    exact .string takes_take (by rw [h2]; rfl) (by rw [h2]; rfl) fun b => .pure _
  simp only [if_neg h2]
  by_cases h3 : major = 3
  · simp only [if_pos h3]
    refine .string takes_take (by rw [h3]; rfl) (by rw [h3]; rfl) fun b => ?_
    cases fromUtf8 b with
    | some t => exact .pure _
    | none => exact .throw _ _
  simp only [if_neg h3]
  by_cases h4 : major = 4
  · simp only [if_pos h4]
    exact .counted (by rw [h4]; rfl) (by rw [h4]; rfl) hitem hp fun items => .pure _
  simp only [if_neg h4]
  by_cases h5 : major = 5
  · simp only [if_pos h5]
    refine .counted (by rw [h5]; rfl) (by rw [h5]; rfl) (fun data p rest hpair => ?_) (narrows_readPair hp)
      fun pairs => (Narrows.lift _).bind fun _ => .pure _
    obtain ⟨k, mid, hk, hrest⟩ := bind_eq_ok.mp hpair
    obtain ⟨v, mid', hv, hpure⟩ := bind_eq_ok.mp hrest
    obtain ⟨-, rfl⟩ := pure_eq_ok.mp hpure
    exact Nat.lt_trans (hitem _ _ _ hv) (hitem _ _ _ hk)
  simp only [if_neg h5]
  have hplain : isString major = false ∧ isLength major = false := by simp [isString, isLength, *]
  refine .plain hplain.1 hplain.2 fun arg => ?_
  split_ifs
  · exact .pure _
  · exact .pure _
  · exact .throw _ _
  · exact .throw _ _

/-- **The value decoder on both targets.** -/
theorem narrows_value (n : Nat) : Narrows isLength (value 32 n) (value 64 n) := by
  induction n with
  | zero => exact .throw _ _
  | succ n ih => exact .headed heads_head (after_valueBody ih fun _ _ _ => length_of_value)

/-- A canonical encoding in which a length of `2 ^ 32` or more stands for its remainder. -/
def Overstated (data : Bytes) : Prop :=
  ∃ ts v, (∀ t ∈ ts, t.Fitting) ∧ data = write ts ∧ lower isLength ts ≠ ts ∧
    write (lower isLength ts) = encode v ∧ Accepted maxDepth v

lemma decode_iff {bits : Nat} : decode bits data = .ok v ↔ value bits maxDepth data = .ok (v, []) := by
  unfold decode
  cases value bits maxDepth data with
  | error e => simp
  | ok r =>
    obtain ⟨v', rest⟩ := r
    by_cases hrest : rest = [] <;> simp [hrest]

lemma decode_of_wide (hlen : data.length < 2 ^ 32) (h : decode 64 data = .ok v) : decode 32 data = .ok v := by
  obtain ⟨ts, hts, rfl, hsame, hread⟩ := (narrows_value maxDepth).raises hlen (decode_iff.mp h)
  exact decode_iff.mpr (hread ts hts hsame [])

/-- What a 32-bit target accepts is the encoding of a value, with some lengths overstated. -/
lemma decode_of_narrow (h : decode 32 data = .ok v) :
    ∃ ts, (∀ t ∈ ts, t.Fitting) ∧ data = write ts ∧ decode 64 (write (lower isLength ts)) = .ok v := by
  obtain ⟨ts, hts, hdata, hread⟩ := (narrows_value maxDepth).lowers (decode_iff.mp h)
  refine ⟨ts, hts, by rw [hdata, List.append_nil], decode_iff.mpr ?_⟩
  have hwhole := hread []
  rwa [List.append_nil] at hwhole

lemma decode_width_iff (hlen : data.length < 2 ^ 32) :
    (∀ v, decode 32 data = .ok v ↔ decode 64 data = .ok v) ↔ ¬ Overstated data := by
  constructor
  · rintro hagree ⟨ts, v, hts, rfl, hne, hwrite, haccepted⟩
    have hwide : decode 64 (write (lower isLength ts)) = .ok v := by
      rw [hwrite]
      exact decode_of_accepted haccepted
    have hshort : (write (lower isLength ts)).length < 2 ^ 32 := Nat.lt_of_le_of_lt (length_lower_le isLength ts) hlen
    obtain ⟨us, hus, heq, hsame, hread⟩ := (narrows_value maxDepth).raises hshort (decode_iff.mp hwide)
    have hfit : ∀ t ∈ lower isLength ts, t.Fitting := fitting_lower (fun m hm => by simp [isLength, hm]) hts
    rw [List.append_nil] at heq
    obtain rfl := write_inj hfit hus heq
    have hwhole := hread ts hts rfl []
    rw [List.append_nil] at hwhole
    have hnarrow : decode 32 (write ts) = .ok v := decode_iff.mpr hwhole
    obtain ⟨heq', -⟩ := decode_eq_ok ((hagree v).mp hnarrow)
    exact hne (write_inj hfit hts (hwrite.trans heq'.symm))
  · intro hnot v
    refine ⟨fun h => ?_, decode_of_wide hlen⟩
    obtain ⟨ts, hts, rfl, hwide⟩ := decode_of_narrow h
    obtain ⟨hwrite, haccepted⟩ := decode_eq_ok hwide
    by_cases hsame : lower isLength ts = ts
    · rw [hsame] at hwide
      exact hwide
    · exact absurd ⟨ts, v, hts, rfl, hsame, hwrite, haccepted⟩ hnot

end Value

end Cbor
end StowQ
