import StowQ.Data.Bytes

/-!
# Slices of text by byte offsets

Text is sliced by offsets into its UTF-8 bytes.  An offset inside a character, or beyond the
end, is a panic and not an error that a caller could handle, so a reader that slices has
three ends: it accepts, it rejects, or it panics.
-/

namespace StowQ
namespace Data

variable {t : Str} {v bound : Nat} {c : Char}

/-! ## Readers that can panic -/

/-- The end of a reader. -/
inductive Verdict (α : Type)
  | accepted (a : α)
  | rejected
  | panicked
  deriving DecidableEq

namespace Verdict

variable {α β : Type} {v : Verdict α} {f : α → Verdict β}

protected def bind (v : Verdict α) (f : α → Verdict β) : Verdict β :=
  match v with
  | accepted a => f a
  | rejected => rejected
  | panicked => panicked

instance : Monad Verdict where
  pure := accepted
  bind := Verdict.bind

/-- The `?` operator on a value that may be absent. -/
def ofOption : Option α → Verdict α
  | some a => accepted a
  | none => rejected

/-- An operation that panics where it is undefined. -/
def orPanic : Option α → Verdict α
  | some a => accepted a
  | none => panicked

@[simp] lemma pure_eq (a : α) : (pure a : Verdict α) = accepted a := rfl

@[simp] lemma accepted_bind (a : α) (f : α → Verdict β) : (accepted a >>= f) = f a := rfl

@[simp] lemma rejected_bind (f : α → Verdict β) : (rejected >>= f) = rejected := rfl

@[simp] lemma panicked_bind (f : α → Verdict β) : (panicked >>= f) = panicked := rfl

@[simp] lemma ofOption_some (a : α) : ofOption (some a) = accepted a := rfl

@[simp] lemma ofOption_none : ofOption (none : Option α) = rejected := rfl

@[simp] lemma orPanic_some (a : α) : orPanic (some a) = accepted a := rfl

@[simp] lemma orPanic_none : orPanic (none : Option α) = panicked := rfl

lemma bind_eq_accepted {b : β} : (v >>= f) = accepted b ↔ ∃ a, v = accepted a ∧ f a = accepted b := by
  cases v <;> simp

lemma bind_eq_panicked : (v >>= f) = panicked ↔ v = panicked ∨ ∃ a, v = accepted a ∧ f a = panicked := by
  cases v <;> simp

@[simp] lemma ofOption_eq_accepted {o : Option α} {a : α} : ofOption o = accepted a ↔ o = some a := by
  cases o <;> simp

lemma ite_eq_accepted {c : Prop} [Decidable c] {a : α} :
    (if c then rejected else v) = accepted a ↔ ¬ c ∧ v = accepted a := by
  split_ifs with h <;> simp [h]

/-- A reader that does not reject got its value. -/
lemma some_of_bind {o : Option α} (h : (ofOption o >>= f) ≠ rejected) : ∃ a, o = some a ∧ f a ≠ rejected := by
  cases o with
  | none => exact absurd rfl h
  | some a => exact ⟨a, rfl, h⟩

lemma of_ite {c : Prop} [Decidable c] (h : (if c then rejected else v) ≠ rejected) : ¬ c ∧ v ≠ rejected := by
  split_ifs at h with hc
  · exact absurd rfl h
  · exact ⟨hc, h⟩

end Verdict

/-! ## Slices -/

/-- The text in front of a byte offset and the text behind it. -/
def splitAtByte (n : Nat) : Str → Option (Str × Str)
  | [] => if n = 0 then some ([], []) else none
  | c :: s =>
    if n = 0 then some ([], c :: s)
    else if c.utf8Size ≤ n then (splitAtByte (n - c.utf8Size) s).map fun p => (c :: p.1, p.2)
    else none

/-- `&s[i..j]`, where nothing stands for the panic. -/
def slice (s : Str) (i j : Nat) : Option Str :=
  if i ≤ j then (splitAtByte i s).bind fun p => (splitAtByte (j - i) p.2).map Prod.fst else none

lemma utf8_cons_length (c : Char) (s : Str) : (utf8 (c :: s)).length = c.utf8Size + (utf8 s).length := by
  rw [utf8, List.flatMap_cons, List.length_append, String.length_utf8EncodeChar]
  rfl

lemma utf8_append_length (s t : Str) : (utf8 (s ++ t)).length = (utf8 s).length + (utf8 t).length := by
  rw [utf8_append, List.length_append]

lemma utf8_length_eq_zero {s : Str} : (utf8 s).length = 0 ↔ s = [] := by
  cases s with
  | nil => simp
  | cons c s =>
    rw [utf8_cons_length]
    have hpos := c.utf8Size_pos
    simp only [reduceCtorEq, iff_false]
    omega

lemma splitAtByte_eq_some {n : Nat} {s front back : Str} :
    splitAtByte n s = some (front, back) ↔ s = front ++ back ∧ (utf8 front).length = n := by
  induction s generalizing n front with
  | nil =>
    rw [splitAtByte, List.nil_eq, List.append_eq_nil_iff]
    by_cases hn : n = 0
    · subst hn
      rw [if_pos rfl, utf8_length_eq_zero]
      simp only [Option.some.injEq, Prod.mk.injEq]
      tauto
    · rw [if_neg hn]
      simp only [reduceCtorEq, false_iff]
      rintro ⟨⟨rfl, -⟩, h⟩
      exact hn h.symm
  | cons c s ih =>
    rw [splitAtByte]
    by_cases hn : n = 0
    · subst hn
      rw [if_pos rfl, utf8_length_eq_zero]
      simp only [Option.some.injEq, Prod.mk.injEq]
      constructor
      · rintro ⟨rfl, rfl⟩
        exact ⟨rfl, rfl⟩
      · rintro ⟨h, rfl⟩
        exact ⟨rfl, h⟩
    · rw [if_neg hn]
      -- the front is not empty, so it begins with the first character
      cases front with
      | nil =>
        split_ifs
        · simp [Ne.symm hn]
        · simp [Ne.symm hn]
      | cons d front =>
        rw [utf8_cons_length]
        by_cases hc : c.utf8Size ≤ n
        · rw [if_pos hc]
          simp only [Option.map_eq_some_iff, Prod.mk.injEq, List.cons.injEq, List.cons_append, Prod.exists]
          constructor
          · rintro ⟨a, b, hsplit, ⟨rfl, rfl⟩, rfl⟩
            obtain ⟨rfl, hlen⟩ := ih.mp hsplit
            exact ⟨⟨rfl, rfl⟩, by omega⟩
          · rintro ⟨⟨rfl, rfl⟩, hlen⟩
            exact ⟨front, back, ih.mpr ⟨rfl, by omega⟩, ⟨rfl, rfl⟩, rfl⟩
        · rw [if_neg hc]
          simp only [reduceCtorEq, List.cons_append, List.cons.injEq, false_iff]
          rintro ⟨⟨rfl, -⟩, hlen⟩
          omega

/-- Two texts that are split at their first separator. -/
lemma split_unique {a a' b b' : Str} (ha : c ∉ a) (ha' : c ∉ a') (h : a ++ c :: b = a' ++ c :: b') :
    a = a' ∧ b = b' := by
  have hfirst := congrArg (fun s => (s.splitOn c).head?) h
  simp only [List.splitOn_append_cons_self_of_not_mem ha, List.splitOn_append_cons_self_of_not_mem ha',
    List.head?_cons, Option.some.injEq] at hfirst
  subst hfirst
  simpa using h

/-! ## ASCII -/

lemma utf8_length_of_ascii (h : ∀ c ∈ t, c.utf8Size = 1) : (utf8 t).length = t.length := by
  induction t with
  | nil => rfl
  | cons c t ih =>
    rw [utf8_cons_length, h c List.mem_cons_self, ih fun d hd => h d (List.mem_cons_of_mem c hd), List.length_cons]
    omega

lemma utf8Size_of_le {d : Char} (h : c ≤ d) (hd : d.utf8Size = 1) : c.utf8Size = 1 := by
  rw [Char.utf8Size_eq_one_iff] at hd ⊢
  exact UInt32.le_trans (Char.le_def.mp h) hd

lemma utf8Size_of_hexValue (h : hexValue c = some v) : c.utf8Size = 1 := by
  unfold hexValue at h
  split_ifs at h with h1 h2 h3
  · exact utf8Size_of_le h1.2 (by decide)
  · exact utf8Size_of_le h2.2 (by decide)
  · exact utf8Size_of_le h3.2 (by decide)

lemma digits_of_foldlM {acc : Nat} (h : t.foldlM (pushDigit bound) acc = some v) :
    ∀ c ∈ t, ∃ d, hexValue c = some d := by
  induction t generalizing acc with
  | nil => exact nofun
  | cons c t ih =>
    rw [List.foldlM_cons, Option.bind_eq_bind, Option.bind_eq_some_iff] at h
    obtain ⟨acc', hpush, hrest⟩ := h
    simp only [pushDigit, Option.bind_eq_bind, Option.bind_eq_some_iff] at hpush
    obtain ⟨d, hd, -⟩ := hpush
    intro e he
    obtain rfl | he := List.mem_cons.mp he
    · exact ⟨d, hd⟩
    · exact ih hrest e he

lemma digits_of_fromStrRadix (h : fromStrRadix bound t = some v) :
    ∀ c ∈ t, c = '+' ∨ ∃ d, hexValue c = some d := by
  unfold fromStrRadix at h
  split_ifs at h
  have hdigits := digits_of_foldlM h
  cases t with
  | nil => exact nofun
  | cons c t =>
    by_cases hplus : c = '+'
    · rw [stripPlus, if_pos hplus] at hdigits
      intro e he
      obtain rfl | he := List.mem_cons.mp he
      · exact .inl hplus
      · exact .inr (hdigits e he)
    · rw [stripPlus, if_neg hplus] at hdigits
      exact fun e he => .inr (hdigits e he)

lemma utf8Size_of_fromStrRadix (h : fromStrRadix bound t = some v) : ∀ c ∈ t, c.utf8Size = 1 := by
  intro c hc
  obtain rfl | ⟨d, hd⟩ := digits_of_fromStrRadix h c hc
  · decide
  · exact utf8Size_of_hexValue hd

lemma not_mem_of_fromStrRadix (hplus : c ≠ '+') (hc : hexValue c = none) (h : fromStrRadix bound t = some v) :
    c ∉ t := by
  intro hmem
  obtain heq | ⟨d, hd⟩ := digits_of_fromStrRadix h c hmem
  · exact hplus heq
  · rw [hc] at hd
    cases hd

/-- A slice that begins where a known text ends. -/
lemma slice_append (front rest : Str) (n : Nat) :
    slice (front ++ rest) (utf8 front).length ((utf8 front).length + n) = (splitAtByte n rest).map Prod.fst := by
  rw [slice, if_pos (Nat.le_add_right _ _), splitAtByte_eq_some.mpr ⟨rfl, rfl⟩, Option.bind_some, Nat.add_sub_cancel_left]

end Data
end StowQ
