import StowQ.Core.Footprint

/-!
# Judgments about routines

Rules of the safety judgment for the steps routines are made of, in any discipline over
the effects of the queue.  Postconditions here are about values only: an error ends a
routine and nothing more is asked.
-/

namespace StowQ
namespace Core

open Data Concurrent Store Format

variable {e : Error}

variable {W α β σ : Type} {D : Discipline W Op Res} {w : W} {Q : β → W → Prop} {f : α → Routine β}
  {I : σ → W → Prop} {s : σ}

lemma holds_fail {Q : α → W → Prop} : Holds D (Budgeted.fail e) (OnOk Q) w := Holds.fail fun _ _ _ => by simp

lemma holds_spend {f : Unit → Routine β} (h : Holds D (f ()) (OnOk Q) w) :
    Holds D (Routine.spend >>= f) (OnOk Q) w :=
  Holds.spend h fun _ _ _ => by simp

lemma holds_trySpend {f : Bool → Routine β} (h : ∀ paid, Holds D (f paid) (OnOk Q) w) :
    Holds D (Routine.trySpend >>= f) (OnOk Q) w := by
  intro b
  cases b with
  | zero => exact h false 0
  | succ b => exact h true b

/-- Return a value with a fact that the order preserves. -/
lemma holds_pure {a : α} {Q : α → W → Prop} (h : ∀ w', D.service.inv w' → D.order.rel w w' → Q a w') :
    Holds D (pure a : Routine α) (OnOk Q) w :=
  Holds.pure fun w' hw hi => by simpa using h w' hi (D.rely_order w w' hi hw)

lemma holds_ofExcept {r : Except Error α} (h : ∀ a, r = .ok a → Holds D (f a) (OnOk Q) w) :
    Holds D (Budgeted.ofExcept r >>= f) (OnOk Q) w := by
  cases r with
  | ok a => exact h a rfl
  | error e => exact holds_fail

lemma holds_ofStore {r : StoreResult α} (h : ∀ a, r = .ok a → Holds D (f a) (OnOk Q) w) :
    Holds D (Routine.ofStore r >>= f) (OnOk Q) w := by
  cases r with
  | ok a => exact h a rfl
  | error e => exact holds_fail

lemma holds_ofRecord {r : Except RecordError α} (h : ∀ a, r = .ok a → Holds D (f a) (OnOk Q) w) :
    Holds D (Routine.ofRecord r >>= f) (OnOk Q) w := by
  cases r with
  | ok a => exact h a rfl
  | error e => exact holds_fail

/-- A routine of which only harmlessness is known, followed by another. -/
lemma holds_after {m : Routine α} (hm : Holds D m (fun _ _ => True) w)
    (h : ∀ a w', D.service.inv w' → D.order.rel w w' → Holds D (f a) (OnOk Q) w') :
    Holds D (m >>= f) (OnOk Q) w :=
  hm.bind (fun a w' hi ho _ => h a w' hi ho) fun _ _ _ _ _ => by simp

lemma holds_retrying {a : Routine (Option α)} {Q : α → W → Prop} (hinv : D.service.inv w)
    (h : ∀ w', D.service.inv w' → D.order.rel w w' → Holds D a (OnOk fun r w'' => ∀ v, r = some v → Q v w'') w') :
    Holds D (Routine.retrying a) (OnOk Q) w := by
  refine Holds.retry (fun w' hi ho => (h w' hi ho).mono fun r w'' _ _ hq => ⟨?_, ?_⟩)
    (fun _ _ _ => by simp) hinv _
  · rintro v rfl
    simpa using hq
  · simp

lemma holds_retryOrFail {e : StoreError} {Q : Option α → W → Prop}
    (h : ∀ w', D.service.inv w' → D.order.rel w w' → Q none w') :
    Holds D (if retryable e then pure none else Budgeted.fail (.store e) : Routine (Option α))
      (OnOk Q) w := by
  split
  · exact holds_pure h
  · exact holds_fail

/-- What a round of an iteration has to establish: `I` if it goes on, `Q` if it ends. -/
def Round (I : σ → W → Prop) (Q : α → W → Prop) (next : σ ⊕ α) (w : W) : Prop :=
  next.elim (I · w) (Q · w)

lemma holds_iterate {body : σ → Routine (σ ⊕ α)} {Q : α → W → Prop}
    (hbody : ∀ s w', D.service.inv w' → D.order.rel w w' → I s w' →
      Holds D (body s) (OnOk (Round I Q)) w') (fuel : Nat) (hinit : I s w) (hinv : D.service.inv w) :
    Holds D (Budgeted.iterate e body fuel s) (OnOk Q) w := by
  refine Holds.iterate (fun s w' hi ho hI => (hbody s w' hi ho hI).mono fun r w'' _ _ hq => ?_)
    (fun _ _ _ _ _ _ _ _ => by simp) fuel hinit hinv
  refine ⟨?_, ?_, by simp⟩
  · rintro s' rfl
    exact hq _ rfl
  · rintro a rfl
    rw [onOk_ok]
    exact hq _ rfl

lemma holds_loop {body : σ → Routine (σ ⊕ α)} {Q : α → W → Prop}
    (hbody : ∀ s w', D.service.inv w' → D.order.rel w w' → I s w' →
      Holds D (body s) (OnOk (Round I Q)) w') (hinit : I s w) (hinv : D.service.inv w) :
    Holds D (Budgeted.loop e body s) (OnOk Q) w :=
  fun b => holds_iterate hbody (b + 1) hinit hinv b

lemma holds_foldM {ι : Type} {f : σ → ι → Routine σ} (xs : List ι)
    (hI : ∀ s a b, D.service.inv b → D.order.rel a b → I s a → I s b) (hinv : D.service.inv w)
    (hbody : ∀ s x w', x ∈ xs → D.service.inv w' → D.order.rel w w' → I s w' →
      Holds D (f s x) (OnOk I) w') (hs : I s w) : Holds D (Budgeted.foldM f s xs) (OnOk I) w := by
  refine Holds.foldM (I := I) xs (fun s x w' hx hi ho hs => ?_) (fun s w' _ _ hs w'' hw'' hi'' => ?_)
    hs hinv
  · refine (hbody s x w' hx hi ho hs).mono fun r w'' _ _ hq => ⟨?_, by simp⟩
    rintro s' rfl
    simpa using hq
  · simpa using hI s w' w'' hi'' (D.rely_order w' w'' hi'' hw'') hs

/-- Walking a listing: `I` holds between items, `Listed` of every item handed out. -/
lemma holds_pages {stop : Bool} {pre : Str} {limit : Nat} {item : σ → Listing → Routine σ}
    (Listed : Listing → W → Prop) (hinv : D.service.inv w)
    (hI : ∀ s a b, D.service.inv b → D.order.rel a b → I s a → I s b)
    (hListed : ∀ x a b, D.service.inv b → D.order.rel a b → Listed x a → Listed x b)
    (hlist : ∀ after w', D.service.inv w' → D.order.rel w w' → Holds D (Routine.list pre after limit)
        (OnOk fun r w'' => ∀ page, r = .ok page → ∀ x ∈ page.items, Listed x w'') w')
    (hitem : ∀ s x w', D.service.inv w' → D.order.rel w w' → I s w' → Listed x w' →
      Holds D (item s x) (OnOk I) w') (hs : I s w) :
    Holds D (Routine.pages stop pre limit item s) (OnOk I) w := by
  refine holds_loop (I := fun s w' => I s.1 w') (fun ⟨s, after⟩ w' hi ho hs => ?_) hs hinv
  refine holds_spend ((hlist after w' hi ho).andThen fun r w1 hi1 ho1 hr => ?_)
  refine holds_ofStore fun page hpage => ?_
  have hs1 : I s w1 := hI s w' w1 hi1 ho1 hs
  split
  · exact holds_pure fun w2 hi2 ho2 => hI s w1 w2 hi2 ho2 hs1
  have hfold : Holds D (Budgeted.foldM item s page.items) (OnOk I) w1 := by
    refine holds_foldM page.items hI hi1 (fun s x w2 hx hi2 ho2 hsx => ?_) hs1
    have hlisted := hListed x w1 w2 hi2 ho2 (hr page hpage x hx)
    exact hitem s x w2 hi2 (D.order.trans ho (D.order.trans ho1 ho2)) hsx hlisted
  refine hfold.andThen fun s' w2 hi2 ho2 hs' => ?_
  split
  all_goals exact holds_pure fun w3 hi3 ho3 => hI s' w2 w3 hi3 ho3 hs'

/-- Reading the watermark record, from what reading its object establishes. -/
lemma holds_watermark_of [Sha256] {q : Queue} {Q : WatermarkRecord → W → Prop}
    (hQ : ∀ r a b, D.order.rel a b → Q r a → Q r b)
    (h : Holds D (Queue.readRetrying (q.absolute .watermark)) (OnOk fun obj w' => ∀ r,
      q.decodeAt .watermark obj.body = .ok (.watermark r) → Q r w') w) :
    Holds D q.watermark (OnOk fun found w' => ∀ r, found = some r → Q r w') w := by
  refine h.attempt.andThen fun r w1 _ _ hr => ?_
  cases r with
  | ok obj =>
    refine holds_ofRecord fun record hrecord => ?_
    cases record with
    | watermark found =>
      refine holds_pure fun w2 _ ho2 r' hr' => ?_
      cases hr'
      exact hQ _ _ _ ho2 (hr obj rfl _ hrecord)
    | _ => exact holds_fail
  | error e =>
    split
    · next heq => cases heq
    · exact holds_pure nofun
    · exact holds_fail

end Core
end StowQ
