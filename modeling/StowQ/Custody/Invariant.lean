import StowQ.Core.Footprint
import StowQ.Custody.State
import StowQ.Interleaving

/-!
# The custody invariant

The invariant of worlds in which nothing but the protocol writes to the custody planes, how worlds may move, and
which requests a call may issue at a world.  The claims plane holds one chain for every job, what any request in
the log has found or left in the custody planes is still there, and takeovers came when they were due.
`Permitted.keeps` says once what every permitted request does; the proofs about programs only show that their
requests are permitted.
-/

namespace StowQ
namespace Custody

open Data StowQ.Core Store Format Concurrent Interleaving Keys

variable {r : Request} {shard : UInt16} {jobId : ByteArr 16} {g : UInt32} {floorNs : UInt64}

/-- The events of one call. -/
def DoneBy (i : Nat) : Event → Prop
  | .did caller _ _ _ _ => caller = i
  | _ => False

section Log

variable (S : Site)

/-- Call `i` reads the fail record of generation `g`. -/
def Probes (i : Nat) (shard : UInt16) (jobId : ByteArr 16) (g : UInt32) (e : Event) : Prop :=
  ∃ answer before after, e = .did i (.get (S.absolute (.fail shard jobId g))) answer before after

variable [Sha256]

/-- Call `i` has read the fail record of generation `g`, and whenever there was one it
allowed a delivery at `floorNs`.  Generation 0 is the empty chain and has none. -/
def Backoff (log : List Event) (i : Nat) (shard : UInt16) (jobId : ByteArr 16) (g : UInt32)
    (floorNs : UInt64) : Prop :=
  g ≠ 0 → (∃ e ∈ log, Probes S i shard jobId g e) ∧ ∀ answer before after,
    .did i (.get (S.absolute (.fail shard jobId g))) answer before after ∈ log →
      ∀ f, failAt S before shard jobId g = some f → f.retryNotBeforeNs ≤ floorNs

/-- If an event commits a takeover, its call had read the fail record of the generation
before, and the takeover is not earlier than that record allows. -/
def Punctual (e : Event) (earlier : List Event) : Prop :=
  ∀ i r answer before after, e = .did i r answer before after →
    ∀ shard jobId g entry, claimAt S before shard jobId (g + 1) = none →
      claimAt S after shard jobId (g + 1) = some entry → entry.record.continuation = false →
      Backoff S earlier i shard jobId g entry.timeNs

/-- Every event of a log, newest first, was punctual when it happened. -/
def Prompt : List Event → Prop
  | [] => True
  | e :: earlier => Punctual S e earlier ∧ Prompt earlier

end Log

/-! ## How worlds move -/

/-- The custody planes only grow, the clock does not go back, and the new events satisfy
`ok`. -/
structure Grows (S : Site) (ok : Event → Prop) (w w' : World) : Prop where
  objects : Extends S w.objects w'.objects
  clock : w.clock ≤ w'.clock
  log : ∃ new, w'.log = new ++ w.log ∧ ∀ e ∈ new, ok e

namespace Grows

variable {S : Site} {ok ok' : Event → Prop} {a b c : World}

lemma refl (a : World) : Grows S ok a a := ⟨Extends.refl S _, UInt64.le_refl _, [], rfl, by simp⟩

lemma trans (hab : Grows S ok a b) (hbc : Grows S ok b c) : Grows S ok a c := by
  obtain ⟨new, hnew, hok⟩ := hab.log
  obtain ⟨new', hnew', hok'⟩ := hbc.log
  refine ⟨hab.objects.trans hbc.objects, UInt64.le_trans hab.clock hbc.clock, new' ++ new, ?_, ?_⟩
  · rw [hnew', hnew, List.append_assoc]
  · intro e he
    rcases List.mem_append.mp he with he | he
    · exact hok' e he
    · exact hok e he

lemma mono (h : Grows S ok a b) (hok : ∀ e, ok e → ok' e) : Grows S ok' a b := by
  obtain ⟨new, hnew, hall⟩ := h.log
  exact ⟨h.objects, h.clock, new, hnew, fun e he => hok e (hall e he)⟩

lemma setHandle (n : Nat) (st : HandleState) : Grows S ok a (a.setHandle n st) :=
  ⟨Extends.refl S _, UInt64.le_refl _, [], rfl, by simp⟩

/-- The worlds a rely allows. -/
def rely (S : Site) (ok : Event → Prop) : Rely World where
  rel := Grows S ok
  refl := refl
  trans := trans

lemma mem_log (h : Grows S ok a b) {e : Event} (he : e ∈ a.log) : e ∈ b.log := by
  obtain ⟨new, hnew, -⟩ := h.log
  rw [hnew]
  exact List.mem_append_right new he

end Grows

/-- What was read stays read, as long as the call does not read again. -/
lemma Backoff.grows [Sha256] {S : Site} {ok : Event → Prop} {a b : World} {i : Nat}
    (h : Backoff S a.log i shard jobId g floorNs) (hab : Grows S ok a b)
    (hok : ∀ e, ok e → ¬ Probes S i shard jobId g e) : Backoff S b.log i shard jobId g floorNs := by
  obtain ⟨new, hnew, hall⟩ := hab.log
  intro hg
  obtain ⟨⟨e, he, hprobe⟩, hread⟩ := h hg
  refine ⟨⟨e, hab.mem_log he, hprobe⟩, fun answer before after hmem => ?_⟩
  rw [hnew] at hmem
  rcases List.mem_append.mp hmem with hmem | hmem
  · exact absurd ⟨answer, before, after, rfl⟩ (hok _ (hall _ hmem))
  · exact hread answer before after hmem

/-! ## The invariant -/

/-- The invariant of custody; `timed` adds what holds when the store's clock can be
relied on. -/
structure Inv [Sha256] (S : Site) (timed : Prop) (w : World) : Prop where
  kept : Kept S timed w.objects
  clock : timed → ∀ key stored, S.plane key = some claimsSeg →
    w.objects.get? key = some stored → stored.storeTimeNs ≤ w.clock
  past : ∀ i r answer before after, .did i r answer before after ∈ w.log →
    Extends S before w.objects ∧ Extends S after w.objects
  prompt : timed → Prompt S w.log

/-- The floor a claim call was given. -/
def claimFloor (call : Call) : Option UInt64 :=
  match call.action with
  | .claim opts | .claimMany opts _ => some opts.floorNs
  | _ => none

/-- What the store's clock promises about one request: times do not go back, and a
claim's floor has been reached. -/
def Punctuality (timed : Prop) (w : World) (call : Call) (c : Choice) : Prop :=
  timed → w.clock ≤ c.stamp.timeNs ∧ ∀ floorNs ∈ claimFloor call, floorNs ≤ w.clock

/-- The requests call `i` may issue at a world. -/
inductive Permitted [Sha256] (S : Site) (i : Nat) (call : Call) (w : World) : Op → Prop
  | freshToken : Permitted S i call w .freshToken
  | cachedFloor (h : Nat) : Permitted S i call w (.cachedFloor h)
  | cacheFloor (h : Nat) (f : UInt64) : Permitted S i call w (.cacheFloor h f)
  | isMemoizedTerminal (h : Nat) (s : UInt16) (j : ByteArr 16) (v : Version) :
      Permitted S i call w (.isMemoizedTerminal h s j v)
  | memoizeTerminal (h : Nat) (s : UInt16) (j : ByteArr 16) (v : Version) :
      Permitted S i call w (.memoizeTerminal h s j v)
  | read (r : Request) (hr : r.reads = true) : Permitted S i call w (.store r)
  | put (key : Str) (body : Bytes) (digest : Digest)
      (hplane : S.plane key ≠ some claimsSeg) :
      Permitted S i call w (.store (.putIfAbsent key body digest))
  | cas (key : Str) (body : Bytes) (digest : Digest) (v : Version)
      (hplane : ∀ plane ∈ custodyPlanes, S.plane key ≠ some plane) :
      Permitted S i call w (.store (.cas key body digest v))
  | delete (key : Str) (hplane : ∀ plane ∈ custodyPlanes, S.plane key ≠ some plane) :
      Permitted S i call w (.store (.delete key))
  | claim (shard : UInt16) (jobId : ByteArr 16) (g : UInt32) (r : ClaimRecord) (floorNs : UInt64)
      (hdue : Due S w.objects shard jobId g r floorNs)
      (htakeover : r.continuation = false →
        claimFloor call = some floorNs ∧ Backoff S w.log i shard jobId g floorNs) :
      Permitted S i call w (.put (S.absolute (.claim shard jobId (g + 1)))
        (S.encodeAt (.claim shard jobId (g + 1)) (.claim r)))

/-! ## What permitted requests do -/

section Keeps

variable [Sha256] {S : Site} {timed : Prop} {w : World} {i : Nat} {call : Call} {c : Choice}

/-- The event a request leaves in the log. -/
def LoggedAs (i : Nat) (o : Op) (e : Event) : Prop :=
  ∃ r answer before after, o = .store r ∧ e = .did i r answer before after

/-- Steps that only touch the caches of a handle. -/
lemma Inv.setHandle (h : Inv S timed w) (n : Nat) (st : HandleState) : Inv S timed (w.setHandle n st) :=
  ⟨h.kept, h.clock, h.past, h.prompt⟩

lemma Grows.request (hext : Extends S w.objects (inject c.fault w.objects c.stamp r).2) :
    Grows S (LoggedAs i (.store r)) w (w.request i r c) := by
  refine ⟨hext, le_clock_left _ _, [_], rfl, fun e he => ?_⟩
  rw [List.mem_singleton] at he
  exact ⟨r, _, _, _, rfl, he⟩

/-- A store request keeps the invariant if its effect on the objects does and its event is
punctual. -/
lemma Inv.request (h : Inv S timed w) (hext : Extends S w.objects (inject c.fault w.objects c.stamp r).2)
    (hkept : Kept S timed (inject c.fault w.objects c.stamp r).2)
    (hnew : ∀ key stored, S.plane key = some claimsSeg →
      (inject c.fault w.objects c.stamp r).2.get? key = some stored →
      w.objects.get? key = some stored ∨ stored.storeTimeNs = c.stamp.timeNs)
    (hpunctual : timed → Punctual S (.did i r (inject c.fault w.objects c.stamp r).1 w.objects
      (inject c.fault w.objects c.stamp r).2) w.log) : Inv S timed (w.request i r c) where
  kept := hkept
  clock ht key stored hplane hget := by
    rcases hnew key stored hplane hget with hold | htime
    · exact UInt64.le_trans (h.clock ht key stored hplane hold) (le_clock_left _ _)
    · rw [htime]
      exact le_clock_right _ _
  past k r' answer before after hmem := by
    rcases List.mem_cons.mp hmem with heq | hmem
    · cases heq
      exact ⟨hext, Extends.refl S _⟩
    · obtain ⟨hb, ha⟩ := h.past k r' answer before after hmem
      exact ⟨hb.trans hext, ha.trans hext⟩
  prompt ht := ⟨hpunctual ht, h.prompt ht⟩

/-- A request that leaves the claims plane alone is punctual. -/
lemma punctual_of_same_claims {answer : StoreResult r.Answer} {before after : Objects} {log : List Event}
    (h : ∀ key, S.plane key = some claimsSeg → after.get? key = before.get? key) :
    Punctual S (.did i r answer before after) log := by
  intro k r' answer' b a heq shard jobId g entry hnone hsome
  cases heq
  rw [claimAt_congr (h _ (plane_absolute S _)), hnone] at hsome
  cases hsome

/-- Requests that leave the claims plane alone and extend the others. -/
lemma Inv.request_outside (h : Inv S timed w)
    (hext : Extends S w.objects (inject c.fault w.objects c.stamp r).2)
    (hsame : ∀ key, S.plane key = some claimsSeg →
      (inject c.fault w.objects c.stamp r).2.get? key = w.objects.get? key) :
    Inv S timed (w.request i r c) := by
  refine h.request hext (h.kept.of_same_claims hext hsame) (fun key stored hplane hget => ?_)
    fun _ => punctual_of_same_claims hsame
  rw [hsame key hplane] at hget
  exact .inl hget

lemma punctual_claim {r : ClaimRecord} {req : Request} {answer : StoreResult req.Answer} {before : Objects}
    {v : Version} {t : UInt64} {log : List Event} (hr : r.WellFormed) (hfloor : r.continuation = false →
      floorNs ≤ t ∧ Backoff S log i shard jobId g floorNs) :
    Punctual S (.did i req answer before
      (before.insert (S.absolute (.claim shard jobId (g + 1)))
        ⟨S.encodeAt (.claim shard jobId (g + 1)) (.claim r), v, t⟩)) log := by
  intro k r' answer' b a heq shard' jobId' g' entry hnone hsome hto
  cases heq
  by_cases hkey : S.absolute (.claim shard' jobId' (g' + 1)) = S.absolute (.claim shard jobId (g + 1))
  · rw [Site.absolute_inj] at hkey
    injection hkey with hs hj hg
    obtain rfl := hs
    obtain rfl := hj
    have hg' : g' = g := by
      have := congrArg (· - 1) hg
      simpa using this
    subst hg'
    rw [claimAt_of_get? hr (OrderedMap.get?_insert_self _ _ _) rfl] at hsome
    cases hsome
    obtain ⟨hle, hback⟩ := hfloor hto
    exact fun hg => ⟨(hback hg).1, fun answer before after hmem f hf =>
      UInt64.le_trans ((hback hg).2 answer before after hmem f hf) hle⟩
  · rw [claimAt_congr (OrderedMap.get?_insert_of_ne _ _ hkey), hnone] at hsome
    cases hsome

lemma keeps_claim {r : ClaimRecord} (h : Inv S timed w) (hc : Punctuality timed w call c)
    (hdue : Due S w.objects shard jobId g r floorNs) (htakeover : r.continuation = false →
      claimFloor call = some floorNs ∧ Backoff S w.log i shard jobId g floorNs) :
    Inv S timed (w.request i (.putIfAbsent (S.absolute (.claim shard jobId (g + 1)))
      (S.encodeAt (.claim shard jobId (g + 1)) (.claim r))
      (Sha256.digest (S.encodeAt (.claim shard jobId (g + 1)) (.claim r)))) c) := by
  have hcases := inject_put c.fault w.objects c.stamp (S.absolute (.claim shard jobId (g + 1)))
    (S.encodeAt (.claim shard jobId (g + 1)) (.claim r))
    (Sha256.digest (S.encodeAt (.claim shard jobId (g + 1)) (.claim r)))
  rcases hcases with hsame | ⟨habsent, hnew⟩
  · exact h.request_outside (by rw [hsame]; exact Extends.refl S _) (by rw [hsame]; exact fun _ _ => rfl)
  have htime : timed → r.continuation = false → floorNs ≤ c.stamp.timeNs := fun ht hto =>
    UInt64.le_trans ((hc ht).2 floorNs (htakeover hto).1) (hc ht).1
  refine h.request (by rw [hnew]; exact Extends.insert habsent) ?_ ?_ ?_
  · rw [hnew]
    refine h.kept.put_claim hdue habsent fun ht => ⟨htime ht, fun p hp => ?_⟩
    obtain ⟨stored, hget, htm⟩ := get?_of_claimAt hp
    rw [← htm]
    exact UInt64.le_trans (h.clock ht _ stored (plane_absolute S _) hget) (hc ht).1
  · intro key stored _ hget
    rw [hnew, OrderedMap.get?_insert] at hget
    split at hget
    · cases hget
      exact .inr rfl
    · exact .inl hget
  · intro ht
    rw [hnew]
    exact punctual_claim hdue.wellFormed fun hto => ⟨htime ht hto, (htakeover hto).2⟩

/-- **Every permitted request keeps the invariant and only extends custody.** -/
theorem Permitted.keeps {o : Op} (hp : Permitted S i call w o) (h : Inv S timed w)
    (hc : Punctuality timed w call c) :
    Inv S timed (w.exec i o c).2 ∧ Grows S (LoggedAs i o) w (w.exec i o c).2 := by
  cases hp with
  | freshToken => exact ⟨h, Grows.refl w⟩
  | cachedFloor n => exact ⟨h, Grows.refl w⟩
  | cacheFloor n f => exact ⟨h.setHandle _ _, Grows.setHandle _ _⟩
  | isMemoizedTerminal n s j v => exact ⟨h, Grows.refl w⟩
  | memoizeTerminal n s j v => exact ⟨h.setHandle _ _, Grows.setHandle _ _⟩
  -- requests outside the claims plane only have to extend the store
  | read r hr =>
    have hsame : (inject c.fault w.objects c.stamp r).2 = w.objects := inject_reads hr
    have hext : Extends S w.objects (inject c.fault w.objects c.stamp r).2 := by
      rw [hsame]
      exact Extends.refl S _
    exact ⟨h.request_outside hext (by rw [hsame]; exact fun _ _ => rfl), Grows.request hext⟩
  | put key body digest hplane =>
    rcases inject_put c.fault w.objects c.stamp key body digest with hsame | ⟨habsent, hnew⟩
    · have hext : Extends S w.objects
          (inject c.fault w.objects c.stamp (.putIfAbsent key body digest)).2 := by
        rw [hsame]
        exact Extends.refl S _
      exact ⟨h.request_outside hext (by rw [hsame]; exact fun _ _ => rfl), Grows.request hext⟩
    · have hext : Extends S w.objects
          (inject c.fault w.objects c.stamp (.putIfAbsent key body digest)).2 := by
        rw [hnew]
        exact Extends.insert habsent
      refine ⟨h.request_outside hext fun key' hkey' => ?_, Grows.request hext⟩
      rw [hnew, OrderedMap.get?_insert_of_ne]
      rintro rfl
      exact hplane hkey'
  | cas key body digest v hplane =>
    have hother : ∀ k, k ≠ key → (inject c.fault w.objects c.stamp (.cas key body digest v)).2.get? k =
          w.objects.get? k := by
      intro k hk
      rcases inject_cas c.fault w.objects c.stamp key body digest v with
        hsame | ⟨_, -, -, hnew⟩
      · rw [hsame]
      · rw [hnew, OrderedMap.get?_insert_of_ne _ _ hk]
    have hext := Extends.of_outside hplane hother
    refine ⟨h.request_outside hext fun key' hkey' => hother key' ?_, Grows.request hext⟩
    rintro rfl
    exact hplane claimsSeg (by simp [custodyPlanes]) hkey'
  | delete key hplane =>
    have hother : ∀ k, k ≠ key → (inject c.fault w.objects c.stamp (.delete key)).2.get? k = w.objects.get? k := by
      intro k hk
      rcases inject_delete c.fault w.objects c.stamp key with hsame | hnew
      · rw [hsame]
      · rw [hnew, OrderedMap.get?_erase_of_ne _ hk]
    have hext := Extends.of_outside hplane hother
    refine ⟨h.request_outside hext fun key' hkey' => hother key' ?_, Grows.request hext⟩
    rintro rfl
    exact hplane claimsSeg (by simp [custodyPlanes]) hkey'
  -- the one request that lengthens a chain
  | claim shard jobId g r floorNs hdue htakeover =>
    refine ⟨keeps_claim h hc hdue htakeover, Grows.request ?_⟩
    rcases inject_put c.fault w.objects c.stamp (S.absolute (.claim shard jobId (g + 1)))
      (S.encodeAt (.claim shard jobId (g + 1)) (.claim r))
      (Sha256.digest (S.encodeAt (.claim shard jobId (g + 1)) (.claim r))) with
      hsame | ⟨habsent, hnew⟩
    · rw [hsame]
      exact Extends.refl S _
    · rw [hnew]
      exact Extends.insert habsent

end Keeps

end Custody
end StowQ
