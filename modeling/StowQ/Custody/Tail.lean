import StowQ.Custody.Rules

/-!
# Finding the tail of a chain

Whatever a hint says and however a listing is interleaved with other writers, the tail a
pass works from is a claim that is in the store, with the time and the record it has there.
That is all the claim protocol needs: the conditional create decides whether it is still
the last one.
-/

namespace StowQ
namespace Custody

open Data StowQ.Core Store Format Concurrent Interleaving Keys

variable {k : Key} {body : Bytes} {a b objs : Objects} {shard : UInt16} {jobId : ByteArr 16}
  {g : UInt64} {S : Site}

section Quiet

variable (S : Site) (i : Nat)

/-- Call `i` reads some fail record of a job. -/
def ProbesJob (shard : UInt16) (jobId : ByteArr 16) (e : Event) : Prop :=
  ∃ g, Probes S i shard jobId g e

/-- Events of call `i` that read no fail record. -/
def QuietEvent (e : Event) : Prop :=
  DoneBy i e ∧ ∀ shard jobId, ¬ ProbesJob S i shard jobId e

/-- Requests that are permitted everywhere and read no fail record. -/
def Calm [Sha256] (o : Op) : Prop :=
  Harmless S o ∧ ∀ shard jobId g, o ≠ .store (.get (S.absolute (.fail shard jobId g)))

variable {S i}

lemma quiet_of_logged {o : Op}
    (ho : ∀ shard jobId g, o ≠ .store (.get (S.absolute (.fail shard jobId g)))) {e : Event}
    (h : LoggedAs i o e) : QuietEvent S i e := by
  obtain ⟨r, answer, before, after, rfl, rfl⟩ := h
  refine ⟨rfl, fun shard jobId hprobe => ?_⟩
  obtain ⟨g, answer', before', after', heq⟩ := hprobe
  injection heq with _ hreq
  exact ho shard jobId g (by rw [hreq])

end Quiet

lemma toUInt32_toUInt64 (g : UInt32) : g.toUInt64.toUInt32 = g := by
  apply UInt32.toNat_inj.mp
  simp

section Specs

variable [Sha256] {S : Site} {timed : Prop} {i : Nat} {call : Call}
  {tolerated emitted path : Event → Prop} {ht : ∀ e, tolerated e → path e}
  {he : ∀ e, emitted e → path e} {w : World} {α : Type}

lemma calm_head (k : Str) : Calm S (.store (.head k)) := ⟨fun _ _ _ => .read _ rfl, nofun⟩

lemma calm_list (p : Str) (a : Option Str) (n : Nat) : Calm S (.store (.list p a n)) :=
  ⟨fun _ _ _ => .read _ rfl, nofun⟩

lemma calm_get (hk : planeOf k ≠ failsSeg) : Calm S (.store (.get (S.absolute k))) := by
  refine ⟨fun _ _ _ => .read _ rfl, fun shard jobId g h => ?_⟩
  injection h with h
  injection h with h
  rw [Site.absolute_inj] at h
  exact hk (by rw [h]; rfl)

lemma calm_put {digest : Digest} (hk : planeOf k ≠ claimsSeg) :
    Calm S (.store (.putIfAbsent (S.absolute k) body digest)) := by
  refine ⟨fun _ _ _ => .put _ _ _ ?_, nofun⟩
  simpa using hk

lemma calm_cas {digest : Digest} {v : Version} (hk : planeOf k ∉ custodyPlanes) :
    Calm S (.store (.cas (S.absolute k) body digest v)) := by
  refine ⟨fun _ _ _ => .cas _ _ _ _ fun plane hplane heq => ?_, nofun⟩
  rw [plane_absolute] at heq
  exact hk (Option.some.inj heq ▸ hplane)

lemma tame_calm : Tame (Calm S) where
  freshToken := ⟨fun _ _ _ => .freshToken, nofun⟩
  cachedFloor h := ⟨fun _ _ _ => .cachedFloor h, nofun⟩
  cacheFloor h f := ⟨fun _ _ _ => .cacheFloor h f, nofun⟩
  isMemoizedTerminal h s j v :=
    ⟨fun _ _ _ => .isMemoizedTerminal h s j v, nofun⟩
  head := calm_head
  list := calm_list

lemma calm_memoize (h : Nat) (s : UInt16) (j : ByteArr 16) (v : Version) : Calm S (.memoizeTerminal h s j v) :=
  ⟨fun _ _ _ => .memoizeTerminal h s j v, nofun⟩

lemma safe_of_calm (hq : ∀ e, QuietEvent S i e → emitted e) {p : Prog Op Res α}
    (h : p.Emits (Calm S)) (w : World) :
    Safe (discipline S timed i call tolerated emitted path ht he).service (Grows.rely S tolerated)
      (Grows S emitted) p (fun _ _ => True) w :=
  safe_of_harmless h (fun _ ho => ho.1) (fun _ ho e hlog => hq e (quiet_of_logged ho.2 hlog)) w

lemma holds_of_calm (hq : ∀ e, QuietEvent S i e → emitted e) {m : Routine α}
    (h : Budgeted.Emits (Calm S) m) (w : World) :
    Holds (discipline S timed i call tolerated emitted path ht he) m (fun _ _ => True) w :=
  fun b => safe_of_calm hq (h.prog b) w

/-! ## What is known of a tail -/

/-- Generation `g` was seen in the store with this metadata. -/
def Seen (S : Site) (objs : Objects) (shard : UInt16) (jobId : ByteArr 16) (g : UInt64)
    (info : Meta) : Prop :=
  g.toNat < 2 ^ 32 ∧ ∃ e, claimAt S objs shard jobId g.toUInt32 = some e ∧ e.timeNs = info.storeTimeNs

/-- A tail is the empty chain or a claim of the store. -/
def TailOk (S : Site) (objs : Objects) (shard : UInt16) (jobId : ByteArr 16) (t : Tail) : Prop :=
  t.generation.toNat < 2 ^ 32 ∧
    ((t.generation = 0 ∧ t.attempt = 0) ∨ ∃ e, claimAt S objs shard jobId t.generation.toUInt32 =
      some e ∧ e.timeNs = t.info.storeTimeNs ∧ e.record.attempt = t.attempt ∧
        e.record.leaseDurationNs = t.leaseDurationNs)

lemma Seen.extends {info : Meta} (h : Seen S a shard jobId g info) (hab : Extends S a b) :
    Seen S b shard jobId g info := by
  obtain ⟨hlt, e, hclaim, htime⟩ := h
  exact ⟨hlt, e, hab.claimAt hclaim, htime⟩

lemma TailOk.extends {t : Tail} (h : TailOk S a shard jobId t) (hab : Extends S a b) :
    TailOk S b shard jobId t := by
  obtain ⟨hlt, hzero | ⟨e, hclaim, hrest⟩⟩ := h
  · exact ⟨hlt, .inl hzero⟩
  · exact ⟨hlt, .inr ⟨e, hab.claimAt hclaim, hrest⟩⟩

/-- A listed claim is a claim of the store. -/
lemma seen_of_listed {after : Option Str} {limit : Nat} {item : Listing} (hkept : Kept S timed objs)
    (hitem : item ∈ (listPage objs (S.dir [claimsSeg, hex16 shard, hex jobId.toList])
      after limit).items) (hg : parseGeneration item.key = some g) : Seen S objs shard jobId g item.info := by
  obtain ⟨stored, hget, hinfo, hsel⟩ := mem_listPage hitem
  have hpre := selects_pre hsel
  have hsegs := slash_not_mem_jobDir claimsSeg (by decide) shard jobId
  obtain ⟨shard', jobId', g', hkey, e, he⟩ := hkept.claims item.key stored hget (S.plane_of_dir hsegs hpre)
  rw [hkey] at hpre hg hget
  obtain ⟨rfl, rfl⟩ := claim_of_claimsDir hpre
  rw [parseGeneration_claim] at hg
  cases hg
  refine ⟨by simpa using g'.toNat_lt, e, by rw [toUInt32_toUInt64]; exact he, ?_⟩
  obtain ⟨stored', hget', htime⟩ := get?_of_claimAt he
  rw [hget] at hget'
  cases hget'
  rw [hinfo, ← htime]
  rfl

end Specs

/-! ## The routines -/

section Routines

variable [Sha256] {q : Queue} {timed : Prop} {i : Nat} {call : Call}
  {tolerated emitted path : Event → Prop} {ht : ∀ e, tolerated e → path e}
  {he : ∀ e, emitted e → path e} {w : World} {shard : UInt16} {jobId : ByteArr 16}

lemma holds_listTail (hq : ∀ e, QuietEvent q.site i e → emitted e)
    (hinv : Inv q.site timed w) :
    Holds (discipline q.site timed i call tolerated emitted path ht he) (q.listTail shard jobId)
      (OnOk fun tail w' => ∀ g info, tail = some (g, info) → Seen q.site w'.objects shard jobId g info) w := by
  refine holds_pages (fun x w' => ∀ g, parseGeneration x.key = some g →
    Seen q.site w'.objects shard jobId g x.info) hinv ?_ ?_ ?_ ?_ (by simp)
  · exact fun tail a b _ hab hI g info htail => (hI g info htail).extends hab.objects
  · exact fun x a b _ hab hL g hg => (hL g hg).extends hab.objects
  · intro after w' hi ho
    have hlog : ∀ e, LoggedAs i (.store (.list (q.claimsPrefix shard jobId) after 64)) e →
        emitted e := fun e hlog => hq e (quiet_of_logged (calm_list _ _ _).2 hlog)
    refine holds_list (f := pure) hlog fun w1 r hi1 _ hr => ?_
    refine holds_pure fun w2 _ ho2 page hpage x hx g hg => ?_
    have hlisted := hr page hpage ▸ hx
    exact (seen_of_listed hi1.kept hlisted hg).extends ho2.objects
  · intro tail x w' hi ho hI hL
    refine holds_pure fun w'' _ ho'' g info htail => ?_
    split at htail
    · next g' hg' =>
        cases htail
        exact (hL _ hg').extends ho''.objects
    · exact (hI g info htail).extends ho''.objects

/-- The claim of a generation, as its decoded body shows it. -/
lemma claimAt_of_decode {g : UInt32} {stored : Stored} {r : ClaimRecord}
    (hget : objs.get? (S.absolute (.claim shard jobId g)) = some stored)
    (hdec : S.decodeAt (.claim shard jobId g) stored.body = .ok (.claim r)) :
    claimAt S objs shard jobId g = some ⟨r, stored.storeTimeNs⟩ := by
  simp [claimAt, hget, hdec]

lemma holds_tailRecord (hq : ∀ e, QuietEvent q.site i e → emitted e) :
    Holds (discipline q.site timed i call tolerated emitted path ht he)
      (q.tailRecord shard jobId g)
      (OnOk fun out w' => ∃ e, claimAt q.site w'.objects shard jobId g.toUInt32 = some e ∧
        e.record.attempt = out.1 ∧ e.record.leaseDurationNs = out.2) w := by
  refine holds_spend ?_
  refine holds_get (fun e hlog => hq e (quiet_of_logged (calm_get (by simp [planeOf,
    claimsSeg, failsSeg])).2 hlog)) fun w1 r hi1 _ hok _ => ?_
  refine holds_ofStore fun obj hobj => ?_
  obtain ⟨stored, hget, rfl⟩ := hok obj hobj
  refine holds_ofRecord fun record hrecord => ?_
  split
  · next c =>
      refine holds_pure fun w2 _ ho2 => ?_
      exact ⟨_, ho2.objects.claimAt (claimAt_of_decode hget hrecord), rfl, rfl⟩
  · exact holds_fail

/-- What the gather may rely on. -/
def GatheredOk (S : Site) (objs : Objects) (shard : UInt16) (jobId : ByteArr 16)
    (g : Gathered) : Prop :=
  (∀ gen info, g.tail = some (gen, info) → Seen S objs shard jobId gen info) ∧
    ∀ c, g.hintRecord = some c → ∃ gen info e, g.tail = some (gen, info) ∧
      claimAt S objs shard jobId gen.toUInt32 = some e ∧ e.record = c ∧ e.timeNs = info.storeTimeNs

lemma GatheredOk.extends {g : Gathered} (h : GatheredOk S a shard jobId g) (hab : Extends S a b) :
    GatheredOk S b shard jobId g := by
  refine ⟨fun gen info htail => (h.1 gen info htail).extends hab, fun c hc => ?_⟩
  obtain ⟨gen, info, e, htail, hclaim, hrest⟩ := h.2 c hc
  exact ⟨gen, info, e, htail, hab.claimAt hclaim, hrest⟩

lemma holds_listedTail (hq : ∀ e, QuietEvent q.site i e → emitted e)
    (hinv : Inv q.site timed w) (hint : Option (Version × UInt64)) :
    Holds (discipline q.site timed i call tolerated emitted path ht he)
      (do pure ⟨← q.listTail shard jobId, hint, none⟩)
      (OnOk fun g w' => GatheredOk q.site w'.objects shard jobId g) w := by
  refine (holds_listTail hq hinv).andThen fun tail w1 _ _ htail => ?_
  refine holds_pure fun w2 _ ho2 => ⟨fun gen info hg => ?_, by simp⟩
  exact (htail gen info hg).extends ho2.objects

lemma decodeAt_of_decodeClaim {rel : Key} {c : ClaimRecord} (h : q.decodeClaim rel body = some c) :
    q.decodeAt rel body = .ok (.claim c) := by
  unfold Queue.decodeClaim at h
  split at h
  · next hdec =>
      cases h
      exact hdec
  · cases h

lemma holds_gatherTail (hq : ∀ e, QuietEvent q.site i e → emitted e)
    (hinv : Inv q.site timed w) :
    Holds (discipline q.site timed i call tolerated emitted path ht he)
      (q.gatherTail shard jobId)
      (OnOk fun g w' => GatheredOk q.site w'.objects shard jobId g) w := by
  unfold Queue.gatherTail
  split
  swap
  -- without hints, without a usable one, or when it names no claim, the listing decides
  · exact holds_listedTail hq hinv none
  have hread : Budgeted.Emits (Calm q.site) (q.readTailHint shard jobId) :=
    Footprint.readTailHint (calm_get (by simp [planeOf, tailsSeg, failsSeg]))
  refine holds_after (holds_of_calm hq hread w) fun hint w1 hi1 _ => ?_
  split
  · exact holds_listedTail hq hi1 none
  · next version gen =>
      split
      swap
      · exact holds_listedTail hq hi1 _
      · next hgen =>
          refine holds_spend ?_
          refine holds_get (fun e hlog => hq e (quiet_of_logged (calm_get (by simp [planeOf,
            claimsSeg, failsSeg])).2 hlog)) fun w2 r hi2 _ hok _ => ?_
          cases r with
          | error err =>
            cases err with
            | notFound => exact holds_listedTail hq hi2 _
            | _ => exact holds_fail
          | ok obj =>
            obtain ⟨stored, hget, rfl⟩ := hok obj rfl
            dsimp only
            split
            swap
            · exact holds_listedTail hq hi2 _
            next c hc =>
            have hclaim := claimAt_of_decode hget (decodeAt_of_decodeClaim hc)
            refine holds_pure fun w3 _ ho3 => GatheredOk.extends ?_ ho3.objects
            have hlt : gen.toNat < 2 ^ 32 := by
              have hle := UInt64.le_iff_toNat_le.mp hgen.2
              simp [u32Max] at hle
              omega
            refine ⟨fun gen' info' htail => ?_, fun c' hc' => ?_⟩
            · cases htail
              exact ⟨hlt, _, hclaim, rfl⟩
            · cases hc'
              exact ⟨_, _, _, rfl, hclaim, rfl, rfl⟩

lemma tailOk_zero (info : Meta) : TailOk S objs shard jobId ⟨0, info, 0, 0⟩ := ⟨by simp, .inl ⟨rfl, rfl⟩⟩

lemma holds_tailOf (hq : ∀ e, QuietEvent q.site i e → emitted e) {g : Gathered}
    (hg : GatheredOk q.site w.objects shard jobId g) :
    Holds (discipline q.site timed i call tolerated emitted path ht he)
      (q.tailOf shard jobId g.tail g.hintRecord)
      (OnOk fun t w' => TailOk q.site w'.objects shard jobId t) w := by
  unfold Queue.tailOf
  dsimp only
  split
  · exact holds_pure fun w' _ _ => tailOk_zero _
  · next hgen =>
      cases htail : g.tail with
      | none => simp [htail] at hgen
      | some found =>
        obtain ⟨gen, info⟩ := found
        obtain ⟨hlt, e, hclaim, htime⟩ := hg.1 gen info htail
        split
        · next c hc =>
            obtain ⟨gen', info', e', htail', hclaim', hrec, htime'⟩ := hg.2 c hc
            rw [htail] at htail'
            cases htail'
            refine holds_pure fun w' _ ho => TailOk.extends ?_ ho.objects
            exact ⟨hlt, .inr ⟨e', hclaim', htime', by rw [hrec], by rw [hrec]⟩⟩
        · refine (holds_tailRecord hq).andThen fun out w1 _ ho1 hout => ?_
          obtain ⟨e', hclaim', hattempt, hlease⟩ := hout
          change claimAt q.site w1.objects shard jobId gen.toUInt32 = some e' at hclaim'
          refine holds_pure fun w2 _ ho2 => TailOk.extends ?_ ho2.objects
          have hsame := ho1.objects.claimAt hclaim
          rw [hclaim'] at hsame
          obtain rfl := Option.some.inj hsame
          exact ⟨hlt, .inr ⟨e', hclaim', htime, hattempt, hlease⟩⟩

lemma holds_rediscoverTail (hq : ∀ e, QuietEvent q.site i e → emitted e)
    (hinv : Inv q.site timed w) :
    Holds (discipline q.site timed i call tolerated emitted path ht he)
      (q.rediscoverTail shard jobId)
      (OnOk fun t w' => TailOk q.site w'.objects shard jobId t) w := by
  refine (holds_listTail hq hinv).andThen fun tail w1 _ _ htail => ?_
  exact holds_tailOf (g := ⟨tail, none, none⟩) hq ⟨htail, by simp⟩

end Routines

end Custody
end StowQ
