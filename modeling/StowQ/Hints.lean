import StowQ.Custody.Tail
import StowQ.Delivery.Evidence
import StowQ.Memo
import StowQ.Planes

/-!
# Tail hints move forward

A tail hint lets a claim scan read the newest claim of a job without listing the chain.  It is advisory, but
only useful as long as it names a claim and does not fall behind what it named before.  A hint is written on two
observations: a claim of its generation was committed, and the hint that it replaces was read with an older
generation.  The first one backs every hint by a claim.  The second one keeps hints from moving back, since a
hint is replaced only in the version that was read, and versions are not used again: `hints_move_forward`.
-/

namespace StowQ
namespace Hints

open Data StowQ.Core Store Format Concurrent Interleaving Custody Keys
open Memo (Used)

variable {g : UInt64} {q : Queue} {v : Version} {known : Option (Version × UInt64)} {key : Str}

/-- Calls that claim and renew on one queue with tail hints, over a store that never reuses a
version. -/
def hinting (S : Site) : Terms where
  start _ _ call := call.queue.site = S ∧ call.queue.hintsEnabled = true ∧
    ((∃ opts, call.action = .claim opts) ∨ (∃ opts max, call.action = .claimMany opts max) ∨
      ∃ c, call.action = .renew c)
  step w _ _ o c := ∀ r, o = .store r → ¬ Used w c.stamp.version
  env _ e := ∃ clock, e = .tick clock

/-! ## What a hint is written on -/

section Evidence

variable [Sha256] {q : Queue} {h h' : List Exchange} {shard : UInt16} {jobId : ByteArr 16}

/-- The generation that a hint reads as; garbage reads as 0. -/
def hintOf (body : Bytes) : UInt64 :=
  if body.length = 8 ∧ 1 ≤ fromBe body ∧ fromBe body ≤ u32Max.toNat then UInt64.ofNat (fromBe body) else 0

/-- A claim of the generation was committed. -/
def Committed (q : Queue) (shard : UInt16) (jobId : ByteArr 16) (g : UInt64) (h : List Exchange) : Prop :=
  1 ≤ g.toNat ∧ g.toNat < 2 ^ 32 ∧
    ∃ r : ClaimRecord, r.WellFormed ∧ Won q (.claim shard jobId g.toUInt32) (.claim r) h

/-- The hint was read in a version, and it reads as a generation. -/
def ReadAs (q : Queue) (shard : UInt16) (jobId : ByteArr 16) (v : Version) (g : UInt64) (h : List Exchange) : Prop :=
  ∃ obj, ⟨.get (q.absolute (.tail shard jobId)), .ok obj⟩ ∈ h ∧ obj.info.version = v ∧ hintOf obj.body = g

/-- A read that finds no claim record. -/
def FindsNoClaim (q : Queue) (rel : Key) (answer : StoreResult Object) : Prop :=
  answer = .error .notFound ∨ ∃ obj, answer = .ok obj ∧ q.decodeClaim rel obj.body = none

/-- After the hint was read, no claim was found where it says. -/
def Refuted (q : Queue) (shard : UInt16) (jobId : ByteArr 16) (v : Version) (h : List Exchange) : Prop :=
  ∃ (g : UInt64) (answer : StoreResult Object) (earlier : List Exchange),
    ⟨.get (q.absolute (.claim shard jobId g.toUInt32)), answer⟩ :: earlier <:+ h ∧
      ReadAs q shard jobId v g earlier ∧ FindsNoClaim q (.claim shard jobId g.toUInt32) answer

/-- The state of the hint that a write goes by. -/
def Hinted (q : Queue) (shard : UInt16) (jobId : ByteArr 16) (known : Option (Version × UInt64))
    (h : List Exchange) : Prop :=
  ∀ v g, known = some (v, g) → ReadAs q shard jobId v g h ∨ Refuted q shard jobId v h

/-- Writes of hints have their evidence, and nothing is deleted. -/
def Evident (q : Queue) (h : List Exchange) : Request → Prop
  | .putIfAbsent key body _ => ∀ shard jobId, key = q.absolute (.tail shard jobId) →
      ∃ g, Committed q shard jobId g h ∧ body = beBytes 8 g.toNat
  | .cas key body _ v => ∀ shard jobId, key = q.absolute (.tail shard jobId) →
      ∃ g g0, Committed q shard jobId g h ∧ body = beBytes 8 g.toNat ∧ g0 < g ∧
        (ReadAs q shard jobId v g0 h ∨ Refuted q shard jobId v h)
  | .delete _ => False
  | _ => True

lemma Committed.mono (hc : Committed q shard jobId g h) (hh : h <:+ h') : Committed q shard jobId g h' := by
  obtain ⟨hpos, hlt, r, hr, hwon⟩ := hc
  exact ⟨hpos, hlt, r, hr, hwon.mono hh⟩

omit [Sha256] in
lemma ReadAs.mono (hread : ReadAs q shard jobId v g h) (hh : h <:+ h') : ReadAs q shard jobId v g h' := by
  obtain ⟨obj, hmem, hrest⟩ := hread
  exact ⟨obj, List.IsSuffix.subset hh hmem, hrest⟩

lemma Hinted.mono (hint : Hinted q shard jobId known h) (hh : h <:+ h') : Hinted q shard jobId known h' := by
  intro v g hknown
  rcases hint v g hknown with hread | ⟨g', answer, earlier, hsuffix, hrest⟩
  · exact .inl (hread.mono hh)
  · exact .inr ⟨g', answer, earlier, hsuffix.trans hh, hrest⟩

omit [Sha256] in
lemma hintOf_le (body : Bytes) : hintOf body ≤ UInt64.ofNat u32Max.toNat := by
  unfold hintOf
  split
  · next hvalid =>
      have hlt : fromBe body < UInt64.size := Nat.lt_of_le_of_lt hvalid.2.2 (by decide)
      rw [UInt64.le_iff_toNat_le, UInt64.toNat_ofNat_of_lt' hlt]
      exact hvalid.2.2
  · exact UInt64.zero_le

lemma evident_of_reads {r : Request} (hr : r.reads = true) : Evident q h r := by
  cases r with
  | get | head | list => trivial
  | putIfAbsent | cas | delete => cases hr

lemma evident_put {k : Key} (hk : planeOf k ≠ tailsSeg) {body : Bytes} {sha256 : Digest} :
    Evident q h (.putIfAbsent (q.absolute k) body sha256) := by
  intro shard jobId heq
  rw [q.site.absolute_inj.mp heq] at hk
  exact absurd rfl hk

lemma holds_looks {α : Type} {m : Routine α} (hm : Budgeted.Emits Looks m) :
    Holds (knowing (Evident q)) m (fun _ _ => True) h :=
  holds_of_asks (fun b => hm.prog b) fun r hr _ _ => evident_of_reads (hr r rfl)

lemma holds_readTailHint : Holds (knowing (Evident q)) (q.readTailHint shard jobId)
    (OnOk fun known h' => ∀ v g, known = some (v, g) → ReadAs q shard jobId v g h') h := by
  refine holds_spend (holds_ask (fun _ _ _ => trivial) fun answer h1 _ hmem _ => ?_)
  cases answer with
  | error e =>
    cases e with
    | notFound => exact holds_pure nofun
    | _ => exact holds_fail
  | ok obj =>
    have hread : ∀ {g : UInt64} {h2}, hintOf obj.body = g → h1 <:+ h2 →
        ∀ v g', some (obj.info.version, g) = some (v, g') → ReadAs q shard jobId v g' h2 := by
      rintro g h2 hg hh2 v g' heq
      cases heq
      exact ⟨obj, List.IsSuffix.subset hh2 hmem, rfl, hg⟩
    dsimp only
    split
    · next hvalid => exact holds_pure fun _ _ hh2 => hread (if_pos hvalid) hh2
    · next hvalid => exact holds_pure fun _ _ hh2 => hread (if_neg hvalid) hh2

lemma holds_writeTailHint (hcommitted : Committed q shard jobId g h) (hint : Hinted q shard jobId known h) :
    Holds (knowing (Evident q)) (q.writeTailHint shard jobId g known) (OnOk fun _ _ => True) h := by
  have hdone : ∀ {h1 : List Exchange}, Holds (knowing (Evident q)) (pure () : Routine Unit) (OnOk fun _ _ => True) h1 :=
    holds_pure fun _ _ _ => trivial
  unfold Queue.writeTailHint
  split
  · cases known with
    | none =>
      refine holds_trySpend fun paid => ?_
      split
      · refine holds_ask (fun h1 hh1 _ shard' jobId' heq => ?_) fun _ _ _ _ _ => hdone
        cases q.site.absolute_inj.mp heq
        exact ⟨g, hcommitted.mono hh1, rfl⟩
      · exact hdone
    | some known =>
      obtain ⟨v, g0⟩ := known
      dsimp only
      split
      · exact hdone
      next hnewer =>
      refine holds_trySpend fun paid => ?_
      split
      · refine holds_ask (fun h1 hh1 _ shard' jobId' heq => ?_) fun _ _ _ _ _ => hdone
        cases q.site.absolute_inj.mp heq
        exact ⟨g, g0, hcommitted.mono hh1, rfl, UInt64.not_le.mp hnewer, hint.mono hh1 v g0 rfl⟩
      · exact hdone
  · exact hdone

lemma holds_gatherTail : Holds (knowing (Evident q)) (q.gatherTail shard jobId)
    (OnOk fun g h' => Hinted q shard jobId g.hintState h') h := by
  -- every branch but one goes on to the listing
  have hlisted : ∀ {known : Option (Version × UInt64)} {h1 : List Exchange}, Hinted q shard jobId known h1 →
      Holds (knowing (Evident q)) (do pure (⟨← q.listTail shard jobId, known, none⟩ : Gathered))
        (OnOk fun g h' => Hinted q shard jobId g.hintState h') h1 := fun hint =>
    holds_after (holds_looks (Footprint.listTail reading_looks)) fun _ _ _ hh2 =>
      holds_pure fun _ _ hh3 => hint.mono (hh2.trans hh3)
  unfold Queue.gatherTail
  split
  · refine holds_readTailHint.andThen fun known h1 _ _ hread => ?_
    cases known with
    | none => exact hlisted nofun
    | some known =>
      obtain ⟨v, g⟩ := known
      have hread := hread v g rfl
      dsimp only
      split
      · refine holds_spend (holds_ask_newest (fun _ _ _ => trivial) fun answer h2 hh2 _ => ?_)
        have hrefuted : FindsNoClaim q (.claim shard jobId g.toUInt32) answer →
            Hinted q shard jobId (some (v, 0)) (⟨_, answer⟩ :: h2) := by
          intro hnone v' g' heq
          cases heq
          exact .inr ⟨g, answer, h2, List.suffix_refl _, hread.mono hh2, hnone⟩
        cases answer with
        | ok obj =>
          dsimp only
          cases hdec : q.decodeClaim (.claim shard jobId g.toUInt32) obj.body with
          | some c =>
            refine holds_pure fun h3 _ hh3 v' g' heq => .inl ?_
            cases heq
            exact hread.mono ((hh2.trans (List.suffix_cons _ _)).trans hh3)
          | none => exact hlisted (hrefuted (.inr ⟨obj, rfl, hdec⟩))
        | error e =>
          cases e with
          | notFound => exact hlisted (hrefuted (.inl rfl))
          | _ => exact holds_fail
      · next hrange =>
          refine hlisted fun v' g' heq => .inl ?_
          cases heq
          obtain ⟨obj, hmem, hversion, rfl⟩ := hread
          have hzero : hintOf obj.body = 0 := by
            by_contra hne
            exact hrange ⟨UInt64.pos_iff_ne_zero.mpr hne, hintOf_le _⟩
          exact ⟨obj, hmem, hversion, hzero⟩
  · exact hlisted nofun

/-- Requests that write no hint and delete nothing. -/
def Hintless (q : Queue) (o : Op) : Prop := ∀ r, o = .store r → ∀ h, Evident q h r

lemma tame_hintless : Tame (Hintless q) := by
  constructor <;> intros <;> rintro r ⟨⟩ h <;> trivial

lemma hintless_put {k : Key} (hk : planeOf k ≠ tailsSeg) {body : Bytes} :
    Hintless q (.put (q.absolute k) body) := by
  rintro r ⟨⟩ h
  exact evident_put hk

lemma hintless_get : Hintless q (.store (.get key)) := by
  rintro r ⟨⟩ h
  trivial

lemma holds_hintless {α : Type} {m : Routine α} (hm : Budgeted.Emits (Hintless q) m) :
    Holds (knowing (Evident q)) m (fun _ _ => True) h :=
  holds_of_asks (fun b => hm.prog b) fun r hr h1 _ => hr r rfl h1

/-- A claim record is written; it needs no evidence. -/
lemma holds_putClaim {g : UInt32} {r : ClaimRecord} (hinv : Licensed (Evident q) h) :
    Holds (knowing (Evident q)) (q.putRecord (.claim shard jobId g) (.claim r))
      (OnOk fun res h' => res = .committed → Won q (.claim shard jobId g) (.claim r) h') h := by
  have hput : planeOf (.claim shard jobId g) ≠ tailsSeg :=
    show claimsSeg ≠ tailsSeg by decide
  exact (holds_putRecord (fun _ _ _ => evident_put hput) (fun _ _ _ => trivial) (fun _ _ _ => trivial) hinv).mono
    fun _ _ _ _ hresolves res hres => (hresolves res hres).1

omit [Sha256] in
/-- Generations are counted from 1, and the next one fits a key. -/
lemma next_fits (hg : g < UInt64.ofNat u32Max.toNat) : 1 ≤ (g + 1).toNat ∧ (g + 1).toNat < 2 ^ 32 := by
  have hlt := Delivery.next_lt_of_lt hg
  have hg : g.toNat < u32Max.toNat := UInt64.lt_iff_toNat_lt.mp hg
  refine ⟨?_, hlt⟩
  rw [UInt64.toNat_add, Nat.mod_eq_of_lt]
  · exact Nat.le_add_left 1 _
  · exact Nat.lt_of_le_of_lt (Nat.succ_le_of_lt hg) (by decide)

lemma holds_takeoverHandle {opts : ClaimOptions} {tail : Tail} {job : JobRecord} {token : ByteArr 16}
    (hint : Hinted q shard jobId known h) (hgen : tail.generation < UInt64.ofNat u32Max.toNat)
    (hwon : Won q (.claim shard jobId (tail.generation + 1).toUInt32)
      (.claim (q.takeoverRecord jobId opts tail token)) h) :
    Holds (knowing (Evident q)) (q.takeoverHandle shard jobId opts tail job token known) (OnOk fun _ _ => True) h := by
  refine holds_spend (holds_ask (fun _ _ _ => trivial) fun answer h1 hh1 _ _ => ?_)
  refine holds_ofStore fun info _ => ?_
  split
  · exact holds_fail
  obtain ⟨hpos, hlt⟩ := next_fits hgen
  have hcommitted : Committed q shard jobId (tail.generation + 1) h :=
    ⟨hpos, hlt, _, q.takeoverRecord_wellFormed .., hwon⟩
  refine holds_after ((holds_writeTailHint (hcommitted.mono hh1) (hint.mono hh1)).mono fun _ _ _ _ _ => trivial)
    fun _ h2 _ _ => ?_
  have hlease : Budgeted.Emits (Hintless q) (q.writeLeaseIndex shard jobId
      (satAdd info.storeTimeNs opts.leaseDurationNs) (tail.generation + 1)) :=
    Footprint.writeLeaseIndex fun _ _ =>
      hintless_put (k := .leaseIndex ..) (show leasesSeg ≠ tailsSeg by decide)
  exact holds_after (holds_hintless hlease) fun _ _ _ _ => holds_pure fun _ _ _ => trivial

lemma takesSafely_evident (opts : ClaimOptions) :
    TakesSafely (knowing (Evident q)) q opts (Hinted q) (fun _ _ _ _ => True)
      (fun shard jobId tail token h => Won q (.claim shard jobId (tail.generation + 1).toUInt32)
        (.claim (q.takeoverRecord jobId opts tail token)) h)
      fun _ _ => True where
  tolerant _ _ _ _ hg := hg
  quiet _ hp := safe_of_asks hp fun r hr _ _ => evident_of_reads (hr r rfl)
  gather _ _ _ _ := holds_gatherTail
  read _ _ _ _ := (holds_looks (Footprint.readJob reading_looks)).mono fun _ _ _ _ _ _ _ _ _ => trivial
  bury _ _ _ _ _ := holds_hintless (Footprint.buryExhausted tame_hintless
    (fun _ => hintless_put (k := .beacon _) (show metaSeg ≠ tailsSeg by decide)) hintless_get
    (fun _ => hintless_put (k := .termIndex ..) (show termidxSeg ≠ tailsSeg by decide))
    (hintless_put (k := .dead ..) (show deadSeg ≠ tailsSeg by decide)) hintless_get)
  put _ _ _ _ _ hinv := holds_putClaim hinv
  handle _ _ _ _ _ _ _ _ hint _ hgen hwon := holds_takeoverHandle hint hgen hwon
  hinted_stable _ _ _ _ _ _ hh hint := hint.mono hh
  read_stable _ _ _ _ _ _ _ _ := trivial
  good_stable _ _ _ _ _ _ := trivial

lemma holds_renew (c : Claim) : Holds (knowing (Evident q)) (q.renew c) (OnOk fun _ _ => True) h := by
  have hlost : ∀ {h1 : List Exchange}, Holds (knowing (Evident q)) (pure .leaseLost : Routine RenewOutcome)
      (OnOk fun _ _ => True) h1 := holds_pure fun _ _ _ => trivial
  have habsent : ∀ {rel : Key} {h1 : List Exchange},
      Holds (knowing (Evident q)) (q.provenAbsent rel) (fun _ _ => True) h1 :=
    (holds_provenAbsent fun _ _ _ => trivial).mono fun _ _ _ _ _ => trivial
  unfold Queue.renew
  split
  · exact holds_fail
  next hgen =>
  refine holds_after habsent fun absent h1 hi1 _ => ?_
  split
  · exact hlost
  refine holds_after habsent fun absent h2 hi2 _ => ?_
  split
  · exact hlost
  refine holds_spend ((holds_putClaim hi2).andThen fun resolved h3 _ _ hwon => ?_)
  cases resolved with
  | committed =>
    obtain ⟨hpos, hlt⟩ := next_fits (UInt64.not_le.mp hgen)
    have hcommitted : Committed q c.shard c.jobId (c.generation + 1) h3 :=
      ⟨hpos, hlt, _, q.continuationRecord_wellFormed c, hwon rfl⟩
    -- what the call knows by then: its claim is committed, and which hint it read
    have hhint : ∀ {h4 : List Exchange}, h3 <:+ h4 → Holds (knowing (Evident q))
        (q.updateTailHint c.shard c.jobId (c.generation + 1)) (OnOk fun _ _ => True) h4 := by
      intro h4 hh4
      unfold Queue.updateTailHint
      split
      · refine holds_readTailHint.attempt.andThen fun known h5 _ hh5 hread => ?_
        cases known with
        | ok known =>
          exact holds_writeTailHint (hcommitted.mono (hh4.trans hh5)) fun v g hknown =>
            .inl (hread known rfl v g hknown)
        | error e => exact holds_pure fun _ _ _ => trivial
      · exact holds_pure fun _ _ _ => trivial
    have hhandle : Holds (knowing (Evident q)) (q.renewedHandle c) (OnOk fun _ _ => True) h3 := by
      refine holds_spend (holds_ask (fun _ _ _ => trivial) fun answer h4 hh4 _ _ => ?_)
      refine holds_ofStore fun info _ => ?_
      exact (hhint hh4).andThen fun _ _ _ _ _ => holds_pure fun _ _ _ => trivial
    exact hhandle.andThen fun _ _ _ _ _ => holds_pure fun _ _ _ => trivial
  | lost => exact hlost
  | notCommitted => exact hlost

/-- **Every hint is written on its evidence.** -/
theorem holds_task {S : Site} {cfg : Calls} {i : Nat} {call : Call} (hstart : (hinting S).start cfg i call) :
    Holds (knowing (Evident call.queue)) (call.action.task call.queue) (OnOk fun _ _ => True) [] := by
  have hprobes := fun opts => (takesSafely_evident (q := call.queue) opts).probesSafely.scansSafely
  have hinv : (knowing (Evident call.queue)).service.inv [] := trivial
  obtain ⟨-, -, ⟨opts, haction⟩ | ⟨opts, max, haction⟩ | ⟨c, haction⟩⟩ := hstart
  · rw [haction]
    exact ((hprobes opts).holds_claim hinv).andThen fun _ _ _ _ _ => holds_pure fun _ _ _ => trivial
  · rw [haction]
    exact ((hprobes opts).holds_claimMany max hinv).andThen fun _ _ _ _ _ => holds_pure fun _ _ _ => trivial
  · rw [haction]
    exact (holds_renew c).andThen fun _ _ _ _ _ => holds_pure fun _ _ _ => trivial

end Evidence

/-! ## Runs -/

section Runs

variable [Sha256] {S : Site} {w : World} {cfg cfg' : Calls} {i : Nat} {shard : UInt16} {jobId : ByteArr 16}

/-- Every hint is the generation, in eight bytes, of a claim of its job. -/
def HintsValid (S : Site) (objs : Objects) : Prop :=
  ∀ shard jobId stored, objs.get? (S.absolute (.tail shard jobId)) = some stored →
    ∃ (g : UInt32) (e : Entry), 1 ≤ g ∧ stored.body = beBytes 8 g.toNat ∧ claimAt S objs shard jobId g = some e

/-- Hints stay, and their generations do not decrease. -/
def Forward (S : Site) (objs objs' : Objects) : Prop :=
  ∀ shard jobId stored, objs.get? (S.absolute (.tail shard jobId)) = some stored →
    ∃ stored', objs'.get? (S.absolute (.tail shard jobId)) = some stored' ∧ fromBe stored.body ≤ fromBe stored'.body

omit [Sha256] in
lemma Forward.refl (S : Site) (objs : Objects) : Forward S objs objs :=
  fun _ _ stored hget => ⟨stored, hget, Nat.le_refl _⟩

omit [Sha256] in
lemma Forward.trans {a b c : Objects} (hab : Forward S a b) (hbc : Forward S b c) : Forward S a c := by
  intro shard jobId stored hget
  obtain ⟨stored1, hget1, hle1⟩ := hab shard jobId stored hget
  obtain ⟨stored2, hget2, hle2⟩ := hbc shard jobId stored1 hget1
  exact ⟨stored2, hget2, hle1.trans hle2⟩

omit [Sha256] in
lemma fromBe_generation {g : Nat} (hg : g < 2 ^ 32) : fromBe (beBytes 8 g) = g :=
  fromBe_beBytes_of_lt (Nat.lt_trans hg (by decide))

omit [Sha256] in
lemma hintOf_beBytes {g : UInt32} (hg : 1 ≤ g) : hintOf (beBytes 8 g.toNat) = UInt64.ofNat g.toNat := by
  have hvalue : fromBe (beBytes 8 g.toNat) = g.toNat := fromBe_generation g.toNat_lt
  have hpos : 1 ≤ g.toNat := UInt32.le_iff_toNat_le.mp hg
  have hle : g.toNat ≤ u32Max.toNat := Nat.le_of_lt_succ g.toNat_lt
  unfold hintOf
  rw [hvalue, if_pos ⟨beBytes_length .., hpos, hle⟩]

lemma lasting_claim (g : UInt32) : Lasting (hinting S) (S.absolute (.claim shard jobId g)) where
  calls := by
    rintro cfg i call ⟨rfl, -, hkind⟩
    refine Call.preserves (fun a b c hgc => ?_) (show claimsSeg ∉ overwritten ++ swept by decide)
    rw [hgc] at hkind
    rcases hkind with ⟨_, h⟩ | ⟨_, _, h⟩ | ⟨_, h⟩ <;> cases h
  env := by
    rintro w e ⟨clock, rfl⟩
    trivial

/-- The invariant: hints are valid, now and before each request, and a version has one object. -/
structure Steady (S : Site) (w : World) : Prop where
  valid : HintsValid S w.objects
  was : ∀ i r answer before after, .did i r answer before after ∈ w.log → HintsValid S before
  versions : ∀ i r answer before after, .did i r answer before after ∈ w.log → ∀ key old now,
    before.get? key = some old → w.objects.get? key = some now → old.version = now.version → old = now

section Log

variable (hw : w.log = []) (hrun : machine.Run (hinting S) (Machine.initial w) cfg)

include hw hrun

lemma claim_of_committed (hq : q.site = S) (hcommitted : Committed q shard jobId g (own i cfg.world.log)) :
    ∃ e, claimAt S cfg.world.objects shard jobId g.toUInt32 = some e := by
  subst hq
  obtain ⟨-, -, r, hr, ⟨v, hmem⟩ | ⟨obj, hmem, hdec⟩⟩ := hcommitted
  · obtain ⟨stored, hget, hbody⟩ := (lasting_claim _).committed hw hrun hmem
    exact ⟨_, claimAt_of_get? hr hget hbody⟩
  · obtain ⟨stored, hget, rfl⟩ := (lasting_claim _).got hw hrun hmem
    exact ⟨_, claimAt_of_decode hget hdec⟩

lemma found_of_readAs (hq : q.site = S) (hread : ReadAs q shard jobId v g (own i cfg.world.log)) :
    ∃ r answer before after stored, .did i r answer before after ∈ cfg.world.log ∧
      before.get? (S.absolute (.tail shard jobId)) = some stored ∧ stored.version = v ∧ hintOf stored.body = g := by
  subst hq
  obtain ⟨obj, hmem, hversion, hbody⟩ := hread
  obtain ⟨before, after, hdid⟩ := mem_own.mp hmem
  obtain ⟨c, hanswered⟩ := run_answered hw hrun hdid
  obtain ⟨stored, hstored, rfl⟩ := answer_get (congrArg Prod.fst hanswered)
  exact ⟨_, _, before, after, stored, hdid, hstored, hversion, hbody⟩

lemma not_refuted (hq : q.site = S) (hsteady : Steady S cfg.world) :
    ¬ Refuted q shard jobId v (own i cfg.world.log) := by
  rintro ⟨g, answer, earlier, hsuffix, hread, hnone⟩
  obtain ⟨later, log, before, after, hlog, rfl⟩ := own_split hsuffix
  obtain ⟨at_, call, k, c, hm⟩ := run_at hw hrun hlog
  rw [← hm.log] at hread
  obtain ⟨r, answer', before', after', stored, hdid, hget, -, hg⟩ := found_of_readAs hw hm.run hq hread
  have hmem : .did i r answer' before' after' ∈ cfg.world.log := by
    rw [hlog, ← hm.log]
    exact List.mem_append_right _ (List.mem_cons_of_mem _ hdid)
  obtain ⟨g', e, hpos, hbody, hclaim⟩ := hsteady.was i r answer' before' after' hmem shard jobId stored hget
  obtain rfl : g.toUInt32 = g' := by
    rw [← hg, hbody, hintOf_beBytes hpos, UInt64.toUInt32_ofNat', UInt32.ofNat_toNat]
  subst hq
  -- the claim was there when it was looked for
  have hnow : claimAt q.site before shard jobId g.toUInt32 = some e := by
    obtain ⟨s, hs, -⟩ := get?_of_claimAt hclaim
    have hstill := (lasting_claim g.toUInt32).found hw hm.run hdid hs
    rw [hm.objects] at hstill
    rw [← hclaim, claimAt_congr (hstill.trans hs.symm)]
  obtain ⟨s, hs, -⟩ := get?_of_claimAt hnow
  rcases hnone with rfl | ⟨obj, rfl, hdec⟩
  · have habsent := answer_get_notFound (congrArg Prod.fst hm.answered)
    rw [show before.get? (q.absolute _) = _ from hs] at habsent
    cases habsent
  · obtain ⟨s', hs', rfl⟩ := answer_get (congrArg Prod.fst hm.answered)
    unfold claimAt at hnow
    rw [show before.get? (q.site.absolute _) = _ from hs'] at hnow
    unfold Queue.decodeClaim at hdec
    split at hdec
    · cases hdec
    · next hother =>
        dsimp only at hnow
        split at hnow
        · next r hr => exact hother r hr
        · cases hnow

/-- A hint that is replaced is not newer than what replaces it. -/
lemma older_of_seen {old : Stored} {g0 : UInt64} (hq : q.site = S) (hsteady : Steady S cfg.world)
    (hget : cfg.world.objects.get? (S.absolute (.tail shard jobId)) = some old) (hnewer : g0 < g)
    (hseen : ReadAs q shard jobId old.version g0 (own i cfg.world.log) ∨
      Refuted q shard jobId old.version (own i cfg.world.log)) : fromBe old.body ≤ g.toNat := by
  have hread := hseen.resolve_right (not_refuted hw hrun hq hsteady)
  obtain ⟨r, answer, before, after, stored, hdid, hstored, hversion, hg0⟩ := found_of_readAs hw hrun hq hread
  obtain rfl := hsteady.versions i r answer before after hdid _ _ _ hstored hget hversion
  obtain ⟨g', -, hpos, hbody, -⟩ := hsteady.valid shard jobId stored hget
  have hlt : g'.toNat < UInt64.size := Nat.lt_trans g'.toNat_lt (by decide)
  rw [hbody, hintOf_beBytes hpos] at hg0
  rw [hbody, fromBe_generation g'.toNat_lt, ← UInt64.toNat_ofNat_of_lt' hlt, hg0]
  exact Nat.le_of_lt (UInt64.lt_iff_toNat_lt.mp hnewer)

end Log

lemma hintsValid_insert {objs : Objects} {stored : Stored} (hvalid : HintsValid S objs)
    (hkept : ∀ shard jobId g e, claimAt S objs shard jobId g = some e →
      claimAt S (objs.insert key stored) shard jobId g = some e)
    (hwritten : ∀ shard jobId, key = S.absolute (.tail shard jobId) → ∃ (g : UInt64) (e : Entry), 1 ≤ g.toNat ∧
      g.toNat < 2 ^ 32 ∧ stored.body = beBytes 8 g.toNat ∧ claimAt S objs shard jobId g.toUInt32 = some e) :
    HintsValid S (objs.insert key stored) := by
  intro shard jobId stored' hget
  rw [OrderedMap.get?_insert] at hget
  split at hget
  · next heq =>
      cases hget
      obtain ⟨g, e, hpos, hlt, hbody, hclaim⟩ := hwritten shard jobId heq.symm
      have htoNat : g.toUInt32.toNat = g.toNat := by rw [UInt64.toNat_toUInt32, Nat.mod_eq_of_lt hlt]
      refine ⟨g.toUInt32, e, UInt32.le_iff_toNat_le.mpr ?_, ?_, hkept _ _ _ _ hclaim⟩
      · rw [htoNat]
        exact hpos
      · rw [htoNat]
        exact hbody
  · obtain ⟨g, e, hpos, hbody, hclaim⟩ := hvalid shard jobId stored' hget
    exact ⟨g, e, hpos, hbody, hkept _ _ _ _ hclaim⟩

omit [Sha256] in
lemma forward_insert {objs : Objects} {stored : Stored}
    (hwritten : ∀ shard jobId old, key = S.absolute (.tail shard jobId) → objs.get? key = some old →
      fromBe old.body ≤ fromBe stored.body) : Forward S objs (objs.insert key stored) := by
  intro shard jobId old hget
  by_cases heq : S.absolute (.tail shard jobId) = key
  · subst heq
    exact ⟨stored, OrderedMap.get?_insert_self _ _ _, hwritten shard jobId old rfl hget⟩
  · exact ⟨old, (OrderedMap.get?_insert_of_ne _ _ heq).trans hget, Nat.le_refl _⟩

section Step

variable (hw : w.log = []) (hrun : machine.Run (hinting S) (Machine.initial w) cfg)
  (hstep : machine.Step (hinting S) cfg cfg')

include hw hrun hstep

/-- A request keeps hints valid and moves them forward. -/
lemma request_forward {call : Call} {r : Request} {k : StoreResult r.Answer → Prog Op Res (Except Error Output)}
    {c : Choice} (hsteady : Steady S cfg.world) (hthread : cfg.threads i = some ⟨call, .op (.store r) k⟩)
    (hworld : cfg'.world = cfg.world.request i r c) :
    HintsValid S cfg'.world.objects ∧ Forward S cfg.world.objects cfg'.world.objects := by
  have hevident : Evident call.queue (own i cfg.world.log) r := run_asks (fun _ _ _ => holds_task) hw hrun hthread
  have hq : call.queue.site = S := by
    obtain ⟨-, ⟨_, hadmitted⟩, -⟩ :=
      (run_accounted (A := fun _ _ => True) (fun _ _ _ _ => .any _) hw hrun).2 i _ hthread
    exact hadmitted.1
  have hkept : ∀ shard jobId g e, claimAt S cfg.world.objects shard jobId g = some e →
      claimAt S cfg'.world.objects shard jobId g = some e := by
    intro shard jobId g e hclaim
    obtain ⟨stored, hget, -⟩ := get?_of_claimAt hclaim
    have hstill := run_preserved (lasting_claim g) hw hrun (.single hstep) hget
    rw [← hclaim, claimAt_congr (hstill.trans hget.symm)]
  have hchange : Change r c.stamp cfg.world.objects cfg'.world.objects := by
    rw [hworld]
    exact inject_change c.fault cfg.world.objects c.stamp r
  generalize cfg'.world.objects = objs' at hkept hchange
  -- the evidence of a write is the claim that backs it
  have hclaims : ∀ {shard jobId} {g : UInt64} {body : Bytes},
      Committed call.queue shard jobId g (own i cfg.world.log) → body = beBytes 8 g.toNat →
      ∃ (g : UInt64) (e : Entry), 1 ≤ g.toNat ∧ g.toNat < 2 ^ 32 ∧ body = beBytes 8 g.toNat ∧
        claimAt S cfg.world.objects shard jobId g.toUInt32 = some e := by
    intro shard jobId g body hcommitted hbody
    obtain ⟨e, he⟩ := claim_of_committed hw hrun hq hcommitted
    exact ⟨g, e, hcommitted.1, hcommitted.2.1, hbody, he⟩
  subst hq
  cases hchange with
  | same => exact ⟨hsteady.valid, Forward.refl _ _⟩
  | created key body hreq habsent =>
    subst hreq
    refine ⟨hintsValid_insert hsteady.valid hkept fun shard jobId heq => ?_, forward_insert fun _ _ old _ hold => ?_⟩
    · obtain ⟨g, hcommitted, hbody⟩ := hevident shard jobId heq
      exact hclaims hcommitted hbody
    · rw [habsent] at hold
      cases hold
  | replaced key body old hreq hpresent =>
    subst hreq
    refine ⟨hintsValid_insert hsteady.valid hkept fun shard jobId heq => ?_,
      forward_insert fun shard jobId old' heq hold => ?_⟩
    · obtain ⟨g, -, hcommitted, hbody, -⟩ := hevident shard jobId heq
      exact hclaims hcommitted hbody
    · cases hpresent.symm.trans hold
      obtain ⟨g, g0, hcommitted, rfl, hnewer, hseen⟩ := hevident shard jobId heq
      show _ ≤ fromBe (beBytes 8 g.toNat)
      rw [fromBe_generation hcommitted.2.1]
      exact older_of_seen hw hrun rfl hsteady (heq ▸ hpresent) hnewer hseen
  | removed key hreq =>
    subst hreq
    exact hevident.elim

lemma step_steady (hsteady : Steady S cfg.world) :
    Steady S cfg'.world ∧ Forward S cfg.world.objects cfg'.world.objects := by
  rcases step_cases (fun _ _ henv => henv) hstep with ⟨hobjs, hlog⟩ | ⟨i, call, r, k, c, hthread, hadm, hworld⟩
  · refine ⟨⟨hobjs ▸ hsteady.valid, fun i r answer before after hmem =>
      hsteady.was i r answer before after (hlog _ _ _ _ _ hmem), fun i r answer before after hmem => ?_⟩,
      hobjs ▸ Forward.refl _ _⟩
    rw [hobjs]
    exact hsteady.versions i r answer before after (hlog _ _ _ _ _ hmem)
  · obtain ⟨hvalid, hforward⟩ := request_forward hw hrun hstep hsteady hthread hworld
    have hfresh : ¬ Used cfg.world c.stamp.version := hadm r rfl
    refine ⟨⟨hvalid, ?_, ?_⟩, hforward⟩
    · rw [hworld]
      intro j r' answer before after hmem
      rcases List.mem_cons.mp hmem with heq | hmem
      · cases heq
        exact hsteady.valid
      · exact hsteady.was j r' answer before after hmem
    · rw [hworld]
      intro j r' answer before after hmem key old now hold hnow hversion
      -- an object of a used version is no new one
      rcases inject_get? c.fault cfg.world.objects c.stamp r hnow with hnow | ⟨hnew, -, -⟩
      · rcases List.mem_cons.mp hmem with heq | hmem
        · cases heq
          exact Option.some.inj (hold.symm.trans hnow)
        · exact hsteady.versions j r' answer before after hmem key old now hold hnow hversion
      · refine absurd ?_ hfresh
        rcases List.mem_cons.mp hmem with heq | hmem
        · cases heq
          exact .inl ⟨key, old, hold, hversion.trans hnew⟩
        · exact .inr ⟨j, r', answer, before, after, key, old, hmem, hold, hversion.trans hnew⟩

end Step

lemma run_steady (hw : w.log = []) (hnone : ∀ shard jobId, w.objects.get? (S.absolute (.tail shard jobId)) = none)
    (hrun : machine.Run (hinting S) (Machine.initial w) cfg) : Steady S cfg.world := by
  induction hrun with
  | refl =>
    have hlog : ∀ e, e ∉ (Machine.initial w : Calls).world.log := by
      show ∀ e, e ∉ w.log
      rw [hw]
      exact fun _ => List.not_mem_nil
    refine ⟨fun shard jobId stored hget => ?_, fun _ _ _ _ _ hmem => absurd hmem (hlog _),
      fun _ _ _ _ _ hmem => absurd hmem (hlog _)⟩
    rw [show (Machine.initial w : Calls).world.objects.get? _ = none from hnone shard jobId] at hget
    cases hget
  | tail hbefore hstep ih => exact (step_steady hw hbefore hstep ih).1

/-- **Hints only move forward.**  In every run of claims and renewals, with any faults, every hint is the
generation of an existing claim of its job, in eight bytes, and its generation never decreases. -/
theorem hints_move_forward (S : Site) (w : World) (hw : w.log = [])
    (hnone : ∀ shard jobId, w.objects.get? (S.absolute (.tail shard jobId)) = none) (cfg cfg' : Calls)
    (hrun : machine.Run (hinting S) (Machine.initial w) cfg) (hrest : machine.Run (hinting S) cfg cfg') :
    HintsValid S cfg'.world.objects ∧ Forward S cfg.world.objects cfg'.world.objects := by
  refine ⟨(run_steady hw hnone (hrun.trans hrest)).valid, ?_⟩
  induction hrest with
  | refl => exact Forward.refl _ _
  | tail hbefore hstep ih =>
    have hsteady := run_steady hw hnone (hrun.trans hbefore)
    exact ih.trans (step_steady hw (hrun.trans hbefore) hstep hsteady).2

end Runs

/-! ## Two renewals -/

namespace Renewals

open Scenario Memo.Race

/-- The queue with tail hints on. -/
def hinted : Queue := { demo with format := ⟨1, 1, 1, 1, 64, 2⟩, accepted := rfl }

def tailKey : Str := hinted.absolute (.tail 0 jobZero)

/-- A handle on a generation of the job. -/
def holding (g : UInt64) : Claim where
  jobId := jobZero
  shard := 0
  generation := g
  attempt := 1
  workerToken := tokenAt 0
  leaseDurationNs := 1
  claimStoreTimeNs := 0
  payload := .inline []

/-- Its renewal. -/
def renewing (g : UInt64) : Call := ⟨hinted, .renew (holding g), 7⟩

variable [Sha256] {i : Nat}

lemma answers_hinting (call : Call) :
    Machine.Answers machine (hinting hinted.site) i call (fun _ => True) Numbered (plainly faultless i) where
  exec o w _ hJ := ⟨plain faultless w, fun _ _ => hJ.fresh, rfl⟩
  keeps o w _ hJ := by
    cases o with
    | store r => exact hJ.request
    | _ => exact hJ

omit [Sha256] in
lemma numbered_blank (clock : UInt64) : Numbered (blank clock) := by
  rintro v (⟨key, stored, hget, -⟩ | ⟨_, _, _, _, _, _, _, hmem, -⟩)
  · cases hget
  · cases hmem

end Renewals

open Renewals Scenario Memo.Race

/-- Two renewals move the hint from 2 to 3. -/
theorem hints_move_forward_renewals : ∃ _ : Sha256, ∃ cfg cfg' : Calls,
    machine.Run (hinting hinted.site) (Machine.initial (blank 0)) cfg ∧ machine.Run (hinting hinted.site) cfg cfg' ∧
      (cfg.world.objects.get? tailKey).map Stored.body = some (beBytes 8 2) ∧
      (cfg'.world.objects.get? tailKey).map Stored.body = some (beBytes 8 3) ∧
      HintsValid hinted.site cfg'.world.objects ∧ Forward hinted.site cfg.world.objects cfg'.world.objects := by
  let _ := Sha256.zero
  have hstart : ∀ cfg i g, (hinting hinted.site).start cfg i (renewing g) :=
    fun _ _ _ => ⟨rfl, show hinted.hintsEnabled = true by decide, .inr (.inr ⟨_, rfl⟩)⟩
  let cfg1 := play faultless 0 (renewing 1) (Machine.initial (blank 0))
  let cfg2 := play faultless 1 (renewing 2) cfg1
  obtain ⟨hfirst, hJ1⟩ : machine.Run (hinting hinted.site) (Machine.initial (blank 0)) cfg1 ∧ Numbered cfg1.world :=
    run_play (answers_hinting _) (.any _) (hstart _ _ _) rfl ((numbered_blank 0).started _)
  have hsecond : machine.Run (hinting hinted.site) cfg1 cfg2 :=
    (run_play (answers_hinting _) (.any _) (hstart _ _ _) (play_threads (by decide)) (hJ1.started _)).1
  obtain ⟨hvalid, hforward⟩ :=
    hints_move_forward hinted.site (blank 0) rfl (fun _ _ => rfl) cfg1 cfg2 hfirst hsecond
  exact ⟨_, cfg1, cfg2, hfirst, hsecond, by decide +kernel, by decide +kernel, hvalid, hforward⟩

end Hints
end StowQ
