import StowQ.Primitives
import StowQ.Data.OrderedMap
import Mathlib.Data.Char
import Mathlib.Data.List.Lex

/-!
# The object store

The store boundary of the queue: keyed objects with a body, a version token and a
store-assigned time; atomic create, compare-and-swap, reads, strongly consistent
listings in key order, and delete.  The store is that of the in-memory backend,
except that versions and times come from the outside (`Stamp`), and every request
passes the fault injector: it may fail before it is transmitted, or be answered
with an unknown outcome after it was, or was not, applied.

`inject_change` says once what a request can do to the objects; the `answer_*`
lemmas say what its answer tells about them.
-/

namespace StowQ
namespace Store

open Data

variable {objs : Objects} {key pre : Str} {fault : Option Fault} {stamp : Stamp} {r : Request}
  {body : Bytes} {after : Option Str} {sha256 : Digest}

/-- Opaque store version token. -/
structure Version where
  token : Str
  deriving DecidableEq

structure Meta where
  version : Version
  /-- Store-assigned time. -/
  storeTimeNs : UInt64
  size : UInt64
  deriving DecidableEq

structure Object where
  info : Meta
  body : Bytes
  deriving DecidableEq

structure Listing where
  key : Str
  info : Meta
  deriving DecidableEq

structure Page where
  items : List Listing
  /-- Set when more keys may follow; passed as `after` to continue. -/
  nextAfter : Option Str
  deriving DecidableEq

/-- Outcome of a conditional write. -/
inductive PutOutcome
  | committed (version : Version)
  | rejected
  deriving DecidableEq

inductive Ambiguity
  | timeout
  | connectionLost
  | ambiguousResponse
  deriving DecidableEq

inductive StoreError
  /-- The write may or may not have committed. -/
  | outcomeUnknown (why : Ambiguity)
  | notFound
  /-- The body does not match its digest. -/
  | integrityViolation
  | profileViolation (text : String)
  /-- Provably raised before the request was transmitted. -/
  | transport
  deriving DecidableEq

abbrev StoreResult (α : Type) := Except StoreError α

/-! ## Objects -/

/-- A persisted object. -/
structure Stored where
  body : Bytes
  version : Version
  storeTimeNs : UInt64
  deriving DecidableEq

def Stored.info (s : Stored) : Meta where
  version := s.version
  storeTimeNs := s.storeTimeNs
  size := UInt64.ofNat s.body.length

/-- The contents of a store, in key order. -/
abbrev Objects := OrderedMap Str Stored

/-- What the store assigns to a write. -/
structure Stamp where
  version : Version
  timeNs : UInt64
  deriving DecidableEq

/-- One request. -/
inductive Request
  | putIfAbsent (key : Str) (body : Bytes) (sha256 : Digest)
  | cas (key : Str) (body : Bytes) (sha256 : Digest) (ifMatch : Version)
  | get (key : Str)
  | head (key : Str)
  | list (pre : Str) (after : Option Str) (limit : Nat)
  | delete (key : Str)
  deriving DecidableEq

/-- What a request is answered with, errors apart. -/
def Request.Answer : Request → Type
  | .putIfAbsent .. => PutOutcome
  | .cas .. => PutOutcome
  | .get _ => Object
  | .head _ => Meta
  | .list .. => Page
  | .delete _ => Unit

/-- The entries a listing ranges over: under the given leading text, strictly
after `after`. -/
def selects (pre : Str) (after : Option Str) (key : Str) : Bool :=
  pre.isPrefixOf key && (match after with
    | none => true
    | some a => decide (a < key))

/-- One page of a listing. -/
def listPage (objs : Objects) (pre : Str) (after : Option Str) (limit : Nat) : Page :=
  let hits := objs.entries.filter fun e => selects pre after e.1
  let items := (hits.take limit).map fun e => ⟨e.1, e.2.info⟩
  { items
    nextAfter := if limit < hits.length then items.getLast?.map Listing.key else none }

def get (objs : Objects) (key : Str) : StoreResult Object :=
  match objs.get? key with
  | some stored => .ok ⟨stored.info, stored.body⟩
  | none => .error .notFound

def head (objs : Objects) (key : Str) : StoreResult Meta :=
  match objs.get? key with
  | some stored => .ok stored.info
  | none => .error .notFound

lemma get_eq_ok {o : Object} (h : get objs key = .ok o) :
    ∃ stored, objs.get? key = some stored ∧ o = ⟨stored.info, stored.body⟩ := by
  unfold get at h
  cases hget : objs.get? key with
  | none => simp [hget] at h
  | some stored =>
    simp only [hget, Except.ok.injEq] at h
    exact ⟨stored, rfl, h.symm⟩

lemma head_eq_ok {m : Meta} (h : head objs key = .ok m) :
    ∃ stored, objs.get? key = some stored ∧ m = stored.info := by
  unfold head at h
  cases hget : objs.get? key with
  | none => simp [hget] at h
  | some stored =>
    simp only [hget, Except.ok.injEq] at h
    exact ⟨stored, rfl, h.symm⟩

section Requests

variable [Sha256]

/-- Atomic create. -/
def putIfAbsent (objs : Objects) (stamp : Stamp) (key : Str) (body : Bytes) (sha256 : Digest) :
    StoreResult PutOutcome × Objects :=
  if Sha256.digest body ≠ sha256 then (.error .integrityViolation, objs)
  else
    match objs.get? key with
    | some _ => (.ok .rejected, objs)
    | none =>
      (.ok (.committed stamp.version), objs.insert key ⟨body, stamp.version, stamp.timeNs⟩)

/-- Atomic overwrite conditional on the current version. -/
def cas (objs : Objects) (stamp : Stamp) (key : Str) (body : Bytes) (sha256 : Digest)
    (ifMatch : Version) : StoreResult PutOutcome × Objects :=
  if Sha256.digest body ≠ sha256 then (.error .integrityViolation, objs)
  else
    match objs.get? key with
    | none => (.error .notFound, objs)
    | some stored =>
      if stored.version ≠ ifMatch then (.ok .rejected, objs)
      else (.ok (.committed stamp.version), objs.insert key ⟨body, stamp.version, stamp.timeNs⟩)

/-- The effect of a request that reaches the store. -/
def perform (objs : Objects) (stamp : Stamp) : (r : Request) → StoreResult r.Answer × Objects
  | .putIfAbsent key body sha256 => putIfAbsent objs stamp key body sha256
  | .cas key body sha256 ifMatch => cas objs stamp key body sha256 ifMatch
  | .get key => (get objs key, objs)
  | .head key => (head objs key, objs)
  | .list pre after limit => (.ok (listPage objs pre after limit), objs)
  | .delete key => (.ok (), objs.erase key)

/-- One injected failure. -/
inductive Fault
  /-- Fails before the request is transmitted. -/
  | preTransmit
  /-- Fails after transmit without the store applying the request. -/
  | postTransmit (why : Ambiguity)
  /-- The store applies the request and the response is lost. -/
  | postTransmitAfter (why : Ambiguity)
  deriving DecidableEq

/-- A request through the fault injector. -/
def inject (fault : Option Fault) (objs : Objects) (stamp : Stamp) (r : Request) :
    StoreResult r.Answer × Objects :=
  match fault with
  | none => perform objs stamp r
  | some .preTransmit => (.error .transport, objs)
  | some (.postTransmit why) => (.error (.outcomeUnknown why), objs)
  | some (.postTransmitAfter why) =>
    let out := perform objs stamp r
    match out.1 with
    | .error e => (.error e, out.2)
    | .ok _ => (.error (.outcomeUnknown why), out.2)

/-! ## What a request can do -/

/-- The ways a request can change the objects. -/
inductive Change (r : Request) (stamp : Stamp) (objs : Objects) : Objects → Prop
  | same : Change r stamp objs objs
  | created (key : Str) (body : Bytes) (hreq : r = .putIfAbsent key body (Sha256.digest body))
      (habsent : objs.get? key = none) :
      Change r stamp objs (objs.insert key ⟨body, stamp.version, stamp.timeNs⟩)
  | replaced (key : Str) (body : Bytes) (old : Stored)
      (hreq : r = .cas key body (Sha256.digest body) old.version)
      (hpresent : objs.get? key = some old) :
      Change r stamp objs (objs.insert key ⟨body, stamp.version, stamp.timeNs⟩)
  | removed (key : Str) (hreq : r = .delete key) : Change r stamp objs (objs.erase key)

lemma perform_change (objs : Objects) (stamp : Stamp) (r : Request) :
    Change r stamp objs (perform objs stamp r).2 := by
  cases r with
  | putIfAbsent key body sha256 =>
    show Change _ stamp objs (putIfAbsent objs stamp key body sha256).2
    unfold putIfAbsent
    split_ifs with hsha
    · exact .same
    · have hbody : Sha256.digest body = sha256 := not_not.mp hsha
      subst hbody
      cases hget : objs.get? key with
      | none => exact .created key body rfl hget
      | some stored => exact .same
  | cas key body sha256 ifMatch =>
    show Change _ stamp objs (cas objs stamp key body sha256 ifMatch).2
    unfold cas
    split_ifs with hsha
    · exact .same
    · have hbody : Sha256.digest body = sha256 := not_not.mp hsha
      subst hbody
      cases hget : objs.get? key with
      | none => exact .same
      | some stored =>
        dsimp only
        split_ifs with hver
        · exact .same
        · have hmatch : stored.version = ifMatch := not_not.mp hver
          subst hmatch
          exact .replaced key body stored rfl hget
  | get key => exact .same
  | head key => exact .same
  | list pre after limit => exact .same
  | delete key => exact .removed key rfl

/-- A request that passes the injector changes the objects in one of these ways. -/
lemma inject_change (fault : Option Fault) (objs : Objects) (stamp : Stamp) (r : Request) :
    Change r stamp objs (inject fault objs stamp r).2 := by
  cases fault with
  | none => exact perform_change objs stamp r
  | some f =>
    cases f with
    | preTransmit => exact .same
    | postTransmit why => exact .same
    | postTransmitAfter why =>
      have h := perform_change objs stamp r
      unfold inject
      dsimp only
      cases (perform objs stamp r).1 <;> exact h

lemma present_of_inject (h : objs.get? key ≠ none) (hr : r ≠ .delete key) :
    (inject fault objs stamp r).2.get? key ≠ none := by
  have hinsert : ∀ (key' : Str) (stored : Stored), (objs.insert key' stored).get? key ≠ none := by
    intro key' stored
    rw [OrderedMap.get?_insert]
    split
    · exact Option.some_ne_none stored
    · exact h
  have hchange := inject_change fault objs stamp r
  generalize (inject fault objs stamp r).2 = objs' at hchange
  cases hchange with
  | same => exact h
  | created key' body hreq habsent => exact hinsert _ _
  | replaced key' body old hreq hpresent => exact hinsert _ _
  | removed key' hreq =>
    have hne : key ≠ key' := by
      rintro rfl
      exact hr hreq
    rwa [OrderedMap.get?_erase_of_ne _ hne]

/-- A create either changes nothing or fills an absent key. -/
lemma inject_put (fault : Option Fault) (objs : Objects) (stamp : Stamp) (key : Str)
    (body : Bytes) (digest : Digest) :
    (inject fault objs stamp (.putIfAbsent key body digest)).2 = objs ∨
      (objs.get? key = none ∧ (inject fault objs stamp (.putIfAbsent key body digest)).2 =
        objs.insert key ⟨body, stamp.version, stamp.timeNs⟩) := by
  have hchange := inject_change fault objs stamp (.putIfAbsent key body digest)
  generalize (inject fault objs stamp (.putIfAbsent key body digest)).2 = objs' at hchange
  cases hchange with
  | same => exact .inl rfl
  | created key' body' hreq habsent =>
    injection hreq with hkey hbody
    subst hkey hbody
    exact .inr ⟨habsent, rfl⟩
  | replaced key' body' old hreq hpresent => cases hreq
  | removed key' hreq => cases hreq

/-- An overwrite either changes nothing or replaces the object of its version. -/
lemma inject_cas (fault : Option Fault) (objs : Objects) (stamp : Stamp) (key : Str)
    (body : Bytes) (digest : Digest) (v : Version) :
    (inject fault objs stamp (.cas key body digest v)).2 = objs ∨
      ∃ old, objs.get? key = some old ∧ old.version = v ∧ (inject fault objs stamp (.cas key body digest v)).2 =
          objs.insert key ⟨body, stamp.version, stamp.timeNs⟩ := by
  have hchange := inject_change fault objs stamp (.cas key body digest v)
  generalize (inject fault objs stamp (.cas key body digest v)).2 = objs' at hchange
  cases hchange with
  | same => exact .inl rfl
  | created key' body' hreq habsent => cases hreq
  | replaced key' body' old hreq hpresent =>
    injection hreq with hkey hbody _ hversion
    subst hkey hbody
    exact .inr ⟨old, hpresent, hversion.symm, rfl⟩
  | removed key' hreq => cases hreq

/-- A delete either changes nothing or removes its key. -/
lemma inject_delete (fault : Option Fault) (objs : Objects) (stamp : Stamp) (key : Str) :
    (inject fault objs stamp (.delete key)).2 = objs ∨
      (inject fault objs stamp (.delete key)).2 = objs.erase key := by
  cases fault with
  | none => exact .inr rfl
  | some f =>
    cases f with
    | preTransmit => exact .inl rfl
    | postTransmit why => exact .inl rfl
    | postTransmitAfter why => exact .inr rfl

/-- Requests that change no object. -/
def Request.reads : Request → Bool
  | .get _ | .head _ | .list .. => true
  | _ => false

/-- A create or an overwrite of `key` with `body`. -/
def Request.Writes (r : Request) (key : Str) (body : Bytes) : Prop :=
  ∃ digest, r = .putIfAbsent key body digest ∨ ∃ v, r = .cas key body digest v

omit [Sha256] in
lemma Request.not_writes_of_reads (h : r.reads = true) : ¬ r.Writes key body := by
  rintro ⟨digest, rfl | ⟨v, rfl⟩⟩ <;> cases h

/-- An object found after a request was there before, or the request wrote it. -/
lemma inject_get? (fault : Option Fault) (objs : Objects) (stamp : Stamp) (r : Request) {stored : Stored}
    (h : (inject fault objs stamp r).2.get? key = some stored) :
    objs.get? key = some stored ∨ (stored.version = stamp.version ∧
      stored.storeTimeNs = stamp.timeNs ∧ r.Writes key stored.body) := by
  have hchange := inject_change fault objs stamp r
  generalize (inject fault objs stamp r).2 = objs' at hchange h
  have hinsert : ∀ {key' : Str} {body : Bytes}, r.Writes key' body →
      (objs.insert key' ⟨body, stamp.version, stamp.timeNs⟩).get? key = some stored →
      objs.get? key = some stored ∨ (stored.version = stamp.version ∧
        stored.storeTimeNs = stamp.timeNs ∧ r.Writes key stored.body) := by
    intro key' body hw h
    rw [OrderedMap.get?_insert] at h
    split at h
    · next heq =>
        cases h
        subst heq
        exact .inr ⟨rfl, rfl, hw⟩
    · exact .inl h
  cases hchange with
  | same => exact .inl h
  | created key' body hreq _ => exact hinsert ⟨_, .inl hreq⟩ h
  | replaced key' body old hreq _ => exact hinsert ⟨_, .inr ⟨_, hreq⟩⟩ h
  | removed key' _ =>
    rw [OrderedMap.get?_erase] at h
    split at h
    · cases h
    · exact .inl h

/-- Only a request that is answered without a fault returns a value. -/
lemma fault_none_of_ok {a : r.Answer} (h : (inject fault objs stamp r).1 = .ok a) : fault = none := by
  cases fault with
  | none => rfl
  | some f =>
    cases f with
    | preTransmit => cases h
    | postTransmit why => cases h
    | postTransmitAfter why =>
      unfold inject at h
      dsimp only at h
      cases hout : (perform objs stamp r).1 <;> simp [hout] at h

lemma inject_reads (h : r.reads = true) : (inject fault objs stamp r).2 = objs := by
  have hchange := inject_change fault objs stamp r
  generalize (inject fault objs stamp r).2 = objs' at hchange
  cases hchange with
  | same => rfl
  | created key body hreq habsent => simp [hreq, Request.reads] at h
  | replaced key body old hreq hpresent => simp [hreq, Request.reads] at h
  | removed key hreq => simp [hreq, Request.reads] at h

/-! ## What an answer tells -/

lemma answer_get {o : Object} (h : (inject fault objs stamp (.get key)).1 = .ok o) :
    ∃ stored, objs.get? key = some stored ∧ o = ⟨stored.info, stored.body⟩ := by
  have hnone := fault_none_of_ok h
  subst hnone
  exact get_eq_ok h

lemma answer_head {m : Meta} (h : (inject fault objs stamp (.head key)).1 = .ok m) :
    ∃ stored, objs.get? key = some stored ∧ m = stored.info := by
  have hnone := fault_none_of_ok h
  subst hnone
  exact head_eq_ok h

/-- `NotFound` on a read proves absence: faults never answer with it. -/
lemma answer_head_notFound (h : (inject fault objs stamp (.head key)).1 = .error .notFound) :
    objs.get? key = none := by
  cases hget : objs.get? key with
  | none => rfl
  | some stored =>
    cases fault with
    | none => simp [inject, perform, head, hget] at h
    | some f => cases f <;> simp [inject, perform, head, hget] at h

lemma answer_get_notFound (h : (inject fault objs stamp (.get key)).1 = .error .notFound) :
    objs.get? key = none := by
  cases hget : objs.get? key with
  | none => rfl
  | some stored =>
    cases fault with
    | none => simp [inject, perform, get, hget] at h
    | some f => cases f <;> simp [inject, perform, get, hget] at h

lemma answer_list {limit : Nat} {p : Page} (h : (inject fault objs stamp (.list pre after limit)).1 = .ok p) :
    p = listPage objs pre after limit := by
  have hnone := fault_none_of_ok h
  subst hnone
  exact (Except.ok.inj h).symm

/-- A committed create found the key absent and left the object. -/
lemma answer_put_committed {v : Version}
    (h : (inject fault objs stamp (.putIfAbsent key body sha256)).1 = .ok (.committed v)) :
    objs.get? key = none ∧ (inject fault objs stamp (.putIfAbsent key body sha256)).2 =
      objs.insert key ⟨body, stamp.version, stamp.timeNs⟩ := by
  have hnone := fault_none_of_ok h
  subst hnone
  change (putIfAbsent objs stamp key body sha256).1 = (.ok (.committed v) : StoreResult PutOutcome) at h
  show _ ∧ (putIfAbsent objs stamp key body sha256).2 = _
  unfold putIfAbsent at h ⊢
  by_cases hsha : Sha256.digest body = sha256
  · cases hget : objs.get? key with
    | none => simp [hsha]
    | some stored => simp [hsha, hget] at h
  · simp [hsha] at h

lemma answer_put_rejected (h : (inject fault objs stamp (.putIfAbsent key body sha256)).1 = .ok .rejected) :
    ∃ stored, objs.get? key = some stored := by
  have hnone := fault_none_of_ok h
  subst hnone
  change (putIfAbsent objs stamp key body sha256).1 = (.ok .rejected : StoreResult PutOutcome) at h
  unfold putIfAbsent at h
  by_cases hsha : Sha256.digest body = sha256
  · cases hget : objs.get? key with
    | none => simp [hsha, hget] at h
    | some stored => exact ⟨stored, rfl⟩
  · simp [hsha] at h

lemma answer_cas_committed {v ifMatch : Version}
    (h : (inject fault objs stamp (.cas key body sha256 ifMatch)).1 = .ok (.committed v)) :
    ∃ old, objs.get? key = some old ∧ old.version = ifMatch ∧
      (inject fault objs stamp (.cas key body sha256 ifMatch)).2 =
        objs.insert key ⟨body, stamp.version, stamp.timeNs⟩ := by
  have hnone := fault_none_of_ok h
  subst hnone
  change (cas objs stamp key body sha256 ifMatch).1 = (.ok (.committed v) : StoreResult PutOutcome) at h
  show ∃ old, _ ∧ _ ∧ (cas objs stamp key body sha256 ifMatch).2 = _
  unfold cas at h ⊢
  by_cases hsha : Sha256.digest body = sha256
  · cases hget : objs.get? key with
    | none => simp [hsha, hget] at h
    | some stored =>
      by_cases hver : stored.version = ifMatch
      · exact ⟨stored, rfl, hver, by simp [hsha, hver]⟩
      · simp [hsha, hget, hver] at h
  · simp [hsha] at h

/-! ## Requests with a known outcome -/

variable {objs : Objects} {stamp : Stamp} {key : Str} {body : Bytes} {stored : Stored}

lemma get_present (h : objs.get? key = some stored) :
    inject none objs stamp (.get key) = (.ok ⟨stored.info, stored.body⟩, objs) := by
  simp only [inject, perform, get, h]
  rfl

lemma get_absent (h : objs.get? key = none) : inject none objs stamp (.get key) = (.error .notFound, objs) := by
  simp only [inject, perform, get, h]
  rfl

lemma head_present (h : objs.get? key = some stored) :
    inject none objs stamp (.head key) = (.ok stored.info, objs) := by
  simp only [inject, perform, head, h]
  rfl

lemma head_absent (h : objs.get? key = none) : inject none objs stamp (.head key) = (.error .notFound, objs) := by
  simp only [inject, perform, head, h]
  rfl

lemma put_absent (h : objs.get? key = none) :
    inject none objs stamp (.putIfAbsent key body (Sha256.digest body)) =
      (.ok (.committed stamp.version), objs.insert key ⟨body, stamp.version, stamp.timeNs⟩) := by
  simp only [inject, perform, putIfAbsent, h, ne_eq, not_true_eq_false, if_false]
  rfl

/-- A create that is applied and whose answer is lost. -/
lemma put_absent_unanswered (why : Ambiguity) (h : objs.get? key = none) :
    inject (some (.postTransmitAfter why)) objs stamp (.putIfAbsent key body (Sha256.digest body)) =
      (.error (.outcomeUnknown why), objs.insert key ⟨body, stamp.version, stamp.timeNs⟩) := by
  have hperform : perform objs stamp (.putIfAbsent key body (Sha256.digest body)) = _ := put_absent h
  simp only [inject, hperform]

lemma put_present (h : objs.get? key = some stored) :
    inject none objs stamp (.putIfAbsent key body (Sha256.digest body)) = (.ok .rejected, objs) := by
  simp only [inject, perform, putIfAbsent, h, ne_eq, not_true_eq_false, if_false]
  rfl

lemma cas_match (h : objs.get? key = some stored) :
    inject none objs stamp (.cas key body (Sha256.digest body) stored.version) =
      (.ok (.committed stamp.version), objs.insert key ⟨body, stamp.version, stamp.timeNs⟩) := by
  simp only [inject, perform, cas, h, ne_eq, not_true_eq_false, if_false]
  rfl

end Requests

/-! ## Listings -/

/-- A listed item is a stored object the listing ranges over. -/
lemma mem_listPage {limit : Nat} {item : Listing} (h : item ∈ (listPage objs pre after limit).items) :
    ∃ stored, objs.get? item.key = some stored ∧ item.info = stored.info ∧ selects pre after item.key = true := by
  simp only [listPage, List.mem_map] at h
  obtain ⟨⟨key, stored⟩, hmem, rfl⟩ := h
  obtain ⟨hentry, hsel⟩ := List.mem_filter.mp (List.mem_of_mem_take hmem)
  exact ⟨stored, objs.mem_entries_iff.mp hentry, rfl, hsel⟩

lemma selects_pre (h : selects pre after key = true) : pre <+: key := by
  simp only [selects, Bool.and_eq_true] at h
  exact List.isPrefixOf_iff_prefix.mp h.1

lemma selects_after {a : Str} (h : selects pre (some a) key = true) : a < key := by
  simp only [selects, Bool.and_eq_true, decide_eq_true_eq] at h
  exact h.2

/-- A page lists its keys in strictly ascending order. -/
lemma listPage_ascending (objs : Objects) (pre : Str) (after : Option Str) (limit : Nat) :
    (listPage objs pre after limit).items.Pairwise fun a b => a.key < b.key := by
  simp only [listPage]
  rw [List.pairwise_map]
  exact ((objs.ascending.filter _).take)

end Store
end StowQ
