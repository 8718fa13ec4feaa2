import StowQ.Core.Enqueue

/-!
# Claim

A claim scan lists the jobs of a shard and probes the candidates in concurrent waves.
`tryClaim` gathers the evidence of one candidate (terminal records and the tail of its
claim chain) and appends the next generation by a conditional create, which decides
every race.
-/

namespace StowQ
namespace Core

open Data Concurrent Store Format Keys

/-- The text after the last slash. -/
def lastSegment (key : Str) : Str :=
  (key.reverse.takeWhile (· != '/')).reverse

/-- The generation a claim key ends in: eight digits of either case. -/
def parseGeneration (key : Str) : Option UInt64 :=
  let segment := lastSegment key
  if segment.length = 8 ∧ segment.all (fun c => (hexValue c).isSome) then
    (fromStrRadix (2 ^ 64) segment).map UInt64.ofNat
  else none

/-- The last claim that a listing shows. -/
def lastClaim (items : List Listing) : Option (UInt64 × Meta) :=
  items.foldl (fun tail item =>
    match parseGeneration item.key with
    | some g => some (g, item.info)
    | none => tail) none

/-- The metadata that stands for an absent tail. -/
def emptyMeta : Meta := ⟨⟨['0']⟩, 0, 0⟩

/-- What a pass knows of the tail of a claim chain: generation 0 is the empty chain. -/
structure Tail where
  generation : UInt64
  info : Meta
  attempt : UInt64
  leaseDurationNs : UInt64
  deriving DecidableEq

/-- The tail branch of the gather: the tail it found, the hint to overwrite, and the
record read through the hint. -/
structure Gathered where
  tail : Option (UInt64 × Meta)
  hintState : Option (Version × UInt64)
  hintRecord : Option ClaimRecord
  deriving DecidableEq

namespace Queue

variable [Sha256] (q : Queue)

/-- `claims/<shard>/<job>/` under the root. -/
def claimsPrefix (shard : UInt16) (jobId : ByteArr 16) : Str :=
  q.under [claimsSeg, hex16 shard, hex jobId.toList]

/-! ## Tail hints -/

/-- Best-effort write of the tail hint, from the hint state last observed: absent
becomes a create, a stale generation a single overwrite, a current one a skip. -/
def writeTailHint (shard : UInt16) (jobId : ByteArr 16) (generation : UInt64)
    (known : Option (Version × UInt64)) : Routine Unit := do
  if q.hintsEnabled then
    let abs := q.absolute (.tail shard jobId)
    let body := beBytes 8 generation.toNat
    match known with
    | none => do
      if ← Routine.trySpend then
        let _ ← Routine.put abs body
        pure ()
    | some (version, gen) => do
      if generation ≤ gen then pure ()
      else if ← Routine.trySpend then
        let _ ← Routine.cas abs body (Sha256.digest body) version
        pure ()

/-- Read the tail hint.  A body that is not eight bytes, or a generation outside the
32-bit space, reads as generation 0. -/
def readTailHint (shard : UInt16) (jobId : ByteArr 16) : Routine (Option (Version × UInt64)) := do
  Routine.spend
  match ← Routine.get (q.absolute (.tail shard jobId)) with
  | .ok obj =>
    let gen := fromBe obj.body
    if obj.body.length = 8 ∧ 1 ≤ gen ∧ gen ≤ u32Max.toNat then
      pure (some (obj.info.version, UInt64.ofNat gen))
    else pure (some (obj.info.version, 0))
  | .error .notFound => pure none
  | .error e => Budgeted.fail (.store e)

/-- Renewal's hint refresh: observe, then write. -/
def updateTailHint (shard : UInt16) (jobId : ByteArr 16) (generation : UInt64) : Routine Unit := do
  if q.hintsEnabled then
    match ← Budgeted.attempt (q.readTailHint shard jobId) with
    | .ok known => q.writeTailHint shard jobId generation known
    | .error _ => pure ()

/-! ## The tail of a chain -/

/-- The claim record in a body, if it is one. -/
def decodeClaim (rel : Key) (body : Bytes) : Option ClaimRecord :=
  match q.decodeAt rel body with
  | .ok (.claim c) => some c
  | _ => none

/-- Attempt and lease duration of a generation's claim record. -/
def tailRecord (shard : UInt16) (jobId : ByteArr 16) (generation : UInt64) :
    Routine (UInt64 × UInt64) := do
  Routine.spend
  let rel := Key.claim shard jobId generation.toUInt32
  let obj ← Routine.ofStore (← Routine.get (q.absolute rel))
  match ← Routine.ofRecord (q.decodeAt rel obj.body) with
  | .claim c => pure (c.attempt, c.leaseDurationNs)
  | _ => Budgeted.fail (.record "claim key holds a non-claim record")

/-- The authoritative tail: page the claims of the job and keep the last generation. -/
def listTail (shard : UInt16) (jobId : ByteArr 16) : Routine (Option (UInt64 × Meta)) :=
  Routine.pages false (q.claimsPrefix shard jobId) 64 (fun tail item =>
    pure (match parseGeneration item.key with
      | some g => some (g, item.info)
      | none => tail)) none

/-- The tail branch of the gather: the hint and the generation it names, or the
listing.  A hint that proves to be garbage is marked with generation 0, to be
overwritten at commit. -/
def gatherTail (shard : UInt16) (jobId : ByteArr 16) : Routine Gathered := do
  if q.hintsEnabled then
    match ← q.readTailHint shard jobId with
    | none => pure ⟨← q.listTail shard jobId, none, none⟩
    | some (version, gen) =>
      if 0 < gen ∧ gen ≤ UInt64.ofNat u32Max.toNat then do
        let rel := Key.claim shard jobId gen.toUInt32
        Routine.spend
        match ← Routine.get (q.absolute rel) with
        | .ok obj =>
          match q.decodeClaim rel obj.body with
          | some c => pure ⟨some (gen, obj.info), some (version, gen), some c⟩
          | none => pure ⟨← q.listTail shard jobId, some (version, 0), none⟩
        | .error .notFound => pure ⟨← q.listTail shard jobId, some (version, 0), none⟩
        | .error e => Budgeted.fail (.store e)
      else pure ⟨← q.listTail shard jobId, some (version, 0), none⟩
  else pure ⟨← q.listTail shard jobId, none, none⟩

/-- Complete a discovered tail with its claim record. -/
def tailOf (shard : UInt16) (jobId : ByteArr 16) (found : Option (UInt64 × Meta))
    (known : Option ClaimRecord) : Routine Tail := do
  let (generation, info) := found.getD (0, emptyMeta)
  if generation = 0 then pure ⟨0, info, 0, 0⟩
  else
    match known with
    | some c => pure ⟨generation, info, c.attempt, c.leaseDurationNs⟩
    | none => do
      let (attempt, duration) ← q.tailRecord shard jobId generation
      pure ⟨generation, info, attempt, duration⟩

/-- Discover the tail again, from the listing. -/
def rediscoverTail (shard : UInt16) (jobId : ByteArr 16) : Routine Tail := do
  q.tailOf shard jobId (← q.listTail shard jobId) none

/-! ## One candidate -/

/-- Whether the tail's lease has run out at the claimant's floor. -/
def expired (opts : ClaimOptions) (tail : Tail) : Bool :=
  tail.generation = 0 ||
    satAdd (satAdd tail.info.storeTimeNs tail.leaseDurationNs) q.opts.skewGuardNs ≤ opts.floorNs

/-- Read the fail record of the tail generation; `true` when it allows a delivery at the
floor. -/
def backoffPassed (shard : UInt16) (jobId : ByteArr 16) (opts : ClaimOptions) (tail : Tail) :
    Routine Bool := do
  if tail.generation = 0 then pure true
  else do
    Routine.spend
    let rel := Key.fail shard jobId tail.generation.toUInt32
    match ← Routine.get (q.absolute rel) with
    | .ok obj =>
      match ← Routine.ofRecord (q.decodeAt rel obj.body) with
      | .fail f => pure (f.retryNotBeforeNs ≤ opts.floorNs)
      | _ => Budgeted.fail (.record "fail key holds a non-fail record")
    | .error .notFound => pure true
    | .error e => Budgeted.fail (.store e)

/-- Read the job record; none when the job is gone. -/
def readJob (shard : UInt16) (jobId : ByteArr 16) : Routine (Option JobRecord) := do
  Routine.spend
  let rel := Key.job shard jobId
  match ← Routine.get (q.absolute rel) with
  | .ok obj =>
    match ← Routine.ofRecord (q.decodeAt rel obj.body) with
    | .job j => pure (some j)
    | _ => Budgeted.fail (.record "job key holds a non-job record")
  | .error .notFound => pure none
  | .error e => Budgeted.fail (.store e)

/-- The exhaustion record of a job, with its terminal index entry. -/
def buryExhausted (shard : UInt16) (jobId : ByteArr 16) (tail : Tail) : Routine Unit := do
  Routine.spend
  -- 0x0004: attempts_exhausted
  match ← q.putRecord (.dead shard jobId) (.dead ⟨jobId, tail.generation, tail.attempt, 4⟩) with
  | .committed => q.writeTermidx .dead shard jobId
  | _ => pure ()

/-- The claim record that takes a job over from `tail`. -/
def takeoverRecord (jobId : ByteArr 16) (opts : ClaimOptions) (tail : Tail)
    (workerToken : ByteArr 16) : ClaimRecord where
  jobId := jobId
  generation := tail.generation + 1
  attempt := tail.attempt + 1
  workerId := q.opts.workerId
  workerToken := workerToken
  leaseDurationNs := opts.leaseDurationNs
  continuation := false
  basis := some ⟨tail.info.storeTimeNs, tail.leaseDurationNs, opts.floorNs⟩
  prevToken := none

/-- The payload reference a job record carries. -/
def payloadRef (job : JobRecord) : Option PayloadRef :=
  match job.payloadInline, job.payloadKey with
  | some b, _ => some (.inline b)
  | none, some k => some (.detached (q.root ++ k) job.payloadDigest job.payloadLength)
  | none, none => none

/-- Best-effort lease index entry of a committed claim. -/
def writeLeaseIndex (shard : UInt16) (jobId : ByteArr 16) (expiry : UInt64)
    (generation : UInt64) : Routine Unit := do
  match Math.bucketNumber expiry q.format.leaseBucketWidthNs with
  | none => pure ()
  | some bucket => do
    Routine.spend
    let _ ← Routine.put (q.absolute (.leaseIndex bucket shard jobId generation.toUInt32)) []
    pure ()

/-- The handle of a committed takeover: read its store time back and write the advisory
entries. -/
def takeoverHandle (shard : UInt16) (jobId : ByteArr 16) (opts : ClaimOptions) (tail : Tail)
    (job : JobRecord) (workerToken : ByteArr 16) (hintState : Option (Version × UInt64)) :
    Routine Claim := do
  let generation := tail.generation + 1
  Routine.spend
  let info ← Routine.ofStore (← Routine.head (q.absolute (.claim shard jobId generation.toUInt32)))
  match q.payloadRef job with
  | none => Budgeted.fail (.record "job payload reference invalid")
  | some payload => do
    q.writeTailHint shard jobId generation hintState
    q.writeLeaseIndex shard jobId (satAdd info.storeTimeNs opts.leaseDurationNs) generation
    pure { jobId, shard, generation, attempt := tail.attempt + 1, workerToken
           leaseDurationNs := opts.leaseDurationNs, claimStoreTimeNs := info.storeTimeNs
           payload }

/-- One pass over a candidate, from the tail it is believed to have.  `again` is the
second pass from the listed tail; it is there on the evidence of a hint, which may be
stale, and a terminal record or a lost race is then decided on the listing. -/
def claimPass (shard : UInt16) (jobId : ByteArr 16) (opts : ClaimOptions)
    (hintState : Option (Version × UInt64)) (again : Option (Tail → Routine (Option Claim)))
    (tail : Tail) : Routine (Option Claim) := do
  if !(← q.backoffPassed shard jobId opts tail) then pure none
  else if !q.expired opts tail then pure none
  else
    match ← q.readJob shard jobId with
    | none => pure none
    | some job =>
      if opts.floorNs < job.notBeforeNs.getD 0 then pure none
      else if job.maximumAttempts < tail.attempt + 1 then
        match again with
        | some pass => do pass (← q.rediscoverTail shard jobId)
        | none => do
          q.buryExhausted shard jobId tail
          pure none
      else if UInt64.ofNat u32Max.toNat ≤ tail.generation then
        Budgeted.fail (.internal "generation space exhausted")
      else do
        let workerToken ← Routine.freshToken
        let rel := Key.claim shard jobId (tail.generation + 1).toUInt32
        Routine.spend
        match ← q.putRecord rel (.claim (q.takeoverRecord jobId opts tail workerToken)) with
        | .committed => do
          pure (some (← q.takeoverHandle shard jobId opts tail job workerToken hintState))
        | _ =>
          match again with
          | some pass => do pass (← q.rediscoverTail shard jobId)
          | none => pure none

/-- Claim from the gathered tail; a tail found through the hint leaves a second pass. -/
def claimFrom (opts : ClaimOptions) (shard : UInt16) (jobId : ByteArr 16) (g : Gathered) :
    Routine (Option Claim) := do
  let pass := q.claimPass shard jobId opts g.hintState
  let again := if g.hintRecord.isSome then some (pass none) else none
  pass again (← q.tailOf shard jobId g.tail g.hintRecord)

/-- Probe one candidate and claim it if it is ready.  The terminal probes and the tail
branch run side by side; only `NotFound` proves a terminal record absent. -/
def tryClaim (opts : ClaimOptions) (shard : UInt16) (jobId : ByteArr 16)
    (jobsVersion : Version) : Routine (Option Claim) := do
  Routine.spend
  Routine.spend
  Routine.spend
  let probes := Prog.join (Prog.request (Op.store (.head (q.absolute (.receipt shard jobId)))))
    (Prog.request (Op.store (.head (q.absolute (.dead shard jobId)))))
  let ((receipt, dead), tail) ← Budgeted.beside probes (q.gatherTail shard jobId)
  match (receipt : StoreResult Meta), (dead : StoreResult Meta) with
  | .error .notFound, .error .notFound => do
    let gathered ← Budgeted.ofExcept tail
    q.claimFrom opts shard jobId gathered
  | .ok _, _ | _, .ok _ => do
    Budgeted.request (Op.memoizeTerminal q.handle shard jobId jobsVersion)
    pure none
  | .error .notFound, .error e => Budgeted.fail (.store e)
  | .error e, _ => Budgeted.fail (.store e)

/-! ## The scan -/

/-- A listed job, with the version its entry had. -/
structure Candidate where
  shard : UInt16
  jobId : ByteArr 16
  version : Version
  deriving DecidableEq

/-- A partial batch is returned, an empty one propagates the error. -/
def partialBatch (e : Error) (claims : List Claim) : Except Error (List Claim) :=
  if claims.isEmpty then .error e else .ok claims

/-- The claims of a wave's results, in order. -/
def waveClaims (results : List (Except Error (Option Claim))) : List Claim :=
  results.filterMap fun
    | .ok c => c
    | .error _ => none

/-- The error a wave ends the scan with: the first one that is not an exhausted budget,
or the exhausted budget. -/
def waveError (results : List (Except Error (Option Claim))) : Option Error :=
  let errors := results.filterMap fun
    | .ok _ => none
    | .error e => some e
  match errors.find? (· ≠ .budgetExhausted) with
  | some e => some e
  | none => errors.head?

/-- What probing the pending candidates leads to: an answer, or the claims so far. -/
inductive Waved
  | answer (result : Except Error (List Claim))
  | ranOut (claims : List Claim)
  deriving DecidableEq

/-- Probe waves until the batch fills or the candidates run out.  A wave takes as many
candidates as the batch still has room for. -/
def probeWaves (opts : ClaimOptions) (max : Nat) (pending : List Candidate)
    (claims : List Claim) : Routine Waved :=
  Budgeted.iterate .budgetExhausted (fun (pending, claims) => do
    if pending.isEmpty ∨ max ≤ claims.length then pure (.inr (.ranOut claims))
    else do
      let take := min pending.length (max - claims.length)
      let results ← Budgeted.joinSplit ((pending.take take).map fun c =>
        q.tryClaim opts c.shard c.jobId c.version)
      let claims := claims ++ waveClaims results
      if max ≤ claims.length then pure (.inr (.answer (.ok claims)))
      else
        match waveError results with
        | some e => pure (.inr (.answer (partialBatch e claims)))
        | none => do
          if (← Budgeted.remaining) = 0 then pure (.inr (.answer (.ok claims)))
          else pure (.inl (pending.drop take, claims)))
    (pending.length + 1) (pending, claims)

/-- Whether this handle proved the job terminal while its entry had this version. -/
def isMemoizedTerminal (shard : UInt16) (jobId : ByteArr 16) (version : Version) : Routine Bool :=
  Budgeted.request (Op.isMemoizedTerminal q.handle shard jobId version)

/-- A listed entry is a candidate if it parses and is not known to be terminal. -/
def addCandidate (pending : List Candidate) (item : Listing) : Routine (List Candidate) :=
  match q.parseRel item.key with
  | some (.job shard jobId) => do
    if ← q.isMemoizedTerminal shard jobId item.info.version then pure pending
    else pure (pending ++ [⟨shard, jobId, item.info.version⟩])
  | _ => pure pending

/-- The candidates of a page. -/
def pageCandidates (items : List Listing) : Routine (List Candidate) :=
  Budgeted.foldM q.addCandidate [] items

/-- `jobs/<shard>/` under the root. -/
def jobsPrefix (shard : UInt16) : Str :=
  q.under [jobsSeg, hex16 shard]

/-- Where a scan stands between two pages. -/
structure Scan where
  pending : List Candidate
  claims : List Claim
  after : Option Str
  done : Bool

/-- One round of the scan: probe what is pending, then list the next page. -/
def scanRound (opts : ClaimOptions) (max : Nat) (s : Scan) : Routine (Scan ⊕ List Claim) := do
  match ← q.probeWaves opts max s.pending s.claims with
  | .answer result => do pure (.inr (← Budgeted.ofExcept result))
  | .ranOut claims =>
    if s.done ∨ max ≤ claims.length then pure (.inr claims)
    else if !(← Routine.trySpend) then do
      pure (.inr (← Budgeted.ofExcept (partialBatch .budgetExhausted claims)))
    else
      match ← Routine.list (q.jobsPrefix opts.shard) s.after 1024 with
      | .error e => do pure (.inr (← Budgeted.ofExcept (partialBatch (.store e) claims)))
      | .ok page =>
        if page.items.isEmpty then pure (.inr claims)
        else do
          let pending ← q.pageCandidates page.items
          match page.nextAfter with
          | some k => pure (.inl ⟨pending, claims, some k, s.done⟩)
          | none => pure (.inl ⟨pending, claims, s.after, true⟩)

/-- Claim up to `max` jobs from one shard scan, in scan order. -/
def claimMany (opts : ClaimOptions) (max : Nat) : Routine (List Claim) :=
  Budgeted.loop .budgetExhausted (q.scanRound opts max) ⟨[], [], none, false⟩

def claim (opts : ClaimOptions) : Routine ClaimOutcome := do
  let claims ← q.claimMany opts 1
  match claims.getLast? with
  | some c => pure (.claimed c)
  | none => pure .empty

end Queue
end Core
end StowQ
