/-
Imago/ArtifactStore.lean

The operations of the artifact store (`artifact_store.rs`), cut at their
await points.  An operation takes the store's lock once or twice; between
the two critical sections it does file I/O without the lock.  Each critical
section is one function from the index (and the clock) to an `Outcome`: the
index it leaves behind, the cleanup plan collected so far, and the point
(`Pc`) at which the operation goes on.

Two of these points end an operation.  At `Pc.cleaning files answer` it hands
`files` to `apply_cleanup_plan` and then returns; at `Pc.done answer` it has
returned.  An early return out of a critical section goes straight to `done`,
so the plan it had collected is lost; whether that happens is visible in the
outcome.

Every critical section starts with the same cleanup.  `Removes` says what it
may do, and the `…_cases` lemmas list the outcomes of each section with their
guards, so that later proofs never unfold a section.
-/
import Imago.SessionIndex

namespace Imago

open Std (TreeMap)

/-! ### Messages -/

inductive ArtifactStatus
  | missing | partially | complete
  deriving DecidableEq, Repr

/-- Request payload for `deploy.prepare`. -/
structure DeployPrepareRequest where
  name : String
  appType : String
  target : TreeMap String String
  artifactDigest : String
  artifactSize : Nat
  manifestDigest : String
  idempotencyKey : String
  policy : TreeMap String String

/-- Response payload for `deploy.prepare`. -/
structure DeployPrepareResponse where
  deployId : String
  artifactStatus : ArtifactStatus
  missingRanges : List ByteRange
  uploadToken : String
  sessionExpiresAt : String

structure ArtifactPushChunkHeader where
  deployId : String
  offset : Nat
  length : Nat
  chunkSha256 : String
  uploadToken : String

/-- Request payload for `artifact.push`. -/
structure ArtifactPushRequest where
  header : ArtifactPushChunkHeader
  chunk : List UInt8

/-- Response payload for `artifact.push`. -/
structure ArtifactPushAck where
  receivedRanges : List ByteRange
  nextMissingRange : Option ByteRange
  acceptedBytes : Nat

/-- Request payload for `artifact.commit`. -/
structure ArtifactCommitRequest where
  deployId : String
  artifactDigest : String
  artifactSize : Nat
  manifestDigest : String

/-- Response payload for `artifact.commit`. -/
structure ArtifactCommitResponse where
  artifactId : String
  verified : Bool

/-- A fully committed artifact resolved by `deploy_id`. -/
structure CommittedArtifact where
  deployId : String
  path : String
  manifestDigest : String
  artifactDigest : String

/-! ### Configuration -/

/-- The settings of a store.  `sha256Hex` stands for the hexadecimal SHA-256
of the crates `sha2` and `hex`; nothing is assumed about it. -/
structure StoreConfig where
  root : String
  uploadSessionTtlSecs : Nat
  committedSessionTtlSecs : Nat
  maxCommittedSessions : Nat
  maxChunkSize : Nat
  maxInflightChunks : Nat
  maxArtifactSizeBytes : Nat
  sha256Hex : List UInt8 → String

/-- `ArtifactStore::new`: every limit is at least one. -/
def StoreConfig.new (root : String) (uploadTtl committedTtl maxCommitted maxChunk maxInflight
    maxSize : Nat) (sha256Hex : List UInt8 → String) : StoreConfig where
  root := root
  uploadSessionTtlSecs := max uploadTtl 1
  committedSessionTtlSecs := max committedTtl 1
  maxCommittedSessions := max maxCommitted 1
  maxChunkSize := max maxChunk 1
  maxInflightChunks := max maxInflight 1
  maxArtifactSizeBytes := max maxSize 1
  sha256Hex := sha256Hex

/-- `root.join("sessions").join("<deploy_id>.artifact")`. -/
def artifactPath (root deployId : String) : String :=
  root ++ "/sessions/" ++ deployId ++ ".artifact"

theorem artifactPath_injective {root d d' : String}
    (h : artifactPath root d = artifactPath root d') : d = d' := by
  have hlist := congrArg String.toList h
  simp only [artifactPath, String.toList_append, List.append_assoc,
    List.append_cancel_left_eq, List.append_cancel_right_eq] at hlist
  exact String.toList_injective hlist

def stagePrepare : String := "deploy.prepare"
def stagePush : String := "artifact.push"
def stageCommit : String := "artifact.commit"

/-- `map_internal`. -/
def mapInternal (stage message : String) : ImagodError :=
  (ImagodError.new .internal stage message).withRetryable true

/-! ### Points of an operation -/

/-- What a successful operation returns. -/
inductive Output
  | prepared (response : DeployPrepareResponse)
  | pushed (ack : ArtifactPushAck)
  | committed (response : ArtifactCommitResponse)
  | artifact (value : CommittedArtifact)
  | serviceName (value : String)
  | purged

abbrev Answer := Except ImagodError Output

/-- Where an operation stands between two of its steps. -/
inductive Pc
  /-- before the first critical section -/
  | start
  /-- `prepare`: about to create the file of the candidate session -/
  | creating (candidate : UploadSession)
  /-- `prepare`: file created, about to enter the second critical section -/
  | inserting (candidate : UploadSession)
  /-- `push`: about to open the artifact file -/
  | opening (path : String)
  /-- `push`: file open at an offset, with these bytes still to write -/
  | writing (handle offset : Nat) (rest : List UInt8)
  /-- `push`: about to enter the second critical section -/
  | written (result : Except ImagodError Unit)
  /-- `commit`: about to open the artifact file -/
  | digestOpening (path expected : String)
  /-- `commit`: these bytes are read and hashed so far -/
  | digesting (handle : Nat) (hashed : List UInt8) (expected : String)
  /-- `commit`: about to enter the second critical section -/
  | digested (result : Except ImagodError String) (expected : String)
  /-- in `apply_cleanup_plan`, with these files still to remove -/
  | cleaning (files : CleanupPlan) (answer : Answer)
  /-- returned -/
  | done (answer : Answer)

/-- What a critical section leaves behind. -/
structure Outcome where
  store : StoreState
  plan : CleanupPlan
  pc : Pc

namespace Outcome

/-- `return Err(e)` or `?` inside the section: the plan is dropped. -/
def fail (st : StoreState) (plan : CleanupPlan) (e : ImagodError) : Outcome :=
  ⟨st, plan, .done (.error e)⟩

/-- The section ends the operation and the plan goes to `apply_cleanup_plan`. -/
def finish (st : StoreState) (plan : CleanupPlan) (answer : Answer) : Outcome :=
  ⟨st, plan, .cleaning plan answer⟩

end Outcome

/-! ### Shared pieces -/

/-- Write a session back under its id (a change through `get_mut`). -/
def StoreState.put (st : StoreState) (d : String) (s : UploadSession) : StoreState :=
  { st with sessions := st.sessions.insert d s }

/-- The live session that holds an idempotency key. -/
def StoreState.findByKey (st : StoreState) (key : String) : Option (String × UploadSession) :=
  st.idempotency[key]?.bind fun d => st.sessions[d]?.map fun s => (d, s)

def UploadSession.touch (s : UploadSession) (now : Nat) : UploadSession :=
  { s with updatedAtEpochSecs := now }

/-- `collect_session_cleanup_locked`. -/
def collectSessionCleanup (cfg : StoreConfig) (pinned : TreeMap String Nat) (st : StoreState)
    (now : Nat) (keep : Option String) : StoreState × CleanupPlan :=
  let protectedIds := (keep.filter fun id => !id.isEmpty).toList ++ pinned.keys
  let expired := collectExpiredSessions st now cfg.uploadSessionTtlSecs
  let orphan := collectOrphanCommittedSessions expired.1 now cfg.committedSessionTtlSecs
    cfg.maxCommittedSessions protectedIds
  (cleanupOrphanIdempotency orphan.1, expired.2 ++ orphan.2)

/-- `build_prepare_response`. -/
def buildPrepareResponse (session : UploadSession) (ttl now : Nat) : DeployPrepareResponse :=
  let status : ArtifactStatus :=
    if session.committed || isComplete session.receivedRanges session.artifactSize then .complete
    else if session.receivedRanges.isEmpty then .missing
    else .partially
  { deployId := session.deployId
    artifactStatus := status
    missingRanges :=
      if status = .complete then []
      else allMissingRanges session.receivedRanges session.artifactSize
    uploadToken := session.uploadToken
    sessionExpiresAt := toString (saturatingAdd now ttl) }

/-- `map_fingerprint_fragment`. -/
def mapFingerprintFragment (map : TreeMap String String) : String :=
  map.foldl (fun fragment key value => fragment ++ key ++ "=" ++ value ++ "\n") ""

/-- `fingerprint`. -/
def fingerprint (cfg : StoreConfig) (req : DeployPrepareRequest) : String :=
  let extraHash := cfg.sha256Hex (mapFingerprintFragment req.target ++ "|" ++
    mapFingerprintFragment req.policy).toUTF8.data.toList
  req.name ++ "|" ++ req.appType ++ "|" ++ req.artifactDigest ++ "|" ++
    toString req.artifactSize ++ "|" ++ req.manifestDigest ++ "|" ++ extraHash

/-! ### `prepare` -/

/-- The checks of `prepare` before the first lock. -/
def prepareCheck (cfg : StoreConfig) (req : DeployPrepareRequest) : Except ImagodError Unit :=
  if req.artifactSize = 0 then
    .error (.new .badRequest stagePrepare "artifact_size must be > 0")
  else if req.artifactSize > cfg.maxArtifactSizeBytes then
    .error (((ImagodError.new .storageQuota stagePrepare
      "artifact_size exceeds max_artifact_size_bytes").withDetail
        "artifact_size" (toString req.artifactSize)).withDetail
        "max_artifact_size_bytes" (toString cfg.maxArtifactSizeBytes))
  else .ok ()

def idempotencyConflict : ImagodError :=
  .new .idempotencyConflict stagePrepare "idempotency_key is reused with different payload"

/-- The session `prepare` would create. -/
def newSession (cfg : StoreConfig) (req : DeployPrepareRequest) (now : Nat)
    (deployId uploadToken : String) : UploadSession where
  deployId := deployId
  serviceName := req.name
  idempotencyKey := req.idempotencyKey
  fingerprint := fingerprint cfg req
  artifactDigest := req.artifactDigest
  artifactSize := req.artifactSize
  manifestDigest := req.manifestDigest
  uploadToken := uploadToken
  filePath := artifactPath cfg.root deployId
  receivedRanges := []
  committed := false
  inflightWrites := 0
  commitInProgress := false
  updatedAtEpochSecs := now

/-- First critical section of `prepare`; the two ids are fresh UUIDs. -/
def prepareDecide (cfg : StoreConfig) (pinned : TreeMap String Nat) (st : StoreState)
    (now : Nat) (req : DeployPrepareRequest) (deployId uploadToken : String) : Outcome :=
  let (st, plan) := collectSessionCleanup cfg pinned st now none
  match st.findByKey req.idempotencyKey with
  | some (d, existing) =>
    if existing.fingerprint ≠ fingerprint cfg req then
      .finish st plan (.error idempotencyConflict)
    else
      .finish (st.put d (existing.touch now)) plan
        (.ok (.prepared (buildPrepareResponse (existing.touch now) cfg.uploadSessionTtlSecs now)))
  | none => ⟨st, plan, .creating (newSession cfg req now deployId uploadToken)⟩

/-- Second critical section of `prepare`: the key is looked up again.  The
file of a candidate that lost the race goes to the end of the plan. -/
def prepareInsert (cfg : StoreConfig) (pinned : TreeMap String Nat) (st : StoreState)
    (plan : CleanupPlan) (now : Nat) (candidate : UploadSession) : Outcome :=
  let (st, plan') := collectSessionCleanup cfg pinned st now none
  match st.findByKey candidate.idempotencyKey with
  | some (d, existing) =>
    if existing.fingerprint ≠ candidate.fingerprint then
      .finish st (plan ++ plan' ++ [candidate.filePath]) (.error idempotencyConflict)
    else
      .finish (st.put d (existing.touch now)) (plan ++ plan' ++ [candidate.filePath])
        (.ok (.prepared (buildPrepareResponse (existing.touch now) cfg.uploadSessionTtlSecs now)))
  | none =>
    let session := candidate.touch now
    .finish
      { sessions := st.sessions.insert session.deployId session
        idempotency := st.idempotency.insert session.idempotencyKey session.deployId }
      (plan ++ plan')
      (.ok (.prepared (buildPrepareResponse session cfg.uploadSessionTtlSecs now)))

/-! ### `push` -/

/-- The checks of `push` before the first lock; the result is `chunk_end`. -/
def pushCheck (cfg : StoreConfig) (req : ArtifactPushRequest) : Except ImagodError Nat :=
  if req.header.length > cfg.maxChunkSize then
    .error (((ImagodError.new .rangeInvalid stagePush
      "chunk length exceeds configured chunk_size").withDetail
        "chunk_length" (toString req.header.length)).withDetail
        "chunk_size" (toString cfg.maxChunkSize))
  else if req.chunk.length ≠ req.header.length then
    .error (.new .rangeInvalid stagePush "chunk length does not match header.length")
  else if cfg.sha256Hex req.chunk ≠ req.header.chunkSha256 then
    .error (.new .chunkHashMismatch stagePush "chunk sha256 mismatch")
  else
    match checkedAdd req.header.length req.header.offset with
    | none => .error (.new .rangeInvalid stagePush "chunk overflow")
    | some chunkEnd => .ok chunkEnd

/-- The guards of `push` on the session it found. -/
def pushGuard (cfg : StoreConfig) (header : ArtifactPushChunkHeader) (chunkEnd : Nat)
    (session : UploadSession) : Except ImagodError Unit :=
  if session.uploadToken ≠ header.uploadToken then
    .error (.new .unauthorized stagePush "upload_token mismatch")
  else if session.commitInProgress then
    .error (.new .busy stagePush "artifact commit is in progress")
  else if session.committed then
    .error (.new .badRequest stagePush "artifact is already committed")
  else if chunkEnd > session.artifactSize then
    .error (.new .rangeInvalid stagePush "chunk range is outside artifact size")
  else if session.inflightWrites ≥ cfg.maxInflightChunks then
    .error (.new .busy stagePush "max_inflight_chunks limit reached")
  else .ok ()

/-- First critical section of `push`. -/
def pushBegin (cfg : StoreConfig) (pinned : TreeMap String Nat) (st : StoreState) (now : Nat)
    (header : ArtifactPushChunkHeader) (chunkEnd : Nat) : Outcome :=
  let (st, plan) := collectSessionCleanup cfg pinned st now none
  match st.sessions[header.deployId]? with
  | none => .fail st plan (.new .notFound stagePush "deploy_id is not found")
  | some session =>
    match pushGuard cfg header chunkEnd session with
    | .error e => .fail st plan e
    | .ok _ =>
      ⟨st.put header.deployId
        { session with
          inflightWrites := session.inflightWrites + 1
          updatedAtEpochSecs := now },
        plan, .opening session.filePath⟩

/-- Second critical section of `push`. -/
def pushFinish (st : StoreState) (plan : CleanupPlan) (now : Nat)
    (header : ArtifactPushChunkHeader) (result : Except ImagodError Unit) : Outcome :=
  match st.sessions[header.deployId]? with
  | none =>
    .fail st plan (mapInternal stagePush "session disappeared during artifact.push")
  | some session =>
    let session := { session with inflightWrites := session.inflightWrites - 1 }
    match result with
    | .error e => .fail (st.put header.deployId session) plan e
    | .ok _ =>
      -- `checked_add` has succeeded before the first lock
      let chunkEnd := header.length + header.offset
      let session :=
        { session with
          receivedRanges :=
            mergeRange session.receivedRanges (rangeFromStartEnd header.offset chunkEnd)
          updatedAtEpochSecs := now }
      .finish (st.put header.deployId session) plan
        (.ok (.pushed
          { receivedRanges := session.receivedRanges
            nextMissingRange := nextMissingRange session.receivedRanges session.artifactSize
            acceptedBytes := header.length }))

/-! ### `commit` -/

/-- The guards of `commit` on the session it found. -/
def commitGuard (req : ArtifactCommitRequest) (session : UploadSession) :
    Except ImagodError Unit :=
  if req.artifactDigest ≠ session.artifactDigest ∨ req.artifactSize ≠ session.artifactSize ∨
      req.manifestDigest ≠ session.manifestDigest then
    .error (.new .badRequest stageCommit "artifact metadata mismatch")
  else if session.commitInProgress then
    .error (.new .busy stageCommit "artifact commit is already in progress")
  else if session.inflightWrites > 0 then
    .error (.new .busy stageCommit "artifact has in-flight writes")
  else if !isComplete session.receivedRanges session.artifactSize then
    .error (.new .artifactIncomplete stageCommit "artifact is incomplete")
  else .ok ()

/-- First critical section of `commit`. -/
def commitBegin (cfg : StoreConfig) (pinned : TreeMap String Nat) (st : StoreState) (now : Nat)
    (req : ArtifactCommitRequest) : Outcome :=
  let (st, plan) := collectSessionCleanup cfg pinned st now none
  match st.sessions[req.deployId]? with
  | none => .fail st plan (.new .notFound stageCommit "deploy_id is not found")
  | some session =>
    match commitGuard req session with
    | .error e => .fail st plan e
    | .ok _ =>
      ⟨st.put req.deployId
        { session with commitInProgress := true, updatedAtEpochSecs := now },
        plan, .digestOpening session.filePath session.artifactDigest⟩

/-- Second critical section of `commit`. -/
def commitFinish (cfg : StoreConfig) (pinned : TreeMap String Nat) (st : StoreState)
    (plan : CleanupPlan) (now : Nat) (req : ArtifactCommitRequest) (expected : String)
    (result : Except ImagodError String) : Outcome :=
  match st.sessions[req.deployId]? with
  | none =>
    .fail st plan (mapInternal stageCommit "session disappeared during artifact.commit")
  | some session =>
    let session := { session with commitInProgress := false, updatedAtEpochSecs := now }
    match result with
    | .error e => .fail (st.put req.deployId session) plan e
    | .ok digest =>
      if digest ≠ expected then
        .fail (st.put req.deployId session) plan
          (.new .badManifest stageCommit "artifact digest mismatch")
      else
        let session := { session with committed := true }
        let (st, plan') := collectSessionCleanup cfg pinned (st.put req.deployId session) now
          (some session.deployId)
        .finish st (plan ++ plan')
          (.ok (.committed ⟨session.artifactDigest, true⟩))

/-! ### Lookups and `purge_deploy_session` -/

/-- The critical section shared by `committed_artifact` and
`service_name_for_deploy`; they differ in what they read off the session. -/
def lookupCommitted (cfg : StoreConfig) (pinned : TreeMap String Nat) (st : StoreState)
    (now : Nat) (deployId : String) (output : UploadSession → Output) : Outcome :=
  let (st, plan) := collectSessionCleanup cfg pinned st now (some deployId)
  match st.sessions[deployId]? with
  | none =>
    .fail st plan (.new .notFound stageOrchestrate "deploy_id is not found for command.start")
  | some session =>
    if !session.committed then
      .fail st plan
        (.new .artifactIncomplete stageOrchestrate "artifact.commit has not been completed")
    else
      .finish (st.put deployId (session.touch now)) plan (.ok (output session))

/-- `committed_artifact`. -/
def committedArtifact (cfg : StoreConfig) (pinned : TreeMap String Nat) (st : StoreState)
    (now : Nat) (deployId : String) : Outcome :=
  lookupCommitted cfg pinned st now deployId fun session =>
    .artifact ⟨session.deployId, session.filePath, session.manifestDigest, session.artifactDigest⟩

/-- `service_name_for_deploy`. -/
def serviceNameForDeploy (cfg : StoreConfig) (pinned : TreeMap String Nat) (st : StoreState)
    (now : Nat) (deployId : String) : Outcome :=
  lookupCommitted cfg pinned st now deployId fun session => .serviceName session.serviceName

/-- `purge_deploy_session`. -/
def purgeDeploySession (cfg : StoreConfig) (pinned : TreeMap String Nat) (st : StoreState)
    (now : Nat) (deployId : String) : Outcome :=
  let (st, plan) := collectSessionCleanup cfg pinned st now (some deployId)
  let (st, plan') := collectSessionsForRemoval st [deployId]
  .finish st (plan ++ plan') (.ok .purged)

/-! ### What the cleanup may remove -/

variable {st : StoreState}

theorem removes_cleanupOrphanIdempotency (st : StoreState) :
    Removes st (cleanupOrphanIdempotency st) [] where
  kept_or_gone := fun _ => Or.inl rfl
  mem_plan := (Removes.refl st).mem_plan
  indexInv := by
    intro h
    rw [cleanupOrphanIdempotency_eq h]
    exact h

/-- The cleanup at the head of every critical section. -/
theorem removes_collectSessionCleanup (cfg : StoreConfig) (pinned : TreeMap String Nat)
    (st : StoreState) (now : Nat) (keep : Option String) :
    Removes st (collectSessionCleanup cfg pinned st now keep).1
      (collectSessionCleanup cfg pinned st now keep).2 := by
  rw [← List.append_nil (collectSessionCleanup cfg pinned st now keep).2]
  exact ((removes_collectSessionsForRemoval st _).trans
    (removes_collectSessionsForRemoval _ _)).trans (removes_cleanupOrphanIdempotency _)

theorem removes_of_eq {cfg : StoreConfig} {pinned : TreeMap String Nat} {st₁ : StoreState}
    {now : Nat} {keep : Option String} {plan : CleanupPlan}
    (h : collectSessionCleanup cfg pinned st now keep = (st₁, plan)) : Removes st st₁ plan := by
  have hs := removes_collectSessionCleanup cfg pinned st now keep
  rwa [h] at hs

variable {s : UploadSession}

/-- An unfinished idle session whose time is up does not survive a cleanup. -/
theorem collectSessionCleanup_expired {cfg : StoreConfig} {pinned : TreeMap String Nat} {now : Nat}
    {keep : Option String} {d : String} (hs : st.sessions[d]? = some s) (hc : s.committed = false)
    (hidle : s.Idle) (hage : cfg.uploadSessionTtlSecs ≤ now - s.updatedAtEpochSecs) :
    (collectSessionCleanup cfg pinned st now keep).1.sessions[d]? = none := by
  have hgone : (collectExpiredSessions st now cfg.uploadSessionTtlSecs).1.sessions[d]? = none := by
    rw [collectExpiredSessions, sessions_collectSessionsForRemoval,
      if_pos (mem_expiredIds.mpr ⟨s, hs, hc, hidle, hage⟩)]
  simp only [collectSessionCleanup, collectOrphanCommittedSessions, cleanupOrphanIdempotency]
  rw [sessions_collectSessionsForRemoval, hgone, ite_self]

/-! ### Writing sessions back -/

/-- What never changes in the life of a session. -/
def UploadSession.identity (s : UploadSession) : UploadSession :=
  { s with
    receivedRanges := []
    committed := false
    inflightWrites := 0
    commitInProgress := false
    updatedAtEpochSecs := 0 }

theorem UploadSession.fields_of_identity {s' : UploadSession} (h : s'.identity = s.identity) :
    s'.deployId = s.deployId ∧ s'.idempotencyKey = s.idempotencyKey ∧
      s'.artifactDigest = s.artifactDigest ∧ s'.artifactSize = s.artifactSize ∧
      s'.uploadToken = s.uploadToken ∧ s'.filePath = s.filePath := by
  simp only [UploadSession.identity, UploadSession.mk.injEq] at h
  obtain ⟨h₁, -, h₂, -, h₃, h₄, -, h₅, h₆, -⟩ := h
  exact ⟨h₁, h₂, h₃, h₄, h₅, h₆⟩

theorem sessions_put (st : StoreState) (d d' : String) (s : UploadSession) :
    (st.put d s).sessions[d']? = if d = d' then some s else st.sessions[d']? := by
  simp [StoreState.put, TreeMap.getElem?_insert]

@[simp] theorem idempotency_put (st : StoreState) (d : String) (s : UploadSession) :
    (st.put d s).idempotency = st.idempotency := rfl

theorem IndexInv.put (h : IndexInv st) {d : String} {s' : UploadSession}
    (hs : st.sessions[d]? = some s) (hsame : s'.identity = s.identity) :
    IndexInv (st.put d s') where
  deployId_eq := by
    intro e t ht
    rw [sessions_put] at ht
    split at ht
    · rename_i hde
      subst hde
      cases ht
      rw [(UploadSession.fields_of_identity hsame).1, h.deployId_eq d s hs]
    · exact h.deployId_eq e t ht
  key_of_session := by
    intro e t ht
    rw [sessions_put] at ht
    rw [idempotency_put]
    split at ht
    · rename_i hde
      subst hde
      cases ht
      rw [(UploadSession.fields_of_identity hsame).2.1, h.key_of_session d s hs]
    · exact h.key_of_session e t ht
  session_of_key := by
    intro k e hk
    obtain ⟨t, ht, hkt⟩ := h.session_of_key k e hk
    rw [sessions_put]
    by_cases hde : d = e
    · subst hde
      rw [hs] at ht
      cases ht
      exact ⟨s', if_pos rfl, (UploadSession.fields_of_identity hsame).2.1.trans hkt⟩
    · exact ⟨t, by rw [if_neg hde]; exact ht, hkt⟩

/-- A session written back with its identity: what was live is live, under
the same identity, and nothing else is. -/
theorem identity_of_put {d : String} {s' : UploadSession} (hs : st.sessions[d]? = some s)
    (hid : s'.identity = s.identity) (e : String) (u' : UploadSession)
    (hu : (st.put d s').sessions[e]? = some u') :
    ∃ u, st.sessions[e]? = some u ∧ u'.identity = u.identity := by
  rw [sessions_put] at hu
  split at hu
  · rename_i hde
    subst hde
    cases hu
    exact ⟨s, hs, hid⟩
  · exact ⟨u', hu, rfl⟩

theorem findByKey_eq_some {key d : String} :
    st.findByKey key = some (d, s)
      ↔ st.idempotency[key]? = some d ∧ st.sessions[d]? = some s := by
  simp only [StoreState.findByKey, Option.bind_eq_some_iff, Option.map_eq_some_iff, Prod.mk.injEq]
  constructor
  · rintro ⟨d', hd', s', hs', rfl, rfl⟩
    exact ⟨hd', hs'⟩
  · rintro ⟨hd, hs⟩
    exact ⟨d, hd, s, hs, rfl, rfl⟩

theorem IndexInv.idempotency_eq_none (h : IndexInv st) {key : String}
    (hfind : st.findByKey key = none) : st.idempotency[key]? = none := by
  rcases e : st.idempotency[key]? with - | d
  · rfl
  · obtain ⟨s, hs, -⟩ := h.session_of_key key d e
    rw [findByKey_eq_some.mpr ⟨e, hs⟩] at hfind
    cases hfind

/-- Filing a new session under a free key and a free id. -/
theorem IndexInv.insert (h : IndexInv st) (hkey : st.findByKey s.idempotencyKey = none)
    (hid : st.sessions[s.deployId]? = none) :
    IndexInv
      { sessions := st.sessions.insert s.deployId s
        idempotency := st.idempotency.insert s.idempotencyKey s.deployId } := by
  have hfree := h.idempotency_eq_none hkey
  refine ⟨?_, ?_, ?_⟩
  · intro d t ht
    simp only [getElem?_insert_ite] at ht
    split at ht
    · rename_i hd
      rw [← Option.some.inj ht, hd]
    · exact h.deployId_eq d t ht
  · intro d t ht
    simp only [getElem?_insert_ite] at ht ⊢
    split at ht
    · rename_i hd
      rw [← Option.some.inj ht, if_pos rfl, hd]
    · have hold := h.key_of_session d t ht
      rw [if_neg]
      · exact hold
      · intro hk
        rw [← hk, hfree] at hold
        cases hold
  · intro k d hk
    simp only [getElem?_insert_ite] at hk ⊢
    split at hk
    · rename_i hkey'
      cases hk
      exact ⟨s, if_pos rfl, hkey'⟩
    · obtain ⟨t, ht, hkt⟩ := h.session_of_key k d hk
      refine ⟨t, ?_, hkt⟩
      rw [if_neg]
      · exact ht
      · rintro rfl
        rw [hid] at ht; cases ht

/-! ### The outcomes of each critical section -/

section Cases

variable {cfg : StoreConfig} {pinned : TreeMap String Nat} {st : StoreState} {now : Nat}
variable {plan : CleanupPlan}

theorem pushCheck_eq_ok {req : ArtifactPushRequest} {chunkEnd : Nat}
    (h : pushCheck cfg req = .ok chunkEnd) :
    req.chunk.length = req.header.length ∧ chunkEnd = req.header.length + req.header.offset := by
  unfold pushCheck at h
  split at h
  · cases h
  split at h
  · cases h
  rename_i hlen
  split at h
  · cases h
  split at h
  · cases h
  · rename_i n hn
    cases h
    exact ⟨not_not.mp hlen, checkedAdd_eq_some hn⟩

theorem pushGuard_eq_ok {header : ArtifactPushChunkHeader} {chunkEnd : Nat} :
    pushGuard cfg header chunkEnd s = .ok () ↔
      s.uploadToken = header.uploadToken ∧ s.commitInProgress = false ∧ s.committed = false ∧
        chunkEnd ≤ s.artifactSize ∧ s.inflightWrites < cfg.maxInflightChunks := by
  unfold pushGuard
  split_ifs <;> simp_all

theorem commitGuard_eq_ok {req : ArtifactCommitRequest} :
    commitGuard req s = .ok () ↔
      (req.artifactDigest = s.artifactDigest ∧ req.artifactSize = s.artifactSize ∧
        req.manifestDigest = s.manifestDigest) ∧ s.Idle ∧
        isComplete s.receivedRanges s.artifactSize = true := by
  unfold commitGuard UploadSession.Idle
  split_ifs with hmeta hbusy hwrites
  · simp only [false_iff]
    rintro ⟨⟨h₁, h₂, h₃⟩, -⟩
    exact hmeta.elim (· h₁) (·.elim (· h₂) (· h₃))
  · simp [hbusy]
  · simp only [false_iff]
    rintro ⟨-, ⟨hzero, -⟩, -⟩
    omega
  · simp_all
  · simp_all

variable (cfg pinned st now plan)

theorem prepareDecide_cases (req : DeployPrepareRequest) (deployId uploadToken : String) :
    ∃ st₁ plan, collectSessionCleanup cfg pinned st now none = (st₁, plan) ∧
      ((∃ d s, st₁.findByKey req.idempotencyKey = some (d, s) ∧
          s.fingerprint ≠ fingerprint cfg req ∧
          prepareDecide cfg pinned st now req deployId uploadToken
            = .finish st₁ plan (.error idempotencyConflict)) ∨
        (∃ d s, st₁.findByKey req.idempotencyKey = some (d, s) ∧
          s.fingerprint = fingerprint cfg req ∧
          prepareDecide cfg pinned st now req deployId uploadToken
            = .finish (st₁.put d (s.touch now)) plan (.ok (.prepared
                (buildPrepareResponse (s.touch now) cfg.uploadSessionTtlSecs now)))) ∨
        (st₁.findByKey req.idempotencyKey = none ∧
          prepareDecide cfg pinned st now req deployId uploadToken
            = ⟨st₁, plan, .creating (newSession cfg req now deployId uploadToken)⟩)) := by
  rcases hc : collectSessionCleanup cfg pinned st now none with ⟨st₁, plan⟩
  refine ⟨st₁, plan, rfl, ?_⟩
  simp only [prepareDecide, hc]
  rcases st₁.findByKey req.idempotencyKey with - | ⟨d, s⟩
  · exact .inr (.inr ⟨rfl, rfl⟩)
  · by_cases hf : s.fingerprint = fingerprint cfg req
    · exact .inr (.inl ⟨d, s, rfl, hf, by simp [hf]⟩)
    · exact .inl ⟨d, s, rfl, hf, by simp [hf]⟩

theorem prepareInsert_cases (cand : UploadSession) :
    ∃ st₁ plan', collectSessionCleanup cfg pinned st now none = (st₁, plan') ∧
      ((∃ d s, st₁.findByKey cand.idempotencyKey = some (d, s) ∧
          s.fingerprint ≠ cand.fingerprint ∧
          prepareInsert cfg pinned st plan now cand
            = .finish st₁ (plan ++ plan' ++ [cand.filePath]) (.error idempotencyConflict)) ∨
        (∃ d s, st₁.findByKey cand.idempotencyKey = some (d, s) ∧
          s.fingerprint = cand.fingerprint ∧
          prepareInsert cfg pinned st plan now cand
            = .finish (st₁.put d (s.touch now)) (plan ++ plan' ++ [cand.filePath]) (.ok (.prepared
                (buildPrepareResponse (s.touch now) cfg.uploadSessionTtlSecs now)))) ∨
        (st₁.findByKey cand.idempotencyKey = none ∧
          prepareInsert cfg pinned st plan now cand
            = .finish
                { sessions := st₁.sessions.insert cand.deployId (cand.touch now)
                  idempotency := st₁.idempotency.insert cand.idempotencyKey cand.deployId }
                (plan ++ plan') (.ok (.prepared
                  (buildPrepareResponse (cand.touch now) cfg.uploadSessionTtlSecs now))))) := by
  rcases hc : collectSessionCleanup cfg pinned st now none with ⟨st₁, plan'⟩
  refine ⟨st₁, plan', rfl, ?_⟩
  simp only [prepareInsert, hc]
  rcases st₁.findByKey cand.idempotencyKey with - | ⟨d, s⟩
  · exact .inr (.inr ⟨rfl, rfl⟩)
  · by_cases hf : s.fingerprint = cand.fingerprint
    · exact .inr (.inl ⟨d, s, rfl, hf, by simp [hf]⟩)
    · exact .inl ⟨d, s, rfl, hf, by simp [hf]⟩

/-- The session after the first critical section of a push. -/
def UploadSession.beginWrite (s : UploadSession) (now : Nat) : UploadSession :=
  { s with inflightWrites := s.inflightWrites + 1, updatedAtEpochSecs := now }

/-- The session after a push whose write failed. -/
def UploadSession.endWrite (s : UploadSession) : UploadSession :=
  { s with inflightWrites := s.inflightWrites - 1 }

/-- The session after a push whose write succeeded. -/
def UploadSession.receive (s : UploadSession) (header : ArtifactPushChunkHeader) (now : Nat) :
    UploadSession :=
  { s.endWrite with
    receivedRanges := mergeRange s.receivedRanges
      (rangeFromStartEnd header.offset (header.length + header.offset))
    updatedAtEpochSecs := now }

/-- The session after the first critical section of a commit. -/
def UploadSession.beginCommit (s : UploadSession) (now : Nat) : UploadSession :=
  { s with commitInProgress := true, updatedAtEpochSecs := now }

/-- The session after a commit that was refused at its end. -/
def UploadSession.endCommit (s : UploadSession) (now : Nat) : UploadSession :=
  { s with commitInProgress := false, updatedAtEpochSecs := now }

/-- The session after a successful commit. -/
def UploadSession.accept (s : UploadSession) (now : Nat) : UploadSession :=
  { s.endCommit now with committed := true }

theorem pushBegin_cases (header : ArtifactPushChunkHeader) (chunkEnd : Nat) :
    ∃ st₁ plan, collectSessionCleanup cfg pinned st now none = (st₁, plan) ∧
      ((∃ e, (∀ s, st₁.sessions[header.deployId]? = some s →
            pushGuard cfg header chunkEnd s ≠ .ok ()) ∧
          pushBegin cfg pinned st now header chunkEnd = .fail st₁ plan e) ∨
        (∃ s, st₁.sessions[header.deployId]? = some s ∧
          pushGuard cfg header chunkEnd s = .ok () ∧
          pushBegin cfg pinned st now header chunkEnd
            = ⟨st₁.put header.deployId (s.beginWrite now), plan, .opening s.filePath⟩)) := by
  rcases hc : collectSessionCleanup cfg pinned st now none with ⟨st₁, plan⟩
  refine ⟨st₁, plan, rfl, ?_⟩
  simp only [pushBegin, hc]
  rcases st₁.sessions[header.deployId]? with - | s
  · exact .inl ⟨_, by simp, rfl⟩
  · rcases eg : pushGuard cfg header chunkEnd s with err | u
    · refine .inl ⟨err, ?_, by simp [eg]⟩
      intro s' hs'
      cases hs'
      simp [eg]
    · exact .inr ⟨s, rfl, eg, by simp only [eg]; rfl⟩

theorem pushFinish_cases (header : ArtifactPushChunkHeader) (result : Except ImagodError Unit) :
    (∃ e, st.sessions[header.deployId]? = none ∧
        pushFinish st plan now header result = .fail st plan e) ∨
      (∃ s e, st.sessions[header.deployId]? = some s ∧ result = .error e ∧
        pushFinish st plan now header result
          = .fail (st.put header.deployId s.endWrite) plan e) ∨
      (∃ s ack, st.sessions[header.deployId]? = some s ∧ result = .ok () ∧
        pushFinish st plan now header result
          = .finish (st.put header.deployId (s.receive header now)) plan (.ok (.pushed ack))) := by
  simp only [pushFinish]
  rcases e : st.sessions[header.deployId]? with - | s
  · exact .inl ⟨_, rfl, rfl⟩
  · rcases result with err | u
    · exact .inr (.inl ⟨s, err, rfl, rfl, rfl⟩)
    · exact .inr (.inr ⟨s, _, rfl, rfl, rfl⟩)

theorem commitBegin_cases (req : ArtifactCommitRequest) :
    ∃ st₁ plan, collectSessionCleanup cfg pinned st now none = (st₁, plan) ∧
      ((∃ e, (∀ s, st₁.sessions[req.deployId]? = some s → commitGuard req s ≠ .ok ()) ∧
          commitBegin cfg pinned st now req = .fail st₁ plan e) ∨
        (∃ s, st₁.sessions[req.deployId]? = some s ∧ commitGuard req s = .ok () ∧
          commitBegin cfg pinned st now req
            = ⟨st₁.put req.deployId (s.beginCommit now), plan,
                .digestOpening s.filePath s.artifactDigest⟩)) := by
  rcases hc : collectSessionCleanup cfg pinned st now none with ⟨st₁, plan⟩
  refine ⟨st₁, plan, rfl, ?_⟩
  simp only [commitBegin, hc]
  rcases st₁.sessions[req.deployId]? with - | s
  · exact .inl ⟨_, by simp, rfl⟩
  · rcases eg : commitGuard req s with err | u
    · refine .inl ⟨err, ?_, by simp [eg]⟩
      intro s' hs'
      cases hs'
      simp [eg]
    · exact .inr ⟨s, rfl, eg, by simp only [eg]; rfl⟩

theorem commitFinish_cases (req : ArtifactCommitRequest) (expected : String)
    (result : Except ImagodError String) :
    (∃ e, st.sessions[req.deployId]? = none ∧
        commitFinish cfg pinned st plan now req expected result = .fail st plan e) ∨
      (∃ s e, st.sessions[req.deployId]? = some s ∧ result ≠ .ok expected ∧
        commitFinish cfg pinned st plan now req expected result
          = .fail (st.put req.deployId (s.endCommit now)) plan e) ∨
      (∃ s st₁ plan', st.sessions[req.deployId]? = some s ∧ result = .ok expected ∧
        collectSessionCleanup cfg pinned (st.put req.deployId (s.accept now)) now
          (some s.deployId) = (st₁, plan') ∧
        commitFinish cfg pinned st plan now req expected result
          = .finish st₁ (plan ++ plan') (.ok (.committed ⟨s.artifactDigest, true⟩))) := by
  simp only [commitFinish]
  rcases e : st.sessions[req.deployId]? with - | s
  · exact .inl ⟨_, rfl, rfl⟩
  · rcases result with err | digest
    · exact .inr (.inl ⟨s, err, rfl, by simp, rfl⟩)
    · by_cases hd : digest = expected
      · subst hd
        exact .inr (.inr ⟨s, _, _, rfl, rfl, rfl, by simp; rfl⟩)
      · exact .inr (.inl ⟨s, _, rfl, by simpa using hd, by simp [hd]; rfl⟩)

theorem lookupCommitted_cases (deployId : String) (output : UploadSession → Output) :
    ∃ st₁ plan, collectSessionCleanup cfg pinned st now (some deployId) = (st₁, plan) ∧
      ((∃ e, (∀ s, st₁.sessions[deployId]? = some s → s.committed = false) ∧
          lookupCommitted cfg pinned st now deployId output = .fail st₁ plan e) ∨
        (∃ s, st₁.sessions[deployId]? = some s ∧ s.committed = true ∧
          lookupCommitted cfg pinned st now deployId output
            = .finish (st₁.put deployId (s.touch now)) plan (.ok (output s)))) := by
  rcases hc : collectSessionCleanup cfg pinned st now (some deployId) with ⟨st₁, plan⟩
  refine ⟨st₁, plan, rfl, ?_⟩
  simp only [lookupCommitted, hc]
  rcases st₁.sessions[deployId]? with - | s
  · exact .inl ⟨_, by simp, rfl⟩
  · by_cases hc : s.committed = true
    · exact .inr ⟨s, rfl, hc, by simp [hc]⟩
    · refine .inl ⟨_, ?_, by simp [hc]; rfl⟩
      intro s' hs'
      cases hs'
      simpa using hc

theorem purgeDeploySession_eq (deployId : String) :
    ∃ st₁ plan₁ st₂ plan₂, collectSessionCleanup cfg pinned st now (some deployId) = (st₁, plan₁) ∧
      collectSessionsForRemoval st₁ [deployId] = (st₂, plan₂) ∧
      purgeDeploySession cfg pinned st now deployId
        = .finish st₂ (plan₁ ++ plan₂) (.ok .purged) := by
  rcases h₁ : collectSessionCleanup cfg pinned st now (some deployId) with ⟨st₁, plan₁⟩
  rcases h₂ : collectSessionsForRemoval st₁ [deployId] with ⟨st₂, plan₂⟩
  exact ⟨st₁, plan₁, st₂, plan₂, rfl, h₂, by simp only [purgeDeploySession, h₁, h₂]⟩

end Cases

end Imago
