/-
Imago/Orchestrator.lean

The orchestrator's `deploy`, `run` and `stop`, running concurrently over the
storage tree, the command gate and the supervisor.

Every command is a task with a program counter; one action is what a task does
between two await points, in most cases one file-system call.  The call is
data: `Deploy.op` says which one a deploy makes at its program counter,
`Deploy.next` how it goes on when the call was made and `Deploy.failed` how it
goes on when the call failed.  What a step can touch on disk is then read off
`op` alone.

What the environment decides is part of the action: whether a call fails and
what it had done by then, in which order a directory is listed, what the
artifact store answers, whether the launch can be built, how the supervisor's
calls end.

Paths are the components below the storage root, as the operating system
resolves them: joining `.` stays in the directory.  A directory carries the
number of the step that made it, so that it can be told from another one that
has taken its path.

The files of the artifact store and of the supervisor are not in this tree; what
a deploy does to them is in `ServiceFrame`.  Not modelled: a task's being
dropped, symbolic links, and names that are not UTF-8.
-/
import Imago.CommandStart
import Imago.Manifest
import Imago.PathTree
import Imago.Supervisor

namespace Imago.Orchestrator

open Std (TreeMap TreeSet)
open Imago.Command (CommandPayload DeployCommandPayload Summary)

/-! ### Storage -/

/-- The bytes of a file: a text, or bytes that are no UTF-8. -/
inductive Content
  | text (s : String)
  | binary (bytes : List UInt8)
  deriving DecidableEq

/-- The first part of a content, which is what an interrupted write leaves. -/
def Content.take (n : Nat) : Content → Content
  | .text s => .text (String.ofList (s.toList.take n))
  | .binary bytes => .binary (bytes.take n)

inductive Node
  | file (content : Content)
  | dir (serial : Nat)
  deriving DecidableEq

abbrev Path := List String

abbrev Disk := PathTree String Node

def isFile (t : Disk) (p : Path) : Bool :=
  match t p with
  | some (.file _) => true
  | _ => false

def isDir (t : Disk) (p : Path) : Bool :=
  match t p with
  | some (.dir _) => true
  | _ => false

/-- `Path::join` with one component, as it resolves. -/
def join (base : Path) (component : String) : Path :=
  if component = "" ∨ component = "." then base else base ++ [component]

def stagingDir (deployId : String) : Path := ["staging", deployId]

def serviceRoot (name : String) : Path := join ["services"] name

def activeFile (name : String) : Path := serviceRoot name ++ ["active_release"]

def restartPolicyFile (name : String) : Path := serviceRoot name ++ ["restart_policy"]

def pluginComponentCacheRoot : Path := ["plugins", "components"]

/-- An archive entry that passed the checks: a file with its bytes, or a directory. -/
structure ArchiveEntry where
  path : Path
  content : Option Content

/-- `extract_tar` unpacks one entry under `p`: the directories on the way, then the entry. -/
def unpack (t : Disk) (p : Path) (entry : ArchiveEntry) : Disk :=
  match entry.content with
  | some content =>
    (t.fill (p ++ entry.path.dropLast) (.dir 0)).put (p ++ entry.path) (.file content)
  | none => t.fill (p ++ entry.path) (.dir 0)

/-- A directory with nothing in it. -/
def emptyDir (serial : Nat) : Disk := fun r => if r = [] then some (.dir serial) else none

/-- What a list of entries unpacks to, in a directory of its own. -/
def extracted (serial : Nat) (entries : List ArchiveEntry) : Disk :=
  entries.foldl (fun t entry => unpack t [] entry) (emptyDir serial)

/-- How a file-system call fails: the system's text, and what it had done by
then.  A removal may have spared only some of the paths, a write may have
written only a first part, an unpacked file may hold anything, and of the
directories of a path only the first ones may have been made. -/
structure Fault where
  text : String
  keep : Option (Path → Bool) := none
  torn : Option Nat := none
  cut : Option Content := none
  made : Nat := 0

/-- One call to the file system. -/
inductive DiskOp
  /-- nothing is written -/
  | pass
  /-- `clean_dir`: a directory that is not there is fine -/
  | cleanDir (p : Path)
  | removeDirAll (p : Path)
  /-- a removal that spared some paths -/
  | removePart (p : Path) (keep : Path → Bool)
  | createDirAll (p : Path)
  | unpack (p : Path) (entry : ArchiveEntry)
  | rename (p q : Path)
  | write (p : Path) (content : Content)
  /-- a file that is not there is fine -/
  | removeFile (p : Path)
  /-- plugin components are copied into the cache -/
  | cache (components : List (String × Content))

namespace DiskOp

/-- The tree after the call; `serial` numbers the directories that it makes. -/
def apply (serial : Nat) : DiskOp → Disk → Disk
  | .pass, t => t
  | .cleanDir p, t => t.remove p
  | .removeDirAll p, t => t.remove p
  | .removePart p keep, t => t.graft p fun r => if keep r then t.below p r else none
  | .createDirAll p, t => t.fill p (.dir serial)
  | .unpack p entry, t => Orchestrator.unpack t p entry
  | .rename p q, t => t.move p q
  | .write p content, t => t.put p (.file content)
  | .removeFile p, t => t.remove p
  | .cache components, t =>
    components.foldl
      (fun t c => t.put (pluginComponentCacheRoot ++ [c.1 ++ ".wasm"]) (.file c.2))
      (t.fill pluginComponentCacheRoot (.dir serial))

/-- No file stands where a directory is needed for `p`. -/
def dirsFree (t : Disk) (p : Path) : Bool := p.inits.all fun q => !isFile t q

/-- Whether the tree allows the call.  A rename needs its source, a free
destination and the directory above it. -/
def possible (t : Disk) : DiskOp → Bool
  | .pass => true
  | .cleanDir p => !isFile t p
  | .removeDirAll p => isDir t p
  | .removePart _ _ => true
  | .createDirAll p => dirsFree t p
  | .unpack p entry =>
    match entry.content with
    | some _ => dirsFree t (p ++ entry.path.dropLast) && !isDir t (p ++ entry.path)
    | none => dirsFree t (p ++ entry.path)
  | .rename p q => (t p).isSome && (t q).isNone && isDir t q.dropLast
  | .write p _ => isDir t p.dropLast && !isDir t p
  | .removeFile p => !isDir t p
  | .cache _ => true

/-- What a call that fails has done nevertheless. -/
def interrupted (f : Fault) : DiskOp → DiskOp
  | .cleanDir p => match f.keep with
      | some keep => .removePart p keep
      | none => .pass
  | .removeDirAll p => match f.keep with
      | some keep => .removePart p keep
      | none => .pass
  | .createDirAll p => .createDirAll (p.take f.made)
  | .unpack p entry => match f.cut with
      | some content => .unpack p { entry with content := entry.content.map fun _ => content }
      | none => .pass
  | .write p content => match f.torn with
      | some n => .write p (content.take n)
      | none => .pass
  | _ => .pass

end DiskOp

/-! ### Archives and manifests -/

inductive EntryType
  | file
  | dir
  /-- any other type, as it is printed -/
  | other (debug : String)

/-- An entry as it stands in the archive. -/
structure TarEntry where
  entryType : EntryType
  path : String
  content : Content

/-- The normal components of a path; `none` at a parent component. -/
def normalComponents : List (List Char) → Option Path
  | [] => some []
  | c :: rest =>
    if c = [] ∨ c = ['.'] then normalComponents rest
    else if c = ['.', '.'] then none
    else (normalComponents rest).map (String.ofList c :: ·)

/-- The second byte is a colon. -/
def windowsPrefixed (raw : String) : Bool :=
  match raw.toList with
  | c :: ':' :: _ => c.utf8Size = 1
  | _ => false

/-- `normalize_archive_entry_path`. -/
def normalizeArchiveEntryPath (raw : String) : Except ImagodError Path :=
  if raw = "" then .error (mapBadManifest "artifact contains empty entry path")
  else if raw.toList.head? = some '/' then
    .error (mapBadManifest ("artifact contains absolute entry path: " ++ raw))
  else if windowsPrefixed raw then
    .error (mapBadManifest ("artifact contains windows-prefixed entry path: " ++ raw))
  else
    match normalComponents (raw.toList.splitOn '/') with
    | none => .error (mapBadManifest ("artifact contains invalid entry path: " ++ raw))
    | some [] => .error (mapBadManifest ("artifact contains invalid entry path: " ++ raw))
    | some path => .ok path

/-- The checks that `extract_tar` makes of an entry before it unpacks it.  The
joined path starts with the destination whatever the normalized path is. -/
def TarEntry.check (e : TarEntry) : Except ImagodError ArchiveEntry :=
  match e.entryType with
  | .other debug =>
    .error (mapBadManifest ("artifact contains unsupported entry type: " ++ debug))
  | .file => (normalizeArchiveEntryPath e.path).map fun path => ⟨path, some e.content⟩
  | .dir => (normalizeArchiveEntryPath e.path).map fun path => ⟨path, none⟩

inductive HashTarget
  | wasm | manifest | assets
  deriving DecidableEq

structure ManifestHash where
  algorithm : String
  targets : List HashTarget

/-- `required_hash_targets_valid`. -/
def ManifestHash.validateTargets (h : ManifestHash) : Bool :=
  decide (.wasm ∈ h.targets ∧ .manifest ∈ h.targets ∧ .assets ∈ h.targets) &&
    h.targets.length == 3

/-- The fields of the manifest that the orchestrator itself reads; the others
are the launch builder's. -/
structure Manifest where
  name : String
  hash : ManifestHash

/-- The upload session of a deploy id, once it is committed. -/
structure CommittedArtifact where
  /-- the service the session was opened for -/
  serviceName : String
  artifactDigest : String
  manifestDigest : String
  entries : List TarEntry

/-- What `hex::encode` gives for the 32 bytes of a digest. -/
def isSha256Hex (s : String) : Bool :=
  s.toList.length == 64 &&
    s.toList.all fun c => ('0' ≤ c && c ≤ '9') || ('a' ≤ c && c ≤ 'f')

/-- What the orchestrator is given: the committed artifact of a deploy id
(deploy ids are never reused), the JSON decoder with its error text, SHA-256 in
hexadecimal, and how a path is printed. -/
structure Config where
  committed : String → Option CommittedArtifact
  parseManifest : Content → Except String Manifest
  sha256 : Content → String
  sha256_hex : ∀ bytes, isSha256Hex (sha256 bytes) = true
  display : Path → String

/-- `release_id_from_artifact_digest`. -/
def Config.releaseId (cfg : Config) (artifactDigest : String) : String :=
  cfg.sha256 (.text artifactDigest)

/-! ### Errors and checks -/

/-- `map_internal`. -/
def mapInternal (message : String) : ImagodError :=
  (ImagodError.new .internal stageOrchestrate message).withRetryable true

def serviceCommandBusyError (name : String) : ImagodError :=
  .new .busy stageOrchestrate ("service '" ++ name ++ "' command is already in progress")

def Config.parse (cfg : Config) (bytes : Content) : Except ImagodError Manifest :=
  (cfg.parseManifest bytes).mapError fun e => mapBadManifest ("manifest parse failed: " ++ e)

/-- `validate_manifest_metadata`, with the expected digest. -/
def Config.validateManifestMetadata (cfg : Config) (manifest : Manifest) (bytes : Content)
    (expectedDigest : String) : Except ImagodError Unit :=
  if manifest.hash.algorithm ≠ "sha256" ∨ !manifest.hash.validateTargets then
    .error (mapBadManifest "manifest hash metadata is invalid")
  else do
    validateServiceName manifest.name
    if cfg.sha256 bytes ≠ expectedDigest then
      .error (mapBadManifest "manifest digest does not match artifact metadata")

def validateReleaseServiceName (manifest : Manifest) (expected : String) :
    Except ImagodError Unit :=
  if manifest.name ≠ expected then
    .error (mapBadManifest ("release manifest name mismatch: expected " ++ expected ++
      ", got " ++ manifest.name))
  else .ok ()

def isSupportedRestartPolicy (value : String) : Bool :=
  value = "never" || value = "on-failure" || value = "always" || value = "unless-stopped"

def validateDeployPreconditions (payload : DeployCommandPayload) (activeRelease : Option String) :
    Except ImagodError Unit :=
  if !isSupportedRestartPolicy payload.restartPolicy then
    .error (.new .badRequest stageOrchestrate
      ("unsupported restart_policy '" ++ payload.restartPolicy ++
        "': supported values are 'never', 'on-failure', 'always' and 'unless-stopped'"))
  else if payload.expectedCurrentRelease = "any" then .ok ()
  else
    let actual := activeRelease.getD "none"
    if payload.expectedCurrentRelease = actual then .ok ()
    else
      .error
        (((ImagodError.new .preconditionFailed stageOrchestrate
          "expected_current_release does not match active release").withDetail
            "expected_current_release" payload.expectedCurrentRelease).withDetail
              "actual_current_release" actual)

inductive RollbackOutcome
  | skippedNoPreviousRelease
  | restoredPreviousRelease
  | recoveredByForceStop

def mapRollbackError (err : ImagodError) : ImagodError :=
  { ImagodError.new .rollbackFailed stageOrchestrate err.message with
    retryable := err.retryable
    details := err.details }

def appendRollbackSuccessMessage (startError : ImagodError) : RollbackOutcome → ImagodError
  | .skippedNoPreviousRelease => startError
  | .restoredPreviousRelease =>
    { startError with message := startError.message ++ "; rollback: restored previous release" }
  | .recoveredByForceStop =>
    { startError with
      message := startError.message ++
        "; rollback: recovered by force-stop and restored previous release" }

def composeRollbackFailureError (startError rollbackError : ImagodError) : ImagodError :=
  let composed :=
    { ImagodError.new .rollbackFailed stageOrchestrate
        (startError.message ++ "; rollback failed: " ++ rollbackError.message) with
      retryable := rollbackError.retryable
      details := startError.details }
  rollbackError.details.foldl
    (fun e key value =>
      if startError.details.contains key then e.withDetail ("rollback." ++ key) value
      else e.withDetail key value)
    composed

/-! ### The supervisor -/

/-- A live runner: its release, and the directory it was launched from. -/
structure Runner where
  release : String
  serial : Nat
  deriving DecidableEq

abbrev Running := TreeMap String Runner

/-- `ServiceSupervisor::stop`; `NotFound` for a runner that is there means that
it had exited by itself. -/
def stopService (running : Running) (name : String) (outcome : Option ImagodError) :
    Running × Except ImagodError Unit :=
  if name ∈ running then
    match outcome with
    | none => (running.erase name, .ok ())
    | some e => (if e.code = .notFound then running.erase name else running, .error e)
  else (running, .error (Supervisor.notRunningError name))

/-- `ServiceSupervisor::start`; it cannot succeed without the release directory. -/
def startService (running : Running) (disk : Disk) (name release : String)
    (outcome : Option ImagodError) : Option (Running × Except ImagodError Unit) :=
  if name ∈ running then some (running, .error (Supervisor.startBusyError name))
  else
    match outcome, disk (join (serviceRoot name) release) with
    | some e, _ => some (running, .error e)
    | none, some (.dir serial) => some (running.insert name ⟨release, serial⟩, .ok ())
    | none, _ => none

/-! ### Shared state -/

/-- What the commands share; `serial` numbers the steps. -/
structure Shared where
  disk : Disk
  /-- `inflight_services` of the command gate -/
  gate : TreeSet String
  running : Running
  serial : Nat

/-! ### Tasks -/

/-- The call of `extract_tar` that fails. -/
inductive ExtractCall
  | openArtifact | readEntries | readEntry | entryPath | createDir | createParent | unpackFile
  | joinTask
  deriving DecidableEq

/-- What the environment decides in one step of a task. -/
structure Input where
  fault : Option Fault := none
  /-- the system's text for a call that the tree does not allow -/
  text : String := ""
  extractCall : ExtractCall := .unpackFile
  /-- the artifact store's refusal -/
  session : Option ImagodError := none
  /-- `Uuid::new_v4`, as it is printed -/
  uuid : String := ""
  /-- the next entry of the listed directory -/
  entry : Option String := none
  /-- why the launch cannot be built -/
  launch : Option ImagodError := none
  components : List (String × Content) := []
  stop : Option ImagodError := none
  start : Option ImagodError := none

/-- Where a deploy is: what it does next. -/
inductive DeployPc
  | lookup
  | fetch
  | clean (entries : List TarEntry)
  | makeStaging (entries : List TarEntry)
  | extract (rest : List TarEntry)
  | readManifest
  | readActive
  | readPolicy
  | makeRoot
  | inspect
  | promote
  | toBackup
  | swapIn (backup : Path)
  | restoreBackup (backup : Path) (text : String)
  | dropBackup (backup : Path)
  | listReleases
  | cleanup
  | build
  | replaceStop
  | replaceStart
  | rollbackActive (startError : ImagodError) (previous : String)
  | rollbackPolicy (startError : ImagodError) (previous : String)
  | rollbackLoad (startError : ImagodError) (previous : String)
  | rollbackStart (startError : ImagodError) (previous : String)
  | rollbackForce (startError : ImagodError) (previous : String)
  | rollbackRetry (startError : ImagodError) (previous : String)
  | writeActive
  | writePolicy
  | returned (result : Except ImagodError Summary)

/-- A call of `deploy`.  `guard` is the name it has in the command gate, `name`
the service of the manifest (empty until the manifest was read), `faults` the
number of its file-system calls that failed. -/
structure Deploy where
  payload : DeployCommandPayload
  pc : DeployPc := .lookup
  guard : Option String := none
  sessionName : String := ""
  manifestDigest : String := ""
  release : String := ""
  name : String := ""
  previous : Option String := none
  previousPolicy : Option String := none
  faults : Nat := 0

namespace Deploy

def staging (d : Deploy) : Path := stagingDir d.payload.deployId

def root (d : Deploy) : Path := serviceRoot d.name

def releaseDir (d : Deploy) : Path := d.root ++ [d.release]

def backupDir (d : Deploy) (uuid : String) : Path :=
  d.root ++ [d.release ++ ".swap-backup-" ++ uuid]

/-- The call returns, and the guard is dropped. -/
def finish (d : Deploy) (result : Except ImagodError Summary) : Deploy :=
  { d with pc := .returned result, guard := none }

def fail (d : Deploy) (e : ImagodError) : Deploy := d.finish (.error e)

/-- `deploy` after `replace` has failed. -/
def startFailed (d : Deploy) (e : ImagodError) : Deploy :=
  match d.payload.autoRollback, d.previous with
  | true, some previous => { d with pc := .rollbackActive e previous }
  | true, none => d.fail (appendRollbackSuccessMessage e .skippedNoPreviousRelease)
  | false, _ => d.fail e

/-- `cleanup_old_releases` removes this entry. -/
def removes (d : Deploy) (disk : Disk) (entry : String) : Bool :=
  isDir disk (d.root ++ [entry]) && entry != d.release && d.previous != some entry

/-- `write_restart_policy` writes only a policy it knows. -/
def writeRestartPolicy (name policy : String) : DiskOp :=
  if isSupportedRestartPolicy policy then .write (restartPolicyFile name) (.text policy) else .pass

/-- The call of the next step to the orchestrator's own files. -/
def op (d : Deploy) (disk : Disk) (i : Input) : DiskOp :=
  match d.pc with
  | .clean _ => .cleanDir d.staging
  | .makeStaging _ => .createDirAll d.staging
  | .extract (e :: _) =>
    match e.check with
    | .ok entry => .unpack d.staging entry
    | .error _ => .pass
  | .makeRoot => .createDirAll d.root
  | .promote => .rename d.staging d.releaseDir
  | .toBackup => .rename d.releaseDir (d.backupDir i.uuid)
  | .swapIn _ => .rename d.staging d.releaseDir
  | .restoreBackup backup _ => .rename backup d.releaseDir
  | .dropBackup backup => .removeDirAll backup
  | .cleanup =>
    match i.entry with
    | some entry => if d.removes disk entry then .removeDirAll (d.root ++ [entry]) else .pass
    | none => .pass
  | .build => .cache i.components
  | .rollbackActive _ previous => .write (activeFile d.name) (.text previous)
  | .rollbackPolicy _ _ =>
    match d.previousPolicy with
    | some policy => writeRestartPolicy d.name policy
    | none => .removeFile (restartPolicyFile d.name)
  | .rollbackLoad _ _ => .cache i.components
  | .writeActive => .write (activeFile d.name) (.text d.release)
  | .writePolicy => writeRestartPolicy d.name d.payload.restartPolicy
  | _ => .pass

/-- The text of `extract_tar` for a call that failed. -/
def extractError (cfg : Config) (d : Deploy) (rest : List TarEntry) (call : ExtractCall)
    (text : String) : ImagodError :=
  -- the path under the staging directory, where the call has one
  let target := match rest.head?.map TarEntry.check with
    | some (.ok entry) => d.staging ++ entry.path
    | _ => d.staging
  match call with
  | .openArtifact => mapBadManifest ("artifact open failed: " ++ text)
  | .readEntries => mapBadManifest ("artifact entries failed: " ++ text)
  | .readEntry => mapBadManifest ("artifact entry read failed: " ++ text)
  | .entryPath => mapBadManifest ("artifact entry path failed: " ++ text)
  | .createDir =>
    mapBadManifest ("artifact directory create failed " ++ cfg.display target ++ ": " ++ text)
  | .createParent =>
    mapBadManifest ("artifact parent directory create failed " ++
      cfg.display target.dropLast ++ ": " ++ text)
  | .unpackFile =>
    mapBadManifest ("artifact unpack failed for " ++ cfg.display target ++ ": " ++ text)
  | .joinTask => mapInternal ("artifact unpack task join failed: " ++ text)

/-- The error a failed file-system call ends the deploy with; `none` where the
step makes no such call, or goes on after it. -/
def callError (cfg : Config) (d : Deploy) (i : Input) (text : String) : Option ImagodError :=
  match d.pc with
  | .clean _ =>
    some (mapInternal ("failed to remove dir " ++ cfg.display d.staging ++ ": " ++ text))
  | .makeStaging _ => some (mapInternal ("failed to create staging dir: " ++ text))
  | .extract rest => some (d.extractError cfg rest i.extractCall text)
  | .readManifest => some (mapBadManifest ("manifest read failed: " ++ text))
  | .readActive => some (mapInternal ("failed to read active release: " ++ text))
  | .readPolicy => some (mapInternal ("failed to read restart policy: " ++ text))
  | .makeRoot => some (mapInternal ("service root creation failed: " ++ text))
  | .inspect =>
    some (mapInternal
      ("failed to inspect release dir " ++ cfg.display d.releaseDir ++ ": " ++ text))
  | .promote => some (mapInternal ("release move failed: " ++ text))
  | .toBackup => some (mapInternal ("failed to move release to backup: " ++ text))
  | .restoreBackup _ first =>
    some (mapInternal ("release move failed: " ++ first ++ "; rollback restore failed: " ++ text))
  | .dropBackup backup =>
    some (mapInternal ("failed to cleanup release backup " ++ cfg.display backup ++ ": " ++ text))
  | .listReleases => some (mapInternal ("failed to read service root: " ++ text))
  | .cleanup =>
    match i.entry with
    | some entry =>
      some (mapInternal ("failed to cleanup old release " ++
        cfg.display (d.root ++ [entry]) ++ ": " ++ text))
    | none => some (mapInternal ("failed to iterate service root: " ++ text))
  | .rollbackActive e _ =>
    some (composeRollbackFailureError e
      (.new .rollbackFailed stageOrchestrate ("failed to write rollback release: " ++ text)))
  | .rollbackPolicy e _ =>
    some (composeRollbackFailureError e (mapRollbackError (mapInternal
      (match d.previousPolicy with
      | some _ => "restart policy update failed: " ++ text
      | none => "failed to remove restart policy file " ++
          cfg.display (restartPolicyFile d.name) ++ ": " ++ text))))
  | .rollbackLoad e _ =>
    some (composeRollbackFailureError e
      (mapRollbackError (mapBadManifest ("manifest read failed: " ++ text))))
  | .writeActive => some (mapInternal ("active release update failed: " ++ text))
  | .writePolicy => some (mapInternal ("restart policy update failed: " ++ text))
  | _ => none

/-- The deploy after a file-system call that failed.  Only the second rename of
a swap is followed by another call. -/
def failed (cfg : Config) (d : Deploy) (i : Input) (text : String) : Option Deploy :=
  match d.pc with
  | .swapIn backup => some { d with pc := .restoreBackup backup text, faults := d.faults + 1 }
  | _ => (d.callError cfg i text).map fun e => { d.fail e with faults := d.faults + 1 }

end Deploy

/-- `read_active_release`; `text` is the system's text if it cannot be read. -/
def readActiveRelease (disk : Disk) (name text : String) : Except ImagodError (Option String) :=
  match disk (activeFile name) with
  | none => .ok none
  | some (.file (.text s)) => .ok (some (trim s))
  | some _ => .error (mapInternal ("failed to read active release: " ++ text))

/-- `read_restart_policy`. -/
def readRestartPolicy (cfg : Config) (disk : Disk) (name text : String) :
    Except ImagodError (Option String) :=
  match disk (restartPolicyFile name) with
  | none => .ok none
  | some (.file (.text s)) =>
    if isSupportedRestartPolicy (trim s) then .ok (some (trim s))
    else
      .error (mapInternal ("invalid restart policy persisted in " ++
        cfg.display (restartPolicyFile name) ++ ": " ++ trim s))
  | some _ => .error (mapInternal ("failed to read restart policy: " ++ text))

def invalidRestartPolicy (policy : String) : ImagodError :=
  .new .badRequest stageOrchestrate ("invalid restart_policy: " ++ policy)

/-- The manifest that `stage_committed_release` reads back and checks. -/
def stagedManifest (cfg : Config) (disk : Disk) (staging : Path) (digest text : String) :
    Except ImagodError Manifest :=
  match disk (staging ++ ["manifest.json"]) with
  | some (.file bytes) => do
      let manifest ← cfg.parse bytes
      cfg.validateManifestMetadata manifest bytes digest
      return manifest
  | _ => .error (mapBadManifest ("manifest read failed: " ++ text))

/-- `load_launch_from_release`. -/
def loadLaunch (cfg : Config) (disk : Disk) (name release : String) (i : Input) :
    Except ImagodError Unit :=
  match disk (join (serviceRoot name) release ++ ["manifest.json"]) with
  | some (.file bytes) => do
      let manifest ← cfg.parse bytes
      validateReleaseServiceName manifest name
      match i.launch with
      | some e => .error e
      | none => .ok ()
  | _ => .error (mapBadManifest ("manifest read failed: " ++ i.text))

/-- What the artifact store answers for a deploy id. -/
def sessionOf (cfg : Config) (deployId : String) (i : Input) :
    Except ImagodError CommittedArtifact :=
  match i.session, cfg.committed deployId with
  | some e, _ => .error e
  | none, some artifact => .ok artifact
  | none, none =>
    .error (.new .notFound stageOrchestrate "deploy_id is not found for command.start")

namespace Deploy

/-- `rebind_deploy_service_command_guard`, after the manifest was checked. -/
def rebind (d : Deploy) (gate : TreeSet String) (name : String) : Deploy :=
  if d.sessionName = name then { d with name := name, pc := .readActive }
  else if name ∈ gate then d.fail (serviceCommandBusyError name)
  else { d with name := name, guard := some name, pc := .readActive }

/-- The deploy after a step whose file-system call, if there is one, was made. -/
def next (cfg : Config) (d : Deploy) (sh : Shared) (i : Input) : Option (Running × Deploy) :=
  let goto := fun pc => some (sh.running, { d with pc := pc })
  let fail := fun e => some (sh.running, d.fail e)
  match d.pc with
  | .lookup =>
    match sessionOf cfg d.payload.deployId i with
    | .error e => fail e
    | .ok artifact =>
      let name := artifact.serviceName
      if name ∈ sh.gate then fail (serviceCommandBusyError name)
      else some (sh.running, { d with guard := some name, sessionName := name, pc := .fetch })
  | .fetch =>
    match sessionOf cfg d.payload.deployId i with
    | .error e => fail e
    | .ok artifact =>
      some (sh.running,
        { d with
          release := cfg.releaseId artifact.artifactDigest
          manifestDigest := artifact.manifestDigest
          pc := .clean artifact.entries })
  | .clean entries => goto (.makeStaging entries)
  | .makeStaging entries => goto (.extract entries)
  | .extract [] => goto .readManifest
  | .extract (e :: rest) =>
    match e.check with
    | .ok _ => goto (.extract rest)
    | .error err => fail err
  | .readManifest =>
    match stagedManifest cfg sh.disk d.staging d.manifestDigest i.text with
    | .error e => fail e
    | .ok manifest => some (sh.running, d.rebind sh.gate manifest.name)
  | .readActive =>
    match readActiveRelease sh.disk d.name i.text with
    | .error e => fail e
    | .ok previous => some (sh.running, { d with previous := previous, pc := .readPolicy })
  | .readPolicy =>
    match readRestartPolicy cfg sh.disk d.name i.text with
    | .error e => fail e
    | .ok policy =>
      match validateDeployPreconditions d.payload d.previous with
      | .error e => fail e
      | .ok _ => some (sh.running, { d with previousPolicy := policy, pc := .makeRoot })
  | .makeRoot => goto .inspect
  | .inspect => if (sh.disk d.releaseDir).isNone then goto .promote else goto .toBackup
  | .promote => goto .listReleases
  | .toBackup => goto (.swapIn (d.backupDir i.uuid))
  | .swapIn backup => goto (.dropBackup backup)
  | .restoreBackup _ text =>
    fail (mapInternal ("release move failed and backup restored: " ++ text))
  | .dropBackup _ => goto .listReleases
  | .listReleases => goto .cleanup
  | .cleanup => if i.entry.isSome then goto .cleanup else goto .build
  | .build =>
    match i.launch with
    | some e => fail e
    | none => goto .replaceStop
  | .replaceStop =>
    match stopService sh.running d.name i.stop with
    | (running, .ok _) => some (running, { d with pc := .replaceStart })
    | (running, .error e) =>
      if e.code = .notFound then some (running, { d with pc := .replaceStart })
      else some (running, d.startFailed e)
  | .replaceStart =>
    (startService sh.running sh.disk d.name d.release i.start).map fun
      | (running, .ok _) => (running, { d with pc := .writeActive })
      | (running, .error e) => (running, d.startFailed e)
  | .rollbackActive e previous => goto (.rollbackPolicy e previous)
  | .rollbackPolicy e previous =>
    match d.previousPolicy with
    | some policy =>
      if isSupportedRestartPolicy policy then goto (.rollbackLoad e previous)
      else fail (composeRollbackFailureError e (mapRollbackError (invalidRestartPolicy policy)))
    | none => goto (.rollbackLoad e previous)
  | .rollbackLoad e previous =>
    match loadLaunch cfg sh.disk d.name previous i with
    | .ok _ => goto (.rollbackStart e previous)
    | .error err => fail (composeRollbackFailureError e (mapRollbackError err))
  | .rollbackStart e previous =>
    (startService sh.running sh.disk d.name previous i.start).map fun
      | (running, .ok _) =>
        (running, d.fail (appendRollbackSuccessMessage e .restoredPreviousRelease))
      | (running, .error err) =>
        if err.code = .busy then (running, { d with pc := .rollbackForce e previous })
        else (running, d.fail (composeRollbackFailureError e (mapRollbackError err)))
  | .rollbackForce e previous =>
    match stopService sh.running d.name i.stop with
    | (running, .ok _) => some (running, { d with pc := .rollbackRetry e previous })
    | (running, .error err) =>
      if err.code = .notFound then some (running, { d with pc := .rollbackRetry e previous })
      else some (running, d.fail (composeRollbackFailureError e (mapRollbackError err)))
  | .rollbackRetry e previous =>
    (startService sh.running sh.disk d.name previous i.start).map fun
      | (running, .ok _) =>
        (running, d.fail (appendRollbackSuccessMessage e .recoveredByForceStop))
      | (running, .error err) =>
        (running, d.fail (composeRollbackFailureError e (mapRollbackError err)))
  | .writeActive => goto .writePolicy
  | .writePolicy =>
    if isSupportedRestartPolicy d.payload.restartPolicy then
      some (sh.running, d.finish (.ok ⟨d.name, d.release⟩))
    else fail (invalidRestartPolicy d.payload.restartPolicy)
  | .returned _ => none

end Deploy

/-- Where a `run` or a `stop` is. -/
inductive CallPc
  | acquireRun
  | readActive
  | load (release : String)
  | start (release : String)
  | acquireStop
  | stop
  | returned (result : Except ImagodError Summary)

/-- A call of `run` or `stop`. -/
structure ServiceCall where
  name : String
  pc : CallPc

namespace ServiceCall

/-- The name the call has in the command gate. -/
def guard (c : ServiceCall) : Option String :=
  match c.pc with
  | .acquireRun | .acquireStop | .returned _ => none
  | _ => some c.name

def finish (c : ServiceCall) (result : Except ImagodError Summary) : ServiceCall :=
  { c with pc := .returned result }

def op (c : ServiceCall) (i : Input) : DiskOp :=
  match c.pc with
  | .load _ => .cache i.components
  | _ => .pass

def failed (c : ServiceCall) (text : String) : Option ServiceCall :=
  match c.pc with
  | .readActive =>
    some (c.finish (.error (mapInternal ("failed to read active release: " ++ text))))
  | .load _ => some (c.finish (.error (mapBadManifest ("manifest read failed: " ++ text))))
  | _ => none

def acquire (c : ServiceCall) (gate : TreeSet String) (pc : CallPc) : ServiceCall :=
  if c.name ∈ gate then c.finish (.error (serviceCommandBusyError c.name)) else { c with pc := pc }

def next (cfg : Config) (c : ServiceCall) (sh : Shared) (i : Input) :
    Option (Running × ServiceCall) :=
  match c.pc with
  | .acquireRun => some (sh.running, c.acquire sh.gate .readActive)
  | .readActive =>
    match readActiveRelease sh.disk c.name i.text with
    | .error e => some (sh.running, c.finish (.error e))
    | .ok (some release) => some (sh.running, { c with pc := .load release })
    | .ok none =>
      some (sh.running, c.finish (.error (.new .notFound stageOrchestrate
        ("service '" ++ c.name ++ "' has no active release"))))
  | .load release =>
    match loadLaunch cfg sh.disk c.name release i with
    | .ok _ => some (sh.running, { c with pc := .start release })
    | .error e => some (sh.running, c.finish (.error e))
  | .start release =>
    (startService sh.running sh.disk c.name release i.start).map fun
      | (running, .ok _) => (running, c.finish (.ok ⟨c.name, release⟩))
      | (running, .error e) => (running, c.finish (.error e))
  | .acquireStop => some (sh.running, c.acquire sh.gate .stop)
  | .stop =>
    match stopService sh.running c.name i.stop with
    | (running, .ok _) => some (running, c.finish (.ok ⟨c.name, ""⟩))
    | (running, .error e) => some (running, c.finish (.error e))
  | .returned _ => none

end ServiceCall

/-- A command in progress. -/
inductive Task
  | deploy (d : Deploy)
  | call (c : ServiceCall)

namespace Task

def new : CommandPayload → Task
  | .deploy payload => .deploy { payload := payload }
  | .run payload => .call ⟨payload.name, .acquireRun⟩
  | .stop payload => .call ⟨payload.name, .acquireStop⟩

def guard : Task → Option String
  | .deploy d => d.guard
  | .call c => c.guard

def op (disk : Disk) (i : Input) : Task → DiskOp
  | .deploy d => d.op disk i
  | .call c => c.op i

def failed (cfg : Config) (i : Input) (text : String) : Task → Option Task
  | .deploy d => (d.failed cfg i text).map .deploy
  | .call c => (c.failed text).map .call

def next (cfg : Config) (sh : Shared) (i : Input) : Task → Option (Running × Task)
  | .deploy d => (d.next cfg sh i).map fun r => (r.1, .deploy r.2)
  | .call c => (c.next cfg sh i).map fun r => (r.1, .call r.2)

/-- One step: the call that reached the disk, the runners and the task after it. -/
def advance (cfg : Config) (sh : Shared) (i : Input) (t : Task) :
    Option (DiskOp × Running × Task) :=
  match i.fault with
  | some f =>
    (t.failed cfg i f.text).map fun t' => ((t.op sh.disk i).interrupted f, sh.running, t')
  | none =>
    if (t.op sh.disk i).possible sh.disk then
      (t.next cfg sh i).map fun r => (t.op sh.disk i, r.1, r.2)
    else (t.failed cfg i i.text).map fun t' => (.pass, sh.running, t')

end Task

/-! ### The system -/

/-- The gate when a task's guard goes from `old` to `new`. -/
def regate (gate : TreeSet String) (old new : Option String) : TreeSet String :=
  if old = new then gate
  else
    let gate := match new with
      | some name => gate.insert name
      | none => gate
    match old with
    | some name => gate.erase name
    | none => gate

/-- The daemon with all its commands. -/
structure World where
  shared : Shared
  tasks : List Task

/-- A fresh storage root. -/
def World.init : World := ⟨⟨fun _ => none, ∅, ∅, 0⟩, []⟩

/-- The task at `k` has made a step from `t` to `t'`. -/
def World.after (w : World) (k : Nat) (t : Task) (op : DiskOp) (running : Running) (t' : Task) :
    World where
  shared := {
    disk := op.apply w.shared.serial w.shared.disk
    gate := regate w.shared.gate t.guard t'.guard
    running := running
    serial := w.shared.serial + 1 }
  tasks := w.tasks.set k t'

/-- What happens to the daemon. -/
inductive Action
  | submit (command : CommandPayload)
  | act (task : Nat) (input : Input)
  /-- a runner ends by itself -/
  | exit (name : String)

def step (cfg : Config) (w : World) : Action → Option World
  | .submit command => some { w with tasks := w.tasks ++ [Task.new command] }
  | .act k i =>
    (w.tasks[k]?).bind fun t =>
      (t.advance cfg w.shared i).map fun r => w.after k t r.1 r.2.1 r.2.2
  | .exit name =>
    some { w with shared := { w.shared with running := w.shared.running.erase name } }

/-! ### A small configuration

Artifacts with one file, the manifest, whose text is the name of the service. -/

/-- A digest function that tells a few texts apart. -/
def sampleDigest (bytes : Content) : String :=
  if bytes = .text "a" then "aaaaaaaaaaaaaaaaaaaaaaaaaaaaaaaaaaaaaaaaaaaaaaaaaaaaaaaaaaaaaaaa"
  else if bytes = .text "b" then "bbbbbbbbbbbbbbbbbbbbbbbbbbbbbbbbbbbbbbbbbbbbbbbbbbbbbbbbbbbbbbbb"
  else if bytes = .text "c" then "cccccccccccccccccccccccccccccccccccccccccccccccccccccccccccccccc"
  else if bytes = .text "s" then "dddddddddddddddddddddddddddddddddddddddddddddddddddddddddddddddd"
  else "0000000000000000000000000000000000000000000000000000000000000000"

theorem sampleDigest_hex (bytes : Content) : isSha256Hex (sampleDigest bytes) = true := by
  unfold sampleDigest
  split
  · decide
  split
  · decide
  split
  · decide
  split
  · decide
  · decide

def sampleArtifact (session digest name : String) : CommittedArtifact where
  serviceName := session
  artifactDigest := digest
  manifestDigest := sampleDigest (.text name)
  entries := [⟨.file, "manifest.json", .text name⟩]

def sampleConfig (committed : String → Option CommittedArtifact) : Config where
  committed := committed
  parseManifest
    | .text name => .ok ⟨name, "sha256", [.wasm, .manifest, .assets]⟩
    | .binary _ => .error "not a manifest"
  sha256 := sampleDigest
  sha256_hex := sampleDigest_hex
  display := fun p => String.intercalate "/" p

/-- Three sessions of the service `s`. -/
def sampleSessions (deployId : String) : Option CommittedArtifact :=
  if deployId = "one" then some (sampleArtifact "s" "a" "s")
  else if deployId = "two" then some (sampleArtifact "s" "b" "s")
  else if deployId = "three" then some (sampleArtifact "s" "c" "s")
  else none

/-- Only one text has the digest of the manifest of `s`. -/
theorem eq_of_sampleDigest {bytes : Content}
    (h : sampleDigest bytes = sampleDigest (.text "s")) : bytes = .text "s" := by
  by_contra hne
  revert h
  rw [sampleDigest, if_neg hne]
  split
  · decide
  split
  · decide
  split
  · decide
  · decide

/-- All sessions are of `s`, and so are the manifests. -/
theorem sampleSessions_name {deployId : String} {artifact : CommittedArtifact} {bytes : Content}
    {m : Manifest} (ha : sampleSessions deployId = some artifact)
    (hdigest : sampleDigest bytes = artifact.manifestDigest)
    (hparse : (sampleConfig sampleSessions).parseManifest bytes = .ok m) :
    m.name = "s" ∧ artifact.serviceName = "s" := by
  have hartifact : artifact.manifestDigest = sampleDigest (.text "s") ∧
      artifact.serviceName = "s" := by
    unfold sampleSessions at ha
    split at ha
    · cases ha
      exact ⟨rfl, rfl⟩
    split at ha
    · cases ha
      exact ⟨rfl, rfl⟩
    split at ha
    · cases ha
      exact ⟨rfl, rfl⟩
    · cases ha
  obtain rfl := eq_of_sampleDigest (hdigest.trans hartifact.1)
  cases hparse
  exact ⟨rfl, hartifact.2⟩

/-- The first `n` steps of the task at `k`, in which nothing fails. -/
def smoothly (k n : Nat) : List Action := List.replicate n (.act k {})

def samplePayload (deployId : String) : DeployCommandPayload where
  deployId := deployId
  expectedCurrentRelease := "any"
  restartPolicy := "never"
  autoRollback := true

end Imago.Orchestrator
