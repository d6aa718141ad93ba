/-
Imago/ArtifactSystem.lean

The artifact store with any number of concurrent callers, as one transition
system.  A `World` holds the index, the pins, the file system, and every call
made so far with the point it has reached.  `step` executes one action: a
critical section of one call, one operation on a file, or the abort of a
call at an await point.  All that the store does not decide (which call
moves, what the clock and the UUID generator return, how much of a write
lands, which I/O operation fails) is part of the action, so `run step` ranges
over all interleavings.

File cells remember the push that wrote them, which is how the integrity
theorem can speak of the origin of a byte; nothing else reads that mark.

The proofs do not work with `step` itself.  Every step is a sequence of
*micro-steps* (`micros_of_step`): remove sessions, change one session together
with the point of one call, move one call, touch one file.  Invariants are
proved once per micro-step.
-/
import Imago.ArtifactStore
import Imago.FileStore
import Imago.Runs

namespace Imago

open Std (TreeMap)

/-! ### Calls and worlds -/

/-- A call of one of the store's operations. -/
inductive Call
  | prepare (req : DeployPrepareRequest)
  | push (req : ArtifactPushRequest)
  | commit (req : ArtifactCommitRequest)
  | committedArtifact (deployId : String)
  | serviceNameForDeploy (deployId : String)
  | purgeDeploySession (deployId : String)

/-- A call in progress (or finished): the clock reading at its head, the
cleanup plan collected so far, and the point it has reached.  A dropped call
(its task was aborted) stays at its point for ever. -/
structure Task where
  call : Call
  now : Nat
  plan : CleanupPlan
  pc : Pc
  dropped : Bool

/-- A call that has just been made. -/
def Task.new (call : Call) (now : Nat) : Task := ⟨call, now, [], .start, false⟩

/-- One byte of an artifact file and the push (by its index) that wrote it. -/
structure Cell where
  byte : UInt8
  writer : Option Nat
  deriving DecidableEq

instance : Inhabited Cell := ⟨⟨0, none⟩⟩

/-- The store with its files and calls. -/
structure World where
  store : StoreState
  pinned : TreeMap String Nat
  fs : FileStore Cell
  /-- every UUID drawn so far -/
  drawn : List String
  tasks : List Task

/-- A new store over a file system with any files in it. -/
def World.init (fs : FileStore Cell) : World := ⟨StoreState.empty, ∅, fs, [], []⟩

/-- Two UUIDs that `Uuid::new_v4` may return next: never drawn before, and
the first is not the name of an artifact file. -/
def World.Fresh (cfg : StoreConfig) (w : World) (deployId uploadToken : String) : Prop :=
  deployId ∉ w.drawn ∧ uploadToken ∉ w.drawn ∧ deployId ≠ uploadToken ∧
    w.fs.lookup (artifactPath cfg.root deployId) = none

instance (cfg : StoreConfig) (w : World) (d k : String) : Decidable (w.Fresh cfg d k) := by
  unfold World.Fresh; infer_instance

/-- Replace the index and call `i`. -/
def World.update (w : World) (st : StoreState) (i : Nat) (t : Task) : World :=
  { w with store := st, tasks := w.tasks.set i t }

/-! ### Actions -/

/-- How `create_preallocated_file` ends. -/
inductive CreateOutcome
  | created
  | openFailed (message : String)
  | setLenFailed (message : String)
  | flushFailed (message : String)

/-- One operation on a file, or on the files of the cleanup plan. -/
inductive IoAction
  | create (outcome : CreateOutcome)
  /-- open the artifact file, or fail to -/
  | openFile (error : Option String)
  /-- seek, write and flush are through, or one of them has failed -/
  | endWrite (error : Option String)
  /-- `read` returns `n` bytes; zero at the end of the file -/
  | read (n : Nat)
  | readError (message : String)
  /-- the next file of the plan is removed, or its removal fails -/
  | remove (ok : Bool)

/-- What happens to the store. -/
inductive Action
  /-- a new call; the clock is read at its head -/
  | call (c : Call) (now : Nat)
  /-- the first critical section of call `i`; the UUIDs are what the
  generator would return to a `prepare` -/
  | enter (i : Nat) (deployId uploadToken : String)
  /-- the second critical section of call `i`; `prepare` reads the clock again -/
  | reenter (i : Nat) (now : Nat)
  | io (i : Nat) (a : IoAction)
  /-- the next `n` bytes of the chunk of push `i` reach the file -/
  | write (i n : Nat)
  /-- the task of call `i` is aborted -/
  | drop (i : Nat)
  | pin (deployId : String)
  | unpin (deployId : String)

/-- The first critical section of a call, with the checks before it. -/
def firstSection (cfg : StoreConfig) (w : World) (t : Task) (deployId uploadToken : String) :
    Outcome :=
  match t.call with
  | .prepare req =>
    match prepareCheck cfg req with
    | .error e => .fail w.store [] e
    | .ok _ => prepareDecide cfg w.pinned w.store t.now req deployId uploadToken
  | .push req =>
    match pushCheck cfg req with
    | .error e => .fail w.store [] e
    | .ok chunkEnd => pushBegin cfg w.pinned w.store t.now req.header chunkEnd
  | .commit req => commitBegin cfg w.pinned w.store t.now req
  | .committedArtifact d => committedArtifact cfg w.pinned w.store t.now d
  | .serviceNameForDeploy d => serviceNameForDeploy cfg w.pinned w.store t.now d
  | .purgeDeploySession d => purgeDeploySession cfg w.pinned w.store t.now d

/-- The second critical section of the calls that have one. -/
def secondSection (cfg : StoreConfig) (w : World) (t : Task) (now : Nat) : Option Outcome :=
  match t.call, t.pc with
  | .prepare _, .inserting candidate =>
    some (prepareInsert cfg w.pinned w.store t.plan now candidate)
  | .push req, .written result =>
    some (pushFinish w.store t.plan t.now req.header result)
  | .commit req, .digested result expected =>
    some (commitFinish cfg w.pinned w.store t.plan t.now req expected result)
  | _, _ => none

/-- `create_preallocated_file`: create or truncate, then set the length. -/
def preallocate (fs : FileStore Cell) (path : String) (n : Nat) : FileStore Cell :=
  let opened := fs.openTruncate path
  opened.1.modify opened.2 fun f => resize f n

/-- The bytes of a chunk as cells written by push `i`. -/
def cellsOf (i : Nat) (bytes : List UInt8) : List Cell := bytes.map fun b => ⟨b, some i⟩

/-- Call `i`, unless it was dropped. -/
def World.running (w : World) (i : Nat) : Option Task :=
  match w.tasks[i]? with
  | some t => if t.dropped then none else some t
  | none => none

/-- The I/O actions of a call: the new file system and point. -/
def ioStep (cfg : StoreConfig) (fs : FileStore Cell) (t : Task) :
    IoAction → Option (FileStore Cell × Pc)
  | .create outcome =>
    match t.pc with
    | .creating c =>
      match outcome with
      | .created => some (preallocate fs c.filePath c.artifactSize, .inserting c)
      | .openFailed m => some (fs, .cleaning t.plan (.error (mapInternal stagePrepare m)))
      | .setLenFailed m =>
        some (preallocate fs c.filePath 0,
          .cleaning t.plan (.error (mapInternal stagePrepare m)))
      | .flushFailed m =>
        some (preallocate fs c.filePath c.artifactSize,
          .cleaning t.plan (.error (mapInternal stagePrepare m)))
    | _ => none
  | .openFile error =>
    match t.call, t.pc, error with
    | .push _, .opening _, some m => some (fs, .written (.error (mapInternal stagePush m)))
    | .push req, .opening path, none =>
      (fs.lookup path).map fun h => (fs, .writing h req.header.offset req.chunk)
    | .commit _, .digestOpening _ expected, some m =>
      some (fs, .digested (.error (mapInternal stageCommit m)) expected)
    | .commit _, .digestOpening path expected, none =>
      (fs.lookup path).map fun h => (fs, .digesting h [] expected)
    | _, _, _ => none
  | .endWrite error =>
    match t.call, t.pc, error with
    | .push _, .writing _ _ _, some m => some (fs, .written (.error (mapInternal stagePush m)))
    | .push _, .writing _ _ [], none => some (fs, .written (.ok ()))
    | _, _, _ => none
  | .read n =>
    match t.call, t.pc with
    | .commit _, .digesting h hashed expected =>
      let bytes := (fs.file h).map Cell.byte
      if n = 0 then
        if bytes.length ≤ hashed.length then
          some (fs, .digested (.ok (cfg.sha256Hex hashed)) expected)
        else none
      else if n ≤ 64 * 1024 ∧ hashed.length + n ≤ bytes.length then
        some (fs, .digesting h (hashed ++ (bytes.drop hashed.length).take n) expected)
      else none
    | _, _ => none
  | .readError m =>
    match t.call, t.pc with
    | .commit _, .digesting _ _ expected =>
      some (fs, .digested (.error (mapInternal stageCommit m)) expected)
    | _, _ => none
  | .remove ok =>
    match t.pc with
    | .cleaning [] answer => some (fs, .done answer)
    | .cleaning (p :: ps) answer => some (if ok then fs.unlink p else fs, .cleaning ps answer)
    | _ => none

/-- One step of the store and its callers. -/
def step (cfg : StoreConfig) (w : World) : Action → Option World
  | .call c now => some { w with tasks := w.tasks ++ [Task.new c now] }
  | .enter i deployId uploadToken =>
    match w.running i with
    | some t =>
      match t.pc with
      | .start =>
        if w.Fresh cfg deployId uploadToken then
          let o := firstSection cfg w t deployId uploadToken
          some { w.update o.store i { t with plan := o.plan, pc := o.pc } with
            drawn := deployId :: uploadToken :: w.drawn }
        else none
      | _ => none
    | none => none
  | .reenter i now =>
    match w.running i with
    | some t =>
      (secondSection cfg w t now).map fun o =>
        w.update o.store i { t with plan := o.plan, pc := o.pc }
    | none => none
  | .write i n =>
    -- a write that was handed to the blocking pool lands even if its push is dropped
    match w.tasks[i]? with
    | some t =>
      match t.call, t.pc with
      | .push _, .writing h offset rest =>
        if 0 < n ∧ n ≤ rest.length then
          some { w.update w.store i { t with pc := .writing h (offset + n) (rest.drop n) } with
            fs := w.fs.modify h fun f => writeAt f offset (cellsOf i (rest.take n)) }
        else none
      | _, _ => none
    | none => none
  | .drop i => (w.running i).map fun t => w.update w.store i { t with dropped := true }
  | .pin d => some { w with pinned := w.pinned.alter d fun c => some (saturatingAdd (c.getD 0) 1) }
  | .unpin d =>
    some { w with
      pinned := w.pinned.alter d fun c =>
        c.bind fun n => if n - 1 = 0 then none else some (n - 1) }
  | .io i a =>
    match w.running i with
    | some t =>
      (ioStep cfg w.fs t a).map fun r =>
        { w.update w.store i { t with pc := r.2 } with fs := r.1 }
    | none => none

/-- `w` is a state of the store reached from a new one. -/
def Reachable (cfg : StoreConfig) (w : World) : Prop :=
  ∃ fs, Reaches (step cfg) (World.init fs) w

/-! ### What a call is doing -/

/-- The session a `prepare` is about to create. -/
def Pc.candidate? : Pc → Option UploadSession
  | .creating c => some c
  | .inserting c => some c
  | _ => none

/-- The answer, once it is decided. -/
def Pc.answer? : Pc → Option Answer
  | .cleaning _ answer => some answer
  | .done answer => some answer
  | _ => none

/-- The files that `apply_cleanup_plan` has still to remove. -/
def Pc.files : Pc → CleanupPlan
  | .cleaning files _ => files
  | _ => []

/-- Between the two critical sections of a push. -/
def Pc.inWrite : Pc → Bool
  | .opening _ | .writing _ _ _ | .written _ => true
  | _ => false

/-- Between the two critical sections of a commit. -/
def Pc.inDigest : Pc → Bool
  | .digestOpening _ _ | .digesting _ _ _ | .digested _ _ => true
  | _ => false

def Call.pushesTo (d : String) : Call → Bool
  | .push req => req.header.deployId == d
  | _ => false

def Call.commitsTo (d : String) : Call → Bool
  | .commit req => req.deployId == d
  | _ => false

namespace Task

/-- A push to session `d` between its two critical sections. -/
def writes (d : String) (t : Task) : Bool := t.call.pushesTo d && t.pc.inWrite

/-- A commit of session `d` between its two critical sections. -/
def digests (d : String) (t : Task) : Bool := t.call.commitsTo d && t.pc.inDigest

/-- Every file the call knows it has to remove. -/
def files (t : Task) : CleanupPlan := t.plan ++ t.pc.files

end Task

/-! ### Micro-steps -/

/-- The elementary transitions that the steps of the store are made of. -/
inductive Micro (cfg : StoreConfig) (w : World) : World → Prop
  | spawn (c : Call) (now : Nat) : Micro cfg w { w with tasks := w.tasks ++ [Task.new c now] }
  | pins (p : TreeMap String Nat) : Micro cfg w { w with pinned := p }
  | drop {i : Nat} {t : Task} (ht : w.tasks[i]? = some t) :
      Micro cfg w (w.update w.store i { t with dropped := true })
  | draw (ids : List String) : Micro cfg w { w with drawn := ids ++ w.drawn }
  /-- sessions leave the index and their files go to the plan of call `i` -/
  | remove {i : Nat} {t : Task} {st' : StoreState} {plan plan' : CleanupPlan}
      (ht : w.tasks[i]? = some t) (hrem : Removes w.store st' plan)
      (hplan : ∀ p ∈ plan', p ∈ t.plan ∨ p ∈ plan) :
      Micro cfg w (w.update st' i { t with plan := plan' })
  | touch {i : Nat} {t : Task} {d : String} {s : UploadSession} (now : Nat)
      (ht : w.tasks[i]? = some t) (hs : w.store.sessions[d]? = some s) :
      Micro cfg w (w.update (w.store.put d (s.touch now)) i t)
  /-- call `i`, which no live session counts, decides its answer or goes on
  with its cleanup -/
  | settle {i : Nat} {t : Task} {plan' : CleanupPlan} {pc' : Pc} (ht : w.tasks[i]? = some t)
      (hgone : ∀ d, t.writes d = true ∨ t.digests d = true → w.store.sessions[d]? = none)
      (hset : pc'.answer?.isSome)
      (hfiles : ∀ p ∈ plan' ++ pc'.files,
        p ∈ t.files ∨ ∃ c, t.pc.candidate? = some c ∧ p = c.filePath)
      (hans : ∀ r, pc'.answer? = some (.ok (.prepared r)) →
        t.pc.answer? = some (.ok (.prepared r)) ∨
          ∃ s, w.store.sessions[r.deployId]? = some s ∧ s.uploadToken = r.uploadToken ∧
            ∀ req, t.call = .prepare req → s.idempotencyKey = req.idempotencyKey)
      (hack : ∀ ack, pc'.answer? = some (.ok (.pushed ack)) →
        t.pc.answer? = some (.ok (.pushed ack))) :
      Micro cfg w (w.update w.store i { t with plan := plan', pc := pc' })
  | propose {i : Nat} {t : Task} {req : DeployPrepareRequest} {d k : String}
      (ht : w.tasks[i]? = some t) (hcall : t.call = .prepare req) (hpc : t.pc = .start)
      (hcheck : prepareCheck cfg req = .ok ()) (hfresh : w.Fresh cfg d k) :
      Micro cfg w { w.update w.store i
        { t with pc := .creating (newSession cfg req t.now d k) } with
        drawn := d :: k :: w.drawn }
  | insert {i : Nat} {t : Task} {c : UploadSession} (now : Nat) (ht : w.tasks[i]? = some t)
      (hpc : t.pc = .inserting c) (hfree : w.store.findByKey c.idempotencyKey = none) :
      Micro cfg w (w.update
        { sessions := w.store.sessions.insert c.deployId (c.touch now)
          idempotency := w.store.idempotency.insert c.idempotencyKey c.deployId } i
        { t with
          pc := .cleaning t.plan (.ok (.prepared
            (buildPrepareResponse (c.touch now) cfg.uploadSessionTtlSecs now))) })
  | beginWrite {i : Nat} {t : Task} {req : ArtifactPushRequest} {chunkEnd : Nat}
      {s : UploadSession} (ht : w.tasks[i]? = some t) (hcall : t.call = .push req)
      (hpc : t.pc = .start) (hcheck : pushCheck cfg req = .ok chunkEnd)
      (hs : w.store.sessions[req.header.deployId]? = some s)
      (hguard : pushGuard cfg req.header chunkEnd s = .ok ()) :
      Micro cfg w (w.update (w.store.put req.header.deployId (s.beginWrite t.now)) i
        { t with pc := .opening s.filePath })
  | endWrite {i : Nat} {t : Task} {req : ArtifactPushRequest} {s : UploadSession}
      {e : ImagodError} (ht : w.tasks[i]? = some t) (hcall : t.call = .push req)
      (hpc : t.pc = .written (.error e)) (hs : w.store.sessions[req.header.deployId]? = some s) :
      Micro cfg w (w.update (w.store.put req.header.deployId s.endWrite) i
        { t with pc := .done (.error e) })
  | receive {i : Nat} {t : Task} {req : ArtifactPushRequest} {s : UploadSession}
      {ack : ArtifactPushAck} (ht : w.tasks[i]? = some t) (hcall : t.call = .push req)
      (hpc : t.pc = .written (.ok ())) (hs : w.store.sessions[req.header.deployId]? = some s) :
      Micro cfg w (w.update (w.store.put req.header.deployId (s.receive req.header t.now)) i
        { t with pc := .cleaning t.plan (.ok (.pushed ack)) })
  | beginCommit {i : Nat} {t : Task} {req : ArtifactCommitRequest} {s : UploadSession}
      (ht : w.tasks[i]? = some t) (hcall : t.call = .commit req) (hpc : t.pc = .start)
      (hs : w.store.sessions[req.deployId]? = some s) (hguard : commitGuard req s = .ok ()) :
      Micro cfg w (w.update (w.store.put req.deployId (s.beginCommit t.now)) i
        { t with pc := .digestOpening s.filePath s.artifactDigest })
  | endCommit {i : Nat} {t : Task} {req : ArtifactCommitRequest} {s : UploadSession}
      {result : Except ImagodError String} {expected : String} {e : ImagodError}
      (ht : w.tasks[i]? = some t) (hcall : t.call = .commit req)
      (hpc : t.pc = .digested result expected) (hs : w.store.sessions[req.deployId]? = some s) :
      Micro cfg w (w.update (w.store.put req.deployId (s.endCommit t.now)) i
        { t with pc := .done (.error e) })
  | accept {i : Nat} {t : Task} {req : ArtifactCommitRequest} {s : UploadSession}
      {expected : String} {response : ArtifactCommitResponse}
      (ht : w.tasks[i]? = some t) (hcall : t.call = .commit req)
      (hpc : t.pc = .digested (.ok expected) expected)
      (hs : w.store.sessions[req.deployId]? = some s) :
      Micro cfg w (w.update (w.store.put req.deployId (s.accept t.now)) i
        { t with pc := .cleaning t.plan (.ok (.committed response)) })
  | allocate {i : Nat} {t : Task} {c : UploadSession} (ht : w.tasks[i]? = some t)
      (hpc : t.pc = .creating c) :
      Micro cfg w { w.update w.store i { t with pc := .inserting c } with
        fs := preallocate w.fs c.filePath c.artifactSize }
  | abandon {i : Nat} {t : Task} {c : UploadSession} (n : Nat) (e : ImagodError)
      (ht : w.tasks[i]? = some t) (hpc : t.pc = .creating c) :
      Micro cfg w { w.update w.store i { t with pc := .cleaning t.plan (.error e) } with
        fs := preallocate w.fs c.filePath n }
  | openWrite {i : Nat} {t : Task} {req : ArtifactPushRequest} {path : String} {h : Nat}
      (ht : w.tasks[i]? = some t) (hcall : t.call = .push req) (hpc : t.pc = .opening path)
      (hlookup : w.fs.lookup path = some h) :
      Micro cfg w (w.update w.store i { t with pc := .writing h req.header.offset req.chunk })
  | failWrite {i : Nat} {t : Task} {req : ArtifactPushRequest} (e : ImagodError)
      (ht : w.tasks[i]? = some t) (hcall : t.call = .push req) (hpc : t.pc.inWrite = true) :
      Micro cfg w (w.update w.store i { t with pc := .written (.error e) })
  | write {i : Nat} {t : Task} {req : ArtifactPushRequest} {h offset n : Nat}
      {rest : List UInt8} (ht : w.tasks[i]? = some t) (hcall : t.call = .push req)
      (hpc : t.pc = .writing h offset rest) (hn : n ≤ rest.length) :
      Micro cfg w { w.update w.store i { t with pc := .writing h (offset + n) (rest.drop n) } with
        fs := w.fs.modify h fun f => writeAt f offset (cellsOf i (rest.take n)) }
  | wrote {i : Nat} {t : Task} {req : ArtifactPushRequest} {h offset : Nat}
      (ht : w.tasks[i]? = some t) (hcall : t.call = .push req) (hpc : t.pc = .writing h offset []) :
      Micro cfg w (w.update w.store i { t with pc := .written (.ok ()) })
  | openDigest {i : Nat} {t : Task} {req : ArtifactCommitRequest} {path expected : String}
      {h : Nat} (ht : w.tasks[i]? = some t) (hcall : t.call = .commit req)
      (hpc : t.pc = .digestOpening path expected) (hlookup : w.fs.lookup path = some h) :
      Micro cfg w (w.update w.store i { t with pc := .digesting h [] expected })
  | failDigest {i : Nat} {t : Task} {req : ArtifactCommitRequest} (e : ImagodError)
      (expected : String) (ht : w.tasks[i]? = some t) (hcall : t.call = .commit req)
      (hpc : t.pc.inDigest = true) :
      Micro cfg w (w.update w.store i { t with pc := .digested (.error e) expected })
  | read {i : Nat} {t : Task} {req : ArtifactCommitRequest} {h : Nat} {hashed : List UInt8}
      {expected : String} (n : Nat) (ht : w.tasks[i]? = some t) (hcall : t.call = .commit req)
      (hpc : t.pc = .digesting h hashed expected)
      (hn : hashed.length + n ≤ (w.fs.file h).length) :
      Micro cfg w (w.update w.store i
        { t with
          pc := .digesting h
            (hashed ++ (((w.fs.file h).map Cell.byte).drop hashed.length).take n) expected })
  | digest {i : Nat} {t : Task} {req : ArtifactCommitRequest} {h : Nat} {hashed : List UInt8}
      {expected : String} (ht : w.tasks[i]? = some t) (hcall : t.call = .commit req)
      (hpc : t.pc = .digesting h hashed expected)
      (heof : (w.fs.file h).length ≤ hashed.length) :
      Micro cfg w (w.update w.store i
        { t with pc := .digested (.ok (cfg.sha256Hex hashed)) expected })
  | unlink {i : Nat} {t : Task} {p : String} (ht : w.tasks[i]? = some t) (hp : p ∈ t.files) :
      Micro cfg w { w with fs := w.fs.unlink p }

/-! ### Steps are made of micro-steps -/

/-- Any number of micro-steps. -/
abbrev Micros (cfg : StoreConfig) : World → World → Prop := Relation.ReflTransGen (Micro cfg)

/-- Call `i` goes on as its critical section has decided. -/
abbrev World.proceed (w : World) (i : Nat) (t : Task) (o : Outcome) : World :=
  w.update o.store i { t with plan := o.plan, pc := o.pc }

@[simp] theorem World.update_update (w : World) (st st' : StoreState) (i : Nat) (t t' : Task) :
    (w.update st i t).update st' i t' = w.update st' i t' := by
  simp [World.update]

@[simp] theorem World.store_update (w : World) (st : StoreState) (i : Nat) (t : Task) :
    (w.update st i t).store = st := rfl

variable {w : World} {i : Nat}

theorem World.tasks_update_self {t : Task} (ht : w.tasks[i]? = some t) (st : StoreState)
    (t' : Task) : (w.update st i t').tasks[i]? = some t' := by
  obtain ⟨hi, -⟩ := List.getElem?_eq_some_iff.mp ht
  simp [World.update, hi]

theorem World.tasks_of_running {t : Task} (h : w.running i = some t) :
    w.tasks[i]? = some t ∧ t.dropped = false := by
  unfold World.running at h
  split at h
  · rename_i t' ht'
    split at h
    · cases h
    · obtain rfl := Option.some.inj h
      exact ⟨ht', by simpa using ‹¬t'.dropped = true›⟩
  · cases h

variable {cfg : StoreConfig} {d : String} {w' : World}

theorem step_enter {k : String} (h : step cfg w (.enter i d k) = some w') :
    ∃ t, w.tasks[i]? = some t ∧ t.dropped = false ∧ t.pc = .start ∧ w.Fresh cfg d k ∧
      ∃ o, firstSection cfg w t d k = o ∧
        w' = { w.proceed i t o with
          drawn := d :: k :: w.drawn } := by
  simp only [step] at h
  split at h
  · rename_i t hrun
    obtain ⟨ht, hdrop⟩ := World.tasks_of_running hrun
    split at h
    · rename_i hpc
      split at h
      · rename_i hfresh
        exact ⟨t, ht, hdrop, hpc, hfresh, _, rfl, (Option.some.inj h).symm⟩
      · cases h
    · cases h
  · cases h

variable {now : Nat}

theorem step_reenter (h : step cfg w (.reenter i now) = some w') :
    ∃ t o, w.tasks[i]? = some t ∧ t.dropped = false ∧ secondSection cfg w t now = some o ∧
      w' = w.proceed i t o := by
  simp only [step] at h
  split at h
  · rename_i t hrun
    obtain ⟨ht, hdrop⟩ := World.tasks_of_running hrun
    obtain ⟨o, ho, rfl⟩ := Option.map_eq_some_iff.mp h
    exact ⟨t, o, ht, hdrop, ho, rfl⟩
  · cases h

variable {o : Outcome} {st₁ : StoreState} {req : DeployPrepareRequest} {plan : CleanupPlan}

section Sections

variable {cfg : StoreConfig} {w : World} {i : Nat} {t : Task}

/-- A section that removes sessions and then goes on. -/
theorem micros_remove_then {plan' : CleanupPlan} {st₂ : StoreState} {t' : Task}
    (ht : w.tasks[i]? = some t) (hrem : Removes w.store st₁ plan)
    (hplan : ∀ p ∈ plan', p ∈ t.plan ∨ p ∈ plan)
    (h : ∀ w₁, w₁ = w.update st₁ i { t with plan := plan' } →
      w₁.tasks[i]? = some { t with plan := plan' } → Micros cfg w₁ (w₁.update st₂ i t')) :
    Micros cfg w (w.update st₂ i t') := by
  have h₂ := h _ rfl (World.tasks_update_self ht st₁ _)
  rw [World.update_update] at h₂
  exact .head (.remove ht hrem hplan) h₂

/-- A section that removes sessions and then ends the call. -/
theorem micros_remove_settle {plan' : CleanupPlan} {pc' : Pc} (ht : w.tasks[i]? = some t)
    (hrem : Removes w.store st₁ plan) (hplan : ∀ p ∈ plan', p ∈ t.plan ∨ p ∈ plan)
    (hgone : ∀ d, t.writes d = true ∨ t.digests d = true → st₁.sessions[d]? = none)
    (hset : pc'.answer?.isSome) (hfiles : ∀ p ∈ pc'.files, p ∈ plan')
    (hans : ∀ r, pc'.answer? ≠ some (.ok (.prepared r)))
    (hack : ∀ ack, pc'.answer? ≠ some (.ok (.pushed ack))) :
    Micros cfg w (w.update st₁ i { t with plan := plan', pc := pc' }) := by
  refine micros_remove_then ht hrem hplan ?_
  rintro - rfl ht₁
  refine .single (.settle (t := { t with plan := plan' }) ht₁ hgone hset ?_
    (fun r hr => absurd hr (hans r)) fun ack hr => absurd hr (hack ack))
  intro p hp
  left
  rcases List.mem_append.mp hp with hp | hp
  · exact List.mem_append_left _ hp
  · exact List.mem_append_left _ (hfiles p hp)

/-- A call at its start is not counted by any session. -/
theorem not_inFlight_start (hpc : t.pc = .start) (d : String) :
    ¬(t.writes d = true ∨ t.digests d = true) := by
  simp [Task.writes, Task.digests, hpc, Pc.inWrite, Pc.inDigest]

theorem micros_fail (ht : w.tasks[i]? = some t) (hpc : t.pc = .start)
    (hrem : Removes w.store st₁ plan) (e : ImagodError) :
    Micros cfg w (w.proceed i t (.fail st₁ plan e)) := by
  refine micros_remove_settle ht hrem (fun p hp => .inr hp) ?_ rfl ?_ ?_ ?_
  · intro d hd
    exact absurd hd (not_inFlight_start hpc d)
  · intro p hp; cases hp
  · intro r hr; simp [Outcome.fail, Pc.answer?] at hr
  · intro ack hr; simp [Outcome.fail, Pc.answer?] at hr

theorem micros_finish_removal (ht : w.tasks[i]? = some t) (hpc : t.pc = .start)
    (hrem : Removes w.store st₁ plan) {answer : Answer} (hans : ∀ r, answer ≠ .ok (.prepared r))
    (hack : ∀ ack, answer ≠ .ok (.pushed ack)) :
    Micros cfg w (w.update st₁ i { t with plan := plan, pc := .cleaning plan answer }) := by
  refine micros_remove_settle ht hrem (fun p hp => .inr hp) ?_ rfl (fun p hp => hp) ?_ ?_
  · intro d hd
    exact absurd hd (not_inFlight_start hpc d)
  · intro r hr
    exact absurd (Option.some.inj hr) (hans r)
  · intro ack hr
    exact hack ack (Option.some.inj hr)

/-- A section that removes sessions, renews the time of one that is left, and
ends the call. -/
theorem micros_touch_settle {plan' plan'' : CleanupPlan} {s : UploadSession} {answer : Answer}
    (ht : w.tasks[i]? = some t) (hrem : Removes w.store st₁ plan)
    (hplan : ∀ p ∈ plan', p ∈ t.plan ∨ p ∈ plan) (hs : st₁.sessions[d]? = some s)
    (hidle : ∀ d, ¬(t.writes d = true ∨ t.digests d = true))
    (hplan'' : ∀ p ∈ plan'', p ∈ plan' ∨ ∃ c, t.pc.candidate? = some c ∧ p = c.filePath)
    (hans : ∀ r, answer = .ok (.prepared r) → r.deployId = d ∧ s.uploadToken = r.uploadToken ∧
      ∀ req, t.call = .prepare req → s.idempotencyKey = req.idempotencyKey)
    (hack : ∀ ack, answer ≠ .ok (.pushed ack)) :
    Micros cfg w (w.update (st₁.put d (s.touch now)) i
      { t with plan := plan'', pc := .cleaning plan'' answer }) := by
  refine micros_remove_then ht hrem hplan ?_
  rintro w₁ rfl ht₁
  have hsettle : Micro cfg (w.update (st₁.put d (s.touch now)) i { t with plan := plan' })
      ((w.update (st₁.put d (s.touch now)) i { t with plan := plan' }).update
        (st₁.put d (s.touch now)) i { t with plan := plan'', pc := .cleaning plan'' answer }) := by
    refine .settle (t := { t with plan := plan' }) (World.tasks_update_self ht _ _)
      (fun d' hd' => absurd hd' (hidle d')) rfl ?_ ?_ ?_
    · intro p hp
      have hmem : p ∈ plan'' := by simpa [Pc.files] using hp
      rcases hplan'' p hmem with hp' | hp'
      · exact .inl (List.mem_append_left _ hp')
      · exact .inr hp'
    · intro r hr
      obtain ⟨hd, htok, hkey⟩ := hans r (Option.some.inj hr)
      refine .inr ⟨s.touch now, ?_, htok, hkey⟩
      show (st₁.put d (s.touch now)).sessions[r.deployId]? = some (s.touch now)
      rw [sessions_put, if_pos hd.symm]
    · intro ack hr
      exact absurd (Option.some.inj hr) (hack ack)
  have htouch : Micro cfg (w.update st₁ i { t with plan := plan' }) _ := .touch now ht₁ hs
  rw [World.update_update] at htouch hsettle ⊢
  exact (Relation.ReflTransGen.single htouch).tail hsettle

/-- What an existing session answers to a `prepare` with its key. -/
theorem existing_answer (hidx : IndexInv st₁) {key : String} {s : UploadSession}
    (hcall : t.call = .prepare req) (hkey : key = req.idempotencyKey)
    (hfind : st₁.findByKey key = some (d, s)) :
    ∀ r,
      (.ok (.prepared (buildPrepareResponse (s.touch now) cfg.uploadSessionTtlSecs now)) : Answer)
        = .ok (.prepared r) →
      r.deployId = d ∧ s.uploadToken = r.uploadToken ∧
        ∀ req, t.call = .prepare req → s.idempotencyKey = req.idempotencyKey := by
  obtain ⟨hd, hs⟩ := findByKey_eq_some.mp hfind
  obtain ⟨s', hs', hk⟩ := hidx.session_of_key key d hd
  rw [hs] at hs'
  cases hs'
  rintro r hr
  simp only [Except.ok.injEq, Output.prepared.injEq] at hr
  subst hr
  refine ⟨hidx.deployId_eq d s hs, rfl, ?_⟩
  intro req' hreq'
  rw [hcall] at hreq'
  cases hreq'
  exact hk.trans hkey

theorem micros_prepareDecide (hidx : IndexInv w.store) (ht : w.tasks[i]? = some t)
    (hpc : t.pc = .start) (hcall : t.call = .prepare req) (hcheck : prepareCheck cfg req = .ok ())
    {k : String} (hfresh : w.Fresh cfg d k)
    (ho : prepareDecide cfg w.pinned w.store t.now req d k = o) :
    Micros cfg w { w.proceed i t o with
      drawn := d :: k :: w.drawn } := by
  obtain ⟨st₁, plan, hclean, hcases⟩ :=
    prepareDecide_cases cfg w.pinned w.store t.now req d k
  have hrem := removes_of_eq hclean
  rcases hcases with ⟨d', s, -, -, h⟩ | ⟨d', s, hfind, -, h⟩ | ⟨-, h⟩
  · subst ho; rw [h]
    exact (micros_finish_removal ht hpc hrem (by simp) (by simp)).tail (.draw [d, k])
  · subst ho; rw [h]
    have hs := (findByKey_eq_some.mp hfind).2
    exact (micros_touch_settle ht hrem (fun p hp => .inr hp) hs (not_inFlight_start hpc)
      (fun p hp => Or.inl hp)
      (existing_answer (hrem.indexInv hidx) hcall rfl hfind) (by simp)).tail (.draw [d, k])
  · subst ho; rw [h]
    have h₁ : Micro cfg w (w.update st₁ i { t with plan := plan }) :=
      .remove ht hrem fun p hp => Or.inr hp
    have h₂ := Micro.propose (t := { t with plan := plan }) (World.tasks_update_self ht st₁ _)
      hcall hpc hcheck (show (w.update st₁ i { t with plan := plan }).Fresh cfg d k from hfresh)
    simp only [World.store_update, World.update_update] at h₂
    exact (Relation.ReflTransGen.single h₁).tail h₂

section

variable (ht : w.tasks[i]? = some t) (hpc : t.pc = .start)

include ht hpc

theorem micros_pushBegin {req : ArtifactPushRequest} (hcall : t.call = .push req) {chunkEnd : Nat}
    (hcheck : pushCheck cfg req = .ok chunkEnd)
    (ho : pushBegin cfg w.pinned w.store t.now req.header chunkEnd = o) :
    Micros cfg w (w.proceed i t o) := by
  subst ho
  obtain ⟨st₁, plan, hclean, hcases⟩ :=
    pushBegin_cases cfg w.pinned w.store t.now req.header chunkEnd
  have hrem := removes_of_eq hclean
  rcases hcases with ⟨e, -, h⟩ | ⟨s, hs, hguard, h⟩
  · rw [h]
    exact micros_fail ht hpc hrem e
  · rw [h]
    refine micros_remove_then ht hrem (fun p hp => .inr hp) ?_
    rintro - rfl ht₁
    exact .single (.beginWrite ht₁ hcall hpc hcheck hs hguard)

theorem micros_commitBegin {req : ArtifactCommitRequest} (hcall : t.call = .commit req)
    (ho : commitBegin cfg w.pinned w.store t.now req = o) :
    Micros cfg w (w.proceed i t o) := by
  subst ho
  obtain ⟨st₁, plan, hclean, hcases⟩ := commitBegin_cases cfg w.pinned w.store t.now req
  have hrem := removes_of_eq hclean
  rcases hcases with ⟨e, -, h⟩ | ⟨s, hs, hguard, h⟩
  · rw [h]
    exact micros_fail ht hpc hrem e
  · rw [h]
    refine micros_remove_then ht hrem (fun p hp => .inr hp) ?_
    rintro - rfl ht₁
    exact .single (.beginCommit ht₁ hcall hpc hs hguard)

theorem micros_lookupCommitted {output : UploadSession → Output}
    (hout : ∀ s r, output s ≠ .prepared r) (hack : ∀ s ack, output s ≠ .pushed ack)
    (ho : lookupCommitted cfg w.pinned w.store t.now d output = o) :
    Micros cfg w (w.proceed i t o) := by
  subst ho
  obtain ⟨st₁, plan, hclean, hcases⟩ :=
    lookupCommitted_cases cfg w.pinned w.store t.now d output
  have hrem := removes_of_eq hclean
  rcases hcases with ⟨e, -, h⟩ | ⟨s, hs, -, h⟩
  · rw [h]
    exact micros_fail ht hpc hrem e
  · rw [h]
    refine micros_touch_settle ht hrem (fun p hp => .inr hp) hs (not_inFlight_start hpc)
      (fun p hp => Or.inl hp) ?_ ?_
    · intro r hr
      simp only [Except.ok.injEq] at hr
      exact absurd hr (hout s r)
    · intro ack hr
      simp only [Except.ok.injEq] at hr
      exact hack s ack hr

theorem micros_purge (ho : purgeDeploySession cfg w.pinned w.store t.now d = o) :
    Micros cfg w (w.proceed i t o) := by
  subst ho
  obtain ⟨st₁, plan₁, st₂, plan₂, hclean, hpurge, h⟩ :=
    purgeDeploySession_eq cfg w.pinned w.store t.now d
  have h₁ := removes_of_eq hclean
  have h₂ := removes_collectSessionsForRemoval st₁ [d]
  rw [hpurge] at h₂
  rw [h]
  exact micros_finish_removal ht hpc (h₁.trans h₂) (by simp) (by simp)

end

/-- The first critical section of any call. -/
theorem micros_firstSection (hidx : IndexInv w.store) (ht : w.tasks[i]? = some t)
    (hpc : t.pc = .start) {k : String} (hfresh : w.Fresh cfg d k)
    (ho : firstSection cfg w t d k = o) :
    Micros cfg w { w.proceed i t o with
      drawn := d :: k :: w.drawn } := by
  -- only `prepare` uses the ids; the others leave them unused
  have hdraw : ∀ o : Outcome,
      Micros cfg w (w.proceed i t o) →
      Micros cfg w { w.proceed i t o with
        drawn := d :: k :: w.drawn } := fun o h => h.tail (.draw [d, k])
  unfold firstSection at ho
  split at ho
  · rename_i req hcall
    split at ho
    · subst ho
      exact hdraw _ (micros_fail ht hpc (Removes.refl _) _)
    · rename_i hcheck
      exact micros_prepareDecide hidx ht hpc hcall hcheck hfresh ho
  · rename_i req hcall
    split at ho
    · subst ho
      exact hdraw _ (micros_fail ht hpc (Removes.refl _) _)
    · rename_i chunkEnd hcheck
      exact hdraw _ (micros_pushBegin ht hpc hcall hcheck ho)
  · rename_i req hcall
    exact hdraw _ (micros_commitBegin ht hpc hcall ho)
  · exact hdraw _ (micros_lookupCommitted ht hpc (by simp) (by simp) ho)
  · exact hdraw _ (micros_lookupCommitted ht hpc (by simp) (by simp) ho)
  · exact hdraw _ (micros_purge ht hpc ho)

theorem micros_prepareInsert (hidx : IndexInv w.store) (ht : w.tasks[i]? = some t)
    {c : UploadSession} (hcall : t.call = .prepare req) (hpc : t.pc = .inserting c)
    (hkey : c.idempotencyKey = req.idempotencyKey)
    (ho : prepareInsert cfg w.pinned w.store t.plan now c = o) :
    Micros cfg w (w.proceed i t o) := by
  subst ho
  obtain ⟨st₁, plan', hclean, hcases⟩ := prepareInsert_cases cfg w.pinned w.store now t.plan c
  have hrem := removes_of_eq hclean
  have hplan : ∀ p ∈ t.plan ++ plan', p ∈ t.plan ∨ p ∈ plan' := fun p hp => List.mem_append.mp hp
  have hfree : ∀ d, ¬(t.writes d = true ∨ t.digests d = true) := by
    intro d; simp [Task.writes, Task.digests, hpc, Pc.inWrite, Pc.inDigest]
  have hlost : ∀ p ∈ t.plan ++ plan' ++ [c.filePath],
      p ∈ t.plan ++ plan' ∨ ∃ c, t.pc.candidate? = some c ∧ p = c.filePath := by
    intro p hp
    rcases List.mem_append.mp hp with hp | hp
    · exact .inl hp
    · exact .inr ⟨c, by rw [hpc]; rfl, List.mem_singleton.mp hp⟩
  rcases hcases with ⟨d, s, -, -, h⟩ | ⟨d, s, hfind, -, h⟩ | ⟨hnone, h⟩
  · rw [h]
    refine micros_remove_then ht hrem hplan ?_
    rintro - rfl ht₁
    refine .single (.settle (t := { t with plan := t.plan ++ plan' }) ht₁
      (fun d hd => absurd hd (hfree d)) rfl ?_ (by simp [Outcome.finish, Pc.answer?])
      (by simp [Outcome.finish, Pc.answer?]))
    intro p hp
    rcases hlost p ((List.mem_append.mp hp).elim id id) with hp | hp
    · exact .inl (List.mem_append_left _ hp)
    · exact .inr hp
  · rw [h]
    exact micros_touch_settle ht hrem hplan (findByKey_eq_some.mp hfind).2 hfree hlost
      (existing_answer (hrem.indexInv hidx) hcall hkey hfind) (by simp)
  · rw [h]
    refine micros_remove_then ht hrem hplan ?_
    rintro - rfl ht₁
    exact .single (.insert now ht₁ hpc hnone)

section

variable (ht : w.tasks[i]? = some t)

include ht

/-- The session of a push or a commit has disappeared in the meantime. -/
theorem micros_disappeared
    (hgone : ∀ d, t.writes d = true ∨ t.digests d = true → w.store.sessions[d]? = none)
    (e : ImagodError) :
    Micros cfg w (w.update w.store i { t with plan := t.plan, pc := .done (.error e) }) := by
  refine .single (.settle ht hgone rfl ?_ (by simp [Pc.answer?]) (by simp [Pc.answer?]))
  intro p hp
  exact .inl (List.mem_append_left _ (by simpa [Pc.files] using hp))

theorem micros_pushFinish {req : ArtifactPushRequest} {result : Except ImagodError Unit}
    (hcall : t.call = .push req) (hpc : t.pc = .written result)
    (ho : pushFinish w.store t.plan t.now req.header result = o) :
    Micros cfg w (w.proceed i t o) := by
  subst ho
  rcases pushFinish_cases w.store t.now t.plan req.header result with
    ⟨e, hnone, h⟩ | ⟨s, e, hs, rfl, h⟩ | ⟨s, ack, hs, rfl, h⟩
  · rw [h]
    refine micros_disappeared ht ?_ e
    intro d hd
    simp only [Task.writes, Task.digests, hcall, Call.pushesTo, Call.commitsTo, Bool.and_eq_true,
      beq_iff_eq, Bool.false_and, Bool.false_eq_true, or_false] at hd
    rw [← hd.1]; exact hnone
  · rw [h]
    exact .single (.endWrite ht hcall hpc hs)
  · rw [h]
    exact .single (.receive ht hcall hpc hs)

theorem micros_commitFinish {req : ArtifactCommitRequest} {result : Except ImagodError String}
    {expected : String} (hcall : t.call = .commit req) (hpc : t.pc = .digested result expected)
    (ho : commitFinish cfg w.pinned w.store t.plan t.now req expected result = o) :
    Micros cfg w (w.proceed i t o) := by
  subst ho
  rcases commitFinish_cases cfg w.pinned w.store t.now t.plan req expected result with
    ⟨e, hnone, h⟩ | ⟨s, e, hs, -, h⟩ | ⟨s, st₁, plan', hs, rfl, hclean, h⟩
  · rw [h]
    refine micros_disappeared ht ?_ e
    intro d hd
    simp only [Task.writes, Task.digests, hcall, Call.pushesTo, Call.commitsTo, Bool.and_eq_true,
      beq_iff_eq, Bool.false_and, Bool.false_eq_true, false_or] at hd
    rw [← hd.1]; exact hnone
  · rw [h]
    exact .single (.endCommit ht hcall hpc hs)
  · rw [h]
    -- the session is accepted, then the cleanup runs, then the answer is settled
    set answer : Answer := .ok (.committed ⟨s.artifactDigest, true⟩) with hanswer
    set t₁ : Task := { t with pc := .cleaning t.plan answer }
    set w₁ := w.update (w.store.put req.deployId (s.accept t.now)) i t₁
    have h₁ : Micro cfg w w₁ := .accept ht hcall hpc hs
    have h₂ : Micros cfg w₁ (w₁.update st₁ i
        { t₁ with plan := t.plan ++ plan', pc := .cleaning (t.plan ++ plan') answer }) := by
      refine micros_remove_settle (World.tasks_update_self ht _ _) (removes_of_eq hclean)
        (fun p hp => List.mem_append.mp hp) ?_ rfl (fun p hp => hp) ?_ ?_
      · simp [t₁, Task.writes, Task.digests, Pc.inWrite, Pc.inDigest]
      · simp [Pc.answer?, hanswer]
      · simp [Pc.answer?, hanswer]
    rw [World.update_update] at h₂
    exact (Relation.ReflTransGen.single h₁).trans h₂

/-- A call goes on with its cleanup. -/
theorem micro_cleanup {pc' : Pc}
    (hans : t.pc.answer? = pc'.answer?) (hset : t.pc.answer?.isSome)
    (hfiles : ∀ p ∈ pc'.files, p ∈ t.pc.files) :
    Micro cfg w (w.update w.store i { t with pc := pc' }) := by
  have hidle : ∀ d, ¬(t.writes d = true ∨ t.digests d = true) := by
    intro d
    rcases e : t.pc <;> rw [e] at hset <;>
      first
      | simp [Task.writes, Task.digests, e, Pc.inWrite, Pc.inDigest]; done
      | cases hset
  refine .settle (t := t) ht (fun d hd => absurd hd (hidle d)) (hans ▸ hset) ?_ ?_
    fun ack hr => hans.trans hr
  · intro p hp
    rcases List.mem_append.mp hp with hp | hp
    · exact .inl (List.mem_append_left _ hp)
    · exact .inl (List.mem_append_right _ (hfiles p hp))
  · intro r hr
    exact .inl (hans.trans hr)

theorem micros_ioStep {a : IoAction} {r : FileStore Cell × Pc}
    (h : ioStep cfg w.fs t a = some r) :
    Micros cfg w { w.update w.store i { t with pc := r.2 } with fs := r.1 } := by
  cases a with simp only [ioStep] at h
  | create outcome =>
    split at h
    · rename_i c hpc
      split at h <;> cases h
      · exact .single (.allocate ht hpc)
      · refine .single (.settle (t := t) ht ?_ rfl ?_ (by simp [Pc.answer?])
          (by simp [Pc.answer?]))
        · intro d hd
          simp [Task.writes, Task.digests, hpc, Pc.inWrite, Pc.inDigest] at hd
        · intro p hp
          exact .inl (List.mem_append_left _ ((List.mem_append.mp hp).elim id id))
      · exact .single (.abandon 0 _ ht hpc)
      · exact .single (.abandon c.artifactSize _ ht hpc)
    · cases h
  | openFile error =>
    split at h
    · rename_i hcall hpc
      cases h
      exact .single (.failWrite _ ht hcall (by rw [hpc]; rfl))
    · rename_i hcall hpc
      obtain ⟨hdl, hlookup, rfl⟩ := Option.map_eq_some_iff.mp h
      exact .single (.openWrite ht hcall hpc hlookup)
    · rename_i hcall hpc
      cases h
      exact .single (.failDigest _ _ ht hcall (by rw [hpc]; rfl))
    · rename_i hcall hpc
      obtain ⟨hdl, hlookup, rfl⟩ := Option.map_eq_some_iff.mp h
      exact .single (.openDigest ht hcall hpc hlookup)
    · cases h
  | endWrite error =>
    split at h
    · rename_i hcall hpc
      cases h
      exact .single (.failWrite _ ht hcall (by rw [hpc]; rfl))
    · rename_i hcall hpc
      cases h
      exact .single (.wrote ht hcall hpc)
    · cases h
  | read n =>
    split at h
    · rename_i hcall hpc
      split at h
      · split at h
        · rename_i heof
          cases h
          exact .single (.digest ht hcall hpc (by simpa using heof))
        · cases h
      · split at h
        · rename_i hn
          cases h
          exact .single (.read n ht hcall hpc (by simpa using hn.2))
        · cases h
    · cases h
  | readError message =>
    split at h
    · rename_i hcall hpc
      cases h
      exact .single (.failDigest _ _ ht hcall (by rw [hpc]; rfl))
    · cases h
  | remove ok =>
    split at h
    · rename_i answer hpc
      cases h
      exact .single (micro_cleanup ht (by rw [hpc]; rfl) (by rw [hpc]; rfl) (by simp [Pc.files]))
    · rename_i p ps answer hpc
      cases h
      have hsettle : ∀ fs : FileStore Cell, Micro cfg { w with fs := fs }
          { w.update w.store i { t with pc := .cleaning ps answer } with fs := fs } := by
        intro fs
        exact micro_cleanup (w := { w with fs := fs }) ht (by rw [hpc]; rfl) (by rw [hpc]; rfl)
          (by rw [hpc]; exact fun q hq => List.mem_cons_of_mem _ hq)
      cases ok with
      | false => exact .single (hsettle w.fs)
      | true =>
        have hunlink : Micro cfg w { w with fs := w.fs.unlink p } :=
          .unlink ht (List.mem_append_right _ (by rw [hpc]; exact (.head _)))
        exact (Relation.ReflTransGen.single hunlink).tail (hsettle _)
    · cases h

end

end Sections

/-- What the decomposition of a step relies on: the index is a bijection, and
a candidate session carries the key of the request it was made for. -/
structure Coherent (w : World) : Prop where
  index : IndexInv w.store
  candidate_key : ∀ (i : Nat) t req c, w.tasks[i]? = some t → t.call = .prepare req →
    t.pc.candidate? = some c → c.idempotencyKey = req.idempotencyKey

variable {a : Action}

/-- **Decomposition**: every step is a sequence of micro-steps. -/
theorem micros_of_step (hw : Coherent w) (h : step cfg w a = some w') : Micros cfg w w' := by
  cases a with
  | call c now =>
    cases h
    exact .single (.spawn c now)
  | enter i d k =>
    obtain ⟨t, ht, -, hpc, hfresh, o, ho, rfl⟩ := step_enter h
    exact micros_firstSection hw.index ht hpc hfresh ho
  | reenter i now =>
    obtain ⟨t, o, ht, -, ho, rfl⟩ := step_reenter h
    unfold secondSection at ho
    split at ho
    · rename_i req c hcall hpc
      exact micros_prepareInsert hw.index ht hcall hpc
        (hw.candidate_key i t req c ht hcall (by rw [hpc]; rfl)) (Option.some.inj ho)
    · rename_i hcall hpc
      exact micros_pushFinish ht hcall hpc (Option.some.inj ho)
    · rename_i hcall hpc
      exact micros_commitFinish ht hcall hpc (Option.some.inj ho)
    · cases ho
  | io i a =>
    simp only [step] at h
    split at h
    · rename_i t hrun
      obtain ⟨r, hr, rfl⟩ := Option.map_eq_some_iff.mp h
      exact micros_ioStep (World.tasks_of_running hrun).1 hr
    · cases h
  | write i n =>
    simp only [step] at h
    split at h
    · rename_i t ht
      split at h
      · rename_i hcall hpc
        split at h
        · rename_i hn
          cases h
          exact .single (.write ht hcall hpc hn.2)
        · cases h
      · cases h
    · cases h
  | drop i =>
    obtain ⟨t, hrun, rfl⟩ := Option.map_eq_some_iff.mp h
    exact .single (.drop (World.tasks_of_running hrun).1)
  | pin d | unpin d =>
    cases h
    exact .single (.pins _)

/-- What every micro-step keeps, every step keeps. -/
theorem step_invariant {Inv : World → Prop} (hcoh : ∀ w, Inv w → Coherent w)
    (hmicro : ∀ w w', Inv w → Micro cfg w w' → Inv w') (hw : Inv w) (h : step cfg w a = some w') :
    Inv w' := by
  have hmicros := micros_of_step (hcoh w hw) h
  clear h
  induction hmicros with
  | refl => exact hw
  | tail _ hm ih => exact hmicro _ _ ih hm

/-- What holds at the start and is kept by every micro-step holds in every
reachable state. -/
theorem Reachable.invariant {Inv : World → Prop} (hcoh : ∀ w, Inv w → Coherent w)
    (hinit : ∀ fs, Inv (World.init fs)) (hmicro : ∀ w w', Inv w → Micro cfg w w' → Inv w')
    (h : Reachable cfg w) : Inv w := by
  obtain ⟨fs, hr⟩ := h
  exact hr.invariant (fun w a w' hw hstep => step_invariant hcoh hmicro hw hstep) (hinit fs)

theorem Reachable.tail (h : Reachable cfg w) (hstep : step cfg w a = some w') :
    Reachable cfg w' := by
  obtain ⟨fs, hr⟩ := h
  exact ⟨fs, hr.tail hstep⟩

/-! ### A small store to run things on -/

/-- A store with a chunk size of 64 bytes and a limit of 1024 bytes.  Its
hash only counts bytes, which is enough to follow a run. -/
def sampleConfig : StoreConfig :=
  .new "/var/lib/imago" 900 3600 8 64 4 1024 fun bytes => "sha256-" ++ toString bytes.length

def sampleRequest (artifactSize : Nat) : DeployPrepareRequest where
  name := "svc"
  appType := "cli"
  target := ∅
  artifactDigest := "sha256-4"
  artifactSize := artifactSize
  manifestDigest := "sha256-2"
  idempotencyKey := "deploy-1"
  policy := ∅

/-- One `prepare` of a four byte artifact, carried through. -/
def samplePrepared : List Action :=
  [.call (.prepare (sampleRequest 4)) 100, .enter 0 "d-1" "k-1", .io 0 (.create .created),
    .reenter 0 101, .io 0 (.remove true)]

/-- The whole artifact of `samplePrepared` in one chunk. -/
def samplePush : ArtifactPushRequest where
  header := ⟨"d-1", 0, 4, "sha256-4", "k-1"⟩
  chunk := [1, 2, 3, 4]

end Imago
