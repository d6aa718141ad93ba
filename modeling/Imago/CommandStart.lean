/-
Imago/CommandStart.lean

The server side of `command.start` and `command.cancel`.  Every
`command.start` runs in a stream of its own (`Stream`, with its program
counter `Pc`); the streams and the cancel requests share the operation
manager and nothing else.  One action is one piece of work between two await
points: a critical section of the manager, one frame written to the client
(which may fail), the start or the end of the orchestrator's work.  A stream
may also be dropped at any point, since the session loop aborts its tasks.

The orchestrator is not modelled here: its result is part of the action, so
everything below holds whatever it returns.

The invariants are in `CommandCancel`.  They do not work with `step` itself
but with `Moves`, the list of all transitions of one stream, which
`moves_of_act` reads off the handler once.
-/
import Imago.OperationState
import Imago.Runs
import Mathlib.Data.List.Basic

namespace Imago.Command

open Imago.OperationManager

/-! ### Requests and messages -/

structure DeployCommandPayload where
  deployId : String
  expectedCurrentRelease : String
  restartPolicy : String
  autoRollback : Bool

structure RunCommandPayload where
  name : String

structure StopCommandPayload where
  name : String
  force : Bool

inductive CommandPayload
  | deploy (p : DeployCommandPayload)
  | stop (p : StopCommandPayload)
  | run (p : RunCommandPayload)

def DeployCommandPayload.validate (p : DeployCommandPayload) : Except ValidationError Unit :=
  ensureRequiredStrings
    [(p.deployId, "deploy_id"),
      (p.expectedCurrentRelease, "expected_current_release"),
      (p.restartPolicy, "restart_policy")]

def RunCommandPayload.validate (p : RunCommandPayload) : Except ValidationError Unit :=
  ensureNonEmpty p.name "name"

def StopCommandPayload.validate (p : StopCommandPayload) : Except ValidationError Unit :=
  ensureNonEmpty p.name "name"

structure CommandStartRequest where
  requestId : Uuid
  commandType : CommandType
  payload : CommandPayload

def CommandStartRequest.validate (r : CommandStartRequest) : Except ValidationError Unit := do
  ensureUuidNotNil r.requestId "request_id"
  match r.commandType, r.payload with
  | .deploy, .deploy p => p.validate
  | .run, .run p => p.validate
  | .stop, .stop p => p.validate
  | _, _ => .error (.invalid "payload" "payload does not match command_type")

inductive CommandEventType
  | accepted | progress | succeeded | failed | canceled
  deriving DecidableEq, Repr

def CommandEventType.isTerminal : CommandEventType → Bool
  | .succeeded | .failed | .canceled => true
  | .accepted | .progress => false

structure CommandEvent where
  eventType : CommandEventType
  requestId : Uuid
  commandType : CommandType
  timestamp : String
  stage : Option String
  error : Option ImagodError

/-- What the handler writes to its stream. -/
inductive Message
  | response (accepted : Bool)
  | event (e : CommandEvent)

/-- The terminal events among the messages sent. -/
def terminalEvents : List Message → List CommandEvent
  | [] => []
  | .response _ :: rest => terminalEvents rest
  | .event e :: rest =>
    if e.eventType.isTerminal then e :: terminalEvents rest else terminalEvents rest

/-! ### Streams -/

/-- How a command ends. -/
inductive Terminal
  | canceled
  | succeeded (stage : String)
  | failed (err : ImagodError)

namespace Terminal

def state : Terminal → CommandState
  | .canceled => .canceled
  | .succeeded _ => .succeeded
  | .failed _ => .failed

def eventType : Terminal → CommandEventType
  | .canceled => .canceled
  | .succeeded _ => .succeeded
  | .failed _ => .failed

def stage : Terminal → String
  | .canceled => "canceled"
  | .succeeded stage => stage
  | .failed _ => "failed"

def error : Terminal → Option ImagodError
  | .failed err => some err
  | _ => none

end Terminal

/-- The points of `handle_command_start`, each named for the work that comes
next. -/
inductive Pc
  /-- the checks that need no lock -/
  | received
  | start
  | respond
  | acceptEvent
  | setRunning
  | startEvent
  | markSpawned
  | cancelEvent
  /-- call the orchestrator -/
  | execute
  /-- the orchestrator is at work -/
  | executing
  | progressEvent (progressStage successStage : String)
  | succeedEvent (successStage : String)
  | failEvent (err : ImagodError)
  /-- `finalize_operation_after_terminal_event`; the write's result is kept -/
  | finish (t : Terminal) (written : Except ImagodError Unit)
  | remove (t : Terminal) (written : Except ImagodError Unit)
  /-- `purge_deploy_session_if_needed` -/
  | purge (t : Terminal) (written : Except ImagodError Unit)
  | returned (result : Except ImagodError Unit)

/-- A `command.start` stream.  The handler works with the first three fields;
the others record what it has done. -/
structure Stream where
  /-- the request id of the envelope, and the operation's id -/
  operationId : Uuid
  request : CommandStartRequest
  pc : Pc
  /-- the messages written -/
  sent : List Message
  /-- a write failed -/
  broken : Bool
  /-- `start` has registered the command -/
  accepted : Bool
  /-- what `mark_spawned_if_not_canceled` returned -/
  transition : Option SpawnTransition
  /-- the orchestrator was called -/
  executed : Bool
  finished : Bool
  removed : Bool
  /-- the deploy session handed to `purge_deploy_session` -/
  purged : Option String

def Stream.new (operationId : Uuid) (request : CommandStartRequest) : Stream where
  operationId := operationId
  request := request
  pc := .received
  sent := []
  broken := false
  accepted := false
  transition := none
  executed := false
  finished := false
  removed := false
  purged := none

/-! ### The handler -/

def ensureCommandStartRequestIdMatch (envelopeId payloadId : Uuid) : Except ImagodError Unit :=
  if envelopeId = payloadId then .ok ()
  else .error (badRequest "command.start" "envelope request_id and payload request_id must match")

def ensureCommandStartAllowed (shutdownRequested : Bool) : Except ImagodError Unit :=
  if shutdownRequested then .error (.new .busy "command.start" "server is shutting down")
  else .ok ()

/-- The checks before the operation is registered. -/
def Stream.precheck (st : Stream) (shutdownRequested : Bool) : Except ImagodError Unit := do
  match st.request.validate with
  | .error e => throw (badRequest "command.start" e.display)
  | .ok _ =>
    ensureCommandStartRequestIdMatch st.operationId st.request.requestId
    ensureCommandStartAllowed shutdownRequested

/-- `deploy_id_for_cleanup`. -/
def CommandStartRequest.deployIdForCleanup (r : CommandStartRequest) : Option String :=
  match r.commandType, r.payload with
  | .deploy, .deploy p => some p.deployId
  | _, _ => none

def shouldPurgeDeploySessionAfterTerminal : Terminal → Bool
  | .succeeded _ => true
  | .canceled => false
  | .failed err => err.code ≠ .busy && !err.retryable

/-- The payload is one of the command's type, so the orchestrator is called. -/
def CommandStartRequest.executable (r : CommandStartRequest) : Bool :=
  match r.commandType, r.payload with
  | .deploy, .deploy _ | .run, .run _ | .stop, .stop _ => true
  | _, _ => false

/-- What the orchestrator's `deploy`, `run` and `stop` return; a stop has no
release. -/
structure Summary where
  serviceName : String
  releaseHash : String

/-- The progress and success stages of a completed command. -/
def stages (t : CommandType) (s : Summary) : String × String :=
  match t with
  | .deploy => ("release:" ++ s.serviceName ++ ":" ++ s.releaseHash, "spawned")
  | .run => ("running:" ++ s.serviceName ++ ":" ++ s.releaseHash, "spawned")
  | .stop => ("stopped:" ++ s.serviceName, "completed")

/-- How the handler goes on after a write: a failed plain write ends it, the
result of a terminal event's write is kept until the operation is removed. -/
inductive Continuation
  | plain (next : Pc)
  | terminal (t : Terminal)

/-- `event_envelope`. -/
def Stream.event (st : Stream) (now : String) (eventType : CommandEventType)
    (stage : Option String) (error : Option ImagodError) : Message :=
  .event ⟨eventType, st.operationId, st.request.commandType, now, stage, error⟩

/-- The terminal event that reports `t`. -/
def Stream.terminalEvent (st : Stream) (now : String) (t : Terminal) : Message :=
  st.event now t.eventType (some t.stage) t.error

/-- The frame that the stream writes next. -/
def Stream.pendingWrite (st : Stream) (now : String) : Option (Message × Continuation) :=
  match st.pc with
  | .respond => some (.response true, .plain .acceptEvent)
  | .acceptEvent => some (st.event now .accepted none none, .plain .setRunning)
  | .startEvent => some (st.event now .progress (some "starting") none, .plain .markSpawned)
  | .cancelEvent => some (st.terminalEvent now .canceled, .terminal .canceled)
  | .progressEvent progressStage successStage =>
    some (st.event now .progress (some progressStage) none, .plain (.succeedEvent successStage))
  | .succeedEvent successStage =>
    some (st.terminalEvent now (.succeeded successStage), .terminal (.succeeded successStage))
  | .failEvent err => some (st.terminalEvent now (.failed err), .terminal (.failed err))
  | _ => none

/-- The error of `write_envelope`. -/
def writeError (message : String) : ImagodError :=
  .new .internal "session.write" ("failed to send frame: " ++ message)

/-- One write, which succeeds (`none`) or fails. -/
def Stream.write (st : Stream) (now : String) (error : Option String) : Option Stream :=
  (st.pendingWrite now).map fun (m, k) =>
    match k, error with
    | .plain next, none => { st with pc := next, sent := st.sent ++ [m] }
    | .plain _, some e => { st with pc := .returned (.error (writeError e)), broken := true }
    | .terminal t, none => { st with pc := .finish t (.ok ()), sent := st.sent ++ [m] }
    | .terminal t, some e =>
      { st with pc := .finish t (.error (writeError e)), broken := true }

/-- One piece of the handler's own work between two await points. -/
def Stream.proceed (st : Stream) (operations : OperationManager) (shutdownRequested : Bool)
    (now : String) : Option (Stream × OperationManager) :=
  match st.pc with
  | .received =>
    match st.precheck shutdownRequested with
    | .error e => some ({ st with pc := .returned (.error e) }, operations)
    | .ok _ => some ({ st with pc := .start }, operations)
  | .start =>
    match operations.start st.operationId now with
    | .error e => some ({ st with pc := .returned (.error e) }, operations)
    | .ok operations' => some ({ st with pc := .respond, accepted := true }, operations')
  | .setRunning =>
    match operations.setState st.operationId .running "starting" now with
    | .error e => some ({ st with pc := .returned (.error e) }, operations)
    | .ok operations' => some ({ st with pc := .startEvent }, operations')
  | .markSpawned =>
    match operations.markSpawnedIfNotCanceled st.operationId "spawned" now with
    | .error e => some ({ st with pc := .returned (.error e) }, operations)
    | .ok (.canceled, operations') =>
      some ({ st with pc := .cancelEvent, transition := some .canceled }, operations')
    | .ok (.spawned, operations') =>
      some ({ st with pc := .execute, transition := some .spawned }, operations')
  | .execute =>
    if st.request.executable then
      some ({ st with pc := .executing, executed := true }, operations)
    else
      let err := badRequest "command.start" "payload does not match command_type"
      some ({ st with pc := .failEvent err }, operations)
  | .finish t written =>
    some ({ st with pc := .remove t written, finished := true },
      operations.finish st.operationId t.state t.stage now)
  | .remove t written =>
    some ({ st with pc := .purge t written, removed := true },
      operations.remove st.operationId)
  | .purge t written =>
    let purged :=
      if shouldPurgeDeploySessionAfterTerminal t then st.request.deployIdForCleanup else none
    some ({ st with pc := .returned written, purged := purged }, operations)
  | _ => none

/-- The orchestrator returns. -/
def Stream.complete (st : Stream) (outcome : Except ImagodError Summary) : Option Stream :=
  match st.pc, outcome with
  | .executing, .ok summary =>
    let (progressStage, successStage) := stages st.request.commandType summary
    some { st with pc := .progressEvent progressStage successStage }
  | .executing, .error err => some { st with pc := .failEvent err }
  | _, _ => none

/-- The part of `handle_command_cancel` that works on the manager. -/
def handleCommandCancel (operations : OperationManager) (requestId : Uuid) (now : String) :
    Except ImagodError (CommandCancelResponse × OperationManager) :=
  match ensureUuidNotNil requestId "request_id" with
  | .error e => .error (badRequest "command.cancel" e.display)
  | .ok _ => operations.requestCancel requestId now

/-! ### The server -/

/-- One step of one stream. -/
inductive StreamAction
  | proceed (now : String)
  | write (now : String) (error : Option String)
  | complete (outcome : Except ImagodError Summary)

def Stream.act (st : Stream) (operations : OperationManager) (shutdownRequested : Bool) :
    StreamAction → Option (Stream × OperationManager)
  | .proceed now => st.proceed operations shutdownRequested now
  | .write now error => (st.write now error).map (·, operations)
  | .complete outcome => (st.complete outcome).map (·, operations)

/-- The daemon with its command streams. -/
structure World where
  operations : OperationManager
  shutdownRequested : Bool
  streams : List Stream
  /-- the streams whose task was aborted -/
  aborted : List Nat

def World.init : World := ⟨∅, false, [], []⟩

/-- What happens to the daemon. -/
inductive Action
  /-- a `command.start` envelope arrives on a new stream -/
  | submit (envelopeId : Uuid) (request : CommandStartRequest)
  | stream (i : Nat) (a : StreamAction)
  /-- the task of stream `i` is aborted -/
  | drop (i : Nat)
  | cancel (requestId : Uuid) (now : String)
  | shutdown

/-- One action of the server.  A cancel that is refused changes nothing. -/
def step (w : World) : Action → Option World
  | .submit envelopeId request =>
    some { w with streams := w.streams ++ [Stream.new envelopeId request] }
  | .stream i a =>
    if i ∈ w.aborted then none
    else
      (w.streams[i]?).bind fun st =>
        (st.act w.operations w.shutdownRequested a).map fun (st', operations') =>
          { w with operations := operations', streams := w.streams.set i st' }
  | .drop i => some { w with aborted := i :: w.aborted }
  | .cancel requestId now =>
    match handleCommandCancel w.operations requestId now with
    | .error _ => some w
    | .ok (_, operations') => some { w with operations := operations' }
  | .shutdown => some { w with shutdownRequested := true }

def Reachable (w : World) : Prop := Reaches step World.init w

/-! ### The transitions of one stream -/

/-- Everything one step of a stream can do to the stream and to the table. -/
inductive Moves (st : Stream) (m : OperationManager) : Stream → OperationManager → Prop
  | refuse (hpc : st.pc = .received ∨ st.pc = .start) (e : ImagodError) :
      Moves st m { st with pc := .returned (.error e) } m
  | letIn (hpc : st.pc = .received) (hid : st.operationId ≠ 0) :
      Moves st m { st with pc := .start } m
  | start (hpc : st.pc = .start) (hfree : m[st.operationId]? = none) (now : String) :
      Moves st m { st with pc := .respond, accepted := true }
        (m.insert st.operationId ⟨.accepted, "accepted", now, false, .starting⟩)
  | lost (hpc : st.pc = .setRunning ∨ st.pc = .markSpawned)
      (hfree : m[st.operationId]? = none) (e : ImagodError) :
      Moves st m { st with pc := .returned (.error e) } m
  | setRunning (hpc : st.pc = .setRunning) (entry : OperationEntry)
      (hentry : m[st.operationId]? = some entry) (now : String) :
      Moves st m { st with pc := .startEvent }
        (m.insert st.operationId
          { entry with state := .running, stage := "starting", updatedAt := now })
  | cancel (hpc : st.pc = .markSpawned) (entry : OperationEntry)
      (hentry : m[st.operationId]? = some entry) (hflag : entry.cancelRequested = true)
      (now : String) :
      Moves st m { st with pc := .cancelEvent, transition := some .canceled }
        (m.insert st.operationId
          ⟨entry.state, "cancel-pending", now, false, .spawned⟩)
  | spawn (hpc : st.pc = .markSpawned) (entry : OperationEntry)
      (hentry : m[st.operationId]? = some entry) (hflag : entry.cancelRequested = false)
      (now : String) :
      Moves st m { st with pc := .execute, transition := some .spawned }
        (m.insert st.operationId ⟨entry.state, "spawned", now, false, .spawned⟩)
  | execute (hpc : st.pc = .execute) :
      Moves st m { st with pc := .executing, executed := true } m
  | mismatch (hpc : st.pc = .execute) (e : ImagodError) :
      Moves st m { st with pc := .failEvent e } m
  | succeed (hpc : st.pc = .executing) (progressStage successStage : String) :
      Moves st m { st with pc := .progressEvent progressStage successStage } m
  | fail (hpc : st.pc = .executing) (e : ImagodError) :
      Moves st m { st with pc := .failEvent e } m
  | write {now : String} {msg : Message} {next : Pc}
      (hw : st.pendingWrite now = some (msg, .plain next)) :
      Moves st m { st with pc := next, sent := st.sent ++ [msg] } m
  | writeFails {now : String} {msg : Message} {next : Pc}
      (hw : st.pendingWrite now = some (msg, .plain next)) (e : ImagodError) :
      Moves st m { st with pc := .returned (.error e), broken := true } m
  | close {now : String} {msg : Message} {t : Terminal}
      (hw : st.pendingWrite now = some (msg, .terminal t)) :
      Moves st m { st with pc := .finish t (.ok ()), sent := st.sent ++ [msg] } m
  | closeFails {now : String} {msg : Message} {t : Terminal}
      (hw : st.pendingWrite now = some (msg, .terminal t)) (e : ImagodError) :
      Moves st m { st with pc := .finish t (.error e), broken := true } m
  | finish {t : Terminal} {written : Except ImagodError Unit}
      (hpc : st.pc = .finish t written) (now : String) :
      Moves st m { st with pc := .remove t written, finished := true }
        (m.finish st.operationId t.state t.stage now)
  | remove {t : Terminal} {written : Except ImagodError Unit}
      (hpc : st.pc = .remove t written) :
      Moves st m { st with pc := .purge t written, removed := true }
        (m.remove st.operationId)
  | purge {t : Terminal} {written : Except ImagodError Unit}
      (hpc : st.pc = .purge t written) (purged : Option String) :
      Moves st m { st with pc := .returned written, purged := purged } m

variable {st st' : Stream} {m m' : OperationManager} {shutdown : Bool}

/-- A request that is let in has an id. -/
theorem operationId_of_precheck (h : st.precheck shutdown = .ok ()) : st.operationId ≠ 0 := by
  unfold Stream.precheck at h
  rcases hv : st.request.validate with e | ok
  · rw [hv] at h
    cases h
  rw [hv] at h
  -- the envelope's id is the payload's, and the payload's is not nil
  have hmatch : st.operationId = st.request.requestId := by
    by_contra hne
    simp [ensureCommandStartRequestIdMatch, hne, bind, Except.bind] at h
  intro hnil
  rw [hmatch] at hnil
  simp [CommandStartRequest.validate, ensureUuidNotNil, hnil, bind, Except.bind] at hv

theorem moves_of_proceed {now : String} (h : st.proceed m shutdown now = some (st', m')) :
    Moves st m st' m' := by
  unfold Stream.proceed at h
  split at h
  case h_1 hpc =>
    split at h
    · cases h
      exact .refuse (.inl hpc) _
    · rename_i hok
      cases h
      exact .letIn hpc (operationId_of_precheck hok)
  case h_2 hpc =>
    split at h
    · cases h
      exact .refuse (.inr hpc) _
    · rename_i hok
      cases h
      obtain ⟨hfree, rfl⟩ := start_eq_ok hok
      exact .start hpc hfree now
  case h_3 hpc =>
    unfold setState at h
    rcases he : m[st.operationId]? with - | entry <;> rw [he] at h <;> cases h
    · exact .lost (.inl hpc) he _
    · exact .setRunning hpc entry he now
  case h_4 hpc =>
    unfold markSpawnedIfNotCanceled at h
    rcases he : m[st.operationId]? with - | entry <;> simp only [he] at h
    · cases h
      exact .lost (.inr hpc) he _
    rcases hflag : entry.cancelRequested with - | -
    · rw [hflag] at h
      cases h
      exact .spawn hpc entry he hflag now
    · rw [hflag] at h
      cases h
      exact .cancel hpc entry he hflag now
  case h_5 hpc =>
    split at h <;> cases h
    · exact .execute hpc
    · exact .mismatch hpc _
  case h_6 hpc =>
    cases h
    exact .finish hpc now
  case h_7 hpc =>
    cases h
    exact .remove hpc
  case h_8 hpc =>
    cases h
    exact .purge hpc _
  case h_9 => cases h

theorem moves_of_write {now : String} {error : Option String}
    (h : st.write now error = some st') : Moves st m st' m := by
  obtain ⟨⟨msg, k⟩, hw, rfl⟩ := Option.map_eq_some_iff.mp h
  cases k with
  | plain next =>
    cases error with
    | none => exact .write hw
    | some e => exact .writeFails hw _
  | terminal t =>
    cases error with
    | none => exact .close hw
    | some e => exact .closeFails hw _

theorem moves_of_complete {outcome : Except ImagodError Summary}
    (h : st.complete outcome = some st') : Moves st m st' m := by
  unfold Stream.complete at h
  split at h <;> cases h
  · rename_i hpc
    exact .succeed hpc _ _
  · rename_i hpc
    exact .fail hpc _

theorem moves_of_act {a : StreamAction} (h : st.act m shutdown a = some (st', m')) :
    Moves st m st' m' := by
  cases a with
  | proceed now => exact moves_of_proceed h
  | write now error =>
    obtain ⟨st₁, hst₁, heq⟩ := Option.map_eq_some_iff.mp h
    cases heq
    exact moves_of_write hst₁
  | complete outcome =>
    obtain ⟨st₁, hst₁, heq⟩ := Option.map_eq_some_iff.mp h
    cases heq
    exact moves_of_complete hst₁

end Imago.Command
