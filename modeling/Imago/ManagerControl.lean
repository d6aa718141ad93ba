/-
Imago/ManagerControl.lean

The manager's control plane: the requests that runners send over the control
socket, handled concurrently with each other and with the supervisor.

`handle_control_request_impl` takes each of its locks for a moment only, so a
request is a task (`Handling`) with a program counter, and one step is one
critical section or one await.  Between two steps anything may happen to the
service map, the runner index and the pending-ready map: the action
`supervise` puts arbitrary contents there.  The remote connections belong to
the control plane alone.  A task that is dropped is one that takes no further
step.

Every property here is about a moment on the way (the proof *was* verified,
the binding *was* there), so the main results are stated over runs with their
history: `Visits step w₀ as P` says that some state of the run satisfied `P`.

Main result: `control_authorized`.
-/
import Imago.IpcAuth
import Imago.Runs
import Mathlib.Logic.Relation

namespace Imago.Control

open Std (TreeMap TreeSet)

/-! ### The manager's state -/

/-- A running service, as far as the control plane reads and writes it. -/
structure RunningService where
  releaseHash : String
  isReady : Bool
  runnerId : String
  runnerEndpoint : String
  managerAuthSecret : String
  invocationSecret : String
  bindings : List ServiceBinding
  lastHeartbeatAt : String
  deriving DecidableEq

/-- The node that a connection leads to. -/
structure RemoteAuthority where
  key : String
  host : String
  hostForUrl : String
  port : Nat
  deriving DecidableEq

/-- The connections of each runner, by connection id. -/
abbrev RemoteConnections := TreeMap String (TreeMap String RemoteAuthority)

namespace RemoteConnections

/-- `insert_connection`, with the new UUID. -/
def insertConnection (r : RemoteConnections) (runnerId connectionId : String)
    (authority : RemoteAuthority) : RemoteConnections :=
  r.insert runnerId ((r[runnerId]?.getD ∅).insert connectionId authority)

/-- `connection_for`: a runner sees only its own connections. -/
def connectionFor (r : RemoteConnections) (runnerId connectionId : String) :
    Option RemoteAuthority :=
  (r[runnerId]?).bind fun connections => connections[connectionId]?

/-- `disconnect`: whether there was such a connection, and what is left. -/
def disconnect (r : RemoteConnections) (runnerId connectionId : String) :
    Bool × RemoteConnections :=
  match r[runnerId]? with
  | none => (false, r)
  | some connections =>
    let left := connections.erase connectionId
    (connections.contains connectionId,
      if left.isEmpty then r.erase runnerId else r.insert runnerId left)

end RemoteConnections

/-! ### Requests and responses -/

/-- What a runner asks for. -/
inductive RequestKind
  | registerRunner (serviceName releaseHash runnerEndpoint : String)
  | runnerReady
  | heartbeat
  | resolveInvocationTarget (targetService wit : String)
  | rpcConnectRemote (authority : String)
  | rpcInvokeRemote (connectionId targetService interfaceId function : String)
      (argsCbor : List UInt8)
  | rpcDisconnectRemote (connectionId : String)
  deriving DecidableEq

/-- A control request: every kind carries the caller's id and its proof. -/
structure ControlRequest where
  runnerId : String
  managerAuthProof : String
  kind : RequestKind
  deriving DecidableEq

/-- An error as it is sent. -/
structure IpcErrorPayload where
  code : ErrorCode
  stage : String
  message : String
  deriving DecidableEq

/-- `from_error`. -/
def IpcErrorPayload.fromError (e : ImagodError) : IpcErrorPayload := ⟨e.code, e.stage, e.message⟩

/-- What the manager answers. -/
inductive ControlResponse
  | ack
  | resolvedInvocationTarget (endpoint token : String)
  | rpcRemoteConnected (connectionId : String)
  | rpcRemoteInvokeResult (resultCbor : List UInt8)
  | error (e : IpcErrorPayload)
  deriving DecidableEq

/-- The request was not served. -/
def ControlResponse.isError : ControlResponse → Bool
  | .error _ => true
  | _ => false

/-- `STAGE_CONTROL`. -/
def stageControl : String := "service.control"

/-- An error of this stage. -/
def controlError (code : ErrorCode) (message : String) : ControlResponse :=
  .error ⟨code, stageControl, message⟩

/-- The answer to a runner that is not in the service map. -/
def RequestKind.notRegistered : RequestKind → ControlResponse
  | .registerRunner _ _ _ => controlError .notFound "runner is not registered for startup"
  | .runnerReady | .heartbeat => controlError .notFound "runner is not registered"
  | .resolveInvocationTarget _ _ | .rpcConnectRemote _ | .rpcInvokeRemote _ _ _ _ _
  | .rpcDisconnectRemote _ => controlError .notFound "source runner is not registered"

/-- The answer for a connection that the runner does not hold. -/
def connectionNotAvailable (connectionId : String) : ControlResponse :=
  controlError .notFound ("rpc connection '" ++ connectionId ++ "' is not available")

/-! ### Authorization -/

/-- `validate_manager_auth`: the verification's error under the control stage. -/
def validateManagerAuth (c : Crypto) (secret runnerId proof : String) : Except ImagodError Unit :=
  match verifyManagerAuthProof c secret runnerId proof with
  | .ok _ => .ok ()
  | .error err =>
    if err.code = .unauthorized then
      .error (.new .unauthorized stageControl "manager auth proof mismatch")
    else
      .error (.new err.code stageControl
        ("manager auth proof verification failed: " ++ err.message))

/-- `is_binding_allowed`. -/
def isBindingAllowed (bindings : List ServiceBinding) (targetService wit : String) : Bool :=
  bindings.any fun binding => binding.name = targetService && binding.wit = wit

/-- The answer for a call that no binding of the caller allows. -/
def bindingNotAllowed : ControlResponse :=
  controlError .unauthorized "binding does not allow target service/interface"

/-- The lifetime of an invocation token, in seconds. -/
def invocationTokenTtlSecs : Nat := 30

/-! ### The handler -/

/-- The points of `handle_control_request_impl`, each named for the section
that comes next. -/
inductive Pc
  /-- `resolve_runner_service_name` -/
  | readIndex
  | validateIndexed (name : String)
  | unindex
  | scan
  | reindex (name : String)
  /-- the section that checks the caller, under the lock of the service map -/
  | authorize (name : String)
  /-- remove the index entry that led nowhere -/
  | forget
  | notifyReady
  | probe
  | insertConnection (authority : RemoteAuthority)
  | lookupConnection
  | invoke (authority : RemoteAuthority)
  | disconnect
  | done (response : ControlResponse)

/-- What a section takes from outside: the clock, a new UUID, and the results
of the calls to the remote daemon. -/
structure Input where
  now : Nat
  uuid : String
  probed : Except ImagodError RemoteAuthority
  invoked : Except ImagodError (List UInt8)

/-- A request in work, and how far it is. -/
structure Handling where
  request : ControlRequest
  pc : Pc

/-- What the handlers share, and the requests that have come in. -/
structure World where
  services : TreeMap String RunningService
  runnerIndex : TreeMap String String
  /-- the runners whose start waits for `runner_ready` -/
  pendingReady : TreeSet String
  remote : RemoteConnections
  handlings : List Handling

/-- What the section under the service map's lock does for a caller that has
proven itself: the service map after it, and where the handler goes on. -/
def serveCaller (c : Crypto) (services : TreeMap String RunningService) (kind : RequestKind)
    (name : String) (service : RunningService) (input : Input) :
    TreeMap String RunningService × Pc :=
  match kind with
  | .registerRunner serviceName releaseHash runnerEndpoint =>
    if name ≠ serviceName ∨ service.releaseHash ≠ releaseHash then
      (services, .done (controlError .badRequest "register_runner metadata mismatch"))
    else if service.runnerEndpoint ≠ runnerEndpoint then
      (services, .done (controlError .badRequest "register_runner endpoint mismatch"))
    else
      (services.insert name { service with lastHeartbeatAt := toString input.now }, .done .ack)
  | .runnerReady =>
    (services.insert name
      { service with isReady := true, lastHeartbeatAt := toString input.now }, .notifyReady)
  | .heartbeat =>
    (services.insert name { service with lastHeartbeatAt := toString input.now }, .done .ack)
  | .resolveInvocationTarget targetService wit =>
    if isBindingAllowed service.bindings targetService wit then
      match services[targetService]? with
      | none => (services, .done (controlError .notFound "target service is not running"))
      | some target =>
        if target.isReady then
          let claims : InvocationTokenClaims :=
            { sourceService := name
              targetService := targetService
              wit := wit
              exp := input.now + invocationTokenTtlSecs
              nonce := input.uuid }
          match issueInvocationToken c target.invocationSecret claims with
          | .ok token =>
            (services, .done (.resolvedInvocationTarget target.runnerEndpoint token))
          | .error err => (services, .done (.error (.fromError err)))
        else (services, .done (controlError .notFound "target service is not running"))
    else (services, .done bindingNotAllowed)
  | .rpcConnectRemote _ => (services, .probe)
  | .rpcInvokeRemote _ targetService interfaceId _ _ =>
    if isBindingAllowed service.bindings targetService interfaceId then
      (services, .lookupConnection)
    else (services, .done bindingNotAllowed)
  | .rpcDisconnectRemote _ => (services, .disconnect)

/-- The section under the service map's lock. -/
def authorize (c : Crypto) (services : TreeMap String RunningService) (request : ControlRequest)
    (name : String) (input : Input) : TreeMap String RunningService × Pc :=
  match services[name]? with
  | none => (services, .forget)
  | some service =>
    if service.runnerId ≠ request.runnerId then (services, .forget)
    else
      match validateManagerAuth c service.managerAuthSecret request.runnerId
          request.managerAuthProof with
      | .error err => (services, .done (.error (.fromError err)))
      | .ok _ => serveCaller c services request.kind name service input

/-- One section, or one await, of the handler. -/
def proceed (c : Crypto) (w : World) (request : ControlRequest) (input : Input) :
    Pc → Option (World × Pc)
  | .readIndex =>
    match w.runnerIndex[request.runnerId]? with
    | some name => some (w, .validateIndexed name)
    | none => some (w, .scan)
  | .validateIndexed name =>
    match w.services[name]? with
    | some service =>
      if service.runnerId = request.runnerId then some (w, .authorize name)
      else some (w, .unindex)
    | none => some (w, .unindex)
  | .unindex => some ({ w with runnerIndex := w.runnerIndex.erase request.runnerId }, .scan)
  | .scan =>
    match w.services.toList.find? fun entry => entry.2.runnerId = request.runnerId with
    | some (name, _) => some (w, .reindex name)
    | none => some (w, .done request.kind.notRegistered)
  | .reindex name =>
    some ({ w with runnerIndex := w.runnerIndex.insert request.runnerId name }, .authorize name)
  | .authorize name =>
    let (services, pc) := authorize c w.services request name input
    some ({ w with services := services }, pc)
  | .forget =>
    some ({ w with runnerIndex := w.runnerIndex.erase request.runnerId },
      .done request.kind.notRegistered)
  | .notifyReady =>
    some ({ w with pendingReady := w.pendingReady.erase request.runnerId }, .done .ack)
  | .probe =>
    match input.probed with
    | .ok authority => some (w, .insertConnection authority)
    | .error err => some (w, .done (.error (.fromError err)))
  | .insertConnection authority =>
    some ({ w with
      remote := w.remote.insertConnection request.runnerId input.uuid authority },
      .done (.rpcRemoteConnected input.uuid))
  | .lookupConnection =>
    match request.kind with
    | .rpcInvokeRemote connectionId _ _ _ _ =>
      match w.remote.connectionFor request.runnerId connectionId with
      | some authority => some (w, .invoke authority)
      | none => some (w, .done (connectionNotAvailable connectionId))
    | _ => none
  | .invoke _ =>
    match input.invoked with
    | .ok resultCbor => some (w, .done (.rpcRemoteInvokeResult resultCbor))
    | .error err => some (w, .done (.error (.fromError err)))
  | .disconnect =>
    match request.kind with
    | .rpcDisconnectRemote connectionId =>
      match w.remote.disconnect request.runnerId connectionId with
      | (true, remote) => some ({ w with remote := remote }, .done .ack)
      | (false, remote) =>
        some ({ w with remote := remote }, .done (connectionNotAvailable connectionId))
    | _ => none
  | .done _ => none

/-- A request comes in, a handler goes on, or the services change. -/
inductive Action
  | receive (request : ControlRequest)
  | proceed (i : Nat) (input : Input)
  /-- the supervisor, or a runner that exits: anything may change but the
  remote connections -/
  | supervise (services : TreeMap String RunningService) (runnerIndex : TreeMap String String)
      (pendingReady : TreeSet String)

/-- One step of the world, if it is possible. -/
def step (c : Crypto) (w : World) : Action → Option World
  | .receive request => some { w with handlings := w.handlings ++ [⟨request, .readIndex⟩] }
  | .proceed i input =>
    (w.handlings[i]?).bind fun h =>
      (proceed c w h.request input h.pc).map fun (w', pc) =>
        { w' with handlings := w.handlings.set i { h with pc := pc } }
  | .supervise services runnerIndex pendingReady =>
    some { w with
      services := services
      runnerIndex := runnerIndex
      pendingReady := pendingReady }

/-! ### What is to be shown at which moment -/

variable {c : Crypto} {w₀ w w' : World} {as : List Action} {i : Nat} {request : ControlRequest}

/-- State `w` is the one in which handler `i` checks its caller; the service
`name` is the caller that the request names, and the request's proof verifies
under its secret. -/
structure ProvenBy (c : Crypto) (i : Nat) (request : ControlRequest) (w : World) (name : String)
    (service : RunningService) : Prop where
  checking : w.handlings[i]? = some ⟨request, .authorize name⟩
  running : w.services[name]? = some service
  named : service.runnerId = request.runnerId
  verified : verifyManagerAuthProof c service.managerAuthSecret request.runnerId
    request.managerAuthProof = .ok ()

/-- The same, by some service. -/
def Proven (c : Crypto) (i : Nat) (request : ControlRequest) (w : World) : Prop :=
  ∃ name service, ProvenBy c i request w name service

/-- The proven caller has a binding for exactly this target and interface. -/
def MayCall (c : Crypto) (i : Nat) (request : ControlRequest) (target wit : String) (w : World) :
    Prop :=
  ∃ name service, ProvenBy c i request w name service ∧ ⟨target, wit⟩ ∈ service.bindings

/-- The token names the proven caller as its source and the bound target and
interface, the target is ready, and the token is signed under its secret. -/
def Vouches (c : Crypto) (i : Nat) (request : ControlRequest)
    (target wit endpoint token : String) (w : World) : Prop :=
  ∃ name service targetRunner, ProvenBy c i request w name service ∧
    ⟨target, wit⟩ ∈ service.bindings ∧ w.services[target]? = some targetRunner ∧
    targetRunner.isReady = true ∧ endpoint = targetRunner.runnerEndpoint ∧
    ∃ claims, issueInvocationToken c targetRunner.invocationSecret claims = .ok token ∧
      claims.sourceService = name ∧ claims.targetService = target ∧ claims.wit = wit

/-- The runner holds this connection. -/
def Holds (runnerId connectionId : String) (w : World) : Prop :=
  ∃ authority, w.remote.connectionFor runnerId connectionId = some authority

theorem MayCall.proven {target wit : String} (h : MayCall c i request target wit w) :
    Proven c i request w := by
  obtain ⟨name, service, hproven, -⟩ := h
  exact ⟨name, service, hproven⟩

theorem Vouches.proven {target wit endpoint token : String}
    (h : Vouches c i request target wit endpoint token w) : Proven c i request w := by
  obtain ⟨name, service, -, hproven, -⟩ := h
  exact ⟨name, service, hproven⟩

theorem isBindingAllowed_iff {bindings : List ServiceBinding} {target wit : String} :
    isBindingAllowed bindings target wit = true ↔ ⟨target, wit⟩ ∈ bindings := by
  unfold isBindingAllowed
  rw [List.any_eq_true]
  constructor
  · rintro ⟨binding, hmem, hb⟩
    simp only [Bool.and_eq_true, decide_eq_true_eq] at hb
    obtain ⟨rfl, rfl⟩ := hb
    exact hmem
  · intro hmem
    exact ⟨_, hmem, by simp⟩

theorem verified_of_validateManagerAuth {secret runnerId proof : String}
    (h : validateManagerAuth c secret runnerId proof = .ok ()) :
    verifyManagerAuthProof c secret runnerId proof = .ok () := by
  unfold validateManagerAuth at h
  split at h
  · assumption
  · split at h <;> cases h

/-! ### What the sections do -/

/-- The section under the service map's lock changes nothing and ends in an
error, or it serves a caller that it has proven. -/
theorem authorize_cases (c : Crypto) {name : String}
    (hi : w.handlings[i]? = some ⟨request, .authorize name⟩) (input : Input) :
    (authorize c w.services request name input = (w.services, .forget)) ∨
    (∃ e, authorize c w.services request name input = (w.services, .done (.error e))) ∨
    ∃ service, ProvenBy c i request w name service ∧
      authorize c w.services request name input
        = serveCaller c w.services request.kind name service input := by
  unfold authorize
  rcases hs : w.services[name]? with - | service
  · exact .inl rfl
  by_cases hid : service.runnerId = request.runnerId
  · rcases hv : validateManagerAuth c service.managerAuthSecret request.runnerId
      request.managerAuthProof with err | u
    · exact .inr (.inl ⟨.fromError err, by simp [hid, hv]⟩)
    · exact .inr (.inr ⟨service, ⟨hi, hs, hid, verified_of_validateManagerAuth hv⟩,
        by simp [hid, hv]⟩)
  · exact .inl (by simp [hid])

/-- A disconnect succeeds only on a connection that the runner holds. -/
theorem holds_of_disconnect {runnerId connectionId : String} {left : RemoteConnections}
    (h : w.remote.disconnect runnerId connectionId = (true, left)) :
    Holds runnerId connectionId w := by
  unfold RemoteConnections.disconnect at h
  rcases hr : w.remote[runnerId]? with - | connections
  · rw [hr] at h
    cases h
  · rw [hr] at h
    have hmem : connectionId ∈ connections := TreeMap.contains_iff_mem.mp (congrArg Prod.fst h)
    refine ⟨connections.get connectionId hmem, ?_⟩
    rw [RemoteConnections.connectionFor, hr]
    exact TreeMap.getElem?_eq_some_getElem hmem

/-! ### The evidence behind each point -/

/-- What must have been true on the way for a handler to be at a point; `V P`
is read as "`P` was true at some moment". -/
def Evidence (c : Crypto) (V : (World → Prop) → Prop) (i : Nat) (request : ControlRequest) :
    Pc → Prop
  | .notifyReady => V (Proven c i request) ∧ request.kind = .runnerReady
  | .probe | .insertConnection _ =>
    V (Proven c i request) ∧ ∃ a, request.kind = .rpcConnectRemote a
  | .disconnect => V (Proven c i request)
  | .lookupConnection =>
    ∃ connectionId target wit f args,
      request.kind = .rpcInvokeRemote connectionId target wit f args ∧
      V (MayCall c i request target wit)
  | .invoke authority =>
    ∃ connectionId target wit f args,
      request.kind = .rpcInvokeRemote connectionId target wit f args ∧
      V (MayCall c i request target wit) ∧
      V fun w => w.remote.connectionFor request.runnerId connectionId = some authority
  | .done .ack =>
    V (Proven c i request) ∧
      ∀ connectionId, request.kind = .rpcDisconnectRemote connectionId →
        V (Holds request.runnerId connectionId)
  | .done (.resolvedInvocationTarget endpoint token) =>
    ∃ target wit, request.kind = .resolveInvocationTarget target wit ∧
      V (Vouches c i request target wit endpoint token)
  | .done (.rpcRemoteConnected _) =>
    V (Proven c i request) ∧ ∃ a, request.kind = .rpcConnectRemote a
  | .done (.rpcRemoteInvokeResult _) =>
    ∃ connectionId target wit f args,
      request.kind = .rpcInvokeRemote connectionId target wit f args ∧
      V (MayCall c i request target wit) ∧
      ∃ authority, V fun w =>
        w.remote.connectionFor request.runnerId connectionId = some authority
  | _ => True

variable {V V' : (World → Prop) → Prop} {pc pc' : Pc} {input : Input}

/-- Evidence is not lost when more moments have passed. -/
theorem Evidence.mono (hV : ∀ P, V P → V' P) (h : Evidence c V i request pc) :
    Evidence c V' i request pc := by
  unfold Evidence at h ⊢
  split at h
  case h_1 | h_2 | h_3 | h_9 => exact ⟨hV _ h.1, h.2⟩
  case h_4 => exact hV _ h
  case h_5 =>
    obtain ⟨cid, target, wit, f, args, hkind, hcall⟩ := h
    exact ⟨cid, target, wit, f, args, hkind, hV _ hcall⟩
  case h_6 =>
    obtain ⟨cid, target, wit, f, args, hkind, hcall, hconn⟩ := h
    exact ⟨cid, target, wit, f, args, hkind, hV _ hcall, hV _ hconn⟩
  case h_10 =>
    obtain ⟨cid, target, wit, f, args, hkind, hcall, authority, hconn⟩ := h
    exact ⟨cid, target, wit, f, args, hkind, hV _ hcall, authority, hV _ hconn⟩
  case h_7 => exact ⟨hV _ h.1, fun cid hkind => hV _ (h.2 cid hkind)⟩
  case h_8 =>
    obtain ⟨target, wit, hkind, hvouch⟩ := h
    exact ⟨target, wit, hkind, hV _ hvouch⟩
  case h_11 => trivial

/-- The evidence for what a proven caller gets is there at that moment. -/
theorem evidence_serveCaller (hnow : ∀ P : World → Prop, P w → V P) {name : String}
    {service : RunningService} (hproven : ProvenBy c i request w name service) (input : Input) :
    Evidence c V i request (serveCaller c w.services request.kind name service input).2 := by
  have hproven' : V (Proven c i request) := hnow _ ⟨name, service, hproven⟩
  unfold serveCaller
  rcases hkind : request.kind with ⟨sn, rh, re⟩ | - | - | ⟨target, wit⟩ | a |
    ⟨cid, target, wit, f, args⟩ | cid <;> dsimp only
  · -- register
    split
    · trivial
    · split
      · trivial
      · exact ⟨hproven', fun cid h => absurd (hkind.symm.trans h) nofun⟩
  · exact ⟨hproven', hkind⟩
  · exact ⟨hproven', fun cid h => absurd (hkind.symm.trans h) nofun⟩
  · -- a token: binding, target and signature are all read in this one section
    split
    · rename_i hallowed
      rcases htarget : w.services[target]? with - | targetRunner
      · trivial
      dsimp only
      split
      · rename_i hready
        split
        · rename_i token htoken
          exact ⟨target, wit, hkind, hnow _ ⟨name, service, targetRunner, hproven,
            isBindingAllowed_iff.mp hallowed, htarget, hready, rfl, _, htoken, rfl, rfl, rfl⟩⟩
        · trivial
      · trivial
    · trivial
  · exact ⟨hproven', a, hkind⟩
  · split
    · rename_i hallowed
      exact ⟨cid, target, wit, f, args, hkind,
        hnow _ ⟨name, service, hproven, isBindingAllowed_iff.mp hallowed⟩⟩
    · trivial
  · exact hproven'

/-- Every section hands on the evidence that the next point needs. -/
theorem Evidence.proceed (hi : w.handlings[i]? = some ⟨request, pc⟩)
    (hnow : ∀ P : World → Prop, P w → V P) (h : Evidence c V i request pc)
    (hstep : proceed c w request input pc = some (w', pc')) : Evidence c V i request pc' := by
  unfold Control.proceed at hstep
  cases pc with
  | readIndex =>
    dsimp only at hstep
    split at hstep <;> cases hstep <;> trivial
  | validateIndexed name =>
    dsimp only at hstep
    split at hstep
    · split at hstep <;> cases hstep <;> trivial
    · cases hstep
      trivial
  | unindex | reindex => cases hstep; trivial
  | scan =>
    dsimp only at hstep
    split at hstep <;> cases hstep
    · trivial
    · unfold RequestKind.notRegistered controlError
      cases request.kind <;> trivial
  | authorize name =>
    have hpc' : pc' = (Control.authorize c w.services request name input).2 := by
      cases hstep
      rfl
    rcases authorize_cases c hi input with hauth | ⟨e, hauth⟩ | ⟨service, hp, hauth⟩ <;>
      rw [hpc', hauth]
    · trivial
    · trivial
    · exact evidence_serveCaller hnow hp input
  | forget =>
    cases hstep
    unfold RequestKind.notRegistered controlError
    cases request.kind <;> trivial
  | notifyReady =>
    cases hstep
    exact ⟨h.1, fun cid hkind => absurd (h.2.symm.trans hkind) nofun⟩
  | probe =>
    dsimp only at hstep
    split at hstep <;> cases hstep
    · exact h
    · trivial
  | insertConnection authority =>
    cases hstep
    exact h
  | lookupConnection =>
    obtain ⟨cid, target, wit, f, args, hkind, hcall⟩ := h
    simp only [hkind] at hstep
    split at hstep <;> cases hstep
    · rename_i authority hconn
      exact ⟨cid, target, wit, f, args, hkind, hcall, hnow _ hconn⟩
    · trivial
  | invoke authority =>
    obtain ⟨cid, target, wit, f, args, hkind, hcall, hconn⟩ := h
    dsimp only at hstep
    split at hstep <;> cases hstep
    · exact ⟨cid, target, wit, f, args, hkind, hcall, authority, hconn⟩
    · trivial
  | disconnect =>
    dsimp only at hstep
    split at hstep
    · rename_i cid hkind
      split at hstep <;> cases hstep
      · rename_i remote hdisc
        refine ⟨h, fun cid' hkind' => hnow _ ?_⟩
        obtain rfl : cid = cid' := by simpa [hkind] using hkind'
        exact holds_of_disconnect hdisc
      · trivial
    · cases hstep
  | done response => cases hstep

/-! ### Who changes what -/

/-- A section changes a service, a pending start or a connection only for a
caller that was proven. -/
theorem Evidence.unchanged_or_proven (hi : w.handlings[i]? = some ⟨request, pc⟩)
    (hnow : ∀ P : World → Prop, P w → V P) (h : Evidence c V i request pc)
    (hstep : Control.proceed c w request input pc = some (w', pc')) :
    (w'.services = w.services ∧ w'.pendingReady = w.pendingReady ∧ w'.remote = w.remote) ∨
      V (Proven c i request) := by
  cases pc with
  | unindex | reindex | forget =>
    cases hstep
    exact .inl ⟨rfl, rfl, rfl⟩
  | authorize name =>
    rcases authorize_cases c hi input with hauth | ⟨e, hauth⟩ | ⟨service, hp, -⟩
    · simp only [Control.proceed, hauth, Option.some.injEq, Prod.mk.injEq] at hstep
      obtain ⟨rfl, -⟩ := hstep
      exact .inl ⟨rfl, rfl, rfl⟩
    · simp only [Control.proceed, hauth, Option.some.injEq, Prod.mk.injEq] at hstep
      obtain ⟨rfl, -⟩ := hstep
      exact .inl ⟨rfl, rfl, rfl⟩
    · exact .inr (hnow _ ⟨name, service, hp⟩)
  | notifyReady | insertConnection => exact .inr h.1
  | disconnect => exact .inr h
  | readIndex | validateIndexed | scan | probe | lookupConnection | invoke =>
    -- these sections only read
    unfold Control.proceed at hstep
    dsimp only at hstep
    left
    split at hstep <;> try split at hstep
    all_goals cases hstep
    all_goals exact ⟨rfl, rfl, rfl⟩
  | done response => cases hstep

namespace RemoteConnections

variable {r : RemoteConnections} {runner connection runner' connection' : String}
  {authority authority' : RemoteAuthority}

/-- A new connection is visible to its runner only. -/
theorem of_connectionFor_insertConnection
    (h : (r.insertConnection runner connection authority).connectionFor runner' connection'
      = some authority') :
    r.connectionFor runner' connection' = some authority' ∨
      (runner = runner' ∧ connection = connection') := by
  by_cases hr : runner = runner'
  · subst hr
    by_cases hc : connection = connection'
    · exact .inr ⟨rfl, hc⟩
    · left
      unfold connectionFor insertConnection at h
      rw [TreeMap.getElem?_insert_self, Option.bind_some, getElem?_insert_ne hc] at h
      unfold connectionFor
      rcases hs : r[runner]? with - | connections <;> rw [hs] at h
      · simp at h
      · exact h
  · left
    unfold connectionFor insertConnection at h
    rwa [getElem?_insert_ne hr] at h

/-- A disconnect makes no connection visible. -/
theorem of_connectionFor_disconnect
    (h : (r.disconnect runner connection).2.connectionFor runner' connection' = some authority) :
    r.connectionFor runner' connection' = some authority := by
  unfold disconnect at h
  rcases hs : r[runner]? with - | connections <;> rw [hs] at h
  · exact h
  dsimp only at h
  unfold connectionFor at h ⊢
  by_cases hr : runner = runner'
  · subst hr
    split at h
    · rw [TreeMap.getElem?_erase_self] at h
      cases h
    · rw [TreeMap.getElem?_insert_self, Option.bind_some, TreeMap.getElem?_erase] at h
      split at h
      · cases h
      · rw [hs]
        exact h
  · split at h
    · rwa [getElem?_erase_ne hr] at h
    · rwa [getElem?_insert_ne hr] at h

end RemoteConnections

variable {connection : String}

/-- A connection that was not there before the section is the one with which
it answers its own caller. -/
theorem connection_of_proceed (hstep : proceed c w request input pc = some (w', pc'))
    {runner : String} {authority : RemoteAuthority}
    (h : w'.remote.connectionFor runner connection = some authority) :
    w.remote.connectionFor runner connection = some authority ∨
      (request.runnerId = runner ∧ pc' = .done (.rpcRemoteConnected connection)) := by
  cases pc with
  | insertConnection authority' =>
    cases hstep
    refine (RemoteConnections.of_connectionFor_insertConnection h).imp_right ?_
    rintro ⟨rfl, rfl⟩
    exact ⟨rfl, rfl⟩
  | disconnect =>
    left
    unfold proceed at hstep
    dsimp only at hstep
    split at hstep
    · rename_i cid hkind
      split at hstep <;> rename_i remote hdisc <;> cases hstep <;>
        exact RemoteConnections.of_connectionFor_disconnect (by rwa [hdisc])
    · cases hstep
  | unindex | reindex | forget | notifyReady | authorize =>
    cases hstep
    exact .inl h
  | readIndex | validateIndexed | scan | probe | lookupConnection | invoke =>
    unfold proceed at hstep
    dsimp only at hstep
    left
    split at hstep <;> try split at hstep
    all_goals cases hstep
    all_goals exact h
  | done response => cases hstep

/-! ### Runs -/

/-- The state of the control plane after the run of `as` from `w₀`: every
handler has its evidence, and every connection its creator. -/
structure Accounted (c : Crypto) (w₀ : World) (as : List Action) (w : World) : Prop where
  evidence : ∀ (i : Nat) (h : Handling), w.handlings[i]? = some h →
    Evidence c (Visits (step c) w₀ as) i h.request h.pc
  created : ∀ (runner connection : String) (authority : RemoteAuthority),
    w.remote.connectionFor runner connection = some authority →
    w₀.remote.connectionFor runner connection = some authority ∨
      ∃ (i : Nat) (request : ControlRequest),
        w.handlings[i]? = some ⟨request, .done (.rpcRemoteConnected connection)⟩ ∧
        request.runnerId = runner

theorem step_proceed {i : Nat} {input : Input} (h : step c w (.proceed i input) = some w') :
    ∃ hd w₁ pc', w.handlings[i]? = some hd ∧
      proceed c w hd.request input hd.pc = some (w₁, pc') ∧
      w' = { w₁ with handlings := w.handlings.set i { hd with pc := pc' } } := by
  obtain ⟨hd, hi, h⟩ := Option.bind_eq_some_iff.mp h
  obtain ⟨⟨w₁, pc'⟩, hproceed, rfl⟩ := Option.map_eq_some_iff.mp h
  exact ⟨hd, w₁, pc', hi, hproceed, rfl⟩

theorem Accounted.step {a : Action} (hrun : run (step c) w₀ as = some w)
    (hacc : Accounted c w₀ as w) (hstep : Control.step c w a = some w') :
    Accounted c w₀ (as ++ [a]) w' := by
  -- whatever was visited stays so, and what holds in `w` has been visited
  have hlater : ∀ P, Visits (Control.step c) w₀ as P → Visits (Control.step c) w₀ (as ++ [a]) P :=
    fun P hP => hP.append [a]
  have hnow : ∀ P : World → Prop, P w → Visits (Control.step c) w₀ as P :=
    fun P hP => Visits.now hrun hP
  cases a with
  | receive request =>
    cases hstep
    refine ⟨?_, ?_⟩
    · exact forall_concat (fun i h hi => (hacc.evidence i h hi).mono hlater) trivial
    · intro runner connection authority hconn
      refine (hacc.created runner connection authority hconn).imp_right ?_
      rintro ⟨i, request', hi, hr⟩
      exact ⟨i, request', getElem?_concat_of_some hi, hr⟩
  | supervise services runnerIndex pendingReady =>
    cases hstep
    exact ⟨fun i h hi => (hacc.evidence i h hi).mono hlater, hacc.created⟩
  | proceed i input =>
    obtain ⟨hd, w₁, pc', hi, hproceed, rfl⟩ := step_proceed hstep
    have hev := hacc.evidence i hd hi
    refine ⟨?_, ?_⟩
    · exact forall_set (fun j h hj => (hacc.evidence j h hj).mono hlater)
        ((hev.proceed hi hnow hproceed).mono hlater)
    · intro runner connection authority hconn
      rcases connection_of_proceed hproceed hconn with hold | ⟨hr, rfl⟩
      · refine (hacc.created runner connection authority hold).imp_right ?_
        rintro ⟨j, request', hj, hr⟩
        -- a handler that has answered takes no further step
        have hne : i ≠ j := by
          rintro rfl
          obtain rfl := Option.mem_unique hi hj
          cases hproceed
        exact ⟨j, request', by rwa [List.getElem?_set_ne hne], hr⟩
      · exact .inr ⟨i, hd.request, by simp [List.getElem?_set_self', hi], hr⟩

theorem accounted_of_run (hstart : w₀.handlings = []) (hrun : run (step c) w₀ as = some w) :
    Accounted c w₀ as w := by
  refine run_history (Q := Accounted c w₀) ?_ ?_ hrun
  · refine ⟨?_, fun _ _ _ h => .inl h⟩
    rw [hstart]
    intro i h hi
    cases hi
  · intro as w₁ a w₂ hrun₁ hacc hstep
    exact hacc.step hrun₁ hstep

/-- An answer that is not an error goes to a caller that was proven. -/
theorem Evidence.proven {response : ControlResponse} (hV : ∀ P Q : World → Prop,
      (∀ w, P w → Q w) → V P → V Q)
    (h : Evidence c V i request (.done response)) (hok : response.isError = false) :
    V (Proven c i request) := by
  cases response with
  | ack | rpcRemoteConnected connectionId => exact h.1
  | resolvedInvocationTarget endpoint token =>
    obtain ⟨target, wit, -, hvouch⟩ := h
    exact hV _ _ (fun w hw => hw.proven) hvouch
  | rpcRemoteInvokeResult result =>
    obtain ⟨cid, target, wit, f, args, -, hcall, -⟩ := h
    exact hV _ _ (fun w hw => hw.proven) hcall
  | error e => cases hok

/-- A handler that has answered stays as it is. -/
theorem answered_persists {response : ControlResponse} {bs : List Action}
    (hi : w.handlings[i]? = some ⟨request, .done response⟩)
    (hrun : run (step c) w bs = some w') :
    w'.handlings[i]? = some ⟨request, .done response⟩ := by
  have hkept : ∀ (w : World) (a : Action) (w' : World),
      w.handlings[i]? = some ⟨request, .done response⟩ → step c w a = some w' →
      w'.handlings[i]? = some ⟨request, .done response⟩ := by
    intro w a w' hi hstep
    cases a with
    | receive request' =>
      cases hstep
      exact getElem?_concat_of_some hi
    | supervise services runnerIndex pendingReady =>
      cases hstep
      exact hi
    | proceed j input =>
      obtain ⟨hd, w₁, pc', hj, hproceed, rfl⟩ := step_proceed hstep
      have hne : j ≠ i := by
        rintro rfl
        obtain rfl := Option.mem_unique hj hi
        cases hproceed
      exact (List.getElem?_set_ne hne).trans hi
  exact run_invariant hkept hrun hi

/-- The runner was given this connection id: it held it from the beginning, or
a connect request of its own was answered with it. -/
def Owns (w₀ w : World) (runner connection : String) : Prop :=
  (∃ authority, w₀.remote.connectionFor runner connection = some authority) ∨
    ∃ (i : Nat) (request : ControlRequest) (a : String),
      w.handlings[i]? = some ⟨request, .done (.rpcRemoteConnected connection)⟩ ∧
      request.runnerId = runner ∧ request.kind = .rpcConnectRemote a

/-- A connection that was held at some moment is its owner's. -/
theorem owns_of_visits_holds (hstart : w₀.handlings = []) (hrun : run (step c) w₀ as = some w)
    {runner : String} (h : Visits (step c) w₀ as (Holds runner connection)) :
    Owns w₀ w runner connection := by
  obtain ⟨bs, cs, w₁, rfl, hrun₁, authority, hconn⟩ := h
  rw [run_append, hrun₁, Option.bind_some] at hrun
  have hacc := accounted_of_run hstart hrun₁
  rcases hacc.created runner connection authority hconn with hold | ⟨i, request, hi, hr⟩
  · exact .inl ⟨authority, hold⟩
  · obtain ⟨-, a, hkind⟩ := hacc.evidence i _ hi
    exact .inr ⟨i, request, a, answered_persists hi hrun, hr, hkind⟩

/-- A request that works on a connection: an invocation that is under way or
has been answered, or a disconnect that has succeeded. -/
inductive Uses (w : World) (request : ControlRequest) : String → Prop
  | invoking {i : Nat} {authority : RemoteAuthority} {connection target wit f : String}
      {args : List UInt8} (hi : w.handlings[i]? = some ⟨request, .invoke authority⟩)
      (hkind : request.kind = .rpcInvokeRemote connection target wit f args) :
      Uses w request connection
  | invoked {i : Nat} {result : List UInt8} {connection target wit f : String}
      {args : List UInt8}
      (hi : w.handlings[i]? = some ⟨request, .done (.rpcRemoteInvokeResult result)⟩)
      (hkind : request.kind = .rpcInvokeRemote connection target wit f args) :
      Uses w request connection
  | disconnected {i : Nat} {connection : String}
      (hi : w.handlings[i]? = some ⟨request, .done .ack⟩)
      (hkind : request.kind = .rpcDisconnectRemote connection) : Uses w request connection

theorem Accounted.holds_of_uses (hacc : Accounted c w₀ as w) (h : Uses w request connection) :
    Visits (Control.step c) w₀ as (Holds request.runnerId connection) := by
  cases h with
  | invoking hi hkind =>
    obtain ⟨cid, target, wit, f, args, hkind', -, hconn⟩ := hacc.evidence _ _ hi
    obtain ⟨rfl, -⟩ : connection = cid ∧ _ := by simpa using hkind.symm.trans hkind'
    exact hconn.mono fun w hw => ⟨_, hw⟩
  | invoked hi hkind =>
    obtain ⟨cid, target, wit, f, args, hkind', -, authority, hconn⟩ := hacc.evidence _ _ hi
    obtain ⟨rfl, -⟩ : connection = cid ∧ _ := by simpa using hkind.symm.trans hkind'
    exact hconn.mono fun w hw => ⟨_, hw⟩
  | disconnected hi hkind => exact (hacc.evidence _ _ hi).2 connection hkind

/-- **The control plane serves only proven callers.**  For every start state,
every interleaving of control requests with each other and with arbitrary
changes of the services, the runner index and the pending starts:

* an answer that is not an error went to a caller whose proof verified, when
  its request was checked, under the secret of the service that then had the
  runner id of the request;
* a token was issued in that check, to the proven service as its source, for
  a target and interface that are in that service's bindings, and under the
  invocation secret of the target, which was ready;
* a remote invocation is made for a caller that was proven with a binding for
  its target and interface;
* a connection can be used only by the runner that created it;
* a request whose check has not succeeded changes no service, no pending start
  and no remote connection. -/
theorem control_authorized (c : Crypto) (w₀ w : World) (as : List Action)
    (hstart : w₀.handlings = []) (hrun : run (step c) w₀ as = some w) :
    (∀ (i : Nat) (request : ControlRequest) (response : ControlResponse),
      w.handlings[i]? = some ⟨request, .done response⟩ → response.isError = false →
      Visits (step c) w₀ as (Proven c i request)) ∧
    (∀ (i : Nat) (request : ControlRequest) (endpoint token : String),
      w.handlings[i]? = some ⟨request, .done (.resolvedInvocationTarget endpoint token)⟩ →
      ∃ target wit, request.kind = .resolveInvocationTarget target wit ∧
        Visits (step c) w₀ as (Vouches c i request target wit endpoint token)) ∧
    (∀ (i : Nat) (request : ControlRequest),
      (∃ authority, w.handlings[i]? = some ⟨request, .invoke authority⟩) ∨
        (∃ result, w.handlings[i]? = some ⟨request, .done (.rpcRemoteInvokeResult result)⟩) →
      ∃ connection target wit f args,
        request.kind = .rpcInvokeRemote connection target wit f args ∧
        Visits (step c) w₀ as (MayCall c i request target wit)) ∧
    (∀ (request : ControlRequest) (connection : String), Uses w request connection →
      Owns w₀ w request.runnerId connection) ∧
    (∀ (i : Nat) (h : Handling) (input : Input) (w' : World), w.handlings[i]? = some h →
      step c w (.proceed i input) = some w' → ¬ Visits (step c) w₀ as (Proven c i h.request) →
      w'.services = w.services ∧ w'.pendingReady = w.pendingReady ∧ w'.remote = w.remote) := by
  have hacc := accounted_of_run hstart hrun
  refine ⟨?_, ?_, ?_, ?_, ?_⟩
  · intro i request response hi hok
    exact (hacc.evidence i _ hi).proven (fun P Q hPQ hP => hP.mono hPQ) hok
  · intro i request endpoint token hi
    exact hacc.evidence i _ hi
  · rintro i request (⟨authority, hi⟩ | ⟨result, hi⟩)
    · obtain ⟨cid, target, wit, f, args, hkind, hcall, -⟩ := hacc.evidence i _ hi
      exact ⟨cid, target, wit, f, args, hkind, hcall⟩
    · obtain ⟨cid, target, wit, f, args, hkind, hcall, -⟩ := hacc.evidence i _ hi
      exact ⟨cid, target, wit, f, args, hkind, hcall⟩
  · intro request connection huses
    exact owns_of_visits_holds hstart hrun (hacc.holds_of_uses huses)
  · intro i h input w' hi hstep hunproven
    obtain ⟨hd, w₁, pc', hi', hproceed, rfl⟩ := step_proceed hstep
    obtain rfl := Option.mem_unique hi hi'
    have hnow : ∀ P : World → Prop, P w → Visits (step c) w₀ as P :=
      fun P hP => Visits.now hrun hP
    exact ((hacc.evidence i h hi).unchanged_or_proven hi hnow hproceed).resolve_right hunproven

/-- `hex::decode`. -/
def hexDecode : List Char → Except String (List UInt8)
  | [] => .ok []
  | [_] => .error "Odd number of digits"
  | high :: low :: rest =>
    match toDigit 16 high, toDigit 16 low with
    | some h, some l => (hexDecode rest).map (UInt8.ofNat (16 * h + l) :: ·)
    | _, _ => .error "Invalid character"

/-- A stand-in for the third-party functions, to run the model with. -/
def sampleCrypto : Crypto where
  hexDecode s := hexDecode s.toList
  hexEncode := hexEncode
  hmac key _ := key
  claimsCbor claims := claims.wit.toUTF8.data.toList
  tokenCbor token := token.signature.toUTF8.data.toList
  base64 b := toString b.length

/-- Two services, of which `a` may call `b`; the index knows neither. -/
def sampleWorld : World where
  services := (TreeMap.empty.insert "a"
    ⟨"h", true, "r1", "/run/r1", "a1", "1a", [⟨"b", "pkg/greet"⟩], "0"⟩).insert "b"
    ⟨"h", true, "r2", "/run/r2", "b2", "2b", [], "0"⟩
  runnerIndex := ∅
  pendingReady := ∅
  remote := ∅
  handlings := []

/-- An outside in which nothing fails. -/
def sampleInput : Input := ⟨7, "u1", .ok ⟨"k", "host", "host", 4443⟩, .ok [1]⟩

/-- Service `a` asks for a token for `b`, and connects to a remote daemon. -/
def sampleRequests : List Action :=
  [.receive ⟨"r1", "a1", .resolveInvocationTarget "b" "pkg/greet"⟩,
    .receive ⟨"r1", "a1", .rpcConnectRemote "rpc://host"⟩,
    .proceed 0 sampleInput, .proceed 0 sampleInput, .proceed 0 sampleInput, .proceed 0 sampleInput,
    .proceed 1 sampleInput, .proceed 1 sampleInput, .proceed 1 sampleInput, .proceed 1 sampleInput,
    .proceed 1 sampleInput]

theorem control_authorized_sample :
    ∃ w endpoint token, run (step sampleCrypto) sampleWorld sampleRequests = some w ∧
      w.handlings[0]? = some ⟨⟨"r1", "a1", .resolveInvocationTarget "b" "pkg/greet"⟩,
        .done (.resolvedInvocationTarget endpoint token)⟩ ∧
      (∃ target wit, RequestKind.resolveInvocationTarget "b" "pkg/greet"
          = .resolveInvocationTarget target wit ∧
        Visits (step sampleCrypto) sampleWorld sampleRequests
          (Vouches sampleCrypto 0 ⟨"r1", "a1", .resolveInvocationTarget "b" "pkg/greet"⟩
            target wit endpoint token)) ∧
      w.remote.connectionFor "r1" "u1" = some ⟨"k", "host", "host", 4443⟩ := by
  have hall := fun w (hrun : run (step sampleCrypto) sampleWorld sampleRequests = some w) =>
    (control_authorized sampleCrypto sampleWorld w sampleRequests rfl hrun).2.1
  exact ⟨_, _, _, rfl, rfl, hall _ rfl 0 _ _ _ rfl, rfl⟩

/-! ### The index of the runners -/

section Resolve

variable {services : TreeMap String RunningService} {index : TreeMap String String}
  {runnerId name : String}

/-- The scan of all running services for a runner. -/
def scanRunner (services : TreeMap String RunningService) (runnerId : String) : Option String :=
  (services.toList.find? fun entry => entry.2.runnerId = runnerId).map (·.1)

/-- The second half of `resolve_runner_service_name`. -/
def rescanRunner (services : TreeMap String RunningService) (index : TreeMap String String)
    (runnerId : String) : Option String × TreeMap String String :=
  match scanRunner services runnerId with
  | some name => (some name, index.insert runnerId name)
  | none => (none, index)

/-- `resolve_runner_service_name` when nothing comes between its sections, which
are the first points of the handler: the answer and the index after it. -/
def resolveRunnerServiceName (services : TreeMap String RunningService)
    (index : TreeMap String String) (runnerId : String) : Option String × TreeMap String String :=
  match index[runnerId]? with
  | some name =>
    if ((services[name]?).map fun service => service.runnerId == runnerId).getD false then
      (some name, index)
    else rescanRunner services (index.erase runnerId) runnerId
  | none => rescanRunner services index runnerId

/-- The scan of the handler, and where it goes on. -/
theorem rescan_of_proceed (w : World) :
    Relation.ReflTransGen (fun x y => proceed c x.1 request input x.2 = some y) (w, .scan)
      ({ w with runnerIndex := (rescanRunner w.services w.runnerIndex request.runnerId).2 },
        (rescanRunner w.services w.runnerIndex request.runnerId).1.elim
          (.done request.kind.notRegistered) .authorize) := by
  unfold rescanRunner scanRunner
  rcases hfind : w.services.toList.find? fun entry => entry.2.runnerId = request.runnerId with
    - | ⟨name, service⟩ <;> rw [hfind]
  · refine .single ?_
    simp only [proceed, hfind]
    rfl
  · refine .head (b := (w, .reindex name)) ?_ (.single rfl)
    simp only [proceed, hfind]

/-- **What the handler does from its first point to the check of its caller**, if
nothing comes between. -/
theorem resolve_of_proceed (w : World) :
    Relation.ReflTransGen (fun x y => proceed c x.1 request input x.2 = some y) (w, .readIndex)
      ({ w with
          runnerIndex := (resolveRunnerServiceName w.services w.runnerIndex request.runnerId).2 },
        (resolveRunnerServiceName w.services w.runnerIndex request.runnerId).1.elim
          (.done request.kind.notRegistered) .authorize) := by
  unfold resolveRunnerServiceName
  rcases hindex : w.runnerIndex[request.runnerId]? with - | name
  · refine .head (b := (w, .scan)) ?_ (rescan_of_proceed w)
    simp only [proceed, hindex]
  · refine .head (b := (w, .validateIndexed name)) ?_ ?_
    · simp only [proceed, hindex]
    dsimp only
    rcases hservice : w.services[name]? with - | service
    · refine .head (b := (w, .unindex)) ?_ (.head rfl (rescan_of_proceed _))
      simp only [proceed, hservice]
    · by_cases hid : service.runnerId = request.runnerId
      · refine .single ?_
        simp [proceed, hservice, hid]
      · have hnot : (service.runnerId == request.runnerId) = false := by simpa using hid
        rw [Option.map_some, hnot]
        refine .head (b := (w, .unindex)) ?_ (.head rfl (rescan_of_proceed _))
        simp only [proceed, hservice, if_neg hid]

/-- The service runs under this runner. -/
def RunsAs (services : TreeMap String RunningService) (runnerId name : String) : Prop :=
  ∃ service, services[name]? = some service ∧ service.runnerId = runnerId

theorem runsAs_of_scanRunner (h : scanRunner services runnerId = some name) :
    RunsAs services runnerId name := by
  obtain ⟨⟨name, service⟩, hfind, rfl⟩ := Option.map_eq_some_iff.mp h
  have hid := List.find?_some hfind
  exact ⟨service, TreeMap.mem_toList_iff_getElem?_eq_some.mp (List.mem_of_find?_eq_some hfind),
    of_decide_eq_true hid⟩

/-- The scan finds the one service of a runner. -/
theorem scanRunner_eq_some (hone : ∀ name name', RunsAs services runnerId name →
    RunsAs services runnerId name' → name = name') (h : RunsAs services runnerId name) :
    scanRunner services runnerId = some name := by
  rcases hscan : scanRunner services runnerId with - | name'
  · obtain ⟨service, hservice, hid⟩ := h
    have hnone := List.find?_eq_none.mp (Option.map_eq_none_iff.mp hscan) (name, service)
      (TreeMap.mem_toList_iff_getElem?_eq_some.mpr hservice)
    exact absurd (decide_eq_true hid) hnone
  · rw [hone name' name (runsAs_of_scanRunner hscan) h]

theorem rescanRunner_spec (h : index[runnerId]? = none) :
    (rescanRunner services index runnerId).1 = scanRunner services runnerId ∧
      (rescanRunner services index runnerId).2[runnerId]? = scanRunner services runnerId := by
  unfold rescanRunner
  split
  · next name hfound => exact ⟨hfound.symm, TreeMap.getElem?_insert_self.trans hfound.symm⟩
  · next hfound => exact ⟨hfound.symm, h.trans hfound.symm⟩

/-- **The index never misleads**: whatever stands in it, the answer is that of
the scan, and afterwards the entry of the runner is that answer. -/
theorem resolve_runner_eq_scan (services : TreeMap String RunningService)
    (index : TreeMap String String) (runnerId : String)
    (hdistinct : ∀ id name name', RunsAs services id name → RunsAs services id name' →
      name = name') :
    (resolveRunnerServiceName services index runnerId).1 = scanRunner services runnerId ∧
      (∀ name, scanRunner services runnerId = some name ↔ RunsAs services runnerId name) ∧
      (resolveRunnerServiceName services index runnerId).2[runnerId]? =
        scanRunner services runnerId := by
  have hscan : ∀ name, scanRunner services runnerId = some name ↔ RunsAs services runnerId name :=
    fun name => ⟨runsAs_of_scanRunner, scanRunner_eq_some (hdistinct runnerId)⟩
  refine (and_congr_right fun _ => and_iff_right hscan).mpr ?_
  unfold resolveRunnerServiceName
  split
  · next name hindex =>
    split
    · next hvalid =>
      have hruns : RunsAs services runnerId name := by
        rcases hservice : services[name]? with - | service <;> rw [hservice] at hvalid
        · cases hvalid
        · exact ⟨service, hservice, eq_of_beq hvalid⟩
      exact ⟨((hscan name).mpr hruns).symm, hindex.trans ((hscan name).mpr hruns).symm⟩
    · exact rescanRunner_spec TreeMap.getElem?_erase_self
  · next hindex => exact rescanRunner_spec hindex

/-- Two services; the index still knows the runner of one of them under an
earlier name. -/
theorem resolve_runner_eq_scan_stale :
    (resolveRunnerServiceName sampleWorld.services {("r2", "c")} "r2").1 = some "b" := by
  have hids : ∀ x ∈ sampleWorld.services.toList, ∀ y ∈ sampleWorld.services.toList,
      x.2.runnerId = y.2.runnerId → x.1 = y.1 := by
    decide +kernel
  refine (resolve_runner_eq_scan _ _ _ ?_).1
  rintro id name name' ⟨service, h, rfl⟩ ⟨service', h', hid⟩
  exact hids (name, service) (TreeMap.mem_toList_iff_getElem?_eq_some.mpr h) (name', service')
    (TreeMap.mem_toList_iff_getElem?_eq_some.mpr h') hid.symm

end Resolve

end Imago.Control
