/-
Imago/ConnectionLifetime.lean

The remote connections of the control plane beside the supervisor whose runners
they belong to.

`RemoteRpcManager` keeps the connections of each runner id; `rpc.connect` adds
one and `rpc.disconnect` removes one.  The supervisor never mentions them.  The
system here runs the two models over one service map: a step of the supervisor
decides which runners the map has, and the control plane sees them under the
texts of their ids, with whatever other data the entries carry.

`connections_attended`: if a runner ends only when it has no connection and no
connect request of it is between its check and its insertion, then every runner
id with a connection is the id of a service in the running map or being
stopped.  `connection_left` is a crash: the connection stays for ever.
-/
import Imago.ManagerControl
import Imago.RunnerCustody

namespace Imago.Supervisor

open Std (TreeMap TreeSet)

/-! ### Which runners the supervisor has -/

/-- The runner that a task has taken out of the running map to stop it. -/
def Pc.runner : Pc → Option Uuid
  | .killStarted service _ | .checkExited service | .terminate service | .recover service _
  | .restore service _ | .killDisplaced service _ => some service.runnerId
  | _ => none

/-- The runner of a service in the running map. -/
def Shared.Lists (m : Shared) (id : Uuid) : Prop :=
  ∃ (name : String) (service : RunningService), m.running[name]? = some service ∧
    service.runnerId = id

/-- In the running map or being stopped. -/
def World.Attends (w : World) (id : Uuid) : Prop :=
  w.shared.Lists id ∨ ∃ (i : Nat) (t : Task), w.tasks[i]? = some t ∧ t.pc.runner = some id

/-- The runners that a task lets go in its next step. -/
inductive Loses (m : Shared) (t : Task) (input : Input) : Uuid → Prop
  | reaped {service : RunningService} (hpc : t.pc = .reapFirst ∨ t.pc = .reapAgain)
      (hs : m.running[t.name]? = some service)
      (hdead : m.exited service.child input.tryWaitFails = true) :
      Loses m t input service.runnerId
  | replaced {runnerId : Uuid} {child : Nat} {service : RunningService}
      (hpc : t.pc = .insert runnerId child) (hs : m.running[t.name]? = some service) :
      Loses m t input service.runnerId
  | exited {service : RunningService}
      (hpc : t.pc = .checkExited service ∨ ∃ e, t.pc = .recover service e)
      (hdead : m.exited service.child input.tryWaitFails = true) :
      Loses m t input service.runnerId
  | killed {service : RunningService} (hpc : t.pc = .terminate service)
      (hkill : input.killed = .ok ()) : Loses m t input service.runnerId
  | givenUp {service : RunningService} {e : ImagodError}
      (hpc : t.pc = .killStarted service e ∨ t.pc = .killDisplaced service e) :
      Loses m t input service.runnerId

/-- The runners that a step of the supervisor ends. -/
inductive Ends (w : World) : Action → Uuid → Prop
  | reaped {failing : List String} {name : String} {service : RunningService}
      (hs : w.shared.running[name]? = some service)
      (hdead : w.shared.exited service.child (name ∈ failing) = true) :
      Ends w (.reapFinished failing) service.runnerId
  | lost {i : Nat} {input : Input} {t : Task} {id : Uuid} (hi : w.tasks[i]? = some t)
      (h : Loses w.shared t input id) : Ends w (.proceed i input) id
  | dropped {i : Nat} {t : Task} {id : Uuid} (hi : w.tasks[i]? = some t)
      (h : t.pc.runner = some id) : Ends w (.drop i) id

variable {service : RunningService}

section Lists

variable {m m' : Shared} {id : Uuid} {name : String}

theorem Shared.Lists.of_running (h : m.Lists id) (hrunning : m'.running = m.running) :
    m'.Lists id := by
  obtain ⟨n, service, hs, hid⟩ := h
  exact ⟨n, service, hrunning ▸ hs, hid⟩

/-- An entry other than the one that is replaced stays. -/
theorem Shared.Lists.insert (h : m.Lists id) (name : String) (new : RunningService) :
    ({ m with running := m.running.insert name new } : Shared).Lists id ∨
      ∃ service, m.running[name]? = some service ∧ service.runnerId = id := by
  obtain ⟨n, service, hs, hid⟩ := h
  by_cases hn : name = n
  · subst hn
    exact .inr ⟨service, hs, hid⟩
  · refine .inl ⟨n, service, ?_, hid⟩
    show (m.running.insert name new)[n]? = _
    rw [getElem?_insert_ne hn, hs]

theorem Shared.Lists.erase (h : m.Lists id) :
    ({ m with running := m.running.erase name } : Shared).Lists id ∨
      ∃ service, m.running[name]? = some service ∧ service.runnerId = id := by
  obtain ⟨n, service, hs, hid⟩ := h
  by_cases hn : name = n
  · subst hn
    exact .inr ⟨service, hs, hid⟩
  · refine .inl ⟨n, service, ?_, hid⟩
    show (m.running.erase name)[n]? = _
    rw [getElem?_erase_ne hn, hs]

theorem lists_insert_self (m : Shared) (name : String) (service : RunningService) :
    ({ m with running := m.running.insert name service } : Shared).Lists service.runnerId :=
  ⟨name, service, TreeMap.getElem?_insert_self, rfl⟩

/-- An entry whose runner stays the same. -/
theorem Shared.Lists.update {new : RunningService} (h : m.Lists id)
    (hs : m.running[name]? = some service) (hnew : new.runnerId = service.runnerId) :
    ({ m with running := m.running.insert name new } : Shared).Lists id := by
  rcases h.insert name new with h | ⟨old, hold, rfl⟩
  · exact h
  · obtain rfl := Option.mem_unique hs hold
    rw [← hnew]
    exact lists_insert_self m name new

theorem Shared.Lists.reap (h : m.Lists id) (name : String) (fails : Bool) :
    (m.reapFinishedService name fails).Lists id ∨
      ∃ service, m.running[name]? = some service ∧ m.exited service.child fails = true ∧
        service.runnerId = id := by
  unfold Shared.reapFinishedService
  split
  · next service hs =>
    split
    · next hdead =>
      refine h.erase.imp_right ?_
      rintro ⟨old, hold, hid⟩
      obtain rfl := Option.mem_unique hs hold
      exact ⟨service, hs, hdead, hid⟩
    · exact .inl h
  · exact .inl h

theorem reapFinishedService_processes (m : Shared) (name : String) (fails : Bool) :
    (m.reapFinishedService name fails).processes = m.processes := by
  unfold Shared.reapFinishedService
  split
  · split <;> rfl
  · rfl

theorem Shared.Lists.reapFinished (h : m.Lists id) (failing : List String) :
    (m.reapFinished failing).Lists id ∨
      ∃ name service, m.running[name]? = some service ∧
        m.exited service.child (name ∈ failing) = true ∧ service.runnerId = id := by
  unfold Shared.reapFinished
  generalize m.running.keys = names
  induction names generalizing m with
  | nil => exact .inl h
  | cons name names ih =>
    rw [List.foldl_cons]
    rcases h.reap name (name ∈ failing) with h | ⟨service, hs, hdead, hid⟩
    · refine (ih h).imp_right ?_
      rintro ⟨n, service, hs, hdead, hid⟩
      refine ⟨n, service, lookup_of_reapFinishedService hs, ?_, hid⟩
      rwa [Shared.exited, Shared.alive, reapFinishedService_processes] at hdead
    · exact .inr ⟨name, service, hs, hdead, hid⟩

end Lists

/-! ### What a step keeps -/

section Kept

variable {m m' : Shared} {t : Task} {input : Input} {pc : Pc} {id : Uuid} {w w' : World}
  {a : Action}

/-- A runner of the map is still there, or with the task, or the task lets it go. -/
theorem kept_of_lists (h : advance m t input = some (m', pc)) (hid : m.Lists id) :
    m'.Lists id ∨ pc.runner = some id ∨ Loses m t input id := by
  obtain ⟨name, replacing, pc₀⟩ := t
  cases pc₀ <;> simp only [advance] at h
  case reapFirst | reapAgain =>
    cases h
    refine (hid.reap name input.tryWaitFails).imp_right fun hreaped => .inr ?_
    obtain ⟨service, hs, hdead, rfl⟩ := hreaped
    exact .reaped (by simp) hs hdead
  case reserve | checkRunning =>
    split at h <;> cases h <;> exact .inl (hid.of_running rfl)
  case launch =>
    split at h
    · cases h
      exact .inl hid
    · split at h <;> cases h <;> exact .inl (hid.of_running rfl)
  case insert runnerId child =>
    cases h
    refine (hid.insert _ _).imp_right fun hold => .inr ?_
    obtain ⟨service, hs, rfl⟩ := hold
    exact .replaced rfl hs
  case takeStdin runnerId =>
    split at h
    · cases h
      exact .inl hid
    · split at h
      · cases h
        exact .inl hid
      · next service hs =>
        split at h <;> cases h
        · exact .inl (hid.update hs rfl)
        · exact .inl hid
  case writeBootstrap | unpend =>
    split at h <;> cases h <;> exact .inl (hid.of_running rfl)
  case waitReady runnerId =>
    obtain ⟨result, -, heq⟩ := Option.map_eq_some_iff.mp h
    cases heq
    exact .inl hid
  case cleanup | take =>
    split at h <;> cases h
    · exact .inl hid
    · next service hs =>
      refine hid.erase.imp_right fun hold => .inl ?_
      obtain ⟨old, hold, rfl⟩ := hold
      obtain rfl := Option.mem_unique hs hold
      rfl
  case refuse | release =>
    cases h
    exact .inl (hid.of_running rfl)
  case killStarted | checkExited | terminate | recover | killDisplaced =>
    split at h <;> cases h <;> exact .inl (hid.of_running rfl)
  case restore service err =>
    split at h <;> cases h
    · exact .inl hid
    · next hnone =>
      refine (hid.insert _ _).imp_right fun hold => ?_
      obtain ⟨old, hold, -⟩ := hold
      cases hnone.symm.trans hold
  case returned | dropped => cases h

/-- A runner that is being stopped is back in the map, or still with the task, or
the task lets it go. -/
theorem kept_of_runner (h : advance m t input = some (m', pc)) (hid : t.pc.runner = some id) :
    m'.Lists id ∨ pc.runner = some id ∨ Loses m t input id := by
  obtain ⟨name, replacing, pc₀⟩ := t
  cases pc₀ <;> cases hid <;> simp only [advance] at h
  case killStarted service err => exact .inr (.inr (.givenUp (.inl rfl)))
  case killDisplaced service err => exact .inr (.inr (.givenUp (.inr rfl)))
  case checkExited service =>
    split at h <;> cases h
    · next hdead => exact .inr (.inr (.exited (.inl rfl) hdead))
    · exact .inr (.inl rfl)
  case terminate service =>
    split at h <;> cases h
    · next hkill => exact .inr (.inr (.killed rfl hkill))
    · exact .inr (.inl rfl)
  case recover service err =>
    split at h <;> cases h
    · next hdead => exact .inr (.inr (.exited (.inr ⟨err, rfl⟩) hdead))
    · exact .inr (.inl rfl)
  case restore service err =>
    split at h <;> cases h
    · exact .inr (.inl rfl)
    · exact .inl (lists_insert_self m name service)

/-- A runner stays in the map or with its task, unless the step ends it. -/
theorem World.Attends.step (h : w.Attends id) (hstep : Supervisor.step w a = some w') :
    w'.Attends id ∨ Ends w a id := by
  have harrive : ∀ new : List Task, ({ w with tasks := w.tasks ++ new } : World).Attends id := by
    intro new
    refine h.imp_right ?_
    rintro ⟨i, t, hi, hr⟩
    refine ⟨i, t, ?_, hr⟩
    show (w.tasks ++ new)[i]? = some t
    rw [List.getElem?_append_left (List.getElem?_eq_some_iff.mp hi).1, hi]
  have hshared : ∀ m : Shared, (w.shared.Lists id → m.Lists id) →
      ({ w with shared := m } : World).Attends id := fun m hm => h.imp_left hm
  cases a with
  | start | stop | replace | stopAll =>
    cases hstep
    exact .inl (harrive _)
  | reapFinished failing =>
    cases hstep
    rcases h with h | h
    · rcases h.reapFinished failing with h | ⟨name, service, hs, hdead, rfl⟩
      · exact .inl (.inl h)
      · exact .inr (.reaped hs hdead)
    · exact .inl (.inr h)
  | markReady name =>
    cases hstep
    refine .inl (hshared _ fun hl => ?_)
    unfold Shared.markReady
    split
    · next service hs => exact hl.update hs rfl
    · exact hl
  | signalReady runnerId =>
    cases hstep
    refine .inl (hshared _ fun hl => ?_)
    unfold Shared.signalReady
    split
    · exact hl.of_running rfl
    · exact hl
  | exit child =>
    cases hstep
    exact .inl (hshared _ fun hl => hl.of_running rfl)
  | proceed i input =>
    obtain ⟨t, hi, hstep⟩ := Option.bind_eq_some_iff.mp hstep
    obtain ⟨⟨m, pc⟩, hadv, rfl⟩ := Option.map_eq_some_iff.mp hstep
    -- what is kept is in the new map or with the task itself
    have hkept : m.Lists id ∨ pc.runner = some id ∨ Loses w.shared t input id →
        ({ w with shared := m, tasks := w.tasks.set i { t with pc := pc } } : World).Attends id ∨
          Ends w (.proceed i input) id := by
      rintro (hl | hr | hlost)
      · exact .inl (.inl hl)
      · exact .inl (.inr ⟨i, { t with pc := pc }, by simp [List.getElem?_set_self', hi], hr⟩)
      · exact .inr (.lost hi hlost)
    rcases h with h | ⟨j, u, hj, hr⟩
    · exact hkept (kept_of_lists hadv h)
    · by_cases hij : i = j
      · subst hij
        obtain rfl := Option.mem_unique hi hj
        exact hkept (kept_of_runner hadv hr)
      · exact .inl (.inr ⟨j, u, (List.getElem?_set_ne hij).trans hj, hr⟩)
  | drop i =>
    obtain ⟨t, hi, rfl⟩ := Option.map_eq_some_iff.mp hstep
    rcases h with h | ⟨j, u, hj, hr⟩
    · exact .inl (.inl h)
    · by_cases hij : i = j
      · subst hij
        obtain rfl := Option.mem_unique hi hj
        exact .inr (.dropped hi hr)
      · exact .inl (.inr ⟨j, u, (List.getElem?_set_ne hij).trans hj, hr⟩)

end Kept

end Imago.Supervisor

namespace Imago.Control

open Std (TreeMap TreeSet)

/-! ### What a section does to the runners and their connections -/

/-- A connect request between its check and its insertion. -/
def Pc.connecting : Pc → Bool
  | .probe | .insertConnection _ => true
  | _ => false

/-- The runner id of a service, as the control plane has it. -/
def World.runnerOf (w : World) (name : String) : Option String :=
  (w.services[name]?).map (·.runnerId)

variable {name : String}

section Sections

variable {c : Crypto} {w w' : World} {request : ControlRequest} {input : Input} {pc pc' : Pc}

theorem runnerOf_insert {services : TreeMap String RunningService} {new : RunningService}
    (hs : services[name]? = some service) (hnew : new.runnerId = service.runnerId) (n : String) :
    ((services.insert name new)[n]?).map (·.runnerId) = (services[n]?).map (·.runnerId) := by
  rw [getElem?_insert_ite]
  split
  · subst_vars
    rw [hs, Option.map_some, Option.map_some, hnew]
  · rfl

/-- A caller is served without a change of the runners; only a connect request
goes on to `probe`. -/
theorem serveCaller_spec {services : TreeMap String RunningService} {kind : RequestKind}
    (hs : services[name]? = some service) (n : String) :
    (((serveCaller c services kind name service input).1)[n]?).map (·.runnerId) =
      (services[n]?).map (·.runnerId) := by
  unfold serveCaller
  cases kind with
  | registerRunner serviceName releaseHash runnerEndpoint =>
    dsimp only
    split
    · rfl
    · split
      · rfl
      · refine runnerOf_insert hs ?_ n
        rfl
  | runnerReady | heartbeat =>
    refine runnerOf_insert hs ?_ n
    rfl
  | resolveInvocationTarget target wit =>
    dsimp only
    split
    · split
      · rfl
      · split
        · split <;> rfl
        · rfl
    · rfl
  | rpcConnectRemote | rpcDisconnectRemote => rfl
  | rpcInvokeRemote =>
    dsimp only
    split <;> rfl

section

variable (h : proceed c w request input pc = some (w', pc'))

include h

/-- No section changes the runners. -/
theorem runnerOf_proceed (n : String) :
    w'.runnerOf n = w.runnerOf n := by
  cases pc with
  | authorize name =>
    cases h
    show ((authorize c w.services request name input).1[n]?).map _ = _
    unfold authorize
    rcases hs : w.services[name]? with - | service
    · rfl
    · dsimp only
      split
      · rfl
      · split
        · rfl
        · exact serveCaller_spec hs n
  | unindex | reindex | forget | notifyReady | insertConnection =>
    cases h
    rfl
  | readIndex | validateIndexed | scan | probe | lookupConnection | invoke | disconnect =>
    unfold proceed at h
    dsimp only at h
    split at h <;> try split at h
    all_goals cases h
    all_goals rfl
  | done response => cases h

/-- Only an insertion gives a runner its first connection. -/
theorem remote_proceed {r : String}
    (hr : r ∈ w'.remote) : r ∈ w.remote ∨ (r = request.runnerId ∧ pc.connecting = true) := by
  cases pc with
  | insertConnection authority =>
    cases h
    rcases TreeMap.mem_insert.mp hr with heq | hr
    · exact .inr ⟨(Std.LawfulEqCmp.compare_eq_iff_eq.mp heq).symm, rfl⟩
    · exact .inl hr
  | disconnect =>
    left
    have hsub : ∀ connectionId, r ∈ (w.remote.disconnect request.runnerId connectionId).2 →
        r ∈ w.remote := by
      intro connectionId hr
      unfold RemoteConnections.disconnect at hr
      rcases hs : w.remote[request.runnerId]? with - | connections <;> rw [hs] at hr
      · exact hr
      · dsimp only at hr
        split at hr
        · exact (TreeMap.mem_erase.mp hr).2
        · rcases TreeMap.mem_insert.mp hr with heq | hr
          · rw [← Std.LawfulEqCmp.compare_eq_iff_eq.mp heq]
            exact TreeMap.mem_iff_isSome_getElem?.mpr (by rw [hs]; rfl)
          · exact hr
    unfold proceed at h
    dsimp only at h
    split at h
    · next connectionId hkind =>
      split at h <;> next remote hdisc => cases h; exact hsub connectionId (by rwa [hdisc])
    · cases h
  | unindex | reindex | forget | notifyReady | authorize =>
    cases h
    exact .inl hr
  | readIndex | validateIndexed | scan | probe | lookupConnection | invoke =>
    unfold proceed at h
    dsimp only at h
    left
    split at h <;> try split at h
    all_goals cases h
    all_goals exact hr
  | done response => cases h

/-- A connect request has its caller in the service map when it is checked. -/
theorem connecting_proceed (hpc : pc'.connecting = true) :
    pc.connecting = true ∨ ∃ name, w.runnerOf name = some request.runnerId := by
  cases pc with
  | authorize name =>
    right
    refine ⟨name, ?_⟩
    cases h
    unfold World.runnerOf
    rcases hs : w.services[name]? with - | service <;> rw [hs] at hpc
    · cases hpc
    · dsimp only at hpc
      split at hpc
      · cases hpc
      · next hid => exact congrArg some (Classical.not_not.mp hid)
  | probe | insertConnection => exact .inl rfl
  | unindex | reindex | forget | notifyReady =>
    cases h
    cases hpc
  | readIndex | validateIndexed | scan | lookupConnection | invoke | disconnect =>
    unfold proceed at h
    dsimp only at h
    split at h <;> try split at h
    all_goals cases h
    all_goals cases hpc
  | done response => cases h

end

end Sections

end Imago.Control

namespace Imago.ConnectionLifetime

open Std (TreeMap TreeSet)
open Control (ControlRequest)

/-! ### The two together -/

/-- The supervisor and the control plane that shares its service map. -/
structure World where
  supervisor : Supervisor.World
  control : Control.World

/-- Nothing has been started, and no request has come in. -/
def World.init : World where
  supervisor := .init
  control := ⟨∅, ∅, ∅, ∅, []⟩

/-- A step of the supervisor, or one of the control plane. -/
inductive Action
  /-- a step of the supervisor; what else the entries of the service map carry,
  the runner index and the pending starts are left open -/
  | supervise (a : Supervisor.Action) (detail : String → Control.RunningService)
      (runnerIndex : TreeMap String String) (pendingReady : TreeSet String)
  | receive (request : ControlRequest)
  | proceed (i : Nat) (input : Control.Input)

/-- `text` prints a runner id. -/
def step (c : Crypto) (text : Uuid → String) (w : World) : Action → Option World
  | .supervise a detail runnerIndex pendingReady =>
    (Supervisor.step w.supervisor a).map fun supervisor =>
      { supervisor := supervisor
        control := { w.control with
          services := supervisor.shared.running.map fun name service =>
            { detail name with runnerId := text service.runnerId }
          runnerIndex := runnerIndex
          pendingReady := pendingReady } }
  | .receive request =>
    (Control.step c w.control (.receive request)).map fun control => { w with control := control }
  | .proceed i input =>
    (Control.step c w.control (.proceed i input)).map fun control => { w with control := control }

/-- The runner with this printed id is in the running map or being stopped. -/
def World.Attended (text : Uuid → String) (w : World) (r : String) : Prop :=
  ∃ id, text id = r ∧ w.supervisor.Attends id

/-- A runner ends only when it has no connection and no connect request of it is
between its check and its insertion. -/
def EndsUnconnected (text : Uuid → String) (w : World) : Action → Prop
  | .supervise a _ _ _ => ∀ id, Supervisor.Ends w.supervisor a id →
      text id ∉ w.control.remote ∧
        ∀ h ∈ w.control.handlings, h.pc.connecting = true → h.request.runnerId ≠ text id
  | _ => True

/-! ### The invariant -/

/-- Both see the same runners, and each connection, also one that is being made, is
of a runner that is attended to. -/
structure Inv (text : Uuid → String) (w : World) : Prop where
  /-- the control plane sees the supervisor's runners -/
  runners : ∀ name, w.control.runnerOf name =
    (w.supervisor.shared.running[name]?).map fun service => text service.runnerId
  remote : ∀ r, r ∈ w.control.remote → w.Attended text r
  connecting : ∀ h ∈ w.control.handlings, h.pc.connecting = true →
    w.Attended text h.request.runnerId

section Invariant

variable {c : Crypto} {text : Uuid → String} {w w' : World}

theorem inv_init : Inv text World.init where
  runners name := by
    show ((∅ : TreeMap String Control.RunningService)[name]?).map _ =
      ((∅ : TreeMap String Supervisor.RunningService)[name]?).map _
    rw [TreeMap.getElem?_emptyc, TreeMap.getElem?_emptyc]
    rfl
  remote r hr := absurd hr TreeMap.not_mem_emptyc
  connecting h hh := by cases hh

/-- A runner in the service map is attended. -/
theorem Inv.attended (h : Inv text w) {r : String} (hr : w.control.runnerOf name = some r) :
    w.Attended text r := by
  rw [h.runners name] at hr
  obtain ⟨service, hs, rfl⟩ := Option.map_eq_some_iff.mp hr
  exact ⟨service.runnerId, rfl, .inl ⟨name, service, hs, rfl⟩⟩

theorem Inv.supervise (h : Inv text w) {a : Supervisor.Action}
    {detail : String → Control.RunningService} {runnerIndex : TreeMap String String}
    {pendingReady : TreeSet String}
    (hok : EndsUnconnected text w (.supervise a detail runnerIndex pendingReady))
    (hstep : step c text w (.supervise a detail runnerIndex pendingReady) = some w') :
    Inv text w' := by
  obtain ⟨supervisor, hsup, rfl⟩ := Option.map_eq_some_iff.mp hstep
  constructor
  · intro name
    show (((supervisor.shared.running.map _)[name]?).map _ : Option String) = _
    rw [TreeMap.getElem?_map, Option.map_map]
    rfl
  · intro r hr
    obtain ⟨id, rfl, hid⟩ := h.remote r hr
    rcases hid.step hsup with hid | hends
    · exact ⟨id, rfl, hid⟩
    · exact absurd hr (hok id hends).1
  · intro hd hmem hpc
    obtain ⟨id, hr, hid⟩ := h.connecting hd hmem hpc
    rcases hid.step hsup with hid | hends
    · exact ⟨id, hr, hid⟩
    · exact absurd hr.symm ((hok id hends).2 hd hmem hpc)

theorem Inv.receive (h : Inv text w) {request : ControlRequest}
    (hstep : step c text w (.receive request) = some w') : Inv text w' := by
  cases hstep
  refine ⟨h.runners, h.remote, fun hd hmem hpc => ?_⟩
  rcases List.mem_append.mp hmem with hmem | hmem
  · exact h.connecting hd hmem hpc
  · obtain rfl := List.mem_singleton.mp hmem
    cases hpc

theorem Inv.proceed (h : Inv text w) {i : Nat} {input : Control.Input}
    (hstep : step c text w (.proceed i input) = some w') : Inv text w' := by
  obtain ⟨control, hcontrol, rfl⟩ := Option.map_eq_some_iff.mp hstep
  obtain ⟨hd, control₁, pc', hi, hproceed, rfl⟩ := Control.step_proceed hcontrol
  have hhd : hd ∈ w.control.handlings := List.mem_of_getElem? hi
  constructor
  · exact fun name => (Control.runnerOf_proceed hproceed name).trans (h.runners name)
  · intro r hr
    rcases Control.remote_proceed hproceed hr with hr | ⟨rfl, hpc⟩
    · exact h.remote r hr
    · exact h.connecting hd hhd hpc
  · intro hd' hmem hpc
    rcases List.mem_or_eq_of_mem_set hmem with hmem | rfl
    · exact h.connecting hd' hmem hpc
    · rcases Control.connecting_proceed hproceed hpc with hpc | ⟨name, hname⟩
      · exact h.connecting hd hhd hpc
      · exact h.attended hname

theorem Inv.step {a : Action} (h : Inv text w) (hok : EndsUnconnected text w a)
    (hstep : ConnectionLifetime.step c text w a = some w') : Inv text w' := by
  cases a with
  | supervise a detail runnerIndex pendingReady => exact h.supervise hok hstep
  | receive request => exact h.receive hstep
  | proceed i input => exact h.proceed hstep

end Invariant

/-- **Connections of ended runners do not accumulate**: in every run of the
supervisor and the control plane in which a runner ends only without a
connection and without a connect request past its check, a runner id that has
connections is the id of a service in the running map or being stopped. -/
theorem connections_attended (c : Crypto) (text : Uuid → String) (as : List Action)
    (w : World) (hok : RunMeets (step c text) (EndsUnconnected text) World.init as)
    (hrun : run (step c text) World.init as = some w) :
    ∀ r, r ∈ w.control.remote → w.Attended text r := by
  have hinv : Inv text w :=
    run_invariant_of_meets (fun _ _ _ hinv hok hstep => hinv.step hok hstep) hok hrun inv_init
  exact hinv.remote

/-! ### Runs -/

section Sample

open Control (sampleCrypto sampleInput)

/-- The text of a runner id, to run the model with. -/
def sampleText (id : Uuid) : String := toString id.toNat

/-- A step of the supervisor beside which nothing else changes. -/
def supervised (a : Supervisor.Action) : Action :=
  .supervise a (fun _ => ⟨"h", true, "", "/run/s", "ab", "cd", [], "0"⟩) ∅ ∅

/-- Task `i` starts the service with this runner id, up to its readiness. -/
def starting (i : Nat) (id : Uuid) : List Action :=
  [supervised (.start "s")] ++ List.replicate 8 (supervised (.proceed i (.smooth id))) ++
    [supervised (.signalReady id)] ++ List.replicate 3 (supervised (.proceed i (.smooth id)))

/-- Task `i` stops it. -/
def stopping (i : Nat) (id : Uuid) : List Action :=
  [supervised (.stop "s")] ++ List.replicate 3 (supervised (.proceed i (.smooth id)))

/-- Request `i` of the runner connects it to a remote daemon. -/
def connecting (i : Nat) (id : Uuid) : List Action :=
  [.receive ⟨sampleText id, "ab", .rpcConnectRemote "rpc://host"⟩] ++
    List.replicate 6 (.proceed i sampleInput)

/-- Request `i` of the runner closes the connection. -/
def disconnecting (i : Nat) (id : Uuid) : List Action :=
  [.receive ⟨sampleText id, "ab", .rpcDisconnectRemote sampleInput.uuid⟩] ++
    List.replicate 4 (.proceed i sampleInput)

/-- The supervisor moves only while there is neither a connection nor a connect
request past its check. -/
def quietTest (w : World) : Action → Bool
  | .supervise _ _ _ _ =>
    w.control.remote.isEmpty && w.control.handlings.all fun h => !h.pc.connecting
  | _ => true

theorem endsUnconnected_of_quietTest {w : World} {a : Action} (h : quietTest w a = true) :
    EndsUnconnected sampleText w a := by
  cases a with
  | supervise a detail runnerIndex pendingReady =>
    intro id _
    obtain ⟨hempty, hall⟩ := Bool.and_eq_true_iff.mp h
    refine ⟨TreeMap.not_mem_of_isEmpty hempty, fun hd hmem hpc => ?_⟩
    have hnot := List.all_eq_true.mp hall hd hmem
    rw [hpc] at hnot
    cases hnot
  | receive | proceed => trivial

/-- A runner disconnects and is stopped; the next one is connected. -/
def sampleRun : List Action :=
  starting 0 1 ++ connecting 0 1 ++ disconnecting 1 1 ++ stopping 1 1 ++ starting 2 2 ++
    connecting 2 2

theorem connections_attended_restart :
    RunMeets (step sampleCrypto sampleText) (EndsUnconnected sampleText) World.init sampleRun ∧
      ∃ w, run (step sampleCrypto sampleText) World.init sampleRun = some w ∧
        "2" ∈ w.control.remote ∧ w.Attended sampleText "2" := by
  have hok : RunMeets (step sampleCrypto sampleText) (EndsUnconnected sampleText) World.init
      sampleRun :=
    RunMeets.of_meetsBy (fun _ _ => endsUnconnected_of_quietTest)
      (by decide +kernel : meetsBy (step sampleCrypto sampleText) quietTest World.init sampleRun
        = true)
  have hheld : (run (step sampleCrypto sampleText) World.init sampleRun).map
      (fun w => w.control.remote.contains "2") = some true := by
    decide +kernel
  obtain ⟨w, hrun, hmem⟩ := Option.map_eq_some_iff.mp hheld
  have hmem := TreeMap.contains_iff_mem.mp hmem
  exact ⟨hok, w, hrun, hmem, connections_attended sampleCrypto sampleText sampleRun w hok hrun "2"
    hmem⟩

/-- The runner connects, crashes and is reaped. -/
def crashRun : List Action :=
  starting 0 1 ++ connecting 0 1 ++ [supervised (.exit 0), supervised (.reapFinished [])]

/-- The connection of a runner that has crashed is still there. -/
theorem connection_left :
    ∃ w, run (step sampleCrypto sampleText) World.init crashRun = some w ∧
      "1" ∈ w.control.remote ∧ ¬ w.Attended sampleText "1" := by
  have hend : (run (step sampleCrypto sampleText) World.init crashRun).map
      (fun w => (w.control.remote.contains "1", w.supervisor.shared.running.isEmpty,
        w.supervisor.tasks.all fun t => t.pc.runner.isNone)) = some (true, true, true) := by
    decide +kernel
  obtain ⟨w, hrun, hw⟩ := Option.map_eq_some_iff.mp hend
  simp only [Prod.mk.injEq] at hw
  obtain ⟨hmem, hempty, hnone⟩ := hw
  refine ⟨w, hrun, TreeMap.contains_iff_mem.mp hmem, ?_⟩
  rintro ⟨id, -, ⟨name, service, hs, -⟩ | ⟨i, t, hi, hr⟩⟩
  · rw [TreeMap.getElem?_of_isEmpty hempty] at hs
    cases hs
  · have ht := List.all_eq_true.mp hnone t (List.mem_of_getElem? hi)
    rw [hr] at ht
    cases ht

end Sample

end Imago.ConnectionLifetime
