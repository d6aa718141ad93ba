/-
Imago/Supervisor.lean

The service supervisor: `start`, `stop`, `replace`, `stop_all` and
`reap_finished`, running concurrently over the shared maps `inner`
(the running map), `starting_services` and `pending_ready`.

Every call is a task with a program counter `Pc`; one action is what a task
does between two await points, in most cases one critical section.  What the
operating system and the runner decide (whether a child can be spawned or
killed, whether `try_wait` works, when a process exits, how the wait for
readiness ends) is part of the action.  A task may also be dropped, since a
session aborts the tasks of its streams.

Child processes are entries of a process table and a handle is an index into
it: that a process is still alive although nobody has its handle any more can
then be said.

`Moves` sorts the transitions of one task by what they do to the shared maps
and to the handle the task has; `moves_of_advance` reads it off the code once
and every invariant works with it.  The first one, `Reservations`, is here:
a start between `reserve_start` and `release_start` has its name in
`starting_services`, and no other start of that name is between the two.
-/
import Imago.Errors
import Imago.Runs
import Std.Data.TreeSet.Lemmas
import Std.Data.TreeMap.Lemmas
import Mathlib.Data.List.Basic

namespace Imago.Supervisor

open Std (TreeMap TreeSet)

/-- `STAGE_START`. -/
def stageStart : String := "service.start"

/-- `STAGE_STOP`. -/
def stageStop : String := "service.stop"

/-! ### Shared state -/

/-- A child process: the service it was spawned for, and whether it still runs. -/
structure Process where
  service : String
  alive : Bool

/-- An entry of the running map.  `child` is the index of its process, `stdin`
says whether the pipe to the child is still in the handle. -/
structure RunningService where
  runnerId : Uuid
  child : Nat
  stdin : Bool
  isReady : Bool

/-- What the tasks share. -/
structure Shared where
  processes : List Process
  /-- the map `inner` -/
  running : TreeMap String RunningService
  startingServices : TreeSet String
  /-- the runners whose readiness somebody waits for -/
  pendingReady : TreeSet Uuid
  /-- the runners whose readiness has been signalled -/
  readySignals : TreeSet Uuid

namespace Shared

/-- The process has not exited. -/
def alive (m : Shared) (child : Nat) : Bool := (m.processes[child]?).any (·.alive)

/-- The process ends, by itself or because it was killed. -/
def exit (m : Shared) (child : Nat) : Shared :=
  { m with processes := m.processes.modify child fun p => { p with alive := false } }

/-- `try_wait` reports an exit status. -/
def exited (m : Shared) (child : Nat) (tryWaitFails : Bool) : Bool :=
  !tryWaitFails && !m.alive child

/-- `reap_finished_service`: an entry whose process has exited is taken out. -/
def reapFinishedService (m : Shared) (name : String) (tryWaitFails : Bool) : Shared :=
  match m.running[name]? with
  | some service =>
    if m.exited service.child tryWaitFails then { m with running := m.running.erase name }
    else m
  | none => m

/-- `reap_finished`: the names are collected first, then looked at one by one,
all under one lock. -/
def reapFinished (m : Shared) (failing : List String) : Shared :=
  m.running.keys.foldl (fun m name => m.reapFinishedService name (name ∈ failing)) m

/-- `runner_ready` of the control plane marks the service. -/
def markReady (m : Shared) (name : String) : Shared :=
  match m.running[name]? with
  | some service => { m with running := m.running.insert name { service with isReady := true } }
  | none => m

/-- `runner_ready` of the control plane takes the waiting sender and uses it. -/
def signalReady (m : Shared) (runnerId : Uuid) : Shared :=
  if runnerId ∈ m.pendingReady then
    { m with
      pendingReady := m.pendingReady.erase runnerId
      readySignals := m.readySignals.insert runnerId }
  else m

end Shared

/-! ### Tasks -/

/-- The name is taken. -/
def startBusyError (name : String) : ImagodError :=
  .new .busy stageStart ("service '" ++ name ++ "' is already running")

/-- There is nothing to stop. -/
def notRunningError (name : String) : ImagodError :=
  .new .notFound stageStop ("service '" ++ name ++ "' is not running")

/-- The entry was taken out while the runner was started. -/
def disappearedError (name : String) : ImagodError :=
  .new .internal stageStart ("service '" ++ name ++ "' disappeared before bootstrap write")

/-- The runner has no standard input. -/
def stdinError : ImagodError := .new .internal stageStart "runner stdin is not available"

/-- The runner exited before it was ready. -/
def exitedError (name : String) : ImagodError :=
  .new .internal stageStart ("service '" ++ name ++ "' exited before ready")

/-- The runner was not ready in time. -/
def timeoutError (name : String) : ImagodError :=
  .new .operationTimeout stageStart ("service '" ++ name ++ "' did not send runner_ready in time")

/-- `runner_ready_channel_closed_error`, with the runner id as it is printed. -/
def channelClosedError (runnerId : String) : ImagodError :=
  .new .internal stageStart
    ("runner '" ++ runnerId ++ "' readiness channel closed unexpectedly")

/-- Where a call is.  The first block is `start_internal`, the second `stop`. -/
inductive Pc
  | reapFirst
  | reserve
  | reapAgain
  | checkRunning
  | refuse
  | launch
  | insert (runnerId : Uuid) (child : Nat)
  | takeStdin (runnerId : Uuid)
  | writeBootstrap (runnerId : Uuid)
  | waitReady (runnerId : Uuid)
  | unpend (runnerId : Uuid) (spawned : Bool) (result : Except ImagodError Unit)
  | cleanup (err : ImagodError)
  | killStarted (service : RunningService) (err : ImagodError)
  | release (result : Except ImagodError Unit)
  | take
  | checkExited (service : RunningService)
  | terminate (service : RunningService)
  | recover (service : RunningService) (err : ImagodError)
  | restore (service : RunningService) (err : ImagodError)
  | killDisplaced (service : RunningService) (err : ImagodError)
  | returned (result : Except ImagodError Unit)
  | dropped

/-- A call of the supervisor; `replacing` makes a stop go on with a start. -/
structure Task where
  name : String
  replacing : Bool
  pc : Pc

/-- How the `select!` of `wait_for_runner_ready` ends. -/
inductive WaitEnd
  | ready | gone | timeout
  deriving DecidableEq

/-- What a step takes from outside.  `killed` is the outcome of ending a child
(graceful stop, kill and wait): on `.ok` the process has exited. -/
structure Input where
  tryWaitFails : Bool
  capacity : Except ImagodError Unit
  runnerId : Uuid
  runnerIdText : String
  spawned : Except ImagodError Unit
  encoded : Except ImagodError Unit
  written : Except ImagodError Unit
  wait : WaitEnd
  killed : Except ImagodError Unit

/-- The outside input of a step in which nothing fails. -/
def Input.smooth (runnerId : Uuid) : Input where
  tryWaitFails := false
  capacity := .ok ()
  runnerId := runnerId
  runnerIdText := ""
  spawned := .ok ()
  encoded := .ok ()
  written := .ok ()
  wait := .ready
  killed := .ok ()

/-- What the readiness channel of a runner holds: nothing yet, the signal, or
the news that its sender is gone. -/
def Shared.readySignal (m : Shared) (runnerId : Uuid) (text : String) :
    Option (Except ImagodError Unit) :=
  if runnerId ∈ m.readySignals then some (.ok ())
  else if runnerId ∈ m.pendingReady then none
  else some (.error (channelClosedError text))

/-- `wait_for_runner_exit` looks once. -/
def Shared.gone (m : Shared) (name : String) (tryWaitFails : Bool) : Bool :=
  match m.running[name]? with
  | some service => m.exited service.child tryWaitFails
  | none => true

/-- `wait_for_runner_ready`; `none` while the chosen branch is not ready. -/
def Shared.waitForRunnerReady (m : Shared) (name : String) (runnerId : Uuid) (input : Input) :
    Option (Except ImagodError Unit) :=
  match input.wait with
  | .ready => m.readySignal runnerId input.runnerIdText
  | .gone => if m.gone name input.tryWaitFails then some (.error (exitedError name)) else none
  | .timeout =>
    some ((m.readySignal runnerId input.runnerIdText).getD (.error (timeoutError name)))

/-- The end of `stop`: `replace` goes on with the start when the service has
been stopped or was not running. -/
def Task.afterStop (t : Task) (result : Except ImagodError Unit) : Pc :=
  match t.replacing, result with
  | true, .ok () => .reapFirst
  | true, .error e => if e.code = .notFound then .reapFirst else .returned (.error e)
  | false, result => .returned result

/-- One piece of work of a task, up to its next await point. -/
def advance (m : Shared) (t : Task) (input : Input) : Option (Shared × Pc) :=
  match t.pc with
  | .reapFirst => some (m.reapFinishedService t.name input.tryWaitFails, .reserve)
  | .reserve =>
    if t.name ∈ m.startingServices then some (m, .returned (.error (startBusyError t.name)))
    else some ({ m with startingServices := m.startingServices.insert t.name }, .reapAgain)
  | .reapAgain => some (m.reapFinishedService t.name input.tryWaitFails, .checkRunning)
  | .checkRunning =>
    match m.running[t.name]? with
    | some _ => some (m, .refuse)
    | none => some (m, .launch)
  | .refuse =>
    some ({ m with startingServices := m.startingServices.erase t.name },
      .returned (.error (startBusyError t.name)))
  | .launch =>
    match input.capacity with
    | .error e => some (m, .release (.error e))
    | .ok () =>
      let m := { m with pendingReady := m.pendingReady.insert input.runnerId }
      match input.spawned with
      | .error e => some (m, .unpend input.runnerId false (.error e))
      | .ok () =>
        some ({ m with processes := m.processes ++ [⟨t.name, true⟩] },
          .insert input.runnerId m.processes.length)
  | .insert runnerId child =>
    -- whatever the map holds under this name is replaced
    some ({ m with running := m.running.insert t.name ⟨runnerId, child, true, false⟩ },
      .takeStdin runnerId)
  | .takeStdin runnerId =>
    match input.encoded with
    | .error e => some (m, .unpend runnerId true (.error e))
    | .ok () =>
      match m.running[t.name]? with
      | none => some (m, .unpend runnerId true (.error (disappearedError t.name)))
      | some service =>
        if service.stdin then
          some ({ m with running := m.running.insert t.name { service with stdin := false } },
            .writeBootstrap runnerId)
        else some (m, .unpend runnerId true (.error stdinError))
  | .writeBootstrap runnerId =>
    match input.written with
    | .error e => some (m, .unpend runnerId true (.error e))
    | .ok () => some (m, .waitReady runnerId)
  | .waitReady runnerId =>
    (m.waitForRunnerReady t.name runnerId input).map fun result =>
      (m, .unpend runnerId true result)
  | .unpend runnerId spawned result =>
    let m := { m with pendingReady := m.pendingReady.erase runnerId }
    match result, spawned with
    | .error e, true => some (m, .cleanup e)
    | result, _ => some (m, .release result)
  | .cleanup err =>
    match m.running[t.name]? with
    | none => some (m, .release (.error err))
    | some service =>
      some ({ m with running := m.running.erase t.name }, .killStarted service err)
  | .killStarted service err =>
    match input.killed with
    | .ok () => some (m.exit service.child, .release (.error err))
    | .error _ => some (m, .release (.error err))
  | .release result =>
    some ({ m with startingServices := m.startingServices.erase t.name }, .returned result)
  | .take =>
    match m.running[t.name]? with
    | none => some (m, t.afterStop (.error (notRunningError t.name)))
    | some service => some ({ m with running := m.running.erase t.name }, .checkExited service)
  | .checkExited service =>
    if m.exited service.child input.tryWaitFails then
      some (m, t.afterStop (.error (notRunningError t.name)))
    else some (m, .terminate service)
  | .terminate service =>
    match input.killed with
    | .ok () => some (m.exit service.child, t.afterStop (.ok ()))
    | .error e => some (m, .recover service e)
  | .recover service err =>
    if m.exited service.child input.tryWaitFails then some (m, t.afterStop (.error err))
    else some (m, .restore service err)
  | .restore service err =>
    match m.running[t.name]? with
    | some _ => some (m, .killDisplaced service err)
    | none =>
      some ({ m with running := m.running.insert t.name service }, t.afterStop (.error err))
  | .killDisplaced service err =>
    match input.killed with
    | .ok () => some (m.exit service.child, t.afterStop (.error err))
    | .error _ => some (m, t.afterStop (.error err))
  | .returned _ => none
  | .dropped => none

/-! ### The system -/

/-- What the tasks share, and the tasks. -/
structure World where
  shared : Shared
  tasks : List Task

/-- Nothing has been started. -/
def World.init : World where
  shared := ⟨[], ∅, ∅, ∅, ∅⟩
  tasks := []

/-- A call, a step of a task, or something from outside. -/
inductive Action
  | start (name : String)
  | stop (name : String)
  | replace (name : String)
  | stopAll
  /-- `reap_finished`, with the names whose `try_wait` fails -/
  | reapFinished (failing : List String)
  | markReady (name : String)
  | signalReady (runnerId : Uuid)
  /-- a process ends by itself -/
  | exit (child : Nat)
  | proceed (i : Nat) (input : Input)
  /-- the future of a call is dropped -/
  | drop (i : Nat)

/-- One step of the world, if it is possible. -/
def step (w : World) : Action → Option World
  | .start name => some { w with tasks := w.tasks ++ [⟨name, false, .reapFirst⟩] }
  | .stop name => some { w with tasks := w.tasks ++ [⟨name, false, .take⟩] }
  | .replace name => some { w with tasks := w.tasks ++ [⟨name, true, .take⟩] }
  | .stopAll =>
    some { w with tasks := w.tasks ++ w.shared.running.keys.map fun n => ⟨n, false, .take⟩ }
  | .reapFinished failing => some { w with shared := w.shared.reapFinished failing }
  | .markReady name => some { w with shared := w.shared.markReady name }
  | .signalReady runnerId => some { w with shared := w.shared.signalReady runnerId }
  | .exit child => some { w with shared := w.shared.exit child }
  | .proceed i input =>
    (w.tasks[i]?).bind fun t =>
      (advance w.shared t input).map fun (m, pc) =>
        { w with shared := m, tasks := w.tasks.set i { t with pc := pc } }
  | .drop i =>
    (w.tasks[i]?).map fun t => { w with tasks := w.tasks.set i { t with pc := .dropped } }

/-! ### What a task can do -/

namespace Pc

/-- The child whose handle the task itself has. -/
def child : Pc → Option Nat
  | .insert _ child => some child
  | .killStarted service _ | .checkExited service | .terminate service | .recover service _
  | .restore service _ | .killDisplaced service _ => some service.child
  | _ => none

/-- The child that a stop in progress has taken out of the running map. -/
def stopping : Pc → Option Nat
  | .checkExited service | .terminate service | .recover service _ | .restore service _
  | .killDisplaced service _ => some service.child
  | _ => none

/-- The child that is killed now and let go whatever comes of it. -/
def givenUp : Pc → Option Nat
  | .killStarted service _ | .killDisplaced service _ => some service.child
  | _ => none

/-- Between `reserve_start` and `release_start`. -/
def reserved : Pc → Bool
  | .reapAgain | .checkRunning | .refuse | .launch | .insert _ _ | .takeStdin _
  | .writeBootstrap _ | .waitReady _ | .unpend _ _ _ | .cleanup _ | .killStarted _ _
  | .release _ => true
  | _ => false

/-- The start has found the running map empty and has not put its runner there yet. -/
def creating : Pc → Bool
  | .launch | .insert _ _ => true
  | _ => false

/-- `next` comes after `pc` inside the same part of the call, with the handle `held`. -/
structure Follows (pc next : Pc) (held : Option Nat) : Prop where
  child : next.child = held
  reserved : next.reserved = pc.reserved
  creating : next.creating = false

theorem stopping_eq_child {pc : Pc} {c : Nat} (h : pc.stopping = some c) : pc.child = some c := by
  cases pc <;> first | exact h | cases h

theorem givenUp_eq_child {pc : Pc} {c : Nat} (h : pc.givenUp = some c) : pc.child = some c := by
  cases pc <;> first | exact h | cases h

/-- A handle is with a stop or with a start that holds its reservation. -/
theorem stopping_or_reserved {pc : Pc} {c : Nat} (h : pc.child = some c) :
    pc.stopping = some c ∨ pc.reserved = true := by
  cases pc <;> first | exact .inl h | exact .inr rfl

end Pc

/-- The transitions of the task `t` in the shared state `m`: the new shared
state and the next program counter. -/
inductive Moves (m : Shared) (t : Task) (input : Input) : Shared → Pc → Prop
  | quiet {pending : TreeSet Uuid} {pc : Pc} (hpc : t.pc.Follows pc t.pc.child) :
      Moves m t input { m with pendingReady := pending } pc
  | reap {pc : Pc} (hchild : t.pc.child = none) (hpc : t.pc.Follows pc none) :
      Moves m t input (m.reapFinishedService t.name input.tryWaitFails) pc
  | reserve (hpc : t.pc = .reserve) (hfree : t.name ∉ m.startingServices) :
      Moves m t input { m with startingServices := m.startingServices.insert t.name } .reapAgain
  | free (hpc : t.pc = .checkRunning) (hnone : m.running[t.name]? = none) :
      Moves m t input m .launch
  | spawn {pending : TreeSet Uuid} (hpc : t.pc = .launch) :
      Moves m t input
        { m with pendingReady := pending, processes := m.processes ++ [⟨t.name, true⟩] }
        (.insert input.runnerId m.processes.length)
  | insert {runnerId : Uuid} {child : Nat} (hpc : t.pc = .insert runnerId child) :
      Moves m t input
        { m with running := m.running.insert t.name ⟨runnerId, child, true, false⟩ }
        (.takeStdin runnerId)
  | takeStdin {service : RunningService} {pc : Pc} (hs : m.running[t.name]? = some service)
      (hpc : t.pc.Follows pc t.pc.child) :
      Moves m t input
        { m with running := m.running.insert t.name { service with stdin := false } } pc
  | takeOut {service : RunningService} {pc : Pc} (hs : m.running[t.name]? = some service)
      (hchild : t.pc.child = none) (hpc : t.pc.Follows pc (some service.child)) :
      Moves m t input { m with running := m.running.erase t.name } pc
  | putBack {service : RunningService} {pc : Pc} (hs : m.running[t.name]? = none)
      (hchild : t.pc.child = some service.child) (hpc : t.pc.Follows pc none) :
      Moves m t input { m with running := m.running.insert t.name service } pc
  | ended {child : Nat} {pc : Pc} (hdead : m.alive child = false)
      (hchild : t.pc.child = some child) (hpc : t.pc.Follows pc none) :
      Moves m t input m pc
  | killed {child : Nat} {pc : Pc} (hchild : t.pc.child = some child)
      (hpc : t.pc.Follows pc none) :
      Moves m t input (m.exit child) pc
  | abandoned {child : Nat} {pc : Pc} {e : ImagodError} (hchild : t.pc.givenUp = some child)
      (hkill : input.killed = .error e) (hpc : t.pc.Follows pc none) :
      Moves m t input m pc
  | release {result : Except ImagodError Unit} (hres : t.pc.reserved = true)
      (hchild : t.pc.child = none) :
      Moves m t input { m with startingServices := m.startingServices.erase t.name }
        (.returned result)

variable {m m' : Shared} {t : Task} {input : Input} {pc : Pc}

theorem alive_eq_false_of_exited {child : Nat} {fails : Bool} (h : m.exited child fails = true) :
    m.alive child = false := by
  simp only [Shared.exited, Bool.and_eq_true, Bool.not_eq_true'] at h
  exact h.2

/-- What comes after a stop is outside a reservation and has no handle. -/
theorem follows_afterStop (hres : t.pc.reserved = false) (result : Except ImagodError Unit) :
    t.pc.Follows (t.afterStop result) none := by
  have hafter : t.afterStop result = .reapFirst ∨ ∃ r, t.afterStop result = .returned r := by
    unfold Task.afterStop
    split
    · exact .inl rfl
    · split
      · exact .inl rfl
      · exact .inr ⟨_, rfl⟩
    · exact .inr ⟨_, rfl⟩
  obtain h | ⟨r, h⟩ := hafter <;> rw [h] <;> exact ⟨rfl, hres.symm, rfl⟩

theorem moves_of_advance (h : advance m t input = some (m', pc)) : Moves m t input m' pc := by
  obtain ⟨name, replacing, pc₀⟩ := t
  cases pc₀ <;> simp only [advance] at h
  case reapFirst | reapAgain =>
    cases h
    exact .reap rfl ⟨rfl, rfl, rfl⟩
  case reserve =>
    split at h <;> cases h
    · exact .quiet ⟨rfl, rfl, rfl⟩
    · next hfree => exact .reserve rfl hfree
  case checkRunning =>
    split at h <;> cases h
    · exact .quiet ⟨rfl, rfl, rfl⟩
    · next hnone => exact .free rfl hnone
  case launch =>
    split at h
    · cases h
      exact .quiet ⟨rfl, rfl, rfl⟩
    · split at h <;> cases h
      · exact .quiet ⟨rfl, rfl, rfl⟩
      · exact .spawn rfl
  case insert runnerId child =>
    cases h
    exact .insert rfl
  case takeStdin runnerId =>
    split at h
    · cases h
      exact .quiet ⟨rfl, rfl, rfl⟩
    · split at h
      · cases h
        exact .quiet ⟨rfl, rfl, rfl⟩
      · next service hs =>
        split at h <;> cases h
        · exact .takeStdin hs ⟨rfl, rfl, rfl⟩
        · exact .quiet ⟨rfl, rfl, rfl⟩
  case writeBootstrap runnerId =>
    split at h <;> cases h <;> exact .quiet ⟨rfl, rfl, rfl⟩
  case waitReady runnerId =>
    obtain ⟨result, -, heq⟩ := Option.map_eq_some_iff.mp h
    cases heq
    exact .quiet ⟨rfl, rfl, rfl⟩
  case unpend runnerId spawned result =>
    split at h <;> cases h <;> exact .quiet ⟨rfl, rfl, rfl⟩
  case cleanup err =>
    split at h <;> cases h
    · exact .quiet ⟨rfl, rfl, rfl⟩
    · next service hs => exact .takeOut hs rfl ⟨rfl, rfl, rfl⟩
  case killStarted service err =>
    split at h <;> cases h
    · exact .killed rfl ⟨rfl, rfl, rfl⟩
    · next hkill => exact .abandoned rfl hkill ⟨rfl, rfl, rfl⟩
  case refuse | release =>
    cases h
    exact .release rfl rfl
  case take =>
    split at h <;> cases h
    · exact .quiet (follows_afterStop rfl _)
    · next service hs => exact .takeOut hs rfl ⟨rfl, rfl, rfl⟩
  case checkExited service =>
    split at h <;> cases h
    · next hdead => exact .ended (alive_eq_false_of_exited hdead) rfl (follows_afterStop rfl _)
    · exact .quiet ⟨rfl, rfl, rfl⟩
  case terminate service =>
    split at h <;> cases h
    · exact .killed rfl (follows_afterStop rfl _)
    · exact .quiet ⟨rfl, rfl, rfl⟩
  case recover service err =>
    split at h <;> cases h
    · next hdead => exact .ended (alive_eq_false_of_exited hdead) rfl (follows_afterStop rfl _)
    · exact .quiet ⟨rfl, rfl, rfl⟩
  case restore service err =>
    split at h <;> cases h
    · exact .quiet ⟨rfl, rfl, rfl⟩
    · next hnone => exact .putBack hnone rfl (follows_afterStop rfl _)
  case killDisplaced service err =>
    split at h <;> cases h
    · exact .killed rfl (follows_afterStop rfl _)
    · next hkill => exact .abandoned rfl hkill (follows_afterStop rfl _)
  case returned | dropped => cases h

/-! ### What the system can do -/

/-- A call that has just arrived. -/
def Task.Fresh (t : Task) : Prop := t.pc = .reapFirst ∨ t.pc = .take

/-- What changes the shared state besides the tasks. -/
inductive Outside (m : Shared) : Shared → Prop
  | reapFinished (failing : List String) : Outside m (m.reapFinished failing)
  | markReady (name : String) : Outside m (m.markReady name)
  | signalReady (runnerId : Uuid) : Outside m (m.signalReady runnerId)
  | exit (child : Nat) : Outside m (m.exit child)

/-- The steps of the system. -/
inductive Steps (w : World) : Action → World → Prop
  | arrive {a : Action} (new : List Task) (hnew : ∀ t ∈ new, t.Fresh) :
      Steps w a { w with tasks := w.tasks ++ new }
  | outside {a : Action} {m : Shared} (h : Outside w.shared m) : Steps w a { w with shared := m }
  | proceed {i : Nat} {input : Input} {t : Task} {m : Shared} {pc : Pc}
      (hi : w.tasks[i]? = some t) (h : Moves w.shared t input m pc) :
      Steps w (.proceed i input)
        { w with shared := m, tasks := w.tasks.set i { t with pc := pc } }
  | drop {i : Nat} {t : Task} (hi : w.tasks[i]? = some t) :
      Steps w (.drop i) { w with tasks := w.tasks.set i { t with pc := .dropped } }

variable {w w' : World} {a : Action}

theorem steps_of_step (h : step w a = some w') : Steps w a w' := by
  cases a with
  | start name | replace name | stop name =>
    cases h
    refine .arrive _ fun t ht => ?_
    rw [List.mem_singleton.mp ht]
    first | exact .inl rfl | exact .inr rfl
  | stopAll =>
    cases h
    refine .arrive _ fun t ht => ?_
    obtain ⟨name, -, rfl⟩ := List.mem_map.mp ht
    exact .inr rfl
  | reapFinished failing =>
    cases h
    exact .outside (.reapFinished failing)
  | markReady name =>
    cases h
    exact .outside (.markReady name)
  | signalReady runnerId =>
    cases h
    exact .outside (.signalReady runnerId)
  | exit child =>
    cases h
    exact .outside (.exit child)
  | proceed i input =>
    obtain ⟨t, hi, h⟩ := Option.bind_eq_some_iff.mp h
    obtain ⟨⟨m, pc⟩, hadv, rfl⟩ := Option.map_eq_some_iff.mp h
    exact .proceed hi (moves_of_advance hadv)
  | drop i =>
    obtain ⟨t, hi, rfl⟩ := Option.map_eq_some_iff.mp h
    exact .drop hi

/-! ### Reservations -/

@[simp] theorem reapFinishedService_startingServices (m : Shared) (name : String) (fails : Bool) :
    (m.reapFinishedService name fails).startingServices = m.startingServices := by
  unfold Shared.reapFinishedService
  split
  · split <;> rfl
  · rfl

theorem Outside.startingServices (h : Outside m m') :
    m'.startingServices = m.startingServices := by
  cases h with
  | reapFinished failing =>
    unfold Shared.reapFinished
    generalize m.running.keys = names
    induction names generalizing m with
    | nil => rfl
    | cons name names ih => rw [List.foldl_cons, ih, reapFinishedService_startingServices]
  | markReady name =>
    unfold Shared.markReady
    split <;> rfl
  | signalReady runnerId =>
    unfold Shared.signalReady
    split <;> rfl
  | exit child => rfl

/-- How a transition changes the reservations: not at all, or the task takes
one for a free name, or it gives its own back. -/
theorem Moves.reservation (h : Moves m t input m' pc) :
    (m'.startingServices = m.startingServices ∧ pc.reserved = t.pc.reserved)
    ∨ (t.pc.reserved = false ∧ pc.reserved = true ∧ t.name ∉ m.startingServices
        ∧ m'.startingServices = m.startingServices.insert t.name)
    ∨ (t.pc.reserved = true ∧ pc.reserved = false
        ∧ m'.startingServices = m.startingServices.erase t.name) := by
  cases h with
  | quiet hpc | takeStdin _ hpc | takeOut _ _ hpc | putBack _ _ hpc | ended _ _ hpc
  | killed _ hpc | abandoned _ _ hpc => exact .inl ⟨rfl, hpc.reserved⟩
  | reap _ hpc => exact .inl ⟨reapFinishedService_startingServices .., hpc.reserved⟩
  | free hpc | spawn hpc | insert hpc => exact .inl ⟨rfl, by rw [hpc]; rfl⟩
  | reserve hpc hfree => exact .inr (.inl ⟨by rw [hpc]; rfl, rfl, hfree, rfl⟩)
  | release hres => exact .inr (.inr ⟨hres, rfl, rfl⟩)

/-- Every start between its reservation and its release has its name in
`starting_services`, and it is the only one for that name. -/
structure Reservations (w : World) : Prop where
  listed : ∀ {i : Nat} {t : Task}, w.tasks[i]? = some t → t.pc.reserved = true →
    t.name ∈ w.shared.startingServices
  exclusive : ∀ {i j : Nat} {t u : Task}, w.tasks[i]? = some t → w.tasks[j]? = some u →
    t.pc.reserved = true → u.pc.reserved = true → t.name = u.name → i = j

theorem reservations_init : Reservations World.init where
  listed hi := by cases hi
  exclusive hi := by cases hi

theorem Task.Fresh.reserved {t : Task} (h : t.Fresh) : t.pc.reserved = false := by
  rcases h with h | h <;> rw [h] <;> rfl

/-- Reservations are kept when every reserved task was reserved before, under
its name, and no name that such a task has leaves the set. -/
theorem Reservations.of_old (h : Reservations w)
    (hold : ∀ {i : Nat} {t : Task}, w'.tasks[i]? = some t → t.pc.reserved = true →
      t.name ∈ w'.shared.startingServices ∧
      ∃ u, w.tasks[i]? = some u ∧ u.pc.reserved = true ∧ u.name = t.name) :
    Reservations w' where
  listed hi hres := (hold hi hres).1
  exclusive hi hj hti huj hname := by
    obtain ⟨-, t₀, hi₀, ht₀, hn₀⟩ := hold hi hti
    obtain ⟨-, u₀, hj₀, hu₀, hm₀⟩ := hold hj huj
    exact h.exclusive hi₀ hj₀ ht₀ hu₀ (by rw [hn₀, hm₀, hname])

theorem Reservations.proceed (h : Reservations w) {i : Nat} (hi : w.tasks[i]? = some t)
    (hmove : Moves w.shared t input m pc) :
    Reservations { w with shared := m, tasks := w.tasks.set i { t with pc := pc } } := by
  rcases hmove.reservation with ⟨hset, hres⟩ | ⟨-, hres, hfree, hset⟩ | ⟨hres, hres', hset⟩
  · refine h.of_old fun {j u} hj hu => ?_
    rcases getElem?_set_cases hj with ⟨rfl, rfl⟩ | ⟨-, hj⟩
    · have ht : t.pc.reserved = true := hres.symm.trans hu
      exact ⟨by show t.name ∈ m.startingServices; rw [hset]; exact h.listed hi ht, t, hi, ht, rfl⟩
    · exact ⟨by show u.name ∈ m.startingServices; rw [hset]; exact h.listed hj hu, u, hj, hu, rfl⟩
  · -- nobody else can be reserved under a name that was free
    have hother : ∀ {j : Nat} {u : Task}, w.tasks[j]? = some u → u.pc.reserved = true →
        u.name ≠ t.name :=
      fun hj hu hname => hfree (hname ▸ h.listed hj hu)
    refine ⟨fun {j u} hj hu => ?_, fun {j k u v} hj hk hu hv hname => ?_⟩
    · show u.name ∈ m.startingServices
      rw [hset, TreeSet.mem_insert]
      rcases getElem?_set_cases hj with ⟨-, rfl⟩ | ⟨-, hj⟩
      · exact .inl Std.ReflCmp.compare_self
      · exact .inr (h.listed hj hu)
    · rcases getElem?_set_cases hj with ⟨hji, rfl⟩ | ⟨-, hj⟩ <;>
        rcases getElem?_set_cases hk with ⟨hki, rfl⟩ | ⟨-, hk⟩
      · rw [hji, hki]
      · exact absurd hname.symm (hother hk hv)
      · exact absurd hname (hother hj hu)
      · exact h.exclusive hj hk hu hv hname
  · refine h.of_old fun {j u} hj hu => ?_
    rcases getElem?_set_cases hj with ⟨rfl, rfl⟩ | ⟨hne, hj⟩
    · cases hres'.symm.trans hu
    · refine ⟨?_, u, hj, hu, rfl⟩
      show u.name ∈ m.startingServices
      rw [hset, TreeSet.mem_erase]
      -- another reserved task has another name
      exact ⟨fun heq => hne (h.exclusive hj hi hu hres
        (Std.LawfulEqCmp.compare_eq_iff_eq.mp heq).symm), h.listed hj hu⟩

theorem Reservations.step (h : Reservations w) (hstep : step w a = some w') :
    Reservations w' := by
  cases steps_of_step hstep with
  | arrive new hnew =>
    refine h.of_old fun {i t} hi ht => ?_
    rcases getElem?_append_cases hi with hi | ⟨-, hmem⟩
    · exact ⟨h.listed hi ht, t, hi, ht, rfl⟩
    · cases (hnew t hmem).reserved.symm.trans ht
  | outside hout =>
    refine h.of_old fun {i t} hi ht => ⟨?_, t, hi, ht, rfl⟩
    show t.name ∈ _
    rw [hout.startingServices]
    exact h.listed hi ht
  | proceed hi hmove => exact h.proceed hi hmove
  | drop hi =>
    refine h.of_old fun {j u} hj hu => ?_
    rcases getElem?_set_cases hj with ⟨-, rfl⟩ | ⟨-, hj⟩
    · cases hu
    · exact ⟨h.listed hj hu, u, hj, hu, rfl⟩

/-- Reservations are in order in every run, whatever is dropped. -/
theorem reservations_of_run {as : List Action} (hrun : run step World.init as = some w) :
    Reservations w :=
  run_invariant (fun _ _ _ h hs => Reservations.step h hs) hrun reservations_init

end Imago.Supervisor
