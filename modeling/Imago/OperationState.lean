/-
Imago/OperationState.lean

The operation manager: the table of the commands in flight, keyed by request
id, through which a `command.start` handler and any number of
`command.cancel` requests meet.  Every function below is one critical section
of the manager's lock, and `now` is what the clock returns inside it.

An entry says how far the command is (`phase`) and whether a cancel was
granted (`cancelRequested`).  Whoever comes first decides: a cancel is
granted only while the phase is `starting`, and `markSpawnedIfNotCanceled`,
which ends that phase, looks at the flag in the same critical section.

What a section does to the other entries, and what it reads of its own one,
is stated once per section (`getElem?_start`, …, `requestCancel_eq`); the
proofs about the handler use these and never look inside.
-/
import Imago.Errors
import Mathlib.Logic.Basic

namespace Imago

open Std (TreeMap)

/-! ### Commands -/

inductive CommandType
  | deploy | run | stop
  deriving DecidableEq, Repr

/-- Snapshot state of a command. -/
inductive CommandState
  | accepted | running | succeeded | failed | canceled
  deriving DecidableEq, Repr

/-- `is_terminal`. -/
def CommandState.isTerminal : CommandState → Bool
  | .succeeded | .failed | .canceled => true
  | .accepted | .running => false

structure CommandCancelResponse where
  cancellable : Bool
  finalState : CommandState
  deriving DecidableEq, Repr

structure StateResponse where
  requestId : Uuid
  state : CommandState
  stage : String
  updatedAt : String
  deriving DecidableEq, Repr

/-! ### The table -/

inductive OperationPhase
  | starting | spawned
  deriving DecidableEq, Repr

structure OperationEntry where
  state : CommandState
  stage : String
  updatedAt : String
  cancelRequested : Bool
  phase : OperationPhase
  deriving DecidableEq, Repr

/-- What the spawn transition found. -/
inductive SpawnTransition
  /-- the command goes on -/
  | spawned
  /-- a cancel was granted before -/
  | canceled
  deriving DecidableEq, Repr

abbrev OperationManager := TreeMap Uuid OperationEntry

/-- The error of a request for a command that is not (or no longer) in flight. -/
def notRunning (stage : String) : ImagodError := .new .notFound stage "request_id is not running"

namespace OperationManager

/-- Registers a new operation. -/
def start (m : OperationManager) (requestId : Uuid) (now : String) :
    Except ImagodError OperationManager :=
  if m.contains requestId then
    .error (.new .busy "command.start" "request_id is already running")
  else
    .ok (m.insert requestId
      { state := .accepted
        stage := "accepted"
        updatedAt := now
        cancelRequested := false
        phase := .starting })

def setState (m : OperationManager) (requestId : Uuid) (state : CommandState)
    (stage now : String) : Except ImagodError OperationManager :=
  match m[requestId]? with
  | none => .error (notRunning "operation.state")
  | some entry =>
    .ok (m.insert requestId { entry with state := state, stage := stage, updatedAt := now })

/-- Ends the `starting` phase, unless a cancel was granted in it. -/
def markSpawnedIfNotCanceled (m : OperationManager) (requestId : Uuid) (stage now : String) :
    Except ImagodError (SpawnTransition × OperationManager) :=
  match m[requestId]? with
  | none => .error (notRunning "operation.state")
  | some entry =>
    if entry.cancelRequested then
      .ok (.canceled, m.insert requestId
        { entry with
          stage := "cancel-pending"
          updatedAt := now
          phase := .spawned
          cancelRequested := false })
    else
      .ok (.spawned, m.insert requestId
        { entry with phase := .spawned, stage := stage, updatedAt := now })

/-- The answer to `state.request`. -/
def snapshotRunning (m : OperationManager) (requestId : Uuid) :
    Except ImagodError StateResponse :=
  match m[requestId]? with
  | none => .error (notRunning "state.request")
  | some entry =>
    if entry.state.isTerminal then .error (notRunning "state.request")
    else .ok ⟨requestId, entry.state, entry.stage, entry.updatedAt⟩

/-- The answer to `command.cancel`, and the table after it. -/
def requestCancel (m : OperationManager) (requestId : Uuid) (now : String) :
    Except ImagodError (CommandCancelResponse × OperationManager) :=
  match m[requestId]? with
  | none => .error (notRunning "command.cancel")
  | some entry =>
    if entry.state.isTerminal then .error (notRunning "command.cancel")
    else if entry.phase = .spawned then .ok (⟨false, entry.state⟩, m)
    else
      .ok (⟨true, .canceled⟩,
        m.insert requestId { entry with cancelRequested := true, updatedAt := now })

/-- Moves the operation to a terminal state; the entry stays. -/
def finish (m : OperationManager) (requestId : Uuid) (state : CommandState)
    (stage now : String) : OperationManager :=
  match m[requestId]? with
  | none => m
  | some entry =>
    m.insert requestId
      { entry with
        state := state
        stage := stage
        updatedAt := now
        phase := .spawned
        cancelRequested := false }

def remove (m : OperationManager) (requestId : Uuid) : OperationManager := m.erase requestId

/-! ### What each section finds and leaves -/

variable {m m' : OperationManager} {r k : Uuid} {e : OperationEntry} {now stage : String}

theorem getElem?_remove_self : (m.remove r)[r]? = none := TreeMap.getElem?_erase_self

theorem getElem?_remove_ne (h : r ≠ k) : (m.remove r)[k]? = m[k]? := getElem?_erase_ne h

/-- Only a free request id can be started, and the new entry is a starting one. -/
theorem start_eq_ok (h : m.start r now = .ok m') :
    m[r]? = none ∧ m' = m.insert r ⟨.accepted, "accepted", now, false, .starting⟩ := by
  unfold start at h
  split at h
  · cases h
  · rename_i hfree
    refine ⟨?_, (Except.ok.inj h).symm⟩
    exact TreeMap.getElem?_eq_none fun hmem => hfree (TreeMap.contains_iff_mem.mpr hmem)

theorem finish_eq (h : m[r]? = some e) (s : CommandState) :
    m.finish r s stage now = m.insert r ⟨s, stage, now, false, .spawned⟩ := by
  unfold finish
  rw [h]

/-- A cancel is answered from the entry of its request id, and only a starting
entry is touched by it. -/
theorem requestCancel_eq (h : m[r]? = some e) (hopen : e.state.isTerminal = false) :
    m.requestCancel r now
      = match e.phase with
        | .spawned => .ok (⟨false, e.state⟩, m)
        | .starting => .ok (⟨true, .canceled⟩,
            m.insert r { e with cancelRequested := true, updatedAt := now }) := by
  unfold requestCancel
  rw [h]
  cases hp : e.phase <;> simp [hopen, hp]

/-- A command that is not in the table, or has a terminal state there, cannot
be canceled. -/
theorem requestCancel_eq_error (h : ∀ e, m[r]? = some e → e.state.isTerminal = true) :
    m.requestCancel r now = .error (notRunning "command.cancel") := by
  unfold requestCancel
  rcases he : m[r]? with - | e
  · rfl
  · simp [h e he]

/-- **A granted cancel** found a starting entry, and has raised its flag. -/
theorem of_requestCancel_granted {resp : CommandCancelResponse}
    (h : m.requestCancel r now = .ok (resp, m')) (hgranted : resp.cancellable = true) :
    ∃ e, m[r]? = some e ∧ e.phase = .starting ∧
      m' = m.insert r { e with cancelRequested := true, updatedAt := now } := by
  rcases he : m[r]? with - | e
  · rw [requestCancel_eq_error (by simp [he])] at h
    cases h
  rcases hs : e.state.isTerminal with - | -
  · rw [requestCancel_eq he hs] at h
    rcases hp : e.phase with - | - <;> rw [hp] at h <;> cases h
    · exact ⟨e, rfl, hp, by rw [hp]⟩
    · cases hgranted
  · rw [requestCancel_eq_error (by simp [he, hs])] at h
    cases h

end OperationManager

end Imago
