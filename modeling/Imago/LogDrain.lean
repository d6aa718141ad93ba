/-
Imago/LogDrain.lean

The log of one running service while it is written: the runner writes to its two
output pipes, and for each pipe a detached task (`spawn_log_drain`) reads a
chunk, appends it to the ring under the ring's lock, and then broadcasts it.
These are three steps, between which the other task and everybody who looks at
the ring may run.

Beside the state of the code a `Logs` records what was written to each pipe and
the events in the order in which they were appended and in which they were
broadcast.  `Flow` is what every step keeps: what was written to a pipe is what
was drained from it, then what its task has in its hands, then what is still in
the pipe; and the ring holds the last bytes that were drained.
-/
import Imago.LogBuffer
import Imago.Runs
import Mathlib.Logic.Function.Basic

namespace Imago

/-- Where a drain is, each with the event it is working on. -/
inductive DrainPc
  | reading
  | pushing (event : ServiceLogEvent)
  | sending (event : ServiceLogEvent)
  | finished

/-- A pipe and the task at its end. -/
structure Drain where
  pipe : List UInt8
  pc : DrainPc

/-- The logs of one runner. -/
structure Logs where
  /-- the runner process -/
  alive : Bool
  drain : ServiceLogStream → Drain
  ring : BoundedLogEventBuffer
  /-- what the runner has written to each pipe -/
  written : ServiceLogStream → List UInt8
  /-- the events in the order of the ring -/
  drained : List ServiceLogEvent
  /-- the events in the order of the broadcast -/
  sent : List ServiceLogEvent

def Logs.init (maxBytes : Nat) : Logs where
  alive := true
  drain _ := ⟨[], .reading⟩
  ring := .new maxBytes
  written _ := []
  drained := []
  sent := []

/-- The size of a drain's read buffer. -/
def drainChunkBytes : Nat := 8192

inductive LogAction
  | output (stream : ServiceLogStream) (bytes : List UInt8)
  /-- the process ends -/
  | exit
  /-- a read returns `n` bytes, at this clock reading -/
  | read (stream : ServiceLogStream) (n now : Nat)
  | push (stream : ServiceLogStream)
  | send (stream : ServiceLogStream)
  | eof (stream : ServiceLogStream)
  | readError (stream : ServiceLogStream)

def Logs.setDrain (l : Logs) (stream : ServiceLogStream) (d : Drain) : Logs :=
  { l with drain := Function.update l.drain stream d }

def logStep (l : Logs) : LogAction → Option Logs
  | .output stream bytes =>
    if l.alive then
      some { l.setDrain stream { l.drain stream with pipe := (l.drain stream).pipe ++ bytes } with
        written := Function.update l.written stream (l.written stream ++ bytes) }
    else none
  | .exit => some { l with alive := false }
  | .read stream n now =>
    match l.drain stream with
    | ⟨pipe, .reading⟩ =>
      if 0 < n ∧ n ≤ drainChunkBytes ∧ n ≤ pipe.length then
        some (l.setDrain stream ⟨pipe.drop n, .pushing ⟨stream, pipe.take n, now⟩⟩)
      else none
    | _ => none
  | .push stream =>
    match l.drain stream with
    | ⟨pipe, .pushing event⟩ =>
      some { l.setDrain stream ⟨pipe, .sending event⟩ with
        ring := l.ring.push event
        drained := l.drained ++ [event] }
    | _ => none
  | .send stream =>
    match l.drain stream with
    | ⟨pipe, .sending event⟩ =>
      some { l.setDrain stream ⟨pipe, .reading⟩ with sent := l.sent ++ [event] }
    | _ => none
  | .eof stream =>
    match l.drain stream with
    -- the end of the pipe is there when its writer is gone
    | ⟨[], .reading⟩ => if l.alive then none else some (l.setDrain stream ⟨[], .finished⟩)
    | _ => none
  | .readError stream =>
    match l.drain stream with
    | ⟨pipe, .reading⟩ => some (l.setDrain stream ⟨pipe, .finished⟩)
    | _ => none

/-- The bytes that a task has read and not yet appended. -/
def DrainPc.held : DrainPc → List UInt8
  | .pushing event => event.bytes
  | _ => []

/-- No byte is lost or made up. -/
structure Flow (l : Logs) : Prop where
  written : ∀ stream, l.written stream =
    bytesOf (l.drained.filter fun e => e.stream = stream) ++
      ((l.drain stream).pc.held ++ (l.drain stream).pipe)
  pushing : ∀ stream event, (l.drain stream).pc = .pushing event →
    event.stream = stream ∧ event.bytes ≠ []
  ring : bytesOf l.ring.events = (bytesOf l.drained).rtake l.ring.maxBytes

section Flow

variable {l l' : Logs} {a : LogAction} {stream : ServiceLogStream}

@[simp] theorem setDrain_self (l : Logs) (stream : ServiceLogStream) (d : Drain) :
    (l.setDrain stream d).drain stream = d := Function.update_self ..

theorem setDrain_ne (l : Logs) {stream s : ServiceLogStream} (d : Drain) (h : s ≠ stream) :
    (l.setDrain stream d).drain s = l.drain s := Function.update_of_ne h ..

theorem flow_init (maxBytes : Nat) : Flow (.init maxBytes) where
  written _ := rfl
  pushing _ _ h := nomatch h
  ring := by
    show [] = List.rtake [] _
    rw [List.rtake_nil]

/-- A task moves without losing a byte of its pipe. -/
theorem Flow.setDrain (h : Flow l) (stream : ServiceLogStream) {d : Drain}
    (hbytes : d.pc.held ++ d.pipe = (l.drain stream).pc.held ++ (l.drain stream).pipe)
    (hpush : ∀ event, d.pc = .pushing event → event.stream = stream ∧ event.bytes ≠ []) :
    Flow (l.setDrain stream d) where
  written s := by
    refine (h.written s).trans ?_
    by_cases hs : s = stream
    · subst hs
      rw [setDrain_self, hbytes]
      rfl
    · rw [setDrain_ne _ _ hs]
      rfl
  pushing s event he := by
    by_cases hs : s = stream
    · subst hs
      rw [setDrain_self] at he
      exact hpush event he
    · rw [setDrain_ne _ _ hs] at he
      exact h.pushing s event he
  ring := h.ring

/-- The runner writes. -/
theorem Flow.output (h : Flow l) (bytes : List UInt8) :
    Flow { l.setDrain stream { l.drain stream with pipe := (l.drain stream).pipe ++ bytes } with
      written := Function.update l.written stream (l.written stream ++ bytes) } where
  written s := by
    by_cases hs : s = stream
    · subst hs
      show Function.update l.written s (l.written s ++ bytes) s = _ ++ (_ ++
        ((l.setDrain s _).drain s).pipe)
      rw [Function.update_self, setDrain_self, h.written s]
      simp only [List.append_assoc]
      rfl
    · show Function.update l.written stream _ s = _ ++ (((l.setDrain stream _).drain s).pc.held ++
        ((l.setDrain stream _).drain s).pipe)
      rw [Function.update_of_ne hs, setDrain_ne _ _ hs]
      exact h.written s
  pushing s event he := by
    change ((l.setDrain stream _).drain s).pc = _ at he
    by_cases hs : s = stream
    · subst hs
      rw [setDrain_self] at he
      exact h.pushing s event he
    · rw [setDrain_ne _ _ hs] at he
      exact h.pushing s event he
  ring := h.ring

/-- A task appends its event to the ring. -/
theorem Flow.push (h : Flow l) {pipe : List UInt8} {event : ServiceLogEvent}
    (hd : l.drain stream = ⟨pipe, .pushing event⟩) :
    Flow { l.setDrain stream ⟨pipe, .sending event⟩ with
      ring := l.ring.push event
      drained := l.drained ++ [event] } where
  written s := by
    obtain ⟨hstream, -⟩ := h.pushing stream event (by rw [hd])
    show l.written s = bytesOf ((l.drained ++ [event]).filter _) ++
      (((l.setDrain stream _).drain s).pc.held ++ ((l.setDrain stream _).drain s).pipe)
    rw [h.written s, List.filter_append, bytesOf_append, List.append_assoc]
    by_cases hs : s = stream
    · subst hs
      rw [setDrain_self, hd]
      simp [hstream, DrainPc.held]
    · rw [setDrain_ne _ _ hs, List.filter_singleton]
      simp [hstream, Ne.symm hs]
  pushing s e he := by
    change ((l.setDrain stream _).drain s).pc = _ at he
    by_cases hs : s = stream
    · subst hs
      rw [setDrain_self] at he
      cases he
    · rw [setDrain_ne _ _ hs] at he
      exact h.pushing s e he
  ring := by
    show bytesOf (l.ring.push event).events = (bytesOf (l.drained ++ [event])).rtake _
    rw [BoundedLogEventBuffer.bytesOf_push, BoundedLogEventBuffer.maxBytes_push, h.ring,
      rtake_rtake_append, bytesOf_append]
    simp

/-- What is written is in the ring, in a task's hands or in a pipe. -/
theorem Flow.step (h : Flow l) (hstep : logStep l a = some l') : Flow l' := by
  cases a with simp only [logStep] at hstep
  | output stream bytes =>
    split at hstep
    · cases hstep
      exact h.output bytes
    · cases hstep
  | exit =>
    cases hstep
    exact ⟨h.written, h.pushing, h.ring⟩
  | read stream n now =>
    split at hstep
    · next pipe hd =>
      split at hstep
      · next hn =>
        cases hstep
        refine h.setDrain stream ?_ fun event he => ?_
        · rw [hd]
          exact List.take_append_drop n pipe
        · cases he
          refine ⟨rfl, fun hnil => ?_⟩
          have hlen := congrArg List.length hnil
          rw [List.length_take, List.length_nil] at hlen
          omega
      · cases hstep
    · cases hstep
  | push stream =>
    split at hstep
    · next pipe event hd =>
      cases hstep
      exact h.push hd
    · cases hstep
  | send stream =>
    split at hstep
    · next pipe event hd =>
      cases hstep
      have hmoved := h.setDrain stream (d := ⟨pipe, .reading⟩) (by rw [hd]; rfl)
        (fun event he => nomatch he)
      exact ⟨hmoved.written, hmoved.pushing, hmoved.ring⟩
    · cases hstep
  | eof stream =>
    split at hstep
    · next hd =>
      split at hstep
      · cases hstep
      · cases hstep
        exact h.setDrain stream (by rw [hd]; rfl) (fun event he => nomatch he)
    · cases hstep
  | readError stream =>
    split at hstep
    · next pipe hd =>
      cases hstep
      exact h.setDrain stream (by rw [hd]; rfl) (fun event he => nomatch he)
    · cases hstep

theorem maxBytes_logStep (hstep : logStep l a = some l') :
    l'.ring.maxBytes = l.ring.maxBytes := by
  cases a with simp only [logStep] at hstep
  | push stream =>
    split at hstep
    · cases hstep
      exact BoundedLogEventBuffer.maxBytes_push ..
    · cases hstep
  | _ =>
    repeat' split at hstep
    all_goals cases hstep
    all_goals rfl

/-- **No byte of a log is lost on its way to the ring.**  At every moment of every
run of the runner and its two drain tasks, what was written to a pipe is what was
drained from it, in order, then what its task has in its hands, then what is still
in the pipe; and the ring holds the last bytes that were drained, as many as it was
made for. -/
theorem logs_drained_in_order {maxBytes : Nat} {as : List LogAction}
    (hrun : run logStep (.init maxBytes) as = some l) :
    (∀ stream, l.written stream = bytesOf (l.drained.filter fun e => e.stream = stream) ++
      ((l.drain stream).pc.held ++ (l.drain stream).pipe)) ∧
      bytesOf l.ring.events = (bytesOf l.drained).rtake (max maxBytes 1) := by
  have hmax : l.ring.maxBytes = max maxBytes 1 :=
    run_invariant (fun _ _ _ h hstep => (maxBytes_logStep hstep).trans h) hrun rfl
  have hflow := run_invariant (fun _ _ _ h hstep => Flow.step h hstep) hrun (flow_init maxBytes)
  exact ⟨hflow.written, hmax ▸ hflow.ring⟩

theorem logs_drained_in_order_one : ∃ l, Reaches logStep (.init 4) l ∧
    l.drained = [⟨.stdout, [1], 5⟩] ∧ l.written .stdout = [1] ++ ([] ++ [2]) := by
  have hsample : ∃ l, run logStep (.init 4) [.output .stdout [1, 2], .read .stdout 1 5,
      .push .stdout] = some l ∧ l.drained = [⟨.stdout, [1], 5⟩] ∧
      l.drain .stdout = ⟨[2], .sending ⟨.stdout, [1], 5⟩⟩ := ⟨_, rfl, rfl, rfl⟩
  obtain ⟨l, hrun, hdrained, hdrain⟩ := hsample
  have hwritten := (logs_drained_in_order hrun).1 .stdout
  rw [hdrained, hdrain] at hwritten
  exact ⟨l, ⟨_, hrun⟩, hdrained, hwritten⟩

end Flow

end Imago
