/-
Imago/StdioSession.lean

Requests of the CLI on one long-lived session, over ssh or over a local
`imagod proxy-stdio` (`request_events_over_*`, `request_streamed_frames_over_*`).

The session is two byte streams to and from a process, and nothing in them
says where one request ends and the next begins except that every request is
written to its end and every response is read to its end.  The state keeps
what is on its way in both directions; the events are those of the CLI (write
a part, read a frame, time out, give up), of the callback (stop, fail) and of
the process (take a request, copy a part of the response, exit).

Two exits keep the process although it has not been read to the end: over ssh
a request that fails while it is written, and everywhere a callback that stops
or fails.  A third one is a process that could not be replaced.  `unsettled`
remembers them.  In every run in which no request begins on such a process,
what a request returns is its own (`responses_own`).
-/
import Imago.ProxyFraming
import Imago.Runs

namespace Imago

/-! ### The session -/

/-- The process behind the session, as a pair of streams.  `pending` is the
part of the daemon's response that it has not copied yet. -/
structure ProxyProcess where
  input : List UInt8 := []
  pending : List UInt8 := []
  output : List UInt8 := []
  alive : Bool := true

/-- Nothing is on its way in either direction. -/
def ProxyProcess.Empty (p : ProxyProcess) : Prop :=
  p.input = [] ∧ p.pending = [] ∧ p.output = []

inductive SessionKind where
  | ssh
  | localProxy
  deriving DecidableEq

def SessionKind.label : SessionKind → String
  | .ssh => "ssh transport"
  | .localProxy => "local proxy transport"

/-- Where the request is that holds the lock of the session. -/
inductive RequestPhase where
  | idle
  | writing (payload : List UInt8) (mode : ResponseMode) (rest : List UInt8)
  | reading (payload : List UInt8) (mode : ResponseMode) (frames : List (List UInt8))

/-- A connection of the process to the daemon: the message that the daemon
receives and the frames that it answers, made during request `request`. -/
structure DaemonConnection where
  request : Nat
  message : List UInt8
  frames : List (List UInt8)
  deriving DecidableEq

/-- The frames that a request returns; `whole` if it was read to the end. -/
structure StdioResponse where
  request : Nat
  payload : List UInt8
  frames : List (List UInt8)
  whole : Bool
  deriving DecidableEq

/-- A session with its proxy process. -/
structure StdioSession where
  process : ProxyProcess := {}
  phase : RequestPhase := .idle
  begun : Nat := 0
  unsettled : Bool := false
  connections : List DaemonConnection := []
  responses : List StdioResponse := []

/-- The answer of `on_frame`. -/
inductive CallbackAnswer where
  | goOn
  | stop
  | fail
  deriving DecidableEq

/-- `respawned` says whether a new process could be started where one is needed. -/
inductive StdioEvent where
  | begin (payload : List UInt8) (mode : ResponseMode)
  | write (n : Nat)
  | writeFails (respawned : Bool)
  | flushed
  | take (frames : List (List UInt8))
  | copy (n : Nat)
  | exit
  | read (answer : CallbackAnswer) (respawned : Bool)
  | readFails (consumed : Nat) (respawned : Bool)
  | interrupt

namespace StdioSession

/-- `reset_ssh_process` and `reset_local_proxy_process`.  If no new process can
be started the session keeps the streams of the old one; the local proxy has
been killed by then, so that its next event is `exit`. -/
def reset (s : StdioSession) (respawned : Bool) : StdioSession :=
  match respawned with
  | true => { s with process := {}, phase := .idle, unsettled := false }
  | false => { s with phase := .idle, unsettled := true }

def receive (s : StdioSession) (rest : List UInt8) : StdioSession :=
  { s with process := { s.process with output := rest } }

def respond (s : StdioSession) (payload : List UInt8) (frames : List (List UInt8)) (whole : Bool) :
    StdioSession :=
  { s with phase := .idle, responses := s.responses ++ [⟨s.begun, payload, frames, whole⟩] }

/-- A request that fails before anything is read.  Over ssh it returns as it
is, with what has been written on its way. -/
def writeFails (s : StdioSession) (kind : SessionKind) (respawned : Bool) : Option StdioSession :=
  match s.phase with
  | .writing payload _ rest =>
    match kind with
    | .ssh =>
      some { s with
        phase := .idle
        unsettled := s.unsettled || decide (rest ≠ encodeFrame payload ++ terminator) }
    | .localProxy => some (s.reset respawned)
  | _ => none

/-- One turn of `proxy_stdio_streams`: the daemon gets a message and answers
with whole frames. -/
def take (s : StdioSession) (frames : List (List UInt8)) : Option StdioSession :=
  match readStdioMessage (s.process.input.length + 1) [] s.process.input with
  | .done message rest =>
    if s.process.alive = true ∧ s.process.pending = [] ∧ ∀ p ∈ frames, Proper p then
      some { s with
        process := { s.process with input := rest, pending := encodeFrames frames ++ terminator }
        connections := s.connections ++ [⟨s.begun, message, frames⟩] }
    else none
  | _ => none

/-- The size limit for the next frame of a response. -/
def ensureFrame (label : String) (frames : List (List UInt8)) :
    ResponseMode → Nat → Except String Unit
  | .message => ensureStdioResponseMessageGrowth label (encodeFrames frames).length
  | .streaming => ensureStdioResponseFrameLen label

/-- The end of a response.  A message is decoded once it is complete. -/
def finish (s : StdioSession) (payload : List UInt8) (frames : List (List UInt8)) :
    ResponseMode → StdioSession
  | .message =>
    match DeployCommand.decodeFrames (encodeFrames frames) with
    | .ok frames => s.respond payload frames true
    | .error _ => { s with phase := .idle }
  | .streaming => s.respond payload frames true

/-- A frame of a response, which goes to the callback if there is one. -/
def takeFrame (s : StdioSession) (payload : List UInt8) (frames : List (List UInt8))
    (mode : ResponseMode) (answer : CallbackAnswer) : StdioSession :=
  match mode, answer with
  | .message, _ | .streaming, .goOn => { s with phase := .reading payload mode frames }
  | .streaming, .stop => { s.respond payload frames false with unsettled := true }
  | .streaming, .fail => { s with phase := .idle, unsettled := true }

/-- One turn of the loop that reads a response. -/
def read (s : StdioSession) (kind : SessionKind) (answer : CallbackAnswer) (respawned : Bool) :
    Option StdioSession :=
  match s.phase with
  | .reading payload mode frames =>
    match readFrame (ensureFrame kind.label frames mode) s.process.output with
    | .short => none
    | .refused _ => some ((s.receive (s.process.output.drop 4)).reset respawned)
    | .stop rest => some ((s.receive rest).finish payload frames mode)
    | .frame p rest => some ((s.receive rest).takeFrame payload (frames ++ [p]) mode answer)
  | _ => none

def step (kind : SessionKind) (s : StdioSession) : StdioEvent → Option StdioSession
  | .begin payload mode =>
    match s.phase with
    | .idle => some { s with
        phase := .writing payload mode (encodeFrame payload ++ terminator)
        begun := s.begun + 1 }
    | _ => none
  | .write n =>
    match s.phase with
    | .writing payload mode rest =>
      -- a process that is gone does not take anything
      if s.process.alive = true then
        some { s with
          process := { s.process with input := s.process.input ++ rest.take n }
          phase := .writing payload mode (rest.drop n) }
      else none
    | _ => none
  | .writeFails respawned => s.writeFails kind respawned
  | .flushed =>
    match s.phase with
    | .writing payload mode [] => some { s with phase := .reading payload mode [] }
    | _ => none
  | .take frames => s.take frames
  | .copy n =>
    if s.process.alive = true then
      some { s with process := { s.process with
        pending := s.process.pending.drop n
        output := s.process.output ++ s.process.pending.take n } }
    else none
  | .exit => some { s with process := { s.process with alive := false } }
  | .read answer respawned => s.read kind answer respawned
  | .readFails consumed respawned =>
    -- a timeout, an error or the end of the stream, with part of a frame read
    match s.phase with
    | .reading _ _ _ => some ((s.receive (s.process.output.drop consumed)).reset respawned)
    | _ => none
  | .interrupt =>
    -- the process is killed, and its next event is `exit`
    match s.phase with
    | .reading _ .streaming [] => some { s with phase := .idle, unsettled := true }
    | .reading payload .streaming (p :: frames) =>
      some { s.respond payload (p :: frames) false with unsettled := true }
    | _ => none

end StdioSession

/-! ### What a request may return -/

/-- The daemon received exactly the bytes of the request, on one connection,
and what the request returns are the frames of that connection, all of them
unless it was left early. -/
def StdioResponse.Own (r : StdioResponse) (connections : List DaemonConnection) : Prop :=
  ∃ c, connections.filter (·.request == r.request) = [c] ∧ c.message = encodeFrame r.payload ∧
    r.frames <+: c.frames ∧ (r.whole = true → r.frames = c.frames)

/-- A request begins on a process that has been read to the end, or on one
that is gone; and its length fits the header of a frame. -/
def Settled (s : StdioSession) : StdioEvent → Prop
  | .begin payload _ => payload.length < 2 ^ 32 ∧ (s.unsettled = false ∨ s.process.alive = false)
  | _ => True

/-! ### The request at the proxy -/

variable {payload rest : List UInt8}

/-- What the proxy takes from a stream that holds one request is that request. -/
theorem readStdioMessage_request {input more message : List UInt8} {turns : Nat}
    (hlen : payload.length < 2 ^ 32) (hinput : input ++ more = encodeFrame payload ++ terminator)
    (h : readStdioMessage turns [] input = .done message rest) :
    message = encodeFrame payload ∧ rest = [] ∧ more = [] := by
  obtain ⟨turns, rfl⟩ : ∃ n, turns = n + 1 := by
    cases turns with
    | zero => cases h
    | succ n => exact ⟨n, rfl⟩
  rw [readStdioMessage] at h
  rcases hread : readFrame (ensureStdioMessageGrowth ([] : List UInt8).length) input with
    ⟨p, tail⟩ | tail | e | -
  · -- a first frame: it is the payload, and the terminator comes next
    rw [hread] at h
    have hproper : Proper payload := by
      refine ⟨fun hnil => ?_, hlen⟩
      have happ := readFrame_append (by rw [hread]; simp) more
      rw [hread, hinput, hnil, show encodeFrame [] = terminator from rfl,
        readFrame_terminator] at happ
      cases happ
    have hstream : input ++ more = encodeFrames [payload] ++ terminator := by
      rw [hinput, encodeFrames_cons, encodeFrames_nil, List.append_nil]
    obtain ⟨frames, hcons, htail⟩ :=
      readFrame_of_stream (fun q hq => List.mem_singleton.mp hq ▸ hproper) hstream hread
    obtain ⟨rfl, rfl⟩ := List.cons.inj hcons
    have hend : readStdioMessage turns (encodeFrame payload) tail = .done message rest := h
    cases turns with
    | zero => cases hend
    | succ n =>
      rw [readStdioMessage] at hend
      rcases hread' : readFrame (ensureStdioMessageGrowth (encodeFrame payload).length) tail with
        ⟨q, tail'⟩ | tail' | e | -
      · obtain ⟨frames, hcons, -⟩ := readFrame_of_stream (by simp) htail hread'
        cases hcons
      · rw [hread'] at hend
        obtain ⟨-, hnil⟩ := readFrame_of_stream_stop (by simp) htail hread'
        obtain ⟨hmessage, rfl⟩ := MessageRead.done.inj hend
        obtain ⟨rfl, rfl⟩ := List.append_eq_nil_iff.mp hnil
        exact ⟨hmessage.symm, rfl, rfl⟩
      · rw [hread'] at hend
        cases hend
      · rw [hread'] at hend
        cases hend
  · rw [hread] at h
    cases h
  · rw [hread] at h
    cases h
  · rw [hread] at h
    cases h

/-! ### What holds between two events -/

/-- The request is being written and the proxy has not taken it. -/
structure Unsent (s : StdioSession) (payload rest : List UInt8) : Prop where
  stream : s.process.input ++ rest = encodeFrame payload ++ terminator
  length_lt : payload.length < 2 ^ 32
  pending : s.process.pending = []
  output : s.process.output = []
  none_yet : ∀ c ∈ s.connections, c.request ≠ s.begun

/-- The proxy has taken the request, and `frames` of the response have been read. -/
structure Taken (s : StdioSession) (payload : List UInt8) (frames : List (List UInt8)) : Prop where
  input : s.process.input = []
  answer : ∃ c remaining, s.connections.filter (·.request == s.begun) = [c] ∧
    c.message = encodeFrame payload ∧ c.frames = frames ++ remaining ∧ (∀ p ∈ c.frames, Proper p) ∧
    s.process.output ++ s.process.pending = encodeFrames remaining ++ terminator

/-- Where the streams stand in each phase. -/
def InStep (s : StdioSession) : Prop :=
  match s.phase with
  | .idle => s.process.alive = true → s.unsettled = false → s.process.Empty
  | .writing payload _ rest =>
    -- on a process that is gone not even the first byte is written
    (s.process.alive = false ∧ rest ≠ []) ∨ Unsent s payload rest ∨ rest = [] ∧ Taken s payload []
  | .reading payload _ frames => (frames = [] ∧ Unsent s payload []) ∨ Taken s payload frames

/-- What holds between two events. -/
structure SessionInv (s : StdioSession) : Prop where
  inStep : InStep s
  connections_le : ∀ c ∈ s.connections, c.request ≤ s.begun
  responses_le : ∀ r ∈ s.responses, r.request ≤ s.begun
  own : ∀ r ∈ s.responses, r.Own s.connections
  answered : ∀ r ∈ s.responses, r.request = s.begun → s.phase = .idle ∧ s.process.input = []

theorem sessionInv_init : SessionInv {} where
  inStep := fun _ _ => ⟨rfl, rfl, rfl⟩
  connections_le := by simp
  responses_le := by simp
  own := by simp
  answered := by simp

variable {frames : List (List UInt8)}

variable {mode : ResponseMode} {respawned : Bool}

section Steps

variable {s s' : StdioSession} {kind : SessionKind}

section

variable (h : SessionInv s)

include h

/-- A request that has begun has not returned. -/
theorem SessionInv.unanswered (hphase : s.phase ≠ .idle) :
    ∀ r ∈ s.responses, r.request ≠ s.begun :=
  fun r hr heq => hphase (h.answered r hr heq).1

/-- A request that ends without returning anything leaves the session idle. -/
theorem SessionInv.giveUp (hphase : s.phase ≠ .idle) {process : ProxyProcess}
    {unsettled : Bool} (hempty : process.alive = true → unsettled = false → process.Empty) :
    SessionInv { s with process := process, phase := .idle, unsettled := unsettled } where
  inStep := hempty
  connections_le := h.connections_le
  responses_le := h.responses_le
  own := h.own
  answered := fun r hr heq => absurd heq (h.unanswered hphase r hr)

theorem SessionInv.reset (hphase : s.phase ≠ .idle) (rest : List UInt8)
    (respawned : Bool) : SessionInv ((s.receive rest).reset respawned) := by
  cases respawned with
  | true => exact h.giveUp hphase fun _ _ => ⟨rfl, rfl, rfl⟩
  | false => exact h.giveUp hphase nofun

/-- A request that returns frames of its own leaves the session idle. -/
theorem SessionInv.respond {whole unsettled : Bool}
    (hinput : s.process.input = [])
    (hown : StdioResponse.Own ⟨s.begun, payload, frames, whole⟩ s.connections)
    (hempty : unsettled = false → s.process.pending = [] ∧ rest = []) :
    SessionInv { (s.receive rest).respond payload frames whole with unsettled := unsettled } where
  inStep := fun _ hsettled => ⟨hinput, hempty hsettled⟩
  connections_le := h.connections_le
  responses_le := by
    intro r hr
    rcases List.mem_append.mp hr with hr | hr
    · exact h.responses_le r hr
    · rw [List.mem_singleton.mp hr]
      exact Nat.le_refl _
  own := by
    intro r hr
    rcases List.mem_append.mp hr with hr | hr
    · exact h.own r hr
    · rw [List.mem_singleton.mp hr]
      exact hown
  answered := fun _ _ _ => ⟨rfl, hinput⟩

theorem inv_begin (hok : Settled s (.begin payload mode))
    (hstep : s.step kind (.begin payload mode) = some s') : SessionInv s' := by
  rw [StdioSession.step] at hstep
  split at hstep
  · rename_i hphase
    cases hstep
    have hidle := h.inStep
    rw [InStep, hphase] at hidle
    refine ⟨?_, fun c hc => Nat.le_succ_of_le (h.connections_le c hc),
      fun r hr => Nat.le_succ_of_le (h.responses_le r hr), h.own, fun r hr heq => ?_⟩
    · by_cases halive : s.process.alive = true
      · obtain ⟨hinput, hpending, houtput⟩ :=
          hidle halive (hok.2.resolve_right fun hdead => by rw [hdead] at halive; cases halive)
        exact .inr (.inl
          { stream := by
              show s.process.input ++ _ = _
              rw [hinput, List.nil_append]
            length_lt := hok.1
            pending := hpending
            output := houtput
            none_yet := fun c hc => Nat.ne_of_lt (Nat.lt_succ_of_le (h.connections_le c hc)) })
      · refine .inl ⟨by simpa using halive, fun hnil => ?_⟩
        have := congrArg List.length hnil
        rw [List.length_append, length_encodeFrame, List.length_nil] at this
        omega
    · exact absurd heq (Nat.ne_of_lt (Nat.lt_succ_of_le (h.responses_le r hr)))
  · cases hstep

theorem inv_write {n : Nat} (hstep : s.step kind (.write n) = some s') :
    SessionInv s' := by
  rw [StdioSession.step] at hstep
  split at hstep
  · rename_i payload mode rest hphase
    obtain ⟨halive, hs'⟩ := Option.ite_none_right_eq_some.mp hstep
    cases hs'
    have hne : s.phase ≠ .idle := by simp [hphase]
    have hwriting := h.inStep
    rw [InStep, hphase] at hwriting
    refine ⟨?_, h.connections_le, h.responses_le, h.own,
      fun r hr heq => absurd heq (h.unanswered hne r hr)⟩
    rcases hwriting with ⟨hdead, -⟩ | hunsent | ⟨rfl, htaken⟩
    · rw [hdead] at halive
      cases halive
    · refine .inr (.inl { hunsent with stream := ?_ })
      show s.process.input ++ rest.take n ++ rest.drop n = _
      rw [List.append_assoc, List.take_append_drop, hunsent.stream]
    · refine .inr (.inr ⟨List.drop_nil, { htaken with input := ?_ }⟩)
      show s.process.input ++ List.take n [] = []
      rw [htaken.input, List.take_nil, List.append_nil]
  · cases hstep

theorem inv_writeFails (hstep : s.step kind (.writeFails respawned) = some s') :
    SessionInv s' := by
  rw [StdioSession.step, StdioSession.writeFails] at hstep
  split at hstep
  · rename_i payload mode rest hphase
    have hne : s.phase ≠ .idle := by simp [hphase]
    cases kind with
    | ssh =>
      cases hstep
      refine h.giveUp hne fun halive hsettled => ?_
      -- a process that lives and got nothing of the request is where it was
      obtain ⟨-, hrest⟩ := Bool.or_eq_false_iff.mp hsettled
      have hrest : rest = encodeFrame payload ++ terminator := by simpa using hrest
      have hwriting := h.inStep
      rw [InStep, hphase] at hwriting
      rcases hwriting with ⟨hdead, -⟩ | hunsent | ⟨rfl, htaken⟩
      · rw [hdead] at halive
        cases halive
      · have hstream := hunsent.stream
        rw [hrest] at hstream
        exact ⟨List.append_cancel_right (hstream.trans (List.nil_append _).symm), hunsent.pending,
          hunsent.output⟩
      · have := congrArg List.length hrest
        rw [List.length_append, length_encodeFrame, List.length_nil] at this
        omega
    | localProxy =>
      cases hstep
      exact h.reset hne s.process.output respawned
  · cases hstep

theorem inv_flushed (hstep : s.step kind .flushed = some s') :
    SessionInv s' := by
  rw [StdioSession.step] at hstep
  split at hstep
  · rename_i payload mode hphase
    cases hstep
    have hne : s.phase ≠ .idle := by simp [hphase]
    have hwriting := h.inStep
    rw [InStep, hphase] at hwriting
    refine ⟨?_, h.connections_le, h.responses_le, h.own,
      fun r hr heq => absurd heq (h.unanswered hne r hr)⟩
    rcases hwriting with ⟨-, hrest⟩ | hunsent | ⟨-, htaken⟩
    · exact absurd rfl hrest
    · exact .inl ⟨rfl, { hunsent with }⟩
    · exact .inr { htaken with }
  · cases hstep

end

/-! ### The process -/

theorem readStdioMessage_nil (turns : Nat) : readStdioMessage turns [] [] = .waiting := by
  cases turns <;> rfl

/-- A response keeps its connection when another request gets one. -/
theorem StdioResponse.Own.concat {r : StdioResponse} {cs : List DaemonConnection}
    {c : DaemonConnection} (h : r.Own cs) (hne : r.request ≠ c.request) : r.Own (cs ++ [c]) := by
  obtain ⟨d, hfilter, hown⟩ := h
  refine ⟨d, ?_, hown⟩
  have hother : (c.request == r.request) = false := beq_eq_false_iff_ne.mpr hne.symm
  rw [List.filter_append, hfilter, List.filter_singleton, hother, cond_false, List.append_nil]

theorem take_eq_some (h : s.take frames = some s') :
    ∃ message rest, readStdioMessage (s.process.input.length + 1) [] s.process.input =
        .done message rest ∧
      s.process.alive = true ∧ (∀ p ∈ frames, Proper p) ∧
      s' = { s with
        process := { s.process with input := rest, pending := encodeFrames frames ++ terminator }
        connections := s.connections ++ [⟨s.begun, message, frames⟩] } := by
  rw [StdioSession.take] at h
  split at h
  · rename_i message rest hread
    obtain ⟨⟨halive, -, hframes⟩, hs'⟩ := Option.ite_none_right_eq_some.mp h
    exact ⟨message, rest, hread, halive, hframes, (Option.some.inj hs').symm⟩
  · cases h

/-- A request that the proxy takes is the one that was written. -/
theorem Unsent.take {more message : List UInt8} (h : Unsent s payload more)
    (hframes : ∀ p ∈ frames, Proper p)
    (hread : readStdioMessage (s.process.input.length + 1) [] s.process.input =
      .done message rest) :
    more = [] ∧ Taken { s with
      process := { s.process with input := rest, pending := encodeFrames frames ++ terminator }
      connections := s.connections ++ [⟨s.begun, message, frames⟩] } payload [] := by
  obtain ⟨rfl, rfl, rfl⟩ := readStdioMessage_request h.length_lt h.stream hread
  refine ⟨rfl, rfl, ⟨s.begun, encodeFrame payload, frames⟩, frames, ?_, rfl, rfl, hframes, ?_⟩
  · have hnone : s.connections.filter (·.request == s.begun) = [] :=
      List.filter_eq_nil_iff.mpr fun c hc h' => h.none_yet c hc (beq_iff_eq.mp h')
    show List.filter (fun c : DaemonConnection => c.request == s.begun)
      (s.connections ++ [⟨s.begun, encodeFrame payload, frames⟩]) = _
    rw [List.filter_append, hnone, List.nil_append, List.filter_singleton, beq_self_eq_true,
      cond_true]
  · show s.process.output ++ _ = _
    rw [h.output, List.nil_append]

theorem inv_take (h : SessionInv s) (hstep : s.step kind (.take frames) = some s') :
    SessionInv s' := by
  obtain ⟨message, rest, hread, halive, hframes, rfl⟩ := take_eq_some hstep
  have hinput : s.process.input ≠ [] := by
    intro hnil
    rw [hnil, readStdioMessage_nil] at hread
    cases hread
  -- so the request has not returned yet: behind a response nothing is left to take
  have hunanswered : ∀ r ∈ s.responses, r.request ≠ s.begun :=
    fun r hr heq => hinput (h.answered r hr heq).2
  refine ⟨?_, ?_, h.responses_le, fun r hr => (h.own r hr).concat (hunanswered r hr),
    fun r hr heq => absurd heq (hunanswered r hr)⟩
  · have hphase := h.inStep
    rw [InStep] at hphase ⊢
    dsimp only
    split at hphase
    · exact fun _ hsettled => absurd (hphase halive hsettled).1 hinput
    · rcases hphase with ⟨hdead, -⟩ | hunsent | ⟨-, htaken⟩
      · rw [hdead] at halive
        cases halive
      · exact .inr (.inr (hunsent.take hframes hread))
      · exact absurd htaken.input hinput
    · rcases hphase with ⟨rfl, hunsent⟩ | htaken
      · exact .inr (hunsent.take hframes hread).2
      · exact absurd htaken.input hinput
  · intro c hc
    rcases List.mem_append.mp hc with hc | hc
    · exact h.connections_le c hc
    · rw [List.mem_singleton.mp hc]

/-- What the process copies or leaves undone is invisible to the rest. -/
theorem SessionInv.streams (h : SessionInv s) {pending output : List UInt8} {alive : Bool}
    (halive : alive = true → s.process.alive = true)
    (hstream : output ++ pending = s.process.output ++ s.process.pending) :
    SessionInv { s with process := { s.process with
      pending := pending, output := output, alive := alive } } := by
  refine ⟨?_, h.connections_le, h.responses_le, h.own, h.answered⟩
  have hunsent : ∀ {payload rest : List UInt8}, Unsent s payload rest →
      Unsent { s with process := { s.process with
        pending := pending, output := output, alive := alive } } payload rest := by
    intro payload rest hu
    rw [hu.pending, hu.output, List.append_nil] at hstream
    obtain ⟨rfl, rfl⟩ := List.append_eq_nil_iff.mp hstream
    exact { hu with pending := rfl, output := rfl }
  have htaken : ∀ {payload : List UInt8} {frames : List (List UInt8)}, Taken s payload frames →
      Taken { s with process := { s.process with
        pending := pending, output := output, alive := alive } } payload frames := by
    intro payload frames ht
    obtain ⟨c, remaining, hfilter, hmessage, hframes, hproper, hout⟩ := ht.answer
    exact ⟨ht.input, c, remaining, hfilter, hmessage, hframes, hproper, hstream.trans hout⟩
  have hphase := h.inStep
  rw [InStep] at hphase ⊢
  dsimp only
  split at hphase
  · intro hlive hsettled
    obtain ⟨hinput, hpending, houtput⟩ := hphase (halive hlive) hsettled
    rw [hpending, houtput, List.append_nil] at hstream
    obtain ⟨rfl, rfl⟩ := List.append_eq_nil_iff.mp hstream
    exact ⟨hinput, rfl, rfl⟩
  · rcases hphase with ⟨hdead, hrest⟩ | hu | ⟨hrest, ht⟩
    · refine .inl ⟨Bool.eq_false_iff.mpr fun hlive => ?_, hrest⟩
      rw [hdead] at halive
      cases halive hlive
    · exact .inr (.inl (hunsent hu))
    · exact .inr (.inr ⟨hrest, htaken ht⟩)
  · rcases hphase with ⟨hnil, hu⟩ | ht
    · exact .inl ⟨hnil, hunsent hu⟩
    · exact .inr (htaken ht)

theorem inv_copy {n : Nat} (h : SessionInv s) (hstep : s.step kind (.copy n) = some s') :
    SessionInv s' := by
  obtain ⟨halive, hs'⟩ := Option.ite_none_right_eq_some.mp hstep
  cases hs'
  refine h.streams (fun _ => halive) ?_
  rw [List.append_assoc, List.take_append_drop]

theorem inv_exit (h : SessionInv s) (hstep : s.step kind .exit = some s') : SessionInv s' := by
  cases hstep
  exact h.streams nofun rfl

/-! ### Reading -/

/-- A request that has read frames of its connection may return them. -/
theorem Taken.own (h : Taken s payload frames) :
    StdioResponse.Own ⟨s.begun, payload, frames, false⟩ s.connections := by
  obtain ⟨c, remaining, hfilter, hmessage, hframes, -, -⟩ := h.answer
  exact ⟨c, hfilter, hmessage, ⟨remaining, hframes.symm⟩, nofun⟩

section Read

variable {check : Nat → Except String Unit} {payload rest p : List UInt8}
  {frames : List (List UInt8)}

/-- The next frame that is read is the next one of the connection. -/
theorem Taken.frame (h : Taken s payload frames)
    (hread : readFrame check s.process.output = .frame p rest) :
    Taken (s.receive rest) payload (frames ++ [p]) := by
  obtain ⟨c, remaining, hfilter, hmessage, hframes, hproper, hstream⟩ := h.answer
  have hremaining : ∀ q ∈ remaining, Proper q := (List.forall_mem_append.mp (hframes ▸ hproper)).2
  obtain ⟨remaining, rfl, hrest⟩ := readFrame_of_stream hremaining hstream hread
  refine ⟨h.input, c, remaining, hfilter, hmessage, ?_, hproper, hrest⟩
  rw [hframes, List.append_assoc, List.singleton_append]

/-- The end that is read is the end of the response, and nothing is left. -/
theorem Taken.stop (h : Taken s payload frames)
    (hread : readFrame check s.process.output = .stop rest) :
    StdioResponse.Own ⟨s.begun, payload, frames, true⟩ s.connections ∧
      (∀ q ∈ frames, Proper q) ∧ s.process.pending = [] ∧ rest = [] := by
  obtain ⟨c, remaining, hfilter, hmessage, hframes, hproper, hstream⟩ := h.answer
  have hremaining : ∀ q ∈ remaining, Proper q := (List.forall_mem_append.mp (hframes ▸ hproper)).2
  obtain ⟨rfl, hrest⟩ := readFrame_of_stream_stop hremaining hstream hread
  obtain ⟨hrest, hpending⟩ := List.append_eq_nil_iff.mp hrest
  rw [List.append_nil] at hframes
  refine ⟨⟨c, hfilter, hmessage, ?_, fun _ => hframes.symm⟩, ?_, hpending, hrest⟩
  · show frames <+: c.frames
    rw [hframes]
  · rwa [← hframes]

/-- A request of which nothing has been sent has no response to read. -/
theorem Unsent.short (h : Unsent s payload []) : readFrame check s.process.output = .short := by
  rw [h.output]
  rfl

end Read

theorem inv_finish {check : Nat → Except String Unit} (h : SessionInv s)
    (htaken : Taken s payload frames) (hread : readFrame check s.process.output = .stop rest) :
    SessionInv ((s.receive rest).finish payload frames mode) := by
  obtain ⟨hown, hproper, hempty⟩ := htaken.stop hread
  have hrespond : SessionInv ((s.receive rest).respond payload frames true) :=
    h.respond htaken.input hown fun _ => hempty
  cases mode with
  | message =>
    -- decoding gives back the frames that were collected
    rw [StdioSession.finish,
      DeployCommand.decodeFrames_encodeFrames fun p hp => (hproper p hp).2]
    exact hrespond
  | streaming => exact hrespond

theorem inv_takeFrame {p : List UInt8} {check : Nat → Except String Unit} {answer : CallbackAnswer}
    (h : SessionInv s) (hphase : s.phase ≠ .idle) (htaken : Taken s payload frames)
    (hread : readFrame check s.process.output = .frame p rest) :
    SessionInv ((s.receive rest).takeFrame payload (frames ++ [p]) mode answer) := by
  have hnext := htaken.frame hread
  have hgoOn : SessionInv { s.receive rest with phase := .reading payload mode (frames ++ [p]) } :=
    ⟨Or.inr { hnext with }, h.connections_le, h.responses_le, h.own,
      fun r hr heq => absurd heq (h.unanswered hphase r hr)⟩
  cases mode with
  | message => exact hgoOn
  | streaming =>
    cases answer with
    | goOn => exact hgoOn
    | stop => exact h.respond htaken.input hnext.own nofun
    | fail => exact h.giveUp hphase nofun

theorem inv_read {answer : CallbackAnswer} (h : SessionInv s)
    (hstep : s.step kind (.read answer respawned) = some s') : SessionInv s' := by
  rw [StdioSession.step, StdioSession.read] at hstep
  split at hstep
  · rename_i payload mode frames hphase
    have hne : s.phase ≠ .idle := by simp [hphase]
    have hreading := h.inStep
    rw [InStep, hphase] at hreading
    rcases hreading with ⟨-, hunsent⟩ | htaken
    · rw [hunsent.short] at hstep
      cases hstep
    · split at hstep
      · cases hstep
      · cases hstep
        exact h.reset hne _ respawned
      · rename_i rest hread
        cases hstep
        exact inv_finish h htaken hread
      · rename_i p rest hread
        cases hstep
        exact inv_takeFrame h hne htaken hread
  · cases hstep

theorem inv_readFails {consumed : Nat} (h : SessionInv s)
    (hstep : s.step kind (.readFails consumed respawned) = some s') : SessionInv s' := by
  rw [StdioSession.step] at hstep
  split at hstep
  · rename_i payload mode frames hphase
    cases hstep
    exact h.reset (by simp [hphase]) _ respawned
  · cases hstep

theorem inv_interrupt (h : SessionInv s) (hstep : s.step kind .interrupt = some s') :
    SessionInv s' := by
  rw [StdioSession.step] at hstep
  split at hstep
  · rename_i payload hphase
    cases hstep
    exact h.giveUp (by simp [hphase]) nofun
  · rename_i payload p frames hphase
    cases hstep
    have hreading := h.inStep
    rw [InStep, hphase] at hreading
    rcases hreading with ⟨hnil, -⟩ | htaken
    · cases hnil
    · refine h.respond htaken.input htaken.own fun hsettled => ?_
      cases hsettled
  · cases hstep

theorem sessionInv_step {e : StdioEvent} (h : SessionInv s) (hok : Settled s e)
    (hstep : s.step kind e = some s') : SessionInv s' := by
  cases e with
  | begin payload mode => exact inv_begin h hok hstep
  | write n => exact inv_write h hstep
  | writeFails respawned => exact inv_writeFails h hstep
  | flushed => exact inv_flushed h hstep
  | take frames => exact inv_take h hstep
  | copy n => exact inv_copy h hstep
  | exit => exact inv_exit h hstep
  | read answer respawned => exact inv_read h hstep
  | readFails consumed respawned => exact inv_readFails h hstep
  | interrupt => exact inv_interrupt h hstep

end Steps

/-- **A request returns frames of its own.**  In every run in which a request
begins only on a process that has been read to the end (or is gone), the daemon
has received exactly the bytes of every request that returned frames, and the
frames are those that it answered to that request. -/
theorem responses_own {kind : SessionKind} {events : List StdioEvent} {s : StdioSession}
    (hok : RunMeets (StdioSession.step kind) Settled {} events)
    (h : run (StdioSession.step kind) {} events = some s) :
    ∀ r ∈ s.responses, r.Own s.connections :=
  (run_invariant_of_meets (fun _ _ _ => sessionInv_step) hok h sessionInv_init).own

/-- A run over ssh in which a response is given up, the process is replaced and
the request is made again. -/
def sampleRetried : List StdioEvent :=
  [.begin [1] .message, .write 4, .write 5, .flushed, .take [[7], [8]], .copy 7,
    .read .goOn true, .readFails 2 true,
    .begin [1] .message, .write 9, .flushed, .take [[7], [8]], .copy 14,
    .read .goOn true, .read .goOn true, .read .goOn true]

/-- `Settled` as a computation. -/
def settledBy (s : StdioSession) : StdioEvent → Bool
  | .begin payload _ => decide (payload.length < 2 ^ 32) && (!s.unsettled || !s.process.alive)
  | _ => true

theorem settledBy_sound (s : StdioSession) (e : StdioEvent) (h : settledBy s e = true) :
    Settled s e := by
  cases e with
  | begin payload mode => simpa [settledBy, Settled] using h
  | _ => trivial

theorem responses_own_retried : ∃ s, run (StdioSession.step .ssh) {} sampleRetried = some s ∧
    s.responses = [⟨2, [1], [[7], [8]], true⟩] ∧ ∀ r ∈ s.responses, r.Own s.connections := by
  have hrun : (run (StdioSession.step .ssh) {} sampleRetried).map StdioSession.responses =
      some [⟨2, [1], [[7], [8]], true⟩] := by decide +kernel
  obtain ⟨s, hs, hresponses⟩ := Option.map_eq_some_iff.mp hrun
  exact ⟨s, hs, hresponses,
    responses_own (.of_meetsBy settledBy_sound (by decide +kernel)) hs⟩

/-- Over ssh, a request whose flush times out, and the next one. -/
def sampleFlushFails : List StdioEvent :=
  [.begin [1] .message, .write 9, .writeFails true, .take [[7]], .copy 9,
    .begin [2] .message, .write 9, .flushed, .take [[8]], .copy 9, .read .goOn true,
    .read .goOn true]

/-- A callback that stops at the first frame of two, and the next request. -/
def sampleCallbackStops : List StdioEvent :=
  [.begin [1] .streaming, .write 9, .flushed, .take [[7], [8]], .copy 14, .read .stop true,
    .begin [2] .message, .write 9, .flushed, .take [[9]], .copy 9, .read .goOn true,
    .read .goOn true]

/-- The summary of a run that shows whether its last response is its own. -/
def sampleOutcome (kind : SessionKind) (events : List StdioEvent) :
    Option (Option StdioResponse × List DaemonConnection) :=
  (run (StdioSession.step kind) {} events).map fun s => (s.responses.getLast?, s.connections)

/-- Frames that no connection answered are not a request's own. -/
theorem not_own_of_frames {r : StdioResponse} {cs : List DaemonConnection}
    (h : ∀ c ∈ cs, c.request = r.request → ¬r.frames <+: c.frames) : ¬r.Own cs := by
  rintro ⟨c, hfilter, -, hframes, -⟩
  have hmem : c ∈ cs.filter (·.request == r.request) := hfilter ▸ List.mem_singleton_self c
  obtain ⟨hc, hrequest⟩ := List.mem_filter.mp hmem
  exact h c hc (beq_iff_eq.mp hrequest) hframes

/-- **A request may return the frames of an earlier one**: after a request that
failed while it was written over ssh, and after a callback that stopped, over
ssh and over the local proxy. -/
theorem responses_not_own :
    (∃ s, run (StdioSession.step .ssh) {} sampleFlushFails = some s ∧
      ∃ r ∈ s.responses, r.frames = [[7]] ∧ ¬r.Own s.connections) ∧
    (∃ s, run (StdioSession.step .ssh) {} sampleCallbackStops = some s ∧
      ∃ r ∈ s.responses, r.frames = [[8]] ∧ ¬r.Own s.connections) ∧
    (∃ s, run (StdioSession.step .localProxy) {} sampleCallbackStops = some s ∧
      ∃ r ∈ s.responses, r.frames = [[8]] ∧ ¬r.Own s.connections) := by
  have hstale : ∀ {kind events r cs}, sampleOutcome kind events = some (some r, cs) →
      (∀ c ∈ cs, c.request = r.request → ¬r.frames <+: c.frames) →
      ∃ s, run (StdioSession.step kind) {} events = some s ∧
        ∃ r' ∈ s.responses, r'.frames = r.frames ∧ ¬r'.Own s.connections := by
    intro kind events r cs houtcome hframes
    obtain ⟨s, hs, heq⟩ := Option.map_eq_some_iff.mp houtcome
    obtain ⟨hlast, rfl⟩ := Prod.mk.inj heq
    exact ⟨s, hs, r, List.mem_of_getLast? hlast, rfl, not_own_of_frames hframes⟩
  refine ⟨?_, ?_, ?_⟩
  · have h : sampleOutcome .ssh sampleFlushFails = some (some ⟨2, [2], [[7]], true⟩,
        [⟨1, encodeFrame [1], [[7]]⟩, ⟨2, encodeFrame [2], [[8]]⟩]) := by decide +kernel
    exact hstale h (by decide)
  · have h : sampleOutcome .ssh sampleCallbackStops = some (some ⟨2, [2], [[8]], true⟩,
        [⟨1, encodeFrame [1], [[7], [8]]⟩, ⟨2, encodeFrame [2], [[9]]⟩]) := by decide +kernel
    exact hstale h (by decide)
  · have h : sampleOutcome .localProxy sampleCallbackStops = some (some ⟨2, [2], [[8]], true⟩,
        [⟨1, encodeFrame [1], [[7], [8]]⟩, ⟨2, encodeFrame [2], [[9]]⟩]) := by decide +kernel
    exact hstale h (by decide)

end Imago
