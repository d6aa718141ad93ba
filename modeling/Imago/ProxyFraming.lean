/-
Imago/ProxyFraming.lean

`imagod proxy-stdio` copies what the daemon sends on a connection and appends
a frame of length zero once the connection is closed (`proxy_stdio_streams`).
As long as a response consists of whole frames this is invisible to the CLI.
If the connection breaks inside a frame, the reader takes the bytes of the
terminator for what is missing of the header or the payload.

`Delivery` is what one connection delivers: whole frames, and a piece of
another one if it broke.  `proxyRun` is the CLI reading the responses to one
request after the other from the proxy's output.  The main theorem says for
which deliveries every request comes out right (`proxy_faithful_iff`).
-/
import Imago.FrameCodecs
import Imago.StdioTransport

namespace Imago

/-! ### Requests behind the proxy and on the socket -/

/-- What one connection of the daemon delivers before it is closed. -/
structure Delivery where
  frames : List (List UInt8)
  piece : List UInt8
  frames_proper : ∀ p ∈ frames, Proper p
  piece_cut : piece = [] ∨ ∃ p, Proper p ∧ piece <+: encodeFrame p ∧ piece ≠ encodeFrame p

def Delivery.bytes (d : Delivery) : List UInt8 := encodeFrames d.frames ++ d.piece

/-- Whether the caller wants the response as one message or frame by frame. -/
inductive ResponseMode where
  | message
  | streaming
  deriving DecidableEq

/-- How a request ends, with the frames that the caller was given. -/
inductive ResponseOutcome where
  | completed (frames : List (List UInt8))
  | failed (frames : List (List UInt8)) (e : String)
  | hanging (frames : List (List UInt8))
  deriving DecidableEq

/-- How reading frames from the proxy's output ends. -/
inductive StreamEnd where
  | completed (rest : List UInt8)
  | failed (e : String)
  | waiting
  deriving DecidableEq

/-- The loop of `request_streamed_frames_over_ssh` and its local twin, with a
callback that takes every frame. -/
def streamStdioFrames (label : String) : Nat → List UInt8 → List (List UInt8) × StreamEnd
  | 0, _ => ([], .waiting)
  | turns + 1, input =>
    match readNextStdioResponseFrame label input with
    | .stop rest => ([], .completed rest)
    | .refused e => ([], .failed e)
    | .short => ([], .waiting)
    | .frame payload rest =>
      let (frames, ending) := streamStdioFrames label turns rest
      (payload :: frames, ending)

/-- The loop of `request_streamed_frames_over_direct_socket`. -/
def streamDirectFrames (label : String) :
    Nat → List UInt8 → List (List UInt8) × Except String Unit
  | 0, _ => ([], .ok ())
  | turns + 1, input =>
    match readNextDirectSocketResponseFrame label input with
    | .error e => ([], .error e)
    | .ok none => ([], .ok ())
    | .ok (some (payload, rest)) =>
      let (frames, ending) := streamDirectFrames label turns rest
      (payload :: frames, ending)

/-- A read that gets no more bytes: it times out, or the CLI waits for ever. -/
def starve (label : String) (timeout : Option Nat) (frames : List (List UInt8)) : ResponseOutcome :=
  match timeout with
  | some ms => .failed frames (label ++ " read timed out after " ++ toString ms ++ " ms")
  | none => .hanging frames

/-- The end of `request_events_over_ssh` and of its local twin, and what is
left of the proxy's output: after an error the process is replaced. -/
def messageOutcome (label : String) (timeout : Option Nat) :
    MessageRead → ResponseOutcome × List UInt8
  | .done out rest =>
    match DeployCommand.decodeFrames out with
    | .ok frames => (.completed frames, rest)
    | .error e => (.failed [] e, rest)
  | .failed e => (.failed [] e, [])
  | .waiting => (starve label timeout [], [])

/-- The same for `request_streamed_frames_over_ssh` and its local twin. -/
def streamOutcome (label : String) (timeout : Option Nat) :
    List (List UInt8) × StreamEnd → ResponseOutcome × List UInt8
  | (frames, .completed rest) => (.completed frames, rest)
  | (frames, .failed e) => (.failed frames e, [])
  | (frames, .waiting) => (starve label timeout frames, [])

/-- A request behind the proxy whose output holds `input`. -/
def viaProxy (label : String) (timeout : Option Nat) (input : List UInt8) :
    ResponseMode → ResponseOutcome × List UInt8
  | .message =>
    messageOutcome label timeout (readStdioResponseMessage label (input.length + 1) [] input)
  | .streaming => streamOutcome label timeout (streamStdioFrames label (input.length + 1) input)

/-- The same request on the socket. -/
def viaSocket (label : String) (input : List UInt8) : ResponseMode → ResponseOutcome
  | .message =>
    match (readDirectSocketResponseMessage label (input.length + 1) [] input).bind
        fun out => DeployCommand.decodeFrames out with
    | .ok frames => .completed frames
    | .error e => .failed [] e
  | .streaming =>
    match streamDirectFrames label (input.length + 1) input with
    | (frames, .ok _) => .completed frames
    | (frames, .error e) => .failed frames e

/-- One request: how its response is read and what the daemon delivers. -/
structure Exchange where
  mode : ResponseMode
  timeout : Option Nat
  response : Delivery

/-- The outcomes of a list of requests on one session; `left` is what earlier
ones left in the proxy's output.  A request that hangs keeps the session. -/
def proxyRun (label : String) (left : List UInt8) : List Exchange → List ResponseOutcome
  | [] => []
  | x :: xs =>
    match viaProxy label x.timeout (left ++ x.response.bytes ++ terminator) x.mode with
    | (.hanging frames, _) => [.hanging frames]
    | (outcome, left) => outcome :: proxyRun label left xs

/-- A response of whole frames gives what it gives on the socket; a response
that was cut gives an error, and no frame that is not one of its own. -/
def Exchange.Right (label : String) (x : Exchange) (outcome : ResponseOutcome) : Prop :=
  (x.response.piece = [] → outcome = viaSocket label x.response.bytes x.mode) ∧
    (x.response.piece ≠ [] →
      ∃ frames e, outcome = .failed frames e ∧ frames <+: x.response.frames)

/-! ### Whole frames -/

section Whole

variable {label : String} {frames : List (List UInt8)}

/-- The message that frames add up to, or the first one that is too large. -/
def collect (label : String) : List UInt8 → List (List UInt8) → Except String (List UInt8)
  | out, [] => .ok out
  | out, p :: ps =>
    match ensureStdioResponseMessageGrowth label out.length p.length with
    | .error e => .error e
    | .ok _ => collect label (out ++ encodeFrame p) ps

theorem collect_of_le {out : List UInt8}
    (h : out.length + (encodeFrames frames).length ≤ maxStreamBytes) :
    collect label out frames = .ok (out ++ encodeFrames frames) := by
  induction frames generalizing out with
  | nil => rw [encodeFrames_nil, List.append_nil, collect]
  | cons p ps ih =>
    rw [encodeFrames_cons, List.length_append, length_encodeFrame] at h
    have hgrow : ensureStdioResponseMessageGrowth label out.length p.length = .ok () :=
      ensureStdioResponseMessageGrowth_eq_ok.mpr (by omega)
    rw [collect, hgrow, encodeFrames_cons, ← List.append_assoc]
    refine ih ?_
    rw [List.length_append, length_encodeFrame]
    omega

theorem collect_of_lt {out : List UInt8} (hout : out.length ≤ maxStreamBytes)
    (h : maxStreamBytes < out.length + (encodeFrames frames).length) :
    ∃ e, collect label out frames = .error e := by
  induction frames generalizing out with
  | nil =>
    rw [encodeFrames_nil, List.length_nil] at h
    omega
  | cons p ps ih =>
    rw [encodeFrames_cons, List.length_append, length_encodeFrame] at h
    rw [collect]
    rcases hgrow : ensureStdioResponseMessageGrowth label out.length p.length with e | u
    · exact ⟨e, rfl⟩
    · have hfit := ensureStdioResponseMessageGrowth_eq_ok.mp hgrow
      refine ih ?_ ?_ <;> rw [List.length_append, length_encodeFrame] <;> omega

/-- The loop of the message reader runs over whole frames one by one. -/
theorem readStdioResponseMessage_frames (hframes : ∀ p ∈ frames, Proper p) (turns : Nat)
    (out tail : List UInt8) :
    readStdioResponseMessage label (frames.length + turns) out (encodeFrames frames ++ tail) =
      match collect label out frames with
      | .error e => .failed e
      | .ok out => readStdioResponseMessage label turns out tail := by
  induction frames generalizing out with
  | nil => rw [List.length_nil, Nat.zero_add]; rfl
  | cons p ps ih =>
    obtain ⟨hp, hps⟩ := List.forall_mem_cons.mp hframes
    rw [List.length_cons, Nat.add_right_comm, readStdioResponseMessage, encodeFrames_cons,
      List.append_assoc, collect]
    rcases hgrow : ensureStdioResponseMessageGrowth label out.length p.length with e | u
    · rw [readFrame_encodeFrame_refused hp hgrow]
    · rw [readFrame_encodeFrame hp hgrow]
      exact ih hps _

/-- On the socket the header of a whole frame is read in one go. -/
theorem readNextDirectSocketResponseFrameLen_encodeFrame {p : List UInt8} (hp : Proper p)
    (rest : List UInt8) :
    readNextDirectSocketResponseFrameLen label (encodeFrame p ++ rest) =
      (ensureStdioResponseFrameLen label p.length).map fun _ => some (p.length, p ++ rest) := by
  have hpos : p.length ≠ 0 := fun h => hp.1 (List.length_eq_zero_iff.mp h)
  have htake : (be32 p.length ++ (p ++ rest)).take 4 = be32 p.length := List.take_left' rfl
  have hdrop : (be32 p.length ++ (p ++ rest)).drop 4 = p ++ rest := List.drop_left' rfl
  have hlong : ¬(be32 p.length ++ (p ++ rest)).length < 4 := by
    rw [List.length_append, length_be32]
    omega
  rw [encodeFrame, List.append_assoc, readNextDirectSocketResponseFrameLen]
  simp only [htake, hdrop, ofBytes_be32 hp.2, if_neg hpos, if_neg hlong]
  rfl

theorem readDirectSocketResponsePayload_append (p rest : List UInt8) :
    readDirectSocketResponsePayload label p.length (p ++ rest) = .ok (p, rest) := by
  have hlong : ¬(p ++ rest).length < p.length := by
    rw [List.length_append]
    omega
  rw [readDirectSocketResponsePayload, if_neg hlong, List.take_left' rfl, List.drop_left' rfl]

/-- A message that may grow by a frame has a frame of admissible length. -/
theorem frameLen_of_growth {currentLen payloadLen : Nat} :
    ensureStdioResponseMessageGrowth label currentLen payloadLen =
      (ensureStdioResponseFrameLen label payloadLen).bind fun _ =>
        ensureStdioResponseMessageGrowth label currentLen payloadLen := by
  rcases h : ensureStdioResponseFrameLen label payloadLen with e | u
  · rw [ensureStdioResponseMessageGrowth, h]
    rfl
  · rfl

theorem readDirectSocketResponseMessage_frames (hframes : ∀ p ∈ frames, Proper p) (turns : Nat)
    (out : List UInt8) :
    readDirectSocketResponseMessage label (frames.length + turns) out (encodeFrames frames) =
      collect label out frames := by
  induction frames generalizing out with
  | nil => cases turns <;> rfl
  | cons p ps ih =>
    obtain ⟨hp, hps⟩ := List.forall_mem_cons.mp hframes
    rw [List.length_cons, Nat.add_right_comm, readDirectSocketResponseMessage, encodeFrames_cons,
      readNextDirectSocketResponseFrameLen_encodeFrame hp, collect, frameLen_of_growth]
    rcases hlen : ensureStdioResponseFrameLen label p.length with e | u
    · rfl
    · dsimp only [bind, Except.bind, Except.map]
      rw [readDirectSocketResponsePayload_append]
      rcases hgrow : ensureStdioResponseMessageGrowth label out.length p.length with e | u
      · rfl
      · exact ih hps _

/-- The frames up to the first one that is too large. -/
def deliver (label : String) : List (List UInt8) → List (List UInt8) × Option String
  | [] => ([], none)
  | p :: ps =>
    match ensureStdioResponseFrameLen label p.length with
    | .error e => ([], some e)
    | .ok _ => (p :: (deliver label ps).1, (deliver label ps).2)

theorem deliver_of_le (h : ∀ p ∈ frames, p.length ≤ maxStreamBytes) :
    deliver label frames = (frames, none) := by
  induction frames with
  | nil => rfl
  | cons p ps ih =>
    obtain ⟨hp, hps⟩ := List.forall_mem_cons.mp h
    rw [deliver, ensureStdioResponseFrameLen_eq_ok.mpr hp, ih hps]

theorem deliver_of_lt (h : ∃ p ∈ frames, maxStreamBytes < p.length) :
    ∃ e, (deliver label frames).2 = some e := by
  induction frames with
  | nil =>
    obtain ⟨p, hp, -⟩ := h
    cases hp
  | cons q ps ih =>
    rw [deliver]
    rcases hlen : ensureStdioResponseFrameLen label q.length with e | u
    · exact ⟨e, rfl⟩
    · obtain ⟨p, hp, hlt⟩ := h
      rcases List.mem_cons.mp hp with rfl | hp
      · have := ensureStdioResponseFrameLen_eq_ok.mp hlen
        omega
      · exact ih ⟨p, hp, hlt⟩

theorem deliver_isPrefix (label : String) (frames : List (List UInt8)) :
    (deliver label frames).1 <+: frames := by
  induction frames with
  | nil => exact List.prefix_refl _
  | cons p ps ih =>
    rw [deliver]
    split
    · exact List.nil_prefix
    · exact List.prefix_cons_inj p |>.mpr ih

theorem streamStdioFrames_frames (hframes : ∀ p ∈ frames, Proper p) (turns : Nat)
    (tail : List UInt8) :
    streamStdioFrames label (frames.length + turns) (encodeFrames frames ++ tail) =
      match (deliver label frames).2 with
      | some e => ((deliver label frames).1, .failed e)
      | none => (frames ++ (streamStdioFrames label turns tail).1,
          (streamStdioFrames label turns tail).2) := by
  induction frames with
  | nil => rw [List.length_nil, Nat.zero_add]; rfl
  | cons p ps ih =>
    obtain ⟨hp, hps⟩ := List.forall_mem_cons.mp hframes
    rw [List.length_cons, Nat.add_right_comm, streamStdioFrames, readNextStdioResponseFrame,
      encodeFrames_cons, List.append_assoc, deliver]
    rcases hlen : ensureStdioResponseFrameLen label p.length with e | u
    · rw [readFrame_encodeFrame_refused hp hlen]
    · rw [readFrame_encodeFrame hp hlen]
      simp only [ih hps]
      rcases (deliver label ps).2 with - | e <;> rfl

theorem streamDirectFrames_frames (hframes : ∀ p ∈ frames, Proper p) (turns : Nat) :
    streamDirectFrames label (frames.length + turns) (encodeFrames frames) =
      ((deliver label frames).1,
        match (deliver label frames).2 with
        | some e => .error e
        | none => .ok ()) := by
  induction frames with
  | nil => cases turns <;> rfl
  | cons p ps ih =>
    obtain ⟨hp, hps⟩ := List.forall_mem_cons.mp hframes
    rw [List.length_cons, Nat.add_right_comm, streamDirectFrames, encodeFrames_cons, deliver,
      readNextDirectSocketResponseFrame, readNextDirectSocketResponseFrameLen_encodeFrame hp]
    rcases hlen : ensureStdioResponseFrameLen label p.length with e | u
    · rfl
    · show (match some <$> readDirectSocketResponsePayload label p.length (p ++ encodeFrames ps)
          with | .error e => _ | .ok none => _ | .ok (some (payload, rest)) => _) = _
      rw [readDirectSocketResponsePayload_append]
      show ((p :: (streamDirectFrames label (ps.length + turns) (encodeFrames ps)).1),
        (streamDirectFrames label (ps.length + turns) (encodeFrames ps)).2) = _
      rw [ih hps]

theorem length_le_encodeFrames (frames : List (List UInt8)) :
    frames.length ≤ (encodeFrames frames).length := by
  induction frames with
  | nil => exact Nat.le_refl _
  | cons p ps ih =>
    rw [List.length_cons, encodeFrames_cons, List.length_append, length_encodeFrame]
    omega

end Whole

variable {check : Nat → Except String Unit}

theorem readFrame_terminator_only : readFrame check terminator = .stop [] := by
  rw [← List.append_nil terminator, readFrame_terminator]

/-- **Whole frames come through the proxy as they do on the socket**, and
nothing is left behind. -/
theorem viaProxy_whole {label : String} {frames : List (List UInt8)}
    (hframes : ∀ p ∈ frames, Proper p) (timeout : Option Nat) (mode : ResponseMode) :
    viaProxy label timeout (encodeFrames frames ++ terminator) mode =
      (viaSocket label (encodeFrames frames) mode, []) := by
  have hshort := length_le_encodeFrames frames
  have hproxy : (encodeFrames frames ++ terminator).length + 1
      = frames.length + ((encodeFrames frames).length - frames.length + 4 + 1) := by
    rw [List.length_append, terminator, length_be32]
    omega
  have hsocket : (encodeFrames frames).length + 1
      = frames.length + ((encodeFrames frames).length - frames.length + 1) := by omega
  cases mode with
  | message =>
    rw [viaProxy, viaSocket, hproxy, hsocket, readStdioResponseMessage_frames hframes,
      readDirectSocketResponseMessage_frames hframes]
    rcases collect label [] frames with e | out
    · rfl
    · dsimp only
      rw [readStdioResponseMessage, readFrame_terminator_only]
      show (match DeployCommand.decodeFrames out with
          | .ok frames => (ResponseOutcome.completed frames, ([] : List UInt8))
          | .error e => (.failed [] e, [])) =
        ((match DeployCommand.decodeFrames out with
          | .ok frames => ResponseOutcome.completed frames
          | .error e => .failed [] e), [])
      rcases DeployCommand.decodeFrames out with e | fs <;> rfl
  | streaming =>
    rw [viaProxy, viaSocket, hproxy, hsocket, streamStdioFrames_frames hframes,
      streamDirectFrames_frames hframes]
    by_cases hle : ∀ p ∈ frames, p.length ≤ maxStreamBytes
    · rw [deliver_of_le hle]
      simp only [streamStdioFrames, readNextStdioResponseFrame, readFrame_terminator_only,
        List.append_nil, streamOutcome]
    · simp only [not_forall, Nat.not_le, exists_prop] at hle
      obtain ⟨e, he⟩ := deliver_of_lt hle
      rw [he]
      rfl

/-! ### Frames that were cut -/

/-- The length that the reader finds in the header of the last frame: what
there is of the header, filled up with the terminator. -/
def Delivery.seenLength (d : Delivery) : Nat := ofBytes ((d.piece ++ terminator).take 4)

/-- A size limit stops the reader before it gets to the end. -/
def Exchange.TooLarge (x : Exchange) : Prop :=
  match x.mode with
  | .message =>
    maxStreamBytes < (encodeFrames x.response.frames).length ∨
      0 < x.response.seenLength ∧
        maxStreamBytes < (encodeFrames x.response.frames).length + (4 + x.response.seenLength)
  | .streaming =>
    (∃ p ∈ x.response.frames, maxStreamBytes < p.length) ∨
      maxStreamBytes < x.response.seenLength

/-- The request comes out right: its response was not cut, or a size limit
stops the reader, or the read has a timeout, the header that the reader finds
is not that of a terminator, and when streaming more is missing than the
terminator can fill up. -/
def Exchange.Safe (x : Exchange) : Prop :=
  x.response.piece = [] ∨ x.TooLarge ∨
    x.timeout ≠ none ∧ 0 < x.response.seenLength ∧
      (x.mode = .streaming → x.response.piece.length < x.response.seenLength)

section Cut

variable {label : String}

/-- What a reader makes of the piece and the terminator behind it. -/
theorem readFrame_piece (d : Delivery) :
    readFrame check (d.piece ++ terminator) =
      if d.seenLength = 0 then .stop ((d.piece ++ terminator).drop 4)
      else readPayload check d.seenLength ((d.piece ++ terminator).drop 4) := by
  have hheader : ((d.piece ++ terminator).take 4).length = 4 := by
    rw [List.length_take, List.length_append, terminator, length_be32]
    omega
  rw [Delivery.seenLength, ← readFrame_header hheader, List.take_append_drop]

/-- Behind the header there are as many bytes as the piece has. -/
theorem length_body (d : Delivery) : ((d.piece ++ terminator).drop 4).length = d.piece.length := by
  rw [List.length_drop, List.length_append, terminator, length_be32, Nat.add_sub_cancel]

/-- The terminator never fills up more than the payload: behind the frame
that it completes there is no room for a header. -/
theorem readFrame_padded (d : Delivery) (hle : d.seenLength ≤ d.piece.length)
    (hcut : d.piece ≠ []) :
    readFrame check (((d.piece ++ terminator).drop 4).drop d.seenLength) = .short := by
  obtain ⟨p, hp, hpre, hne⟩ := d.piece_cut.resolve_left hcut
  have hlen : d.piece.length < (encodeFrame p).length :=
    Nat.lt_of_le_of_ne hpre.length_le fun h => hne (hpre.eq_of_length h)
  rw [length_encodeFrame] at hlen
  have hshort : (((d.piece ++ terminator).drop 4).drop d.seenLength).length < 4 := by
    simp only [List.length_drop, List.length_append, terminator, length_be32]
    by_cases hheader : d.piece.length < 4
    · omega
    · -- the header is there, and with it the length of the payload
      have hseen : d.seenLength = p.length := by
        obtain ⟨t, ht⟩ := hpre
        have htake : (d.piece ++ terminator).take 4 = (encodeFrame p).take 4 := by
          rw [← ht, List.take_append_of_le_length (by omega),
            List.take_append_of_le_length (by omega)]
        rw [Delivery.seenLength, htake, encodeFrame, List.take_left' (length_be32 _),
          ofBytes_be32 hp.2]
      omega
  simp only [readFrame, if_pos hshort]

/-- Enough turns for the frames and for what comes behind them. -/
theorem turns_eq (d : Delivery) : ∃ turns,
    (encodeFrames d.frames ++ (d.piece ++ terminator)).length + 1 =
      d.frames.length + (turns + 2) := by
  refine ⟨(encodeFrames d.frames ++ (d.piece ++ terminator)).length + 1 - d.frames.length - 2, ?_⟩
  have := length_le_encodeFrames d.frames
  simp only [List.length_append, terminator, length_be32]
  omega

/-- The message reader at the place of the cut. -/
theorem readStdioResponseMessage_piece (d : Delivery) (hcut : d.piece ≠ []) (turns : Nat)
    (out : List UInt8) :
    readStdioResponseMessage label (turns + 2) out (d.piece ++ terminator) =
      if d.seenLength = 0 then .done out ((d.piece ++ terminator).drop 4)
      else
        match ensureStdioResponseMessageGrowth label out.length d.seenLength with
        | .error e => .failed e
        | .ok _ => .waiting := by
  rw [readStdioResponseMessage, readFrame_piece]
  by_cases hzero : d.seenLength = 0
  · rw [if_pos hzero, if_pos hzero]
  · rw [if_neg hzero, if_neg hzero]
    rcases hgrow : ensureStdioResponseMessageGrowth label out.length d.seenLength with e | u
    · rw [readPayload_refused hgrow]
    · by_cases hlt : d.piece.length < d.seenLength
      · rw [readPayload_short hgrow (by rwa [length_body])]
      · -- the terminator completes the payload, and the reader waits for the next header
        have hle := Nat.not_lt.mp hlt
        rw [readPayload_frame hgrow (by rwa [length_body])]
        dsimp only
        rw [readStdioResponseMessage, readFrame_padded d hle hcut]

/-- The frame reader at the place of the cut. -/
theorem streamStdioFrames_piece (d : Delivery) (hcut : d.piece ≠ []) (turns : Nat) :
    streamStdioFrames label (turns + 2) (d.piece ++ terminator) =
      if d.seenLength = 0 then ([], .completed ((d.piece ++ terminator).drop 4))
      else
        match ensureStdioResponseFrameLen label d.seenLength with
        | .error e => ([], .failed e)
        | .ok _ =>
          if d.piece.length < d.seenLength then ([], .waiting)
          else ([((d.piece ++ terminator).drop 4).take d.seenLength], .waiting) := by
  rw [streamStdioFrames, readNextStdioResponseFrame, readFrame_piece]
  by_cases hzero : d.seenLength = 0
  · rw [if_pos hzero, if_pos hzero]
  · rw [if_neg hzero, if_neg hzero]
    rcases hlen : ensureStdioResponseFrameLen label d.seenLength with e | u
    · rw [readPayload_refused hlen]
    · by_cases hlt : d.piece.length < d.seenLength
      · simp only [readPayload_short hlen (by rwa [length_body]), if_pos hlt]
      · have hle := Nat.not_lt.mp hlt
        simp only [readPayload_frame hlen (by rwa [length_body]), if_neg hlt, streamStdioFrames,
          readNextStdioResponseFrame, readFrame_padded d hle hcut]

/-- What a request must come to if its response was cut. -/
def Reported (d : Delivery) (result : ResponseOutcome × List UInt8) : Prop :=
  ∃ frames e, result.1 = .failed frames e ∧ frames <+: d.frames

theorem starve_reported {d : Delivery} {timeout : Option Nat} {frames : List (List UInt8)}
    {rest : List UInt8} :
    Reported d (starve label timeout frames, rest) ↔ timeout ≠ none ∧ frames <+: d.frames := by
  constructor
  · rintro ⟨fs, e, heq, hpre⟩
    rcases timeout with - | ms
    · cases heq
    · obtain ⟨rfl, -⟩ := ResponseOutcome.failed.inj heq
      exact ⟨Option.some_ne_none ms, hpre⟩
  · rintro ⟨htimeout, hpre⟩
    obtain ⟨ms, rfl⟩ := Option.ne_none_iff_exists'.mp htimeout
    exact ⟨frames, _, rfl, hpre⟩

variable {x : Exchange}

/-- The request alone on a new session, and what it leaves behind. -/
abbrev Exchange.alone (label : String) (x : Exchange) : ResponseOutcome × List UInt8 :=
  viaProxy label x.timeout (x.response.bytes ++ terminator) x.mode

/-- A message that was cut comes out right exactly if it is safe. -/
theorem viaProxy_message_cut (hmode : x.mode = .message) (hcut : x.response.piece ≠ []) :
    (Reported x.response (x.alone label) ↔ x.Safe) ∧ (x.Safe → (x.alone label).2 = []) := by
  obtain ⟨turns, hturns⟩ := turns_eq x.response
  have hsafe : x.Safe ↔ (maxStreamBytes < (encodeFrames x.response.frames).length ∨
      0 < x.response.seenLength ∧
        maxStreamBytes < (encodeFrames x.response.frames).length + (4 + x.response.seenLength)) ∨
      x.timeout ≠ none ∧ 0 < x.response.seenLength := by
    simp [Exchange.Safe, Exchange.TooLarge, hcut, hmode]
  rw [hsafe, Exchange.alone, hmode, Delivery.bytes, List.append_assoc, viaProxy, hturns,
    readStdioResponseMessage_frames x.response.frames_proper]
  by_cases hfit : maxStreamBytes < (encodeFrames x.response.frames).length
  · obtain ⟨e, he⟩ : ∃ e, collect label [] x.response.frames = .error e :=
      collect_of_lt (Nat.zero_le _) (by rwa [List.length_nil, Nat.zero_add])
    rw [he]
    refine ⟨⟨fun _ => .inl (.inl hfit), fun _ => ⟨[], e, rfl, List.nil_prefix⟩⟩, fun _ => rfl⟩
  · have hcollect : collect label [] x.response.frames = .ok (encodeFrames x.response.frames) := by
      have h : collect label [] x.response.frames = .ok ([] ++ encodeFrames x.response.frames) :=
        collect_of_le (by rw [List.length_nil, Nat.zero_add]; omega)
      rwa [List.nil_append] at h
    rw [hcollect]
    dsimp only
    rw [readStdioResponseMessage_piece x.response hcut]
    by_cases hzero : x.response.seenLength = 0
    · -- the reader takes the piece for the end of the message
      have hdecode : DeployCommand.decodeFrames (encodeFrames x.response.frames) =
          .ok x.response.frames :=
        DeployCommand.decodeFrames_encodeFrames fun p hp => (x.response.frames_proper p hp).2
      rw [if_pos hzero, messageOutcome, hdecode]
      refine ⟨⟨?_, fun h => ?_⟩, fun h => ?_⟩
      · rintro ⟨frames, e, heq, -⟩
        cases heq
      · omega
      · omega
    · rw [if_neg hzero]
      have hpos := Nat.pos_of_ne_zero hzero
      rcases hgrow : ensureStdioResponseMessageGrowth label
          (encodeFrames x.response.frames).length x.response.seenLength with e | u
      · have hlarge : maxStreamBytes < (encodeFrames x.response.frames).length +
            (4 + x.response.seenLength) := by
          by_contra hle
          rw [ensureStdioResponseMessageGrowth_eq_ok.mpr (Nat.not_lt.mp hle)] at hgrow
          cases hgrow
        refine ⟨⟨fun _ => .inl (.inr ⟨hpos, hlarge⟩), fun _ => ⟨[], e, rfl, List.nil_prefix⟩⟩,
          fun _ => rfl⟩
      · have hsmall := ensureStdioResponseMessageGrowth_eq_ok.mp hgrow
        refine ⟨?_, fun _ => rfl⟩
        rw [messageOutcome, starve_reported]
        constructor
        · rintro ⟨htimeout, -⟩
          exact .inr ⟨htimeout, hpos⟩
        · rintro (h | ⟨htimeout, -⟩)
          · omega
          · exact ⟨htimeout, List.nil_prefix⟩

/-- A stream of frames that was cut comes out right exactly if it is safe. -/
theorem viaProxy_streaming_cut (hmode : x.mode = .streaming) (hcut : x.response.piece ≠ []) :
    (Reported x.response (x.alone label) ↔ x.Safe) ∧ (x.Safe → (x.alone label).2 = []) := by
  obtain ⟨turns, hturns⟩ := turns_eq x.response
  have hsafe : x.Safe ↔ ((∃ p ∈ x.response.frames, maxStreamBytes < p.length) ∨
      maxStreamBytes < x.response.seenLength) ∨
      x.timeout ≠ none ∧ 0 < x.response.seenLength ∧
        x.response.piece.length < x.response.seenLength := by
    simp [Exchange.Safe, Exchange.TooLarge, hcut, hmode]
  rw [hsafe, Exchange.alone, hmode, Delivery.bytes, List.append_assoc, viaProxy, hturns,
    streamStdioFrames_frames x.response.frames_proper]
  by_cases hlarge : ∃ p ∈ x.response.frames, maxStreamBytes < p.length
  · obtain ⟨e, he⟩ : ∃ e, (deliver label x.response.frames).2 = some e := deliver_of_lt hlarge
    rw [he]
    exact ⟨⟨fun _ => .inl (.inl hlarge), fun _ => ⟨_, e, rfl, deliver_isPrefix _ _⟩⟩, fun _ => rfl⟩
  · have hle : ∀ p ∈ x.response.frames, p.length ≤ maxStreamBytes :=
      fun p hp => Nat.not_lt.mp fun hlt => hlarge ⟨p, hp, hlt⟩
    rw [deliver_of_le hle]
    dsimp only
    rw [streamStdioFrames_piece x.response hcut]
    by_cases hzero : x.response.seenLength = 0
    · rw [if_pos hzero]
      refine ⟨⟨?_, fun h => ?_⟩, fun h => ?_⟩
      · rintro ⟨frames, e, heq, -⟩
        cases heq
      · rcases h with (h | h) | h
        · exact absurd h hlarge
        · omega
        · omega
      · rcases h with (h | h) | h
        · exact absurd h hlarge
        · omega
        · omega
    · rw [if_neg hzero]
      have hpos := Nat.pos_of_ne_zero hzero
      rcases hlen : ensureStdioResponseFrameLen label x.response.seenLength with e | u
      · have hlt : maxStreamBytes < x.response.seenLength := by
          by_contra hle
          rw [ensureStdioResponseFrameLen_eq_ok.mpr (Nat.not_lt.mp hle)] at hlen
          cases hlen
        refine ⟨⟨fun _ => .inl (.inr hlt), fun _ => ⟨x.response.frames, e, ?_, List.prefix_refl _⟩⟩,
          fun _ => rfl⟩
        show ResponseOutcome.failed (x.response.frames ++ []) e = _
        rw [List.append_nil]
      · have hsmall := ensureStdioResponseFrameLen_eq_ok.mp hlen
        by_cases hlt : x.response.piece.length < x.response.seenLength
        · simp only [if_pos hlt, streamOutcome, starve_reported, List.append_nil]
          refine ⟨⟨fun h => .inr ⟨h.1, hpos, hlt⟩, ?_⟩, fun _ => trivial⟩
          rintro ((h | h) | ⟨htimeout, -⟩)
          · exact absurd h hlarge
          · omega
          · exact ⟨htimeout, List.prefix_refl _⟩
        · -- a frame that the terminator has completed is given to the caller
          simp only [if_neg hlt, streamOutcome, starve_reported]
          refine ⟨⟨?_, ?_⟩, fun _ => trivial⟩
          · rintro ⟨-, hpre⟩
            have := hpre.length_le
            rw [List.length_append, List.length_singleton] at this
            omega
          · rintro ((h | h) | h)
            · exact absurd h hlarge
            · omega
            · omega

theorem viaProxy_cut (label : String) (hcut : x.response.piece ≠ []) :
    (Reported x.response (x.alone label) ↔ x.Safe) ∧ (x.Safe → (x.alone label).2 = []) := by
  rcases hmode : x.mode with - | -
  · exact viaProxy_message_cut hmode hcut
  · exact viaProxy_streaming_cut hmode hcut

end Cut

/-! ### All requests of a session -/

section Run

variable {label : String}

/-- One request on a session without left-overs. -/
theorem right_iff_safe (label : String) (x : Exchange) :
    (x.Right label (x.alone label).1 ↔ x.Safe) ∧ (x.Safe → (x.alone label).2 = []) := by
  by_cases hwhole : x.response.piece = []
  · have hbytes : x.response.bytes = encodeFrames x.response.frames := by
      rw [Delivery.bytes, hwhole, List.append_nil]
    rw [Exchange.Right, Exchange.alone, hbytes, viaProxy_whole x.response.frames_proper]
    exact ⟨⟨fun _ => .inl hwhole, fun _ => ⟨fun _ => rfl, fun h => absurd hwhole h⟩⟩, fun _ => rfl⟩
  · obtain ⟨hreported, hrest⟩ := viaProxy_cut label hwhole
    refine ⟨Iff.trans ?_ hreported, hrest⟩
    exact ⟨fun h => h.2 hwhole, fun h => ⟨fun h' => absurd h' hwhole, fun _ => h⟩⟩

/-- A request that comes out right does not hang. -/
theorem Exchange.Right.not_hanging {x : Exchange} {outcome : ResponseOutcome}
    (h : x.Right label outcome) (frames : List (List UInt8)) : outcome ≠ .hanging frames := by
  rintro rfl
  by_cases hwhole : x.response.piece = []
  · have hsocket := h.1 hwhole
    rcases hmode : x.mode with - | - <;> rw [hmode, viaSocket] at hsocket <;> split at hsocket <;>
      cases hsocket
  · obtain ⟨fs, e, heq, -⟩ := h.2 hwhole
    cases heq

theorem proxyRun_cons (label : String) (x : Exchange) (xs : List Exchange) :
    ∃ later, proxyRun label [] (x :: xs) = (x.alone label).1 :: later ∧
      (x.Safe → later = proxyRun label [] xs) := by
  obtain ⟨hright, hrest⟩ := right_iff_safe label x
  rw [proxyRun, List.nil_append, Exchange.alone]
  rcases hvia : viaProxy label x.timeout (x.response.bytes ++ terminator) x.mode
    with ⟨outcome, left⟩
  rw [Exchange.alone, hvia] at hright hrest
  cases outcome with
  | hanging frames =>
    exact ⟨[], rfl, fun hsafe => absurd rfl ((hright.mpr hsafe).not_hanging frames)⟩
  | completed frames | failed frames e =>
    exact ⟨_, rfl, fun hsafe => congrArg (proxyRun label · xs) (hrest hsafe)⟩

/-- Every request of the session comes out right. -/
def Faithful (label : String) (xs : List Exchange) : Prop :=
  ∀ (i : Nat) (x : Exchange), xs[i]? = some x →
    ∃ outcome, (proxyRun label [] xs)[i]? = some outcome ∧ x.Right label outcome

/-- **When the proxy is faithful.**  For every list of requests on one
session, with responses that consist of whole frames or were cut anywhere:
every request comes out right exactly if each of them is safe on its own.
By induction on the requests: a safe one leaves nothing behind, and the first
one that is not safe comes out wrong. -/
theorem proxy_faithful_iff (label : String) (xs : List Exchange) :
    Faithful label xs ↔ ∀ x ∈ xs, x.Safe := by
  induction xs with
  | nil => exact ⟨nofun, nofun⟩
  | cons x xs ih =>
    obtain ⟨later, hrun, hlater⟩ := proxyRun_cons label x xs
    rw [Faithful, hrun, List.forall_mem_cons, ← ih]
    constructor
    · intro h
      obtain ⟨outcome, houtcome, hright⟩ := h 0 x rfl
      cases houtcome
      have hsafe := (right_iff_safe label x).1.mp hright
      refine ⟨hsafe, fun i y hy => ?_⟩
      rw [← hlater hsafe]
      exact h (i + 1) y hy
    · rintro ⟨hsafe, hrest⟩ i y hy
      rw [hlater hsafe]
      cases i with
      | zero =>
        cases hy
        exact ⟨_, rfl, (right_iff_safe label x).1.mpr hsafe⟩
      | succ i => exact hrest i y hy

end Run

/-- A connection that breaks after the first byte of a frame header. -/
def sampleBroken : Delivery where
  frames := []
  piece := [0]
  frames_proper := nofun
  piece_cut := Or.inr ⟨[7, 7], ⟨by decide, by decide⟩, by decide, by decide⟩

/-- A response of one frame. -/
def sampleWhole : Delivery where
  frames := [[7, 7]]
  piece := []
  frames_proper := fun p hp => by
    obtain rfl := List.mem_singleton.mp hp
    decide
  piece_cut := Or.inl rfl

/-- The broken response is reported as an empty one, without an error, and the
byte that is left over makes an empty response of the next one, too. -/
theorem proxy_not_faithful :
    let xs : List Exchange :=
      [⟨.message, some 1000, sampleBroken⟩, ⟨.message, some 1000, sampleWhole⟩]
    proxyRun "ssh transport" [] xs = [.completed [], .completed []] ∧
      viaSocket "ssh transport" sampleBroken.bytes .message =
        .failed [] "ssh transport closed in the middle of a response" ∧
      viaSocket "ssh transport" sampleWhole.bytes .message = .completed [[7, 7]] ∧
      ¬Faithful "ssh transport" xs := by
  intro xs
  have hrun : proxyRun "ssh transport" [] xs = [.completed [], .completed []] := by decide +kernel
  refine ⟨hrun, by decide +kernel, by decide +kernel, fun h => ?_⟩
  obtain ⟨outcome, houtcome, hright⟩ := h 0 ⟨.message, some 1000, sampleBroken⟩ rfl
  rw [hrun] at houtcome
  cases houtcome
  obtain ⟨frames, e, heq, -⟩ := hright.2 (by decide)
  cases heq

end Imago
