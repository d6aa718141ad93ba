/-
Imago/StdioTransport.lean

How the CLI reads a response, over `imagod proxy-stdio` and over the local
control socket (`deploy/mod.rs`), and how `imagod proxy-stdio` reads a request
(`imagod/src/lib.rs`).  All of them read frames; they differ in where a
response ends.  On the socket the connection is closed behind it.  The proxy
turns that into a frame of length zero, since its own output goes on.

A reader is given the bytes that have arrived.  If it needs more of them it
waits, on the proxy's output, or fails, on a socket that was closed.
-/
import Imago.Framing
import Imago.RustStd

namespace Imago

/-! ### Size limits -/

/-- `MAX_STREAM_BYTES`. -/
def maxStreamBytes : Nat := 32 * 1024 * 1024

/-- `ensure_stdio_response_frame_len_with_label`. -/
def ensureStdioResponseFrameLen (label : String) (len : Nat) : Except String Unit :=
  if len > maxStreamBytes then
    .error (label ++ " response frame exceeds max size " ++ toString maxStreamBytes ++ " bytes")
  else .ok ()

/-- `ensure_stdio_response_message_growth_with_label`; a `usize` has 64 bits. -/
def ensureStdioResponseMessageGrowth (label : String) (currentLen payloadLen : Nat) :
    Except String Unit :=
  let tooLarge := label ++ " response exceeds max size " ++ toString maxStreamBytes ++ " bytes"
  match ensureStdioResponseFrameLen label payloadLen with
  | .error e => .error e
  | .ok _ =>
    match (checkedAdd 4 payloadLen).bind (checkedAdd currentLen) with
    | none => .error tooLarge
    | some projectedLen => if projectedLen > maxStreamBytes then .error tooLarge else .ok ()

theorem ensureStdioResponseFrameLen_eq_ok {label : String} {len : Nat} :
    ensureStdioResponseFrameLen label len = .ok () ↔ len ≤ maxStreamBytes := by
  unfold ensureStdioResponseFrameLen
  split
  · rename_i h
    exact ⟨nofun, fun h' => absurd h' (Nat.not_le.mpr h)⟩
  · rename_i h
    exact ⟨fun _ => Nat.not_lt.mp h, fun _ => rfl⟩

/-- Adding a frame to a message does not overflow unnoticed. -/
theorem checkedAdd_bind (currentLen payloadLen : Nat) :
    (checkedAdd 4 payloadLen).bind (checkedAdd currentLen) =
      if currentLen + (4 + payloadLen) ≤ u64Max then some (currentLen + (4 + payloadLen))
      else none := by
  by_cases hframe : 4 + payloadLen ≤ u64Max
  · rw [checkedAdd, if_pos hframe, Option.bind_some, checkedAdd]
  · rw [checkedAdd, if_neg hframe, if_neg (by omega), Option.bind_none]

/-- A message may grow as long as its frames fit. -/
theorem ensureStdioResponseMessageGrowth_eq_ok {label : String} {currentLen payloadLen : Nat} :
    ensureStdioResponseMessageGrowth label currentLen payloadLen = .ok () ↔
      currentLen + (4 + payloadLen) ≤ maxStreamBytes := by
  have hmax : maxStreamBytes ≤ u64Max := by decide
  rw [ensureStdioResponseMessageGrowth]
  rcases hframe : ensureStdioResponseFrameLen label payloadLen with e | u
  · have hlarge : ¬payloadLen ≤ maxStreamBytes := fun h => by
      cases hframe.symm.trans (ensureStdioResponseFrameLen_eq_ok.mpr h)
    exact ⟨nofun, fun h => absurd h (by omega)⟩
  · rw [checkedAdd_bind]
    by_cases hfit : currentLen + (4 + payloadLen) ≤ u64Max
    · simp only [if_pos hfit]
      split
      · exact ⟨nofun, fun h => (by omega)⟩
      · exact ⟨fun _ => (by omega), fun _ => rfl⟩
    · simp only [if_neg hfit]
      exact ⟨nofun, fun h => (by omega)⟩

/-! ### Behind the proxy -/

/-- What comes of reading a response message from the proxy's output. -/
inductive MessageRead where
  | done (out rest : List UInt8)
  | failed (e : String)
  | waiting
  deriving DecidableEq

/-- `read_stdio_response_message_with_label`, with `out` read already.  Each
turn takes four bytes at least, so the input bounds the number of turns. -/
def readStdioResponseMessage (label : String) : Nat → List UInt8 → List UInt8 → MessageRead
  | 0, _, _ => .waiting
  | turns + 1, out, input =>
    match readFrame (ensureStdioResponseMessageGrowth label out.length) input with
    | .stop rest => .done out rest
    | .refused e => .failed e
    | .short => .waiting
    | .frame payload rest =>
      readStdioResponseMessage label turns (out ++ encodeFrame payload) rest

/-- `read_next_stdio_response_frame_with_label`. -/
def readNextStdioResponseFrame (label : String) (input : List UInt8) : FrameRead String :=
  readFrame (ensureStdioResponseFrameLen label) input

/-! ### On the socket -/

/-- `read_next_direct_socket_response_frame_len_with_label` on a connection
that was closed behind `input`. -/
def readNextDirectSocketResponseFrameLen (label : String) (input : List UInt8) :
    Except String (Option (Nat × List UInt8)) :=
  if input.isEmpty then .ok none
  else if input.length < 4 then .error (label ++ " closed in the middle of a response")
  else
    let len := ofBytes (input.take 4)
    if len = 0 then .ok none
    else (ensureStdioResponseFrameLen label len).map fun _ => some (len, input.drop 4)

/-- `read_direct_socket_response_payload_with_label`. -/
def readDirectSocketResponsePayload (label : String) (len : Nat) (input : List UInt8) :
    Except String (List UInt8 × List UInt8) :=
  if input.length < len then .error (label ++ " closed in the middle of a response")
  else .ok (input.take len, input.drop len)

/-- `read_direct_socket_response_message_with_label`. -/
def readDirectSocketResponseMessage (label : String) :
    Nat → List UInt8 → List UInt8 → Except String (List UInt8)
  | 0, out, _ => .ok out
  | turns + 1, out, input => do
      match ← readNextDirectSocketResponseFrameLen label input with
      | none => return out
      | some (payloadLen, rest) =>
        ensureStdioResponseMessageGrowth label out.length payloadLen
        let (payload, rest) ← readDirectSocketResponsePayload label payloadLen rest
        readDirectSocketResponseMessage label turns (out ++ encodeFrame payload) rest

/-- `read_next_direct_socket_response_frame_with_label`. -/
def readNextDirectSocketResponseFrame (label : String) (input : List UInt8) :
    Except String (Option (List UInt8 × List UInt8)) := do
  match ← readNextDirectSocketResponseFrameLen label input with
  | none => return none
  | some (payloadLen, rest) => some <$> readDirectSocketResponsePayload label payloadLen rest

/-! ### The requests of the proxy -/

/-- `PROXY_STDIO_MAX_REQUEST_BYTES`. -/
def proxyStdioMaxRequestBytes : Nat := 16 * 1024 * 1024

/-- `ensure_stdio_message_growth`. -/
def ensureStdioMessageGrowth (currentLen payloadLen : Nat) : Except String Unit :=
  let tooLarge := "proxy-stdio request exceeds max size " ++ toString proxyStdioMaxRequestBytes ++
    " bytes"
  match (checkedAdd 4 payloadLen).bind (checkedAdd currentLen) with
  | none => .error tooLarge
  | some projectedLen =>
    if projectedLen > proxyStdioMaxRequestBytes then .error tooLarge else .ok ()

/-- `read_stdio_message`, with `message` read already. -/
def readStdioMessage : Nat → List UInt8 → List UInt8 → MessageRead
  | 0, _, _ => .waiting
  | turns + 1, message, input =>
    match readFrame (ensureStdioMessageGrowth message.length) input with
    | .stop rest =>
      if message.isEmpty then .failed "proxy-stdio received an empty request"
      else .done message rest
    | .refused e => .failed e
    | .short => .waiting
    | .frame payload rest => readStdioMessage turns (message ++ encodeFrame payload) rest

end Imago
