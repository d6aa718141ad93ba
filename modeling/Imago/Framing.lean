/-
Imago/Framing.lean

Length-prefixed frames on a byte stream: a 32-bit big-endian length, then as
many bytes.  A length of zero ends a message.

`readFrame` reads one frame from the bytes that have arrived so far, with a
check between the length and the payload.  Three facts carry everything
above: it undoes `encodeFrame` (`readFrame_encodeFrame`), what it reads does
not depend on bytes that arrive later (`readFrame_append`), and so a stream of
frames can be read in one way only.
-/
import Mathlib.Algebra.GroupWithZero.Nat
import Mathlib.Data.List.Basic
import Mathlib.Data.List.Infix

namespace Imago

/-! ### Lengths -/

/-- The four bytes of a 32-bit number, most significant first. -/
def be32 (n : Nat) : List UInt8 :=
  [UInt8.ofNat (n / 2 ^ 24), UInt8.ofNat (n / 2 ^ 16), UInt8.ofNat (n / 2 ^ 8), UInt8.ofNat n]

/-- The number that a list of bytes stands for, most significant first. -/
def ofBytes (bytes : List UInt8) : Nat :=
  bytes.foldl (fun n b => n * 256 + b.toNat) 0

@[simp] theorem length_be32 (n : Nat) : (be32 n).length = 4 := rfl

theorem ofBytes_be32 {n : Nat} (h : n < 2 ^ 32) : ofBytes (be32 n) = n := by
  simp only [ofBytes, be32, List.foldl_cons, List.foldl_nil, UInt8.toNat_ofNat']
  omega

/-! ### Frames -/

def encodeFrame (payload : List UInt8) : List UInt8 :=
  be32 payload.length ++ payload

def encodeFrames (frames : List (List UInt8)) : List UInt8 :=
  frames.flatMap encodeFrame

/-- The length of zero that ends a message. -/
def terminator : List UInt8 := be32 0

/-- A payload that a frame can carry: not empty, and its length has 32 bits. -/
def Proper (payload : List UInt8) : Prop :=
  payload ≠ [] ∧ payload.length < 2 ^ 32

instance (payload : List UInt8) : Decidable (Proper payload) :=
  inferInstanceAs (Decidable (_ ∧ _))

theorem length_encodeFrame (p : List UInt8) : (encodeFrame p).length = 4 + p.length := by
  rw [encodeFrame, List.length_append, length_be32]

@[simp] theorem encodeFrames_nil : encodeFrames [] = [] := rfl

@[simp] theorem encodeFrames_cons (p : List UInt8) (ps : List (List UInt8)) :
    encodeFrames (p :: ps) = encodeFrame p ++ encodeFrames ps := rfl

/-! ### Reading one frame -/

/-- What comes of reading a frame from the bytes that are there. -/
inductive FrameRead (ε : Type) where
  | frame (payload rest : List UInt8)
  | stop (rest : List UInt8)
  | refused (e : ε)
  | short
  deriving DecidableEq

variable {ε : Type} {check : Nat → Except ε Unit}

/-- Checks a length and reads a payload. -/
def readPayload (check : Nat → Except ε Unit) (len : Nat) (input : List UInt8) : FrameRead ε :=
  match check len with
  | .error e => .refused e
  | .ok _ => if input.length < len then .short else .frame (input.take len) (input.drop len)

/-- Reads a length and, if it is not zero, a payload. -/
def readFrame (check : Nat → Except ε Unit) (input : List UInt8) : FrameRead ε :=
  if input.length < 4 then .short
  else if ofBytes (input.take 4) = 0 then .stop (input.drop 4)
  else readPayload check (ofBytes (input.take 4)) (input.drop 4)

section ReadPayload

variable {len : Nat} {input : List UInt8}

theorem readPayload_refused {e : ε} (hc : check len = .error e) :
    readPayload check len input = .refused e := by
  simp only [readPayload, hc]

theorem readPayload_short (hc : check len = .ok ()) (hlen : input.length < len) :
    readPayload check len input = .short := by
  simp only [readPayload, hc, if_pos hlen]

theorem readPayload_frame (hc : check len = .ok ()) (hlen : len ≤ input.length) :
    readPayload check len input = .frame (input.take len) (input.drop len) := by
  simp only [readPayload, hc, if_neg (Nat.not_lt.mpr hlen)]

end ReadPayload

/-- Behind a whole header only the payload matters. -/
theorem readFrame_header {header : List UInt8} (hheader : header.length = 4) (body : List UInt8) :
    readFrame check (header ++ body) =
      if ofBytes header = 0 then .stop body else readPayload check (ofBytes header) body := by
  have hlong : ¬(header ++ body).length < 4 := by
    rw [List.length_append]
    omega
  rw [readFrame, if_neg hlong, List.take_left' hheader, List.drop_left' hheader]

theorem readFrame_encodeFrame_eq {p : List UInt8} (hp : Proper p) (rest : List UInt8) :
    readFrame check (encodeFrame p ++ rest) = readPayload check p.length (p ++ rest) := by
  have hpos : p.length ≠ 0 := fun h => hp.1 (List.length_eq_zero_iff.mp h)
  rw [encodeFrame, List.append_assoc, readFrame_header rfl, ofBytes_be32 hp.2, if_neg hpos]

theorem readFrame_encodeFrame {p : List UInt8} (hp : Proper p) (hc : check p.length = .ok ())
    (rest : List UInt8) : readFrame check (encodeFrame p ++ rest) = .frame p rest := by
  have hlong : p.length ≤ (p ++ rest).length := by
    rw [List.length_append]
    omega
  rw [readFrame_encodeFrame_eq hp, readPayload_frame hc hlong, List.take_left' rfl,
    List.drop_left' rfl]

theorem readFrame_encodeFrame_refused {p : List UInt8} (hp : Proper p) {e : ε}
    (hc : check p.length = .error e) (rest : List UInt8) :
    readFrame check (encodeFrame p ++ rest) = .refused e := by
  rw [readFrame_encodeFrame_eq hp, readPayload_refused hc]

theorem readFrame_terminator (rest : List UInt8) :
    readFrame check (terminator ++ rest) = .stop rest := by
  rw [terminator, readFrame_header rfl, ofBytes_be32 (by decide), if_pos rfl]

/-- The same result with more bytes behind it. -/
def FrameRead.append (more : List UInt8) : FrameRead ε → FrameRead ε
  | .frame p rest => .frame p (rest ++ more)
  | .stop rest => .stop (rest ++ more)
  | .refused e => .refused e
  | .short => .short

/-- **What has been read does not change when more bytes arrive.** -/
theorem readFrame_append {input : List UInt8} (h : readFrame check input ≠ .short)
    (more : List UInt8) :
    readFrame check (input ++ more) = (readFrame check input).append more := by
  by_cases hshort : input.length < 4
  · exact absurd (by simp only [readFrame, if_pos hshort]) h
  · obtain ⟨header, body, rfl, hheader⟩ : ∃ header body, input = header ++ body ∧
        header.length = 4 :=
      ⟨input.take 4, input.drop 4, (List.take_append_drop 4 input).symm, by
        rw [List.length_take]; omega⟩
    rw [List.append_assoc, readFrame_header hheader, readFrame_header hheader]
    rw [readFrame_header hheader] at h
    by_cases hzero : ofBytes header = 0
    · rw [if_pos hzero, if_pos hzero, FrameRead.append]
    · rw [if_neg hzero] at h ⊢
      rw [if_neg hzero]
      rcases hc : check (ofBytes header) with e | u
      · rw [readPayload_refused hc, readPayload_refused hc, FrameRead.append]
      · have hlen : ofBytes header ≤ body.length :=
          Nat.not_lt.mp fun hlt => h (readPayload_short hc hlt)
        have hlong : ofBytes header ≤ (body ++ more).length := by
          rw [List.length_append]
          omega
        rw [readPayload_frame hc hlen, readPayload_frame hc hlong, FrameRead.append,
          List.take_append_of_le_length hlen, List.drop_append_of_le_length hlen]

/-- A stream of frames is read frame by frame up to its end. -/
theorem readFrame_stream (frames : List (List UInt8)) : (∀ q ∈ frames, Proper q) →
    readFrame check (encodeFrames frames ++ terminator) =
      match frames with
      | [] => .stop []
      | q :: frames' =>
        match check q.length with
        | .error e => .refused e
        | .ok _ => .frame q (encodeFrames frames' ++ terminator) := by
  intro hframes
  cases frames with
  | nil => rw [encodeFrames_nil, List.nil_append, ← List.append_nil terminator,
      readFrame_terminator]
  | cons q frames' =>
    have hq := hframes q (.head _)
    rw [encodeFrames_cons, List.append_assoc]
    dsimp only
    split
    · rw [readFrame_encodeFrame_refused hq ‹_›]
    · rw [readFrame_encodeFrame hq ‹_›]

section Stream

variable {input more p : List UInt8} {rest : List UInt8} {frames : List (List UInt8)}
  (hframes : ∀ q ∈ frames, Proper q) (hstream : input ++ more = encodeFrames frames ++ terminator)

include hframes hstream

/-- A frame that is read from a stream of frames is the first of them. -/
theorem readFrame_of_stream (h : readFrame check input = .frame p rest) :
    ∃ frames', frames = p :: frames' ∧ rest ++ more = encodeFrames frames' ++ terminator := by
  have hread : readFrame check (input ++ more) = .frame p (rest ++ more) := by
    rw [readFrame_append (by rw [h]; simp), h, FrameRead.append]
  rw [hstream, readFrame_stream frames hframes] at hread
  split at hread
  · cases hread
  · split at hread
    · cases hread
    · injection hread with hp hrest
      exact ⟨_, by rw [hp], hrest.symm⟩

/-- The end that is read from a stream of frames is behind the last of them. -/
theorem readFrame_of_stream_stop (h : readFrame check input = .stop rest) :
    frames = [] ∧ rest ++ more = [] := by
  have hread : readFrame check (input ++ more) = .stop (rest ++ more) := by
    rw [readFrame_append (by rw [h]; simp), h, FrameRead.append]
  rw [hstream, readFrame_stream frames hframes] at hread
  split at hread
  · injection hread with hrest
    exact ⟨rfl, hrest.symm⟩
  · split at hread <;> cases hread

end Stream

end Imago
