/-
Imago/FrameCodecs.lean

The three copies of the length-prefixed frame codec: the server's
`LengthPrefixedFrameCodec`, the remote RPC client of the manager, and the
command line.  The server collects ranges of the input and slices it afterwards;
the other two copy each payload in the loop.

All three are the one loop `decodeLoop`, which moves an offset through the input.
`decodeLoop_eq_ok_iff` says what it accepts from an offset on: exactly the
concatenations of encoded frames whose lengths have 32 bits.  Everything else
follows from that, since a stream of frames can be cut in one way only
(`prefix_of_encodeFrames`).
-/
import Imago.Errors
import Imago.Framing

namespace Imago

/-! ### Lengths -/

theorem ofBytes_lt {bytes : List UInt8} (h : bytes.length = 4) : ofBytes bytes < 2 ^ 32 := by
  obtain ⟨a, b, c, d, rfl⟩ := List.length_eq_four.mp h
  have ha := a.toNat_lt
  have hb := b.toNat_lt
  have hc := c.toNat_lt
  have hd := d.toNat_lt
  simp only [ofBytes, List.foldl_cons, List.foldl_nil]
  omega

/-- Four bytes are the encoding of the number that they stand for. -/
theorem be32_ofBytes {bytes : List UInt8} (h : bytes.length = 4) :
    be32 (ofBytes bytes) = bytes := by
  obtain ⟨a, b, c, d, rfl⟩ := List.length_eq_four.mp h
  have ha := a.toNat_lt
  have hb := b.toNat_lt
  have hc := c.toNat_lt
  have hd := d.toNat_lt
  simp only [ofBytes, be32, List.foldl_cons, List.foldl_nil, List.cons.injEq, ← UInt8.toNat_inj,
    UInt8.toNat_ofNat', and_true]
  refine ⟨?_, ?_, ?_, ?_⟩ <;> omega

/-- The payloads that a frame carries. -/
def Frameable (frames : List (List UInt8)) : Prop := ∀ p ∈ frames, p.length < 2 ^ 32

theorem frameable_cons {p : List UInt8} {ps : List (List UInt8)} :
    Frameable (p :: ps) ↔ p.length < 2 ^ 32 ∧ Frameable ps :=
  List.forall_mem_cons

/-- A header and as many bytes as it says are an encoded frame. -/
theorem encodeFrame_of_header {rest : List UInt8} (hheader : 4 ≤ rest.length)
    (hpayload : ofBytes (rest.take 4) ≤ rest.length - 4) :
    rest = encodeFrame ((rest.drop 4).take (ofBytes (rest.take 4))) ++
      rest.drop (4 + ofBytes (rest.take 4)) := by
  have htake : (rest.take 4).length = 4 := List.length_take_of_le hheader
  have hlen : ((rest.drop 4).take (ofBytes (rest.take 4))).length = ofBytes (rest.take 4) :=
    List.length_take_of_le (by rwa [List.length_drop])
  rw [encodeFrame, hlen, be32_ofBytes htake, List.append_assoc, ← List.drop_drop,
    List.take_append_drop, List.take_append_drop]

/-- The length in front of an encoded frame. -/
theorem ofBytes_take_encodeFrame {p : List UInt8} (h : p.length < 2 ^ 32) (rest : List UInt8) :
    ofBytes ((encodeFrame p ++ rest).take 4) = p.length := by
  rw [encodeFrame, List.append_assoc, List.take_left' (length_be32 _), ofBytes_be32 h]

variable {frames : List (List UInt8)}

theorem encodeFrames_eq_nil (h : encodeFrames frames = []) : frames = [] := by
  cases frames with
  | nil => rfl
  | cons p ps =>
    have hlen := congrArg List.length h
    rw [encodeFrames_cons, List.length_append, length_encodeFrame, List.length_nil] at hlen
    omega

/-- Frames at the front of a stream of frames are its first frames. -/
theorem prefix_of_encodeFrames {ps qs : List (List UInt8)} (hps : Frameable ps)
    (hqs : Frameable qs) (h : encodeFrames ps <+: encodeFrames qs) : ps <+: qs := by
  induction ps generalizing qs with
  | nil => exact List.nil_prefix
  | cons p ps ih =>
    obtain ⟨hp, hps⟩ := frameable_cons.mp hps
    obtain ⟨more, hmore⟩ := h
    rw [encodeFrames_cons, List.append_assoc] at hmore
    cases qs with
    | nil =>
      have hlen := congrArg List.length hmore
      rw [List.length_append, length_encodeFrame, encodeFrames_nil, List.length_nil] at hlen
      omega
    | cons q qs =>
      obtain ⟨hq, hqs⟩ := frameable_cons.mp hqs
      rw [encodeFrames_cons] at hmore
      -- both begin with the same length, so the payloads end at the same place
      have hlen : p.length = q.length := by
        rw [← ofBytes_take_encodeFrame hp (encodeFrames ps ++ more), hmore,
          ofBytes_take_encodeFrame hq]
      obtain ⟨hframe, htail⟩ := List.append_inj hmore (by
        rw [length_encodeFrame, length_encodeFrame, hlen])
      have hpq : p = q := by
        rw [encodeFrame, encodeFrame, hlen] at hframe
        exact List.append_cancel_left hframe
      rw [hpq]
      exact List.cons_prefix_cons.mpr ⟨rfl, ih hps hqs ⟨more, htail⟩⟩

/-! ### The loop of the decoders -/

section Loop

variable {ε α : Type}

/-- The loop of the decoders from `offset` on.  `err` makes an error of a text,
`keep` is what is kept of the frame between two offsets.  Four bytes always make
a header, so the error for that does not occur. -/
def decodeLoop (err : String → ε) (keep : List UInt8 → Nat → Nat → α) (value : List UInt8)
    (offset : Nat) (out : List α) : Except ε (List α) :=
  if offset < value.length then
    if value.length - offset < 4 then .error (err "truncated frame header")
    else
      let len := ofBytes ((value.drop offset).take 4)
      if value.length - (offset + 4) < len then .error (err "truncated frame payload")
      else
        decodeLoop err keep value (offset + 4 + len)
          (out ++ [keep value (offset + 4) (offset + 4 + len)])
  else .ok out
termination_by value.length - offset

/-- `&value[start..end]`. -/
def slice (value : List UInt8) (start stop : Nat) : List UInt8 := (value.take stop).drop start

/-- What is kept of the frames that begin at `offset`. -/
def kept (keep : List UInt8 → Nat → Nat → α) (value : List UInt8) : Nat → List (List UInt8) → List α
  | _, [] => []
  | offset, p :: ps =>
    keep value (offset + 4) (offset + 4 + p.length) ::
      kept keep value (offset + 4 + p.length) ps

variable {err : String → ε} {keep : List UInt8 → Nat → Nat → α} {value : List UInt8}

theorem kept_slice {offset : Nat} (h : value.drop offset = encodeFrames frames) :
    kept slice value offset frames = frames := by
  induction frames generalizing offset with
  | nil => rfl
  | cons p ps ih =>
    rw [encodeFrames_cons] at h
    have htail : value.drop (offset + 4 + p.length) = encodeFrames ps := by
      rw [Nat.add_assoc, ← List.drop_drop, h, ← length_encodeFrame, List.drop_left]
    have hhead : slice value (offset + 4) (offset + 4 + p.length) = p := by
      rw [slice, List.drop_take, ← List.drop_drop, h, encodeFrame, List.append_assoc,
        List.drop_left' (length_be32 _), Nat.add_sub_cancel_left, List.take_left]
    rw [kept, ih htail, hhead]

theorem map_kept_range (offset : Nat) (frames : List (List UInt8)) :
    (kept (fun _ start stop => (start, stop)) value offset frames).map
      (fun range => slice value range.1 range.2) = kept slice value offset frames := by
  induction frames generalizing offset with
  | nil => rfl
  | cons p ps ih => rw [kept, List.map_cons, ih, kept]

/-- **What the loop accepts.**  The induction is the one of the loop. -/
theorem decodeLoop_eq_ok_iff {offset : Nat} {out r : List α} :
    decodeLoop err keep value offset out = .ok r ↔
      ∃ frames, value.drop offset = encodeFrames frames ∧ Frameable frames ∧
        r = out ++ kept keep value offset frames := by
  fun_induction decodeLoop err keep value offset out with
  | case1 offset out hlt hheader =>
    refine ⟨nofun, ?_⟩
    rintro ⟨frames, hdrop, -, -⟩
    -- there is something left, and it is too short for a frame
    have hlen := congrArg List.length hdrop
    rw [List.length_drop] at hlen
    cases frames with
    | nil =>
      rw [encodeFrames_nil, List.length_nil] at hlen
      omega
    | cons p ps =>
      rw [encodeFrames_cons, List.length_append, length_encodeFrame] at hlen
      omega
  | case2 offset out hlt hheader len hpayload =>
    refine ⟨nofun, ?_⟩
    rintro ⟨frames, hdrop, hframes, -⟩
    have hlen := congrArg List.length hdrop
    rw [List.length_drop] at hlen
    cases frames with
    | nil =>
      rw [encodeFrames_nil, List.length_nil] at hlen
      omega
    | cons p ps =>
      have hp := ofBytes_take_encodeFrame (frameable_cons.mp hframes).1 (encodeFrames ps)
      rw [← encodeFrames_cons, ← hdrop] at hp
      rw [encodeFrames_cons, List.length_append, length_encodeFrame] at hlen
      have hlen' : len = p.length := hp
      omega
  | case3 offset out hlt hheader len hpayload ih =>
    have hsplit : value.drop offset =
        encodeFrame (((value.drop offset).drop 4).take len) ++ value.drop (offset + 4 + len) := by
      rw [Nat.add_assoc, ← List.drop_drop]
      refine encodeFrame_of_header ?_ ?_
      · rw [List.length_drop]
        omega
      · rw [List.length_drop]
        omega
    have hlen : (((value.drop offset).drop 4).take len).length = len := by
      refine List.length_take_of_le ?_
      rw [List.length_drop, List.length_drop]
      omega
    have hbound : len < 2 ^ 32 := by
      refine ofBytes_lt (List.length_take_of_le ?_)
      rw [List.length_drop]
      omega
    rw [ih]
    constructor
    · -- the frame at the offset comes before the ones behind it
      rintro ⟨frames, hdrop, hframes, rfl⟩
      refine ⟨((value.drop offset).drop 4).take len :: frames, ?_, ?_, ?_⟩
      · rw [encodeFrames_cons, ← hdrop]
        exact hsplit
      · exact frameable_cons.mpr ⟨by rwa [hlen], hframes⟩
      · rw [kept, hlen, List.append_assoc, List.singleton_append]
    · rintro ⟨frames, hdrop, hframes, rfl⟩
      cases frames with
      | nil =>
        have hnil := congrArg List.length hdrop
        rw [List.length_drop, encodeFrames_nil, List.length_nil] at hnil
        omega
      | cons p ps =>
        obtain ⟨hp, hps⟩ := frameable_cons.mp hframes
        rw [encodeFrames_cons] at hdrop
        have hplen : len = p.length := by
          have hread := ofBytes_take_encodeFrame hp (encodeFrames ps)
          rwa [← hdrop] at hread
        refine ⟨ps, ?_, hps, ?_⟩
        · rw [hplen, Nat.add_assoc, ← List.drop_drop, hdrop, ← length_encodeFrame,
            List.drop_left]
        · rw [kept, hplen, List.append_assoc, List.singleton_append]
  | case4 offset out hlt =>
    have hdrop : value.drop offset = [] := List.drop_eq_nil_of_le (by omega)
    rw [Except.ok.injEq, hdrop]
    constructor
    · rintro rfl
      exact ⟨[], rfl, nofun, (List.append_nil _).symm⟩
    · rintro ⟨frames, hnil, -, rfl⟩
      rw [encodeFrames_eq_nil hnil.symm]
      exact (List.append_nil _).symm

/-- A decoder that keeps the payloads. -/
theorem decodeLoop_slice_iff {r : List (List UInt8)} :
    decodeLoop err slice value 0 [] = .ok r ↔ value = encodeFrames r ∧ Frameable r := by
  rw [decodeLoop_eq_ok_iff, List.drop_zero]
  constructor
  · rintro ⟨frames, hvalue, hframes, rfl⟩
    rw [List.nil_append, kept_slice (by rwa [List.drop_zero])]
    exact ⟨hvalue, hframes⟩
  · rintro ⟨hvalue, hframes⟩
    refine ⟨r, hvalue, hframes, ?_⟩
    rw [List.nil_append, kept_slice (by rwa [List.drop_zero])]

end Loop

/-! ### The server -/

namespace LengthPrefixedFrameCodec

/-- `encode_frame`; `as u32` keeps the last 32 bits of a length. -/
def encodeFrame (payload : List UInt8) : List UInt8 := Imago.encodeFrame payload

def error (message : String) : ImagodError := .new .badRequest "protocol" message

def decodeFrameRanges (value : List UInt8) : Except ImagodError (List (Nat × Nat)) :=
  decodeLoop error (fun _ start stop => (start, stop)) value 0 []

def decodeFrameSlices (value : List UInt8) : Except ImagodError (List (List UInt8)) :=
  (decodeFrameRanges value).map (List.map fun range => slice value range.1 range.2)

def decodeFrames (value : List UInt8) : Except ImagodError (List (List UInt8)) :=
  decodeFrameSlices value

theorem decodeFrameRanges_eq_ok_iff {value : List UInt8} {ranges : List (Nat × Nat)} :
    decodeFrameRanges value = .ok ranges ↔ ∃ frames, value = encodeFrames frames ∧
      Frameable frames ∧ ranges = kept (fun _ start stop => (start, stop)) value 0 frames := by
  rw [decodeFrameRanges, decodeLoop_eq_ok_iff, List.drop_zero]
  simp only [List.nil_append]

theorem decodeFrames_eq_ok_iff {value : List UInt8} :
    decodeFrames value = .ok frames ↔ value = encodeFrames frames ∧ Frameable frames := by
  rw [decodeFrames, decodeFrameSlices]
  constructor
  · intro h
    rcases hranges : decodeFrameRanges value with e | ranges <;> rw [hranges] at h <;> cases h
    obtain ⟨payloads, hvalue, hpayloads, rfl⟩ := decodeFrameRanges_eq_ok_iff.mp hranges
    rw [map_kept_range, kept_slice (by rwa [List.drop_zero])]
    exact ⟨hvalue, hpayloads⟩
  · rintro ⟨hvalue, hframes⟩
    rw [decodeFrameRanges_eq_ok_iff.mpr ⟨frames, hvalue, hframes, rfl⟩]
    show Except.ok _ = _
    rw [map_kept_range, kept_slice (by rwa [List.drop_zero])]

end LengthPrefixedFrameCodec

/-! ### The remote RPC client of the manager -/

namespace RemoteRpc

def encodeFrame (payload : List UInt8) : List UInt8 := Imago.encodeFrame payload

def decodeFrames (value : List UInt8) : Except ImagodError (List (List UInt8)) :=
  decodeLoop (remoteError .badRequest) slice value 0 []

end RemoteRpc

/-! ### The command line -/

namespace DeployCommand

def encodeFrame (payload : List UInt8) : List UInt8 := Imago.encodeFrame payload

/-- An error is its text. -/
def decodeFrames (value : List UInt8) : Except String (List (List UInt8)) :=
  decodeLoop id slice value 0 []

/-- Decoding undoes encoding. -/
theorem decodeFrames_encodeFrames (h : Frameable frames) :
    decodeFrames (encodeFrames frames) = .ok frames :=
  decodeLoop_slice_iff.mpr ⟨rfl, h⟩

end DeployCommand

/-! ### The codecs agree -/

/-- Every decoder accepts the same strings and returns the same frames. -/
def SameDecoders (value : List UInt8) : Prop :=
  ∀ frames, (LengthPrefixedFrameCodec.decodeFrames value = .ok frames ↔
      RemoteRpc.decodeFrames value = .ok frames) ∧
    (LengthPrefixedFrameCodec.decodeFrames value = .ok frames ↔
      DeployCommand.decodeFrames value = .ok frames)

theorem sameDecoders (value : List UInt8) : SameDecoders value := by
  intro frames
  rw [LengthPrefixedFrameCodec.decodeFrames_eq_ok_iff, RemoteRpc.decodeFrames,
    DeployCommand.decodeFrames, decodeLoop_slice_iff, decodeLoop_slice_iff]
  exact ⟨Iff.rfl, Iff.rfl⟩

/-- **The frame codecs are inverse to each other.**  The encoders write the same
bytes; a concatenation of encoded payloads is decoded to these payloads; the
decoders agree on every string; a string is accepted exactly if it is such a
concatenation; and what is left of an accepted string when it is cut off inside
of a frame is rejected by all of them. -/
theorem frame_codecs :
    (∀ payload, LengthPrefixedFrameCodec.encodeFrame payload = RemoteRpc.encodeFrame payload ∧
      LengthPrefixedFrameCodec.encodeFrame payload = DeployCommand.encodeFrame payload) ∧
    (∀ payloads : List (List UInt8), (∀ p ∈ payloads, p.length < 2 ^ 32) →
      LengthPrefixedFrameCodec.decodeFrames
        (payloads.flatMap LengthPrefixedFrameCodec.encodeFrame) = .ok payloads) ∧
    (∀ value, SameDecoders value) ∧
    (∀ value, (∃ frames, LengthPrefixedFrameCodec.decodeFrames value = .ok frames) ↔
      ∃ payloads : List (List UInt8), (∀ p ∈ payloads, p.length < 2 ^ 32) ∧
        value = payloads.flatMap LengthPrefixedFrameCodec.encodeFrame) ∧
    (∀ value cut frames, LengthPrefixedFrameCodec.decodeFrames value = .ok frames →
      cut <+: value → cut ≠ value →
      (∀ n, cut ≠ (frames.take n).flatMap LengthPrefixedFrameCodec.encodeFrame) →
      ∃ e, LengthPrefixedFrameCodec.decodeFrames cut = .error e) := by
  refine ⟨fun _ => ⟨rfl, rfl⟩, ?_, sameDecoders, ?_, ?_⟩
  · intro payloads hpayloads
    exact LengthPrefixedFrameCodec.decodeFrames_eq_ok_iff.mpr ⟨rfl, hpayloads⟩
  · intro value
    simp only [LengthPrefixedFrameCodec.decodeFrames_eq_ok_iff]
    exact ⟨fun ⟨frames, hvalue, hframes⟩ => ⟨frames, hframes, hvalue⟩,
      fun ⟨payloads, hpayloads, hvalue⟩ => ⟨payloads, hvalue, hpayloads⟩⟩
  · intro value cut frames hvalue hcut _ hboundary
    rcases hdecode : LengthPrefixedFrameCodec.decodeFrames cut with e | gs
    · exact ⟨e, rfl⟩
    · -- what was accepted consists of the first frames
      obtain ⟨rfl, hframes⟩ := LengthPrefixedFrameCodec.decodeFrames_eq_ok_iff.mp hvalue
      obtain ⟨rfl, hgs⟩ := LengthPrefixedFrameCodec.decodeFrames_eq_ok_iff.mp hdecode
      have hprefix := prefix_of_encodeFrames hgs hframes hcut
      refine absurd ?_ (hboundary gs.length)
      rw [← List.prefix_iff_eq_take.mp hprefix]
      rfl

/-- Two frames, the second of them empty. -/
theorem frame_codecs_two :
    LengthPrefixedFrameCodec.decodeFrames [0, 0, 0, 1, 7, 0, 0, 0, 0] = .ok [[7], []] ∧
      ∃ e, LengthPrefixedFrameCodec.decodeFrames [0, 0, 0, 1] = .error e := by
  obtain ⟨-, hround, -, -, hcut⟩ := frame_codecs
  have hdecode : LengthPrefixedFrameCodec.decodeFrames [0, 0, 0, 1, 7, 0, 0, 0, 0]
      = .ok [[7], []] := hround [[7], []] (by decide)
  refine ⟨hdecode, hcut _ _ _ hdecode (by decide) (by decide) fun n => ?_⟩
  rcases n with - | - | n
  · decide
  · decide
  · simp only [List.take_succ_cons, List.take_nil]
    decide

end Imago
