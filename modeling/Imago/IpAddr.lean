/-
Imago/IpAddr.lean

IP addresses and their texts: how the standard library displays them, and how
the URL Standard serializes an IPv6 address.  Both abbreviate the first longest
run of zero pieces with `::`, in algorithms of a different shape; the standard
library in addition writes the last four bytes of an IPv4-mapped address in
decimal.  `display_eq_serialize`: apart from these addresses the texts agree.

The texts are lists of characters.  Where the abbreviation goes depends only on
which pieces are zero, so its position is compared on the 256 patterns.
-/
import Imago.RustStd

namespace Imago

/-- `Ipv4Addr`: four bytes. -/
structure Ipv4Addr where
  octets : List Nat
  length_eq : octets.length = 4
  octets_lt : ∀ b ∈ octets, b < 256
  deriving DecidableEq

/-- `Ipv6Addr`: eight pieces of 16 bits. -/
structure Ipv6Addr where
  segments : List Nat
  length_eq : segments.length = 8
  segments_lt : ∀ s ∈ segments, s < 65536
  deriving DecidableEq

/-! ### The standard library -/

/-- `{}` of a number. -/
def decimal (n : Nat) : List Char := (toString n).toList

/-- `{:x}` of a `u16`. -/
def hex16 (n : Nat) : List Char :=
  if n < 16 then [hexDigit n]
  else if n < 256 then [hexDigit (n / 16), hexDigit (n % 16)]
  else if n < 4096 then [hexDigit (n / 256), hexDigit (n / 16 % 16), hexDigit (n % 16)]
  else [hexDigit (n / 4096), hexDigit (n / 256 % 16), hexDigit (n / 16 % 16), hexDigit (n % 16)]

/-- Pieces with a separator between them. -/
def joined (sep : Char) (text : Nat → List Char) : List Nat → List Char
  | [] => []
  | [n] => text n
  | n :: ns => text n ++ sep :: joined sep text ns

theorem joined_cons_cons (sep : Char) (text : Nat → List Char) (n m : Nat) (ns : List Nat) :
    joined sep text (n :: m :: ns) = text n ++ sep :: joined sep text (m :: ns) := rfl

/-- `Display` of an `Ipv4Addr`. -/
def Ipv4Addr.display (a : Ipv4Addr) : List Char := joined '.' decimal a.octets

/-- The loop of `Display` that finds the first longest run of zeros, as start
and length, from the run at hand and the longest one so far. -/
def longestSpan (i : Nat) (current longest : Nat × Nat) : List Bool → Nat × Nat
  | [] => longest
  | true :: zeros =>
    let current := if current.2 = 0 then (i, 1) else (current.1, current.2 + 1)
    longestSpan (i + 1) current (if longest.2 < current.2 then current else longest) zeros
  | false :: zeros => longestSpan (i + 1) (0, 0) longest zeros

/-- `to_ipv4_mapped`. -/
def Ipv6Addr.toIpv4Mapped (a : Ipv6Addr) : Option (List Nat) :=
  match a.segments with
  | [0, 0, 0, 0, 0, 0xffff, ab, cd] => some [ab / 256, ab % 256, cd / 256, cd % 256]
  | _ => none

/-- `Display` of an `Ipv6Addr`. -/
def Ipv6Addr.display (a : Ipv6Addr) : List Char :=
  match a.toIpv4Mapped with
  | some octets => "::ffff:".toList ++ joined '.' decimal octets
  | none =>
    let (start, len) := longestSpan 0 (0, 0) (0, 0) (a.segments.map (· == 0))
    if 1 < len then
      joined ':' hex16 (a.segments.take start) ++ [':', ':'] ++
        joined ':' hex16 (a.segments.drop (start + len))
    else joined ':' hex16 a.segments

/-! ### The URL Standard -/

/-- "Find the IPv6 address compressed piece index", from the longest run so far
and the run at hand, each with its size. -/
def findCompressed (i : Nat) (longestIndex : Option Nat) (longestSize : Nat)
    (foundIndex : Option Nat) (foundSize : Nat) : List Bool → Option Nat
  | [] => if longestSize < foundSize then foundIndex else longestIndex
  | false :: zeros =>
    if longestSize < foundSize then findCompressed (i + 1) foundIndex foundSize none 0 zeros
    else findCompressed (i + 1) longestIndex longestSize none 0 zeros
  | true :: zeros =>
    findCompressed (i + 1) longestIndex longestSize (foundIndex.or (some i)) (foundSize + 1) zeros

/-- The loop of the IPv6 serializer. -/
def serializePieces (compress : Option Nat) : Nat → Bool → List Nat → List Char
  | _, _, [] => []
  | i, ignoreZero, piece :: pieces =>
    if ignoreZero && piece == 0 then serializePieces compress (i + 1) true pieces
    else if compress = some i then
      (if i = 0 then [':', ':'] else [':']) ++ serializePieces compress (i + 1) true pieces
    else
      hex16 piece ++ (if i ≠ 7 then [':'] else []) ++
        serializePieces compress (i + 1) false pieces

/-- The IPv6 serializer. -/
def Ipv6Addr.serialize (a : Ipv6Addr) : List Char :=
  serializePieces (findCompressed 0 none 1 none 0 (a.segments.map (· == 0))) 0 false a.segments

/-! ### The two agree -/

theorem eq_of_length_eight {zeros : List Bool} (h : zeros.length = 8) :
    ∃ a b c d e f g z, zeros = [a, b, c, d, e, f, g, z] := by
  match zeros, h with
  | [a, b, c, d, e, f, g, z], _ => exact ⟨a, b, c, d, e, f, g, z, rfl⟩

/-- What the two loops find in eight pieces: the same run, of which no zero is
left out at its end. -/
theorem longestSpan_findCompressed {zeros : List Bool} (h : zeros.length = 8) :
    findCompressed 0 none 1 none 0 zeros =
        (if 1 < (longestSpan 0 (0, 0) (0, 0) zeros).2 then
          some (longestSpan 0 (0, 0) (0, 0) zeros).1 else none) ∧
      (1 < (longestSpan 0 (0, 0) (0, 0) zeros).2 →
        ((zeros.drop (longestSpan 0 (0, 0) (0, 0) zeros).1).takeWhile id).length =
          (longestSpan 0 (0, 0) (0, 0) zeros).2) := by
  obtain ⟨a, b, c, d, e, f, g, z, rfl⟩ := eq_of_length_eight h
  revert a b c d e f g z
  decide

section Serialize

variable {compress : Option Nat} {i : Nat} {pieces : List Nat}

/-- Pieces without an abbreviation. -/
theorem serializePieces_joined (h : ∀ j, i ≤ j → compress ≠ some j)
    (hlen : i + pieces.length = 8) :
      serializePieces compress i false pieces = joined ':' hex16 pieces := by
  induction pieces generalizing i with
  | nil => rfl
  | cons piece pieces ih =>
    rw [List.length_cons] at hlen
    rw [serializePieces, Bool.false_and, if_neg Bool.false_ne_true, if_neg (h i (Nat.le_refl i)),
      ih (fun j hj => h j (by omega)) (by omega)]
    cases pieces with
    | nil =>
      rw [List.length_nil] at hlen
      rw [if_neg (by omega), joined, joined, List.append_nil, List.append_nil]
    | cons p ps =>
      rw [List.length_cons] at hlen
      rw [if_pos (by omega), joined_cons_cons, List.append_assoc, List.singleton_append]

/-- Behind the abbreviation the zeros are skipped. -/
theorem serializePieces_skip (h : ∀ j, i ≤ j → compress ≠ some j)
    (hlen : i + pieces.length = 8) :
    serializePieces compress i true pieces = joined ':' hex16 (pieces.dropWhile (· == 0)) := by
  induction pieces generalizing i with
  | nil => rfl
  | cons piece pieces ih =>
    have hnext : i + 1 + pieces.length = 8 := by
      rw [List.length_cons] at hlen
      omega
    by_cases hzero : piece = 0
    · subst hzero
      rw [serializePieces, if_pos (by rfl), ih (fun j hj => h j (by omega)) hnext]
      rfl
    · have hfalse : (piece == 0) = false := beq_eq_false_iff_ne.mpr hzero
      rw [List.dropWhile_cons_of_neg (by simp [hzero]), ← serializePieces_joined h hlen,
        serializePieces, serializePieces, hfalse]
      rfl

/-- The pieces in front of the abbreviation, and what comes behind it. -/
theorem serializePieces_compress {before after : List Nat}
    (hcompress : compress = some (i + before.length))
    (hlen : i + (before.length + (after.length + 1)) = 8) :
    serializePieces compress i false (before ++ 0 :: after) =
      before.flatMap (fun n => hex16 n ++ [':']) ++
        (if i + before.length = 0 then [':', ':'] else [':']) ++
        joined ':' hex16 (after.dropWhile (· == 0)) := by
  induction before generalizing i with
  | nil =>
    rw [List.length_nil, Nat.add_zero] at hcompress
    rw [List.length_nil] at hlen
    have hbehind : ∀ j, i + 1 ≤ j → compress ≠ some j := by
      rintro j hj rfl
      have := Option.some.inj hcompress
      omega
    rw [List.nil_append, serializePieces, Bool.false_and, if_neg Bool.false_ne_true,
      if_pos hcompress, serializePieces_skip hbehind (by omega)]
    rfl
  | cons piece before ih =>
    rw [List.length_cons] at hcompress hlen
    have hne : compress ≠ some i := by
      rintro rfl
      have := Option.some.inj hcompress
      omega
    rw [List.cons_append, serializePieces, Bool.false_and, if_neg Bool.false_ne_true, if_neg hne,
      if_pos (by omega), ih (by rw [hcompress]; congr 1; omega) (by omega), List.length_cons,
      if_neg (by omega), if_neg (by omega), List.flatMap_cons]
    simp only [List.append_assoc]

/-- Behind each of the pieces in front stands a separator. -/
theorem flatMap_hex16_eq {before : List Nat} (h : before ≠ []) :
    before.flatMap (fun n => hex16 n ++ [':']) = joined ':' hex16 before ++ [':'] := by
  induction before with
  | nil => exact absurd rfl h
  | cons piece before ih =>
    cases before with
    | nil => rw [List.flatMap_cons, List.flatMap_nil, List.append_nil, joined]
    | cons p ps =>
      rw [List.flatMap_cons, ih (by simp), joined_cons_cons]
      simp only [List.append_assoc, List.cons_append, List.nil_append]

end Serialize

/-- The run that is abbreviated, in the pieces themselves. -/
theorem dropWhile_zero_eq {pieces : List Nat} {start len : Nat}
    (h : (((pieces.map (· == 0)).drop start).takeWhile id).length = len) (hlen : 1 < len) :
    ∃ after, pieces = pieces.take start ++ 0 :: after ∧
      after.dropWhile (· == 0) = pieces.drop (start + len) := by
  rw [← List.map_drop, List.takeWhile_map, List.length_map, Function.id_comp] at h
  have hsplit : (pieces.drop start).dropWhile (· == 0) = pieces.drop (start + len) := by
    have happ := congrArg (List.drop len)
      (List.takeWhile_append_dropWhile (p := (· == 0)) (l := pieces.drop start))
    rw [List.drop_left' h, List.drop_drop] at happ
    exact happ
  rcases hdrop : pieces.drop start with - | ⟨piece, after⟩
  · rw [hdrop] at h
    simp at h
    omega
  · have hzero : piece = 0 := by
      by_contra hne
      rw [hdrop, List.takeWhile_cons_of_neg (by simp [hne]), List.length_nil] at h
      omega
    subst hzero
    refine ⟨after, ?_, ?_⟩
    · rw [← hdrop, List.take_append_drop]
    · rw [← hsplit, hdrop]
      rfl

/-- **Apart from IPv4-mapped addresses, the standard library and the URL
Standard write an IPv6 address in the same way.** -/
theorem display_eq_serialize (a : Ipv6Addr) (h : a.toIpv4Mapped = none) :
    a.display = a.serialize := by
  have hzeros : (a.segments.map (· == 0)).length = 8 := by rw [List.length_map, a.length_eq]
  obtain ⟨hfind, hrun⟩ := longestSpan_findCompressed hzeros
  rw [Ipv6Addr.display, h, Ipv6Addr.serialize, hfind]
  dsimp only
  by_cases hlen : 1 < (longestSpan 0 (0, 0) (0, 0) (a.segments.map (· == 0))).2
  · rw [if_pos hlen, if_pos hlen]
    obtain ⟨after, hsplit, hafter⟩ := dropWhile_zero_eq (hrun hlen) hlen
    rw [← hafter]
    generalize (longestSpan 0 (0, 0) (0, 0) (a.segments.map (· == 0))).1 = start at hsplit
    have hlength := congrArg List.length hsplit
    rw [a.length_eq, List.length_append, List.length_cons] at hlength
    have hstart : (a.segments.take start).length = start := by
      rw [List.length_take, a.length_eq] at hlength ⊢
      omega
    conv_rhs => rw [hsplit]
    rw [serializePieces_compress (by rw [hstart, Nat.zero_add]) (by omega), Nat.zero_add]
    by_cases hnil : a.segments.take start = []
    · rw [hnil]
      rfl
    · rw [flatMap_hex16_eq hnil, if_neg (by rwa [List.length_eq_zero_iff])]
      simp only [List.append_assoc, List.cons_append, List.nil_append]
  · rw [if_neg hlen, if_neg hlen, serializePieces_joined (by simp) (by rw [a.length_eq])]

/-! ### The characters of the texts -/

/-- A hexadecimal digit or a colon. -/
def PieceChar (c : Char) : Prop := c = ':' ∨ c ∈ "0123456789abcdef".toList

theorem pieceChar_hex16 {n : Nat} {c : Char} (h : c ∈ hex16 n) : PieceChar c := by
  have hdigit : ∃ m, c = hexDigit m := by
    unfold hex16 at h
    split at h
    · exact ⟨_, List.mem_singleton.mp h⟩
    · split at h
      · simp only [List.mem_cons, List.not_mem_nil, or_false] at h
        rcases h with h | h <;> exact ⟨_, h⟩
      · split at h
        · simp only [List.mem_cons, List.not_mem_nil, or_false] at h
          rcases h with h | h | h <;> exact ⟨_, h⟩
        · simp only [List.mem_cons, List.not_mem_nil, or_false] at h
          rcases h with h | h | h | h <;> exact ⟨_, h⟩
  obtain ⟨m, rfl⟩ := hdigit
  exact .inr (hexDigit_mem m)

theorem pieceChar_serializePieces {compress : Option Nat} {i : Nat} {ignoreZero : Bool}
    {pieces : List Nat} {c : Char} (h : c ∈ serializePieces compress i ignoreZero pieces) :
    PieceChar c := by
  induction pieces generalizing i ignoreZero with
  | nil => cases h
  | cons piece pieces ih =>
    rw [serializePieces] at h
    split at h
    · exact ih h
    · split at h
      · rcases List.mem_append.mp h with h | h
        · refine .inl ?_
          split at h <;> simpa using h
        · exact ih h
      · rcases List.mem_append.mp h with h | h
        · rcases List.mem_append.mp h with h | h
          · exact pieceChar_hex16 h
          · refine .inl ?_
            split at h
            · exact List.mem_singleton.mp h
            · cases h
        · exact ih h

theorem Ipv6Addr.pieceChar_serialize {a : Ipv6Addr} {c : Char} (h : c ∈ a.serialize) :
    PieceChar c :=
  pieceChar_serializePieces h

theorem Ipv6Addr.colon_mem_serialize (a : Ipv6Addr) : ':' ∈ a.serialize := by
  rw [Ipv6Addr.serialize]
  rcases hsegments : a.segments with - | ⟨piece, pieces⟩
  · have := a.length_eq
    rw [hsegments] at this
    cases this
  · rw [serializePieces, Bool.false_and, if_neg Bool.false_ne_true]
    split
    · rw [if_pos rfl]
      exact (.head _)
    · rw [if_pos (by decide)]
      refine List.mem_append_left _ (List.mem_append_right _ (List.mem_singleton_self _))

theorem Ipv6Addr.colon_mem_display (a : Ipv6Addr) : ':' ∈ a.display := by
  rcases hmapped : a.toIpv4Mapped with - | octets
  · rw [display_eq_serialize a hmapped]
    exact a.colon_mem_serialize
  · rw [Ipv6Addr.display, hmapped]
    exact List.mem_append_left _ (by decide)

/-- The last bytes of an IPv4-mapped address are written with dots. -/
theorem Ipv6Addr.dot_mem_display {a : Ipv6Addr} {octets : List Nat}
    (h : a.toIpv4Mapped = some octets) : '.' ∈ a.display := by
  obtain ⟨ab, cd, rfl⟩ : ∃ ab cd, octets = [ab / 256, ab % 256, cd / 256, cd % 256] := by
    rw [Ipv6Addr.toIpv4Mapped] at h
    split at h
    · exact ⟨_, _, (Option.some.inj h).symm⟩
    · cases h
  rw [Ipv6Addr.display, h]
  refine List.mem_append_right _ ?_
  rw [joined_cons_cons]
  exact List.mem_append_right _ (.head _)

/-- A bracket is not part of an address. -/
theorem Ipv6Addr.head?_display_ne (a : Ipv6Addr) : a.display.head? ≠ some '[' := by
  rcases hmapped : a.toIpv4Mapped with - | octets
  · rw [display_eq_serialize a hmapped]
    intro h
    have := a.pieceChar_serialize (List.mem_of_mem_head? h)
    rcases this with h | h
    · cases h
    · revert h
      decide
  · rw [Ipv6Addr.display, hmapped]
    intro h
    cases h

end Imago
