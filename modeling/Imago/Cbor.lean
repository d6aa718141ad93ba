/-
Imago/Cbor.lean

The bytes that a value has in CBOR, as far as `ciborium` writes them: numbers,
texts, arrays and maps of known length, each with the shortest head.

An encoder is a function to lists of bytes, and an encoder of a compound value
is put together from those of its parts.  Two things are known of each encoder:
how many bytes it writes, and that its bytes say themselves where they end
(`SelfDelimiting`), so that concatenated values can be told apart.
-/
import Imago.Framing
import Imago.RustStd

namespace Imago.Cbor

/-! ### Heads -/

/-- `n` in `k` bytes, most significant first. -/
def bigEndian : Nat → Nat → List UInt8
  | 0, _ => []
  | k + 1, n => UInt8.ofNat (n / 256 ^ k) :: bigEndian k n

@[simp] theorem length_bigEndian (k n : Nat) : (bigEndian k n).length = k := by
  induction k with
  | zero => rfl
  | succ k ih => rw [bigEndian, List.length_cons, ih]

/-- How many bytes follow the first one of a head with the argument `n`. -/
def argBytes (n : Nat) : Nat :=
  if n < 24 then 0
  else if n < 2 ^ 8 then 1
  else if n < 2 ^ 16 then 2
  else if n < 2 ^ 32 then 4
  else 8

/-- What the first byte adds to the major type. -/
def argInfo (n : Nat) : Nat :=
  if n < 24 then n
  else if n < 2 ^ 8 then 24
  else if n < 2 ^ 16 then 25
  else if n < 2 ^ 32 then 26
  else 27

/-- The head of an item of major type `major`. -/
def head (major n : Nat) : List UInt8 :=
  UInt8.ofNat (32 * major + argInfo n) :: bigEndian (argBytes n) n

def headSize (n : Nat) : Nat := 1 + argBytes n

@[simp] theorem length_head (major n : Nat) : (head major n).length = headSize n := by
  rw [head, List.length_cons, length_bigEndian, headSize, Nat.add_comm]

/-- An unsigned number. -/
def uint (n : Nat) : List UInt8 := head 0 n

/-- `str::as_bytes`. -/
def utf8 (s : String) : List UInt8 := s.toUTF8.data.toList

theorem length_utf8 (s : String) : (utf8 s).length = strLen s := by
  rw [strLen, utf8, String.toUTF8_eq_toByteArray]
  conv_lhs => rw [← String.ofList_toList (s := s), String.toByteArray_ofList]
  generalize s.toList = cs
  induction cs with
  | nil => rfl
  | cons c cs ih =>
    rw [List.utf8Encode_cons, ByteArray.data_append, Array.toList_append, List.length_append, ih,
      List.utf8Encode_singleton, List.map_cons, List.sum_cons]
    simp

def text (s : String) : List UInt8 := head 3 (strLen s) ++ utf8 s

def textSize (s : String) : Nat := headSize (strLen s) + strLen s

@[simp] theorem length_text (s : String) : (text s).length = textSize s := by
  rw [text, List.length_append, length_head, length_utf8, textSize]

/-- A map with texts as keys; the values are encoded already. -/
def map (entries : List (String × List UInt8)) : List UInt8 :=
  head 5 entries.length ++ entries.flatMap fun e => text e.1 ++ e.2

theorem length_map (entries : List (String × List UInt8)) :
    (map entries).length = headSize entries.length +
      (entries.map fun e => textSize e.1 + e.2.length).sum := by
  rw [map, List.length_append, length_head, List.length_flatMap]
  simp only [List.length_append, length_text]

end Imago.Cbor
