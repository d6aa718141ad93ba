/-
Imago/RustStd.lean

The parts of Rust's standard library that the models use and that Lean's own
library does not have in the same form: arithmetic on `u64` that saturates or
checks for overflow, and the functions on `str` that know Unicode white space
or split at a character.

A `u64` is a `Nat` here; the operations say where the width shows.  A `str`
is a `String`, and its functions are defined on the list of its characters,
where their lemmas are proved.
-/
import Mathlib.Algebra.GroupWithZero.Nat
import Mathlib.Data.List.DropRight
import Std.Data.TreeMap.Lemmas

namespace Imago

/-! ### `u64` -/

/-- The largest `u64`. -/
def u64Max : Nat := 2 ^ 64 - 1

/-- `u64::saturating_add`. -/
def saturatingAdd (a b : Nat) : Nat := min (a + b) u64Max

/-- `u64::checked_add`. -/
def checkedAdd (a b : Nat) : Option Nat := if a + b ≤ u64Max then some (a + b) else none

theorem saturatingAdd_le (a b : Nat) : saturatingAdd a b ≤ a + b := Nat.min_le_left ..

theorem saturatingAdd_eq {a b : Nat} (h : a + b ≤ u64Max) : saturatingAdd a b = a + b :=
  Nat.min_eq_left h

theorem checkedAdd_eq_some {a b c : Nat} (h : checkedAdd a b = some c) : c = a + b := by
  unfold checkedAdd at h
  split at h
  · exact (Option.some.inj h).symm
  · cases h

/-! ### `BTreeMap` -/

section Maps

variable {α β : Type*} [Ord α] [Std.TransOrd α] [Std.LawfulEqOrd α] [DecidableEq α]
  {t : Std.TreeMap α β} {k a : α} {v : β}

theorem getElem?_insert_ite : (t.insert k v)[a]? = if k = a then some v else t[a]? := by
  simp only [Std.TreeMap.getElem?_insert, Std.LawfulEqCmp.compare_eq_iff_eq]

theorem getElem?_erase_ite : (t.erase k)[a]? = if k = a then none else t[a]? := by
  simp only [Std.TreeMap.getElem?_erase, Std.LawfulEqCmp.compare_eq_iff_eq]

theorem getElem?_insert_ne (h : k ≠ a) : (t.insert k v)[a]? = t[a]? :=
  getElem?_insert_ite.trans (if_neg h)

theorem getElem?_erase_ne (h : k ≠ a) : (t.erase k)[a]? = t[a]? :=
  getElem?_erase_ite.trans (if_neg h)

theorem lookup_of_insert {x : β} (h : (t.insert k v)[a]? = some x) :
    (a = k ∧ x = v) ∨ t[a]? = some x := by
  rw [getElem?_insert_ite] at h
  split at h
  · next heq => exact .inl ⟨heq.symm, (Option.some.inj h).symm⟩
  · exact .inr h

theorem lookup_of_erase {x : β} (h : (t.erase k)[a]? = some x) : k ≠ a ∧ t[a]? = some x := by
  rw [getElem?_erase_ite] at h
  split at h
  · cases h
  · next hne => exact ⟨hne, h⟩

end Maps

/-! ### `str` -/

/-- `char::is_whitespace`: the Unicode property `White_Space`. -/
def isWhitespace (c : Char) : Bool :=
  let n := c.toNat
  (0x9 ≤ n && n ≤ 0xD) || n == 0x20 || n == 0x85 || n == 0xA0 || n == 0x1680 ||
    (0x2000 ≤ n && n ≤ 0x200A) || n == 0x2028 || n == 0x2029 || n == 0x202F ||
    n == 0x205F || n == 0x3000

/-- The characters of `str::trim`. -/
def trimChars (cs : List Char) : List Char :=
  (cs.dropWhile isWhitespace).rdropWhile isWhitespace

/-- `str::trim`. -/
def trim (s : String) : String := String.ofList (trimChars s.toList)

/-- The characters before and after the first `c`. -/
def splitOnceChars (c : Char) : List Char → Option (List Char × List Char)
  | [] => none
  | x :: xs =>
    if x = c then some ([], xs)
    else (splitOnceChars c xs).map fun p => (x :: p.1, p.2)

/-- `str::split_once` at a character. -/
def splitOnce (s : String) (c : Char) : Option (String × String) :=
  (splitOnceChars c s.toList).map fun p => (String.ofList p.1, String.ofList p.2)

/-- The text before and after the last `c`. -/
def rsplitOnceChars (c : Char) (cs : List Char) : Option (List Char × List Char) :=
  (splitOnceChars c cs.reverse).map fun parts => (parts.2.reverse, parts.1.reverse)

variable {xs : List Char} {c : Char}

theorem splitOnceChars_append {ys : List Char} (h : c ∉ xs) :
    splitOnceChars c (xs ++ c :: ys) = some (xs, ys) := by
  induction xs with
  | nil => exact if_pos rfl
  | cons x xs ih =>
    obtain ⟨hx, hxs⟩ := not_or.mp (mt List.mem_cons.mpr h)
    rw [List.cons_append, splitOnceChars, if_neg (Ne.symm hx), ih hxs]
    rfl

theorem splitOnceChars_of_notMem (h : c ∉ xs) : splitOnceChars c xs = none := by
  induction xs with
  | nil => rfl
  | cons x xs ih =>
    obtain ⟨hx, hxs⟩ := not_or.mp (mt List.mem_cons.mpr h)
    rw [splitOnceChars, if_neg (Ne.symm hx), ih hxs]
    rfl

theorem splitOnceChars_eq_some {cs ys : List Char} (h : splitOnceChars c cs = some (xs, ys)) :
    cs = xs ++ c :: ys := by
  induction cs generalizing xs with
  | nil => cases h
  | cons x cs ih =>
    rw [splitOnceChars] at h
    split at h
    · rename_i hx
      cases h
      rw [hx, List.nil_append]
    · obtain ⟨⟨as, bs⟩, hsplit, heq⟩ := Option.map_eq_some_iff.mp h
      cases heq
      rw [ih hsplit, List.cons_append]

theorem rsplitOnceChars_append {ys : List Char} (h : c ∉ ys) :
    rsplitOnceChars c (xs ++ c :: ys) = some (xs, ys) := by
  rw [rsplitOnceChars, List.reverse_append, List.reverse_cons, List.append_assoc]
  show Option.map _ (splitOnceChars c (ys.reverse ++ c :: xs.reverse)) = _
  rw [splitOnceChars_append (mt List.mem_reverse.mp h), Option.map_some, List.reverse_reverse,
    List.reverse_reverse]

theorem rsplitOnceChars_of_notMem (h : c ∉ xs) : rsplitOnceChars c xs = none := by
  rw [rsplitOnceChars, splitOnceChars_of_notMem (mt List.mem_reverse.mp h), Option.map_none]

/-- The first piece of `str::split` at a character; the whole text if the
character does not occur. -/
def splitFirst (s : String) (c : Char) : String :=
  String.ofList (s.toList.takeWhile (· ≠ c))

/-- `value.trim().is_empty()`, the emptiness check of most validators. -/
def isBlank (s : String) : Bool := (trimChars s.toList).isEmpty

/-- A text is blank exactly when all its characters are white space. -/
theorem isBlank_iff (s : String) :
    isBlank s = true ↔ ∀ c ∈ s.toList, isWhitespace c = true := by
  rw [isBlank, List.isEmpty_iff, trimChars, List.rdropWhile_eq_nil_iff]
  constructor
  · intro h c hc
    by_contra hw
    have hmem : c ∈ s.toList.dropWhile isWhitespace := by
      have hsplit := List.takeWhile_append_dropWhile (p := isWhitespace) (l := s.toList)
      rw [← hsplit] at hc
      rcases List.mem_append.mp hc with hc | hc
      · exact absurd (List.mem_takeWhile_imp hc) hw
      · exact hc
    exact hw (h c hmem)
  · intro h c hc
    exact h c (List.dropWhile_subset _ hc)

theorem isEmpty_trim (s : String) : (trim s).isEmpty = isBlank s := by
  rw [trim, isBlank]
  rcases trimChars s.toList with - | ⟨c, cs⟩
  · rfl
  · simp

/-- What is left of a text that is trimmed ends in a visible character. -/
theorem isBlank_trim (s : String) : isBlank (trim s) = isBlank s := by
  rcases hblank : isBlank s with - | -
  · have hne : trimChars s.toList ≠ [] := by
      intro hnil
      rw [isBlank, hnil] at hblank
      cases hblank
    have hlast : ¬isWhitespace ((trimChars s.toList).getLast hne) = true :=
      List.rdropWhile_last_not isWhitespace _ hne
    refine Bool.eq_false_iff.mpr fun htrim => hlast ?_
    refine (isBlank_iff _).mp htrim _ ?_
    rw [trim, String.toList_ofList]
    exact List.getLast_mem hne
  · have hnil : trimChars s.toList = [] := List.isEmpty_iff.mp hblank
    rw [trim, hnil]
    rfl

/-- Trimming a second time changes nothing. -/
theorem trimChars_trimChars (cs : List Char) : trimChars (trimChars cs) = trimChars cs := by
  have hfront : (trimChars cs).dropWhile isWhitespace = trimChars cs := by
    refine List.dropWhile_eq_self_iff.mpr fun hlen => ?_
    -- the first character is also the first one that is left at the front
    obtain ⟨rest, hrest⟩ : trimChars cs <+: cs.dropWhile isWhitespace := List.rdropWhile_prefix _ _
    have hlen' : 0 < (cs.dropWhile isWhitespace).length := by
      rw [← hrest, List.length_append]
      exact Nat.lt_of_lt_of_le hlen (Nat.le_add_right _ _)
    have hfirst : (trimChars cs)[0] = (cs.dropWhile isWhitespace)[0] := by
      rw [List.getElem_of_eq hrest.symm hlen', List.getElem_append_left hlen]
    rw [hfirst]
    exact List.dropWhile_eq_self_iff.mp (List.dropWhile_idempotent _ _) hlen'
  rw [trimChars, hfront]
  exact List.rdropWhile_idempotent _ _

/-- Trimming only looks at the ends. -/
theorem trimChars_of_ends {cs : List Char} (hfirst : ∀ c ∈ cs.head?, isWhitespace c = false)
    (hlast : ∀ c ∈ cs.getLast?, isWhitespace c = false) : trimChars cs = cs := by
  have hfront : cs.dropWhile isWhitespace = cs := List.dropWhile_eq_self_iff.mpr fun hlen =>
    Bool.eq_false_iff.mp (hfirst _
      (by rw [List.head?_eq_getElem?]; exact List.getElem?_eq_getElem hlen))
  rw [trimChars, hfront]
  exact List.rdropWhile_eq_self_iff.mpr fun hne =>
    Bool.eq_false_iff.mp (hlast _ (List.getLast?_eq_some_getLast hne))

theorem trimChars_eq_self {cs : List Char} (h : ∀ c ∈ cs, isWhitespace c = false) :
    trimChars cs = cs :=
  trimChars_of_ends (fun c hc => h c (List.mem_of_head? hc)) fun c hc =>
    h c (List.mem_of_getLast? hc)

theorem isWhitespace_of_visible {c : Char} (h : 33 ≤ c.toNat) (h' : c.toNat ≤ 126) :
    isWhitespace c = false := by
  simp only [isWhitespace, Bool.or_eq_false_iff, Bool.and_eq_false_iff, decide_eq_false_iff_not,
    beq_eq_false_iff_ne]
  omega

theorem trim_trim (s : String) : trim (trim s) = trim s := by
  rw [trim, trim, String.toList_ofList, trimChars_trimChars]

/-- `str::len`: the number of bytes. -/
def strLen (s : String) : Nat := (s.toList.map Char.utf8Size).sum

/-- `str::to_ascii_lowercase`. -/
def toAsciiLowercase (s : String) : String := String.ofList (s.toList.map Char.toLower)

theorem toNat_toLower (c : Char) :
    c.toLower.toNat = if 65 ≤ c.toNat ∧ c.toNat ≤ 90 then c.toNat + 32 else c.toNat := by
  have hupper : (c.val ≥ 'A'.val ∧ c.val ≤ 'Z'.val) ↔ (65 ≤ c.toNat ∧ c.toNat ≤ 90) := Iff.rfl
  unfold Char.toLower
  split
  · rename_i hc
    have hc := hupper.mp hc
    rw [if_pos hc]
    show (c.val + ('a'.val - 'A'.val)).toNat = _
    rw [UInt32.toNat_add]
    show (c.toNat + 32) % 2 ^ 32 = _
    omega
  · rename_i hc
    rw [if_neg fun h => hc (hupper.mpr h)]

theorem toLower_toLower (c : Char) : c.toLower.toLower = c.toLower := by
  refine Char.toNat_inj.mp ?_
  rw [toNat_toLower c.toLower, toNat_toLower c]
  by_cases h : 65 ≤ c.toNat ∧ c.toNat ≤ 90
  · rw [if_pos h, if_neg (by omega)]
  · rw [if_neg h, if_neg h]

theorem utf8Size_toLower (c : Char) : c.toLower.utf8Size = c.utf8Size := by
  by_cases h : 65 ≤ c.toNat ∧ c.toNat ≤ 90
  · have hc : c.utf8Size = 1 := Char.utf8Size_eq_one_iff.mpr (by
      show c.toNat ≤ 127
      omega)
    have hlower : c.toLower.utf8Size = 1 := Char.utf8Size_eq_one_iff.mpr (by
      show c.toLower.toNat ≤ 127
      rw [toNat_toLower, if_pos h]
      omega)
    rw [hc, hlower]
  · have hsame : c.toLower = c := Char.toNat_inj.mp (by rw [toNat_toLower, if_neg h])
    rw [hsame]

@[simp] theorem toList_toAsciiLowercase (s : String) :
    (toAsciiLowercase s).toList = s.toList.map Char.toLower := by
  rw [toAsciiLowercase, String.toList_ofList]

theorem strLen_toAsciiLowercase (s : String) : strLen (toAsciiLowercase s) = strLen s := by
  rw [strLen, strLen, toList_toAsciiLowercase, List.map_map]
  exact congrArg List.sum (List.map_congr_left fun c _ => utf8Size_toLower c)

theorem map_toLower_idem (text : List Char) :
    (text.map Char.toLower).map Char.toLower = text.map Char.toLower := by
  rw [List.map_map]
  exact List.map_congr_left fun c _ => toLower_toLower c

theorem toAsciiLowercase_idem (s : String) :
    toAsciiLowercase (toAsciiLowercase s) = toAsciiLowercase s := by
  refine String.toList_inj.mp ?_
  rw [toList_toAsciiLowercase, toList_toAsciiLowercase, map_toLower_idem]

/-- `char::to_digit`. -/
def toDigit (radix : Nat) (c : Char) : Option Nat :=
  (if 48 ≤ c.toNat ∧ c.toNat ≤ 57 then some (c.toNat - 48)
    else if 97 ≤ c.toNat ∧ c.toNat ≤ 122 then some (c.toNat - 87)
    else if 65 ≤ c.toNat ∧ c.toNat ≤ 90 then some (c.toNat - 55)
    else none).filter (· < radix)

/-- A digit of `{:x}`. -/
def hexDigit (n : Nat) : Char := "0123456789abcdef".toList.getD n '0'

theorem hexDigit_mem (n : Nat) : hexDigit n ∈ "0123456789abcdef".toList := by
  rw [hexDigit, List.getD_eq_getElem?_getD]
  rcases hc : "0123456789abcdef".toList[n]? with - | c
  · decide
  · exact List.mem_of_getElem? hc

theorem toLower_hexDigit (n : Nat) : (hexDigit n).toLower = hexDigit n := by
  have hdigits : "0123456789abcdef".toList.all (fun c => c.toLower = c) = true := by decide
  exact of_decide_eq_true (List.all_eq_true.mp hdigits _ (hexDigit_mem n))

/-- `hex::encode` of a byte. -/
def hexByte (b : UInt8) : List Char := [hexDigit (b.toNat / 16), hexDigit (b.toNat % 16)]

/-- `hex::encode`. -/
def hexEncode (raw : List UInt8) : String := String.ofList (raw.flatMap hexByte)

/-! ### `Result` -/

/-- `?` in a function that returns an error. -/
theorem Except.bind_eq_ok {α β ε : Type} {x : Except ε α} {f : α → Except ε β} {b : β}
    (h : x >>= f = .ok b) : ∃ a, x = .ok a ∧ f a = .ok b := by
  cases x with
  | error e => cases h
  | ok a => exact ⟨a, rfl, h⟩

theorem Except.bind_eq_ok_iff {α β ε : Type} {x : Except ε α} {f : α → Except ε β} {b : β} :
    x >>= f = .ok b ↔ ∃ a, x = .ok a ∧ f a = .ok b := by
  refine ⟨Except.bind_eq_ok, ?_⟩
  rintro ⟨a, rfl, h⟩
  exact h

theorem Except.mapError_eq_ok {α ε δ : Type} {x : Except ε α} {f : ε → δ} {a : α} :
    x.mapError f = .ok a ↔ x = .ok a := by
  cases x with
  | error e => exact ⟨nofun, nofun⟩
  | ok b => exact ⟨fun h => congrArg _ (Except.ok.inj h), fun h => congrArg _ (Except.ok.inj h)⟩

/-- A loop of checks succeeds if each of them does. -/
theorem Except.forM_eq_ok {α ε : Type} {f : α → Except ε Unit} {l : List α} {u : Unit} :
    l.forM f = .ok u ↔ ∀ a ∈ l, f a = .ok () := by
  induction l with
  | nil => exact ⟨fun _ => nofun, fun _ => rfl⟩
  | cons a l ih =>
    rw [List.forall_mem_cons, ← ih]
    show (f a >>= fun _ => l.forM f) = .ok u ↔ _
    cases f a with
    | error e => exact ⟨nofun, fun h => nomatch h.1⟩
    | ok _ => exact ⟨fun h => ⟨rfl, h⟩, fun h => h.2⟩

end Imago
