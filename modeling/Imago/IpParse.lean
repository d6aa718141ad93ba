/-
Imago/IpParse.lean

How the standard library reads numbers and IP addresses.

`parseUnsigned` is `str::parse` of an unsigned integer.  The parser of addresses
reads from the front of the text and leaves what it does not take; a number in it
has a limited count of digits.  An IPv6 address is a run of groups, or two such
runs with `::` between them, and a run may end in an IPv4 address.

The results: what is displayed is read back (`parseIpAddr_display`), the case of
a digit does not matter (`parseIpAddr_map_toLower`), and an IPv4 address has one
text only (`display_of_parseIpAddr_v4`).
-/
import Imago.IpAddr

namespace Imago

/-- `IpAddr`. -/
inductive IpAddr where
  | v4 (a : Ipv4Addr)
  | v6 (a : Ipv6Addr)
  deriving DecidableEq

def IpAddr.display : IpAddr → List Char
  | .v4 a => a.display
  | .v6 a => a.display

/-! ### Numbers -/

/-- `IntErrorKind`, as far as it is met. -/
inductive IntErrorKind where
  | empty
  | invalidDigit
  | posOverflow
  deriving DecidableEq

/-- `Display` of a `ParseIntError`. -/
def IntErrorKind.display : IntErrorKind → String
  | .empty => "cannot parse integer from empty string"
  | .invalidDigit => "invalid digit found in string"
  | .posOverflow => "number too large to fit in target type"

/-- The loop of `from_str_radix` in base ten, up to `max`. -/
def parseDigits (max : Nat) : Nat → List Char → Except IntErrorKind Nat
  | result, [] => .ok result
  | result, c :: cs =>
    match toDigit 10 c with
    | none => .error .invalidDigit
    | some d =>
      if max < result * 10 + d then .error .posOverflow
      else parseDigits max (result * 10 + d) cs

/-- `str::parse` of an unsigned integer type whose largest value is `max`.  A plus
sign is taken, a minus sign is not a digit. -/
def parseUnsigned (max : Nat) : List Char → Except IntErrorKind Nat
  | [] => .error .empty
  | ['+'] => .error .invalidDigit
  | '+' :: cs => parseDigits max 0 cs
  | cs => parseDigits max 0 cs

/-- The loop of `read_number`: the value, the count of digits and the rest. -/
def readDigits (radix maxDigits : Nat) : Nat → Nat → List Char → Option (Nat × Nat × List Char)
  | result, count, [] => some (result, count, [])
  | result, count, c :: cs =>
    match toDigit radix c with
    | none => some (result, count, c :: cs)
    | some d =>
      if maxDigits < count + 1 then none
      else readDigits radix maxDigits (result * radix + d) (count + 1) cs

/-- `Parser::read_number`, of a type with `bound` values. -/
def readNumber (radix maxDigits bound : Nat) (allowZeroPrefix : Bool) (cs : List Char) :
    Option (Nat × List Char) :=
  match readDigits radix maxDigits 0 0 cs with
  | none => none
  | some (result, count, rest) =>
    if count = 0 then none
    else if !allowZeroPrefix && cs.head? == some '0' && decide (1 < count) then none
    else if result < bound then some (result, rest)
    else none

/-! ### Addresses -/

/-- `Parser::read_given_char`. -/
def readGivenChar (target : Char) : List Char → Option (List Char)
  | [] => none
  | c :: cs => if c = target then some cs else none

/-- `Parser::read_separator`: no separator in front of the first one. -/
def readSeparator {α : Type} (sep : Char) (index : Nat)
    (inner : List Char → Option (α × List Char)) (cs : List Char) : Option (α × List Char) :=
  if index = 0 then inner cs else (readGivenChar sep cs).bind inner

/-- The loop of `read_ipv4_addr`, with the count of octets that are left. -/
def readOctets : Nat → Nat → List Char → Option (List Nat × List Char)
  | 0, _, cs => some ([], cs)
  | k + 1, i, cs =>
    match readSeparator '.' i (readNumber 10 3 256 false) cs with
    | none => none
    | some (octet, cs) =>
      match readOctets k (i + 1) cs with
      | none => none
      | some (octets, cs) => some (octet :: octets, cs)

/-- `Parser::read_ipv4_addr`. -/
def readIpv4Addr (cs : List Char) : Option (List Nat × List Char) := readOctets 4 0 cs

/-- Two groups of the bytes of an IPv4 address. -/
def groupsOfOctets : List Nat → List Nat
  | [a, b, c, d] => [a * 256 + b, c * 256 + d]
  | _ => []

/-- `read_groups`, with the count of groups that are left: the groups, whether
they end in an IPv4 address, and the rest. -/
def readGroups : Nat → Nat → List Char → List Nat × Bool × List Char
  | 0, _, cs => ([], false, cs)
  | k + 1, i, cs =>
    -- an IPv4 address takes two groups
    match (if 0 < k then readSeparator ':' i readIpv4Addr cs else none) with
    | some (octets, rest) => (groupsOfOctets octets, true, rest)
    | none =>
      match readSeparator ':' i (readNumber 16 4 65536 true) cs with
      | none => ([], false, cs)
      | some (group, rest) =>
        let (groups, ipv4, rest) := readGroups k (i + 1) rest
        (group :: groups, ipv4, rest)

/-- `Parser::read_ipv6_addr`. -/
def readIpv6Addr (cs : List Char) : Option (List Nat × List Char) :=
  let (head, headIpv4, cs) := readGroups 8 0 cs
  if head.length = 8 then some (head, cs)
  else if headIpv4 then none
  else
    match (readGivenChar ':' cs).bind (readGivenChar ':') with
    | none => none
    | some cs =>
      let (tail, _, cs) := readGroups (7 - head.length) 0 cs
      some (head ++ List.replicate (8 - head.length - tail.length) 0 ++ tail, cs)

/-- The address with these octets. -/
def Ipv4Addr.ofOctets (octets : List Nat) : Option Ipv4Addr :=
  if h : octets.length = 4 ∧ ∀ b ∈ octets, b < 256 then some ⟨octets, h.1, h.2⟩ else none

/-- The address with these groups. -/
def Ipv6Addr.ofSegments (segments : List Nat) : Option Ipv6Addr :=
  if h : segments.length = 8 ∧ ∀ s ∈ segments, s < 65536 then some ⟨segments, h.1, h.2⟩ else none

/-- `parse_with`: nothing is left of the text. -/
def parseWith {α β : Type} (make : α → Option β) : Option (α × List Char) → Option β
  | some (a, []) => make a
  | _ => none

/-- `str::parse::<Ipv6Addr>`. -/
def parseIpv6Addr (cs : List Char) : Option Ipv6Addr :=
  parseWith Ipv6Addr.ofSegments (readIpv6Addr cs)

/-- `str::parse::<IpAddr>`: the IPv6 address is only tried if no IPv4 address
stands at the front. -/
def parseIpAddr (cs : List Char) : Option IpAddr :=
  match readIpv4Addr cs with
  | some read => (parseWith Ipv4Addr.ofOctets (some read)).map .v4
  | none => (parseIpv6Addr cs).map .v6

/-! ### The case of the digits -/

theorem toDigit_toLower (radix : Nat) (c : Char) : toDigit radix c.toLower = toDigit radix c := by
  unfold toDigit
  rw [toNat_toLower]
  by_cases hupper : 65 ≤ c.toNat ∧ c.toNat ≤ 90
  · rw [if_pos hupper, if_neg (by omega), if_pos (by omega), if_neg (by omega), if_neg (by omega),
      if_pos hupper, show c.toNat + 32 - 87 = c.toNat - 55 by omega]
  · rw [if_neg hupper]

variable {c : Char}

/-- A character that is not a letter is the lower case of itself only. -/
theorem toLower_eq_iff {x : Char} (hlower : ¬(97 ≤ x.toNat ∧ x.toNat ≤ 122))
    (hupper : ¬(65 ≤ x.toNat ∧ x.toNat ≤ 90)) : c.toLower = x ↔ c = x := by
  rw [← Char.toNat_inj, ← Char.toNat_inj, toNat_toLower]
  split
  · constructor
    · intro h
      omega
    · intro h
      omega
  · exact Iff.rfl

/-- The same answer for a text in lower case, with the rest in lower case. -/
def lowerRest {α : Type} (read : α × List Char) : α × List Char :=
  (read.1, read.2.map Char.toLower)

theorem readDigits_map_toLower (radix maxDigits result count : Nat) (cs : List Char) :
    readDigits radix maxDigits result count (cs.map Char.toLower) =
      (readDigits radix maxDigits result count cs).map
        fun read => (read.1, read.2.1, read.2.2.map Char.toLower) := by
  induction cs generalizing result count with
  | nil => rfl
  | cons c cs ih =>
    rw [List.map_cons, readDigits, readDigits, toDigit_toLower]
    rcases toDigit radix c with - | d
    · rfl
    · dsimp only
      split
      · rfl
      · exact ih _ _

theorem readNumber_map_toLower (radix maxDigits bound : Nat) (allow : Bool) (cs : List Char) :
    readNumber radix maxDigits bound allow (cs.map Char.toLower) =
      (readNumber radix maxDigits bound allow cs).map lowerRest := by
  have hzero : ((cs.map Char.toLower).head? == some '0') = (cs.head? == some '0') := by
    cases cs with
    | nil => rfl
    | cons c cs =>
      refine Bool.eq_iff_iff.mpr ?_
      simp only [List.map_cons, List.head?_cons, beq_iff_eq, Option.some.injEq]
      exact toLower_eq_iff (by decide) (by decide)
  unfold readNumber
  rw [readDigits_map_toLower, hzero]
  rcases readDigits radix maxDigits 0 0 cs with - | ⟨result, count, rest⟩
  · rfl
  · dsimp only [Option.map_some]
    split_ifs <;> rfl

theorem readGivenChar_map_toLower {x : Char} (hlower : ¬(97 ≤ x.toNat ∧ x.toNat ≤ 122))
    (hupper : ¬(65 ≤ x.toNat ∧ x.toNat ≤ 90)) (cs : List Char) :
    readGivenChar x (cs.map Char.toLower) = (readGivenChar x cs).map (List.map Char.toLower) := by
  cases cs with
  | nil => rfl
  | cons c cs =>
    simp only [List.map_cons, readGivenChar, toLower_eq_iff hlower hupper]
    split <;> rfl

variable {α : Type}

theorem readSeparator_map_toLower {sep : Char} (hlower : ¬(97 ≤ sep.toNat ∧ sep.toNat ≤ 122))
    (hupper : ¬(65 ≤ sep.toNat ∧ sep.toNat ≤ 90)) (index : Nat)
    {inner : List Char → Option (α × List Char)}
    (hinner : ∀ cs, inner (cs.map Char.toLower) = (inner cs).map lowerRest) (cs : List Char) :
    readSeparator sep index inner (cs.map Char.toLower) =
      (readSeparator sep index inner cs).map lowerRest := by
  unfold readSeparator
  split
  · exact hinner cs
  · rw [readGivenChar_map_toLower hlower hupper]
    rcases readGivenChar sep cs with - | rest
    · rfl
    · exact hinner rest

theorem readOctets_map_toLower (k i : Nat) (cs : List Char) :
    readOctets k i (cs.map Char.toLower) = (readOctets k i cs).map lowerRest := by
  induction k generalizing i cs with
  | zero => rfl
  | succ k ih =>
    rw [readOctets, readOctets,
      readSeparator_map_toLower (by decide) (by decide) i (readNumber_map_toLower 10 3 256 false)]
    rcases readSeparator '.' i (readNumber 10 3 256 false) cs with - | ⟨octet, rest⟩
    · rfl
    · dsimp only [Option.map_some, lowerRest]
      rw [ih]
      rcases readOctets k (i + 1) rest with - | ⟨octets, rest⟩ <;> rfl

theorem readGroups_map_toLower (k i : Nat) (cs : List Char) :
    readGroups k i (cs.map Char.toLower) =
      ((readGroups k i cs).1, (readGroups k i cs).2.1,
        (readGroups k i cs).2.2.map Char.toLower) := by
  induction k generalizing i cs with
  | zero => rfl
  | succ k ih =>
    have hipv4 : (if 0 < k then readSeparator ':' i readIpv4Addr (cs.map Char.toLower) else none) =
        (if 0 < k then readSeparator ':' i readIpv4Addr cs else none).map lowerRest := by
      split
      · exact readSeparator_map_toLower (by decide) (by decide) i (readOctets_map_toLower 4 0) cs
      · rfl
    rw [readGroups, readGroups, hipv4,
      readSeparator_map_toLower (by decide) (by decide) i (readNumber_map_toLower 16 4 65536 true)]
    rcases (if 0 < k then readSeparator ':' i readIpv4Addr cs else none) with - | ⟨octets, rest⟩
    · rcases readSeparator ':' i (readNumber 16 4 65536 true) cs with - | ⟨group, rest⟩
      · rfl
      · dsimp only [Option.map_some, Option.map_none, lowerRest]
        rw [ih]
    · rfl

theorem readIpv6Addr_map_toLower (cs : List Char) :
    readIpv6Addr (cs.map Char.toLower) = (readIpv6Addr cs).map lowerRest := by
  unfold readIpv6Addr
  rw [readGroups_map_toLower]
  rcases readGroups 8 0 cs with ⟨head, ipv4, rest⟩
  dsimp only
  split
  · rfl
  · split
    · rfl
    · have hcolons : (readGivenChar ':' (rest.map Char.toLower)).bind (readGivenChar ':') =
          ((readGivenChar ':' rest).bind (readGivenChar ':')).map (List.map Char.toLower) := by
        rw [readGivenChar_map_toLower (by decide) (by decide)]
        rcases readGivenChar ':' rest with - | rest
        · rfl
        · exact readGivenChar_map_toLower (by decide) (by decide) rest
      rw [hcolons]
      rcases (readGivenChar ':' rest).bind (readGivenChar ':') with - | rest
      · rfl
      · dsimp only [Option.map_some, lowerRest]
        rw [readGroups_map_toLower]

theorem parseWith_map_lowerRest {β : Type} (make : α → Option β) (read : Option (α × List Char)) :
    parseWith make (read.map lowerRest) = parseWith make read := by
  rcases read with - | ⟨a, - | ⟨c, cs⟩⟩ <;> rfl

theorem parseIpAddr_map_toLower (cs : List Char) :
    parseIpAddr (cs.map Char.toLower) = parseIpAddr cs := by
  unfold parseIpAddr
  rw [readIpv4Addr, readIpv4Addr, readOctets_map_toLower]
  rcases readOctets 4 0 cs with - | read
  · show ((parseIpv6Addr (cs.map Char.toLower)).map IpAddr.v6) = _
    rw [parseIpv6Addr, readIpv6Addr_map_toLower, parseWith_map_lowerRest]
    rfl
  · exact congrArg (Option.map IpAddr.v4) (parseWith_map_lowerRest Ipv4Addr.ofOctets (some read))

/-! ### What is displayed is read back -/

variable {n radix maxDigits : Nat}

theorem toDigit_digitChar (hradix : radix ≤ 16) (h : n < radix) :
    toDigit radix (Nat.digitChar n) = some n := by
  have hall : ∀ n < 16, toDigit 16 (Nat.digitChar n) = some n := by decide
  obtain ⟨hvalue, -⟩ := Option.filter_eq_some_iff.mp (hall n (by omega))
  exact Option.filter_eq_some_iff.mpr ⟨hvalue, decide_eq_true h⟩

theorem digitChar_of_toDigit (h : toDigit 10 c = some n) : c = Nat.digitChar n ∧ n < 10 := by
  obtain ⟨hvalue, hn⟩ := Option.filter_eq_some_iff.mp h
  have hn : n < 10 := of_decide_eq_true hn
  have hchars : ∀ n < 10, (Nat.digitChar n).toNat = n + 48 := by decide
  refine ⟨Char.toNat_inj.mp ?_, hn⟩
  rw [hchars n hn]
  split_ifs at hvalue <;> cases hvalue <;> omega

theorem decimal_eq_toDigits (n : Nat) : decimal n = Nat.toDigits 10 n := by
  rw [decimal, Nat.toString_eq_repr, Nat.toList_repr]

/-- The induction over the digits of a number: from the front part of the number
to the number. -/
theorem parseDigits_decimal {max : Nat} (h : n ≤ max) (cs : List Char) :
    parseDigits max 0 (decimal n ++ cs) = parseDigits max n cs := by
  rw [decimal_eq_toDigits]
  induction n using Nat.strongRecOn generalizing cs with
  | ind n ih =>
    by_cases hsmall : n < 10
    · rw [Nat.toDigits_of_lt_base hsmall, List.singleton_append, parseDigits,
        toDigit_digitChar (by decide) hsmall]
      dsimp only
      rw [Nat.zero_mul, Nat.zero_add, if_neg (by omega)]
    · have hdigit : n % 10 < 10 := Nat.mod_lt _ (by decide)
      rw [Nat.toDigits_of_base_le (by decide) (by omega), List.append_assoc,
        ih (n / 10) (by omega) (by omega), List.singleton_append, parseDigits,
        toDigit_digitChar (by decide) hdigit]
      dsimp only
      rw [show n / 10 * 10 + n % 10 = n by omega, if_neg (by omega)]

variable {cs : List Char}

theorem readDigits_cons {result count d : Nat} (hd : toDigit radix c = some d)
    (hcount : count < maxDigits) :
    readDigits radix maxDigits result count (c :: cs) =
      readDigits radix maxDigits (result * radix + d) (count + 1) cs := by
  rw [readDigits, hd]
  exact if_neg (Nat.not_lt.mpr hcount)

theorem readDigits_toDigits (hradix : 1 < radix) (hradix' : radix ≤ 16)
    (h : (Nat.toDigits radix n).length ≤ maxDigits) (cs : List Char) :
    readDigits radix maxDigits 0 0 (Nat.toDigits radix n ++ cs) =
      readDigits radix maxDigits n (Nat.toDigits radix n).length cs := by
  induction n using Nat.strongRecOn generalizing cs with
  | ind n ih =>
    by_cases hsmall : n < radix
    · rw [Nat.toDigits_of_lt_base hsmall] at h ⊢
      rw [List.singleton_append, readDigits_cons (toDigit_digitChar hradix' hsmall)
        (show 0 < maxDigits from h), Nat.zero_mul, Nat.zero_add]
      rfl
    · have hdigit : n % radix < radix := Nat.mod_lt _ (by omega)
      have hsplit : Nat.toDigits radix n =
          Nat.toDigits radix (n / radix) ++ [(n % radix).digitChar] :=
        Nat.toDigits_of_base_le hradix (by omega)
      have hlength := congrArg List.length hsplit
      rw [List.length_append, List.length_singleton] at hlength
      rw [hsplit, List.append_assoc, ih (n / radix) (Nat.div_lt_self (by omega) hradix) (by omega),
        List.singleton_append, readDigits_cons (toDigit_digitChar hradix' hdigit) (by omega),
        Nat.div_add_mod', List.length_append, List.length_singleton]

/-- A text that does not start with a digit. -/
def Stops (radix : Nat) (cs : List Char) : Prop := ∀ c, cs.head? = some c → toDigit radix c = none

theorem stops_nil (radix : Nat) : Stops radix [] := nofun

theorem stops_cons (h : toDigit radix c = none) (cs : List Char) : Stops radix (c :: cs) := by
  rintro _ ⟨⟩
  exact h

theorem readDigits_of_stops {result count : Nat} (h : Stops radix cs) :
    readDigits radix maxDigits result count cs = some (result, count, cs) := by
  cases cs with
  | nil => rfl
  | cons c cs => rw [readDigits, h c rfl]

theorem readNumber_of_stops {bound : Nat} {allow : Bool} (h : Stops radix cs) :
    readNumber radix maxDigits bound allow cs = none := by
  rw [readNumber, readDigits_of_stops h]
  exact if_pos rfl

/-- Reading an octet. -/
theorem readNumber_decimal (hn : n < 256) (h : Stops 10 cs) :
    readNumber 10 3 256 false (decimal n ++ cs) = some (n, cs) := by
  have hlength : (Nat.toDigits 10 n).length ≤ 3 :=
    (Nat.length_toDigits_le_iff (by decide) (by decide)).mpr (by omega)
  have hne : Nat.toDigits 10 n ≠ [] := Nat.toDigits_ne_nil
  have hzero : ∀ n < 256, (Nat.toDigits 10 n).head? = some '0' →
      (Nat.toDigits 10 n).length = 1 := by
    decide +kernel
  rw [decimal_eq_toDigits, readNumber, readDigits_toDigits (by decide) (by decide) hlength,
    readDigits_of_stops h]
  dsimp only
  rw [if_neg (mt List.length_eq_zero_iff.mp hne), if_neg ?_, if_pos hn]
  rw [List.head?_append_of_ne_nil _ hne]
  intro hlead
  simp only [Bool.not_false, Bool.true_and, Bool.and_eq_true, beq_iff_eq,
    decide_eq_true_eq] at hlead
  have := hzero n hn hlead.1
  omega

theorem hex16_eq_toDigits (hn : n < 65536) : hex16 n = Nat.toDigits 16 n := by
  have hdigit : ∀ m < 16, hexDigit m = Nat.digitChar m := by decide
  have hsplit : ∀ {m}, 16 ≤ m →
      Nat.toDigits 16 m = Nat.toDigits 16 (m / 16) ++ [hexDigit (m % 16)] := by
    intro m hm
    rw [Nat.toDigits_of_base_le (by decide) hm, hdigit _ (Nat.mod_lt _ (by decide))]
  have hlast : ∀ {m}, m < 16 → Nat.toDigits 16 m = [hexDigit m] := by
    intro m hm
    rw [Nat.toDigits_of_lt_base hm, hdigit m hm]
  unfold hex16
  split_ifs
  · rw [hlast (by omega)]
  · rw [hsplit (by omega), hlast (by omega)]
    rfl
  · rw [hsplit (by omega), hsplit (by omega), Nat.div_div_eq_div_mul, hlast (by omega)]
    rfl
  · rw [hsplit (by omega), hsplit (by omega), hsplit (by omega), hlast (by omega),
      Nat.div_div_eq_div_mul n 16 16, Nat.div_div_eq_div_mul]
    rfl

/-- Reading a group. -/
theorem readNumber_hex16 (hn : n < 65536) (h : Stops 16 cs) :
    readNumber 16 4 65536 true (hex16 n ++ cs) = some (n, cs) := by
  have hlength : (Nat.toDigits 16 n).length ≤ 4 :=
    (Nat.length_toDigits_le_iff (by decide) (by decide)).mpr (by omega)
  rw [hex16_eq_toDigits hn, readNumber, readDigits_toDigits (by decide) (by decide) hlength,
    readDigits_of_stops h]
  dsimp only
  rw [if_neg (mt List.length_eq_zero_iff.mp Nat.toDigits_ne_nil), if_neg (by simp), if_pos hn]

theorem joined_cons (sep : Char) (text : Nat → List Char) (n : Nat) (ns : List Nat) :
    joined sep text (n :: ns) = text n ++ ns.flatMap fun m => sep :: text m := by
  induction ns generalizing n with
  | nil => rw [joined, List.flatMap_nil, List.append_nil]
  | cons m ns ih => rw [joined_cons_cons, ih, List.flatMap_cons, List.cons_append]

theorem readSeparator_succ (sep : Char) (i : Nat) (inner : List Char → Option (α × List Char))
    (cs : List Char) : readSeparator sep (i + 1) inner (sep :: cs) = inner cs := by
  rw [readSeparator, if_neg (Nat.succ_ne_zero i), readGivenChar, if_pos rfl]
  rfl

theorem readSeparator_zero (sep : Char) (inner : List Char → Option (α × List Char))
    (cs : List Char) : readSeparator sep 0 inner cs = inner cs :=
  if_pos rfl

/-- A separator and what follows it do not start with a digit. -/
theorem stops_flatMap {sep : Char} (hsep : toDigit radix sep = none) (text : Nat → List Char)
    (ns : List Nat) (h : Stops radix cs) :
    Stops radix ((ns.flatMap fun n => sep :: text n) ++ cs) := by
  cases ns with
  | nil => exact h
  | cons n ns => exact stops_cons hsep _

variable {octets : List Nat}

theorem readOctets_flatMap (i : Nat) (hoctets : ∀ b ∈ octets, b < 256) (h : Stops 10 cs) :
    readOctets octets.length (i + 1) ((octets.flatMap fun n => '.' :: decimal n) ++ cs) =
      some (octets, cs) := by
  induction octets generalizing i with
  | nil => rfl
  | cons b octets ih =>
    have hb : b < 256 := hoctets b (.head _)
    rw [List.flatMap_cons, List.length_cons, readOctets, List.append_assoc, List.cons_append,
      readSeparator_succ, readNumber_decimal hb (stops_flatMap (by decide) _ _ h)]
    dsimp only
    rw [ih (i + 1) fun b hb => hoctets b (.tail _ hb)]

theorem readIpv4Addr_joined (hlength : octets.length = 4) (hoctets : ∀ b ∈ octets, b < 256)
    (h : Stops 10 cs) : readIpv4Addr (joined '.' decimal octets ++ cs) = some (octets, cs) := by
  obtain ⟨b, octets, rfl⟩ := List.exists_cons_of_length_eq_add_one hlength
  have hlength : octets.length = 3 := Nat.succ.inj hlength
  rw [joined_cons, List.append_assoc, readIpv4Addr, readOctets, readSeparator_zero,
    readNumber_decimal (hoctets b (.head _)) (stops_flatMap (by decide) _ _ h)]
  dsimp only
  rw [← hlength, readOctets_flatMap 0 (fun b hb => hoctets b (.tail _ hb)) h]

theorem readIpv4Addr_of_stops (h : Stops 10 cs) : readIpv4Addr cs = none := by
  rw [readIpv4Addr, readOctets, readSeparator_zero, readNumber_of_stops h]

variable {rest : List Char}

/-- What `read_number` has taken. -/
theorem readDigits_eq_some {result count result' count' : Nat}
    (h : readDigits radix maxDigits result count cs = some (result', count', rest)) :
    ∃ ds, cs = ds ++ rest ∧ count' = count + ds.length ∧
      (∀ d ∈ ds, ∃ n, toDigit radix d = some n) ∧
      result' = ds.foldl (fun r d => r * radix + (toDigit radix d).getD 0) result := by
  induction cs generalizing result count with
  | nil =>
    cases h
    exact ⟨[], rfl, rfl, by simp, rfl⟩
  | cons c cs ih =>
    rw [readDigits] at h
    rcases hc : toDigit radix c with - | d
    · rw [hc] at h
      cases h
      exact ⟨[], rfl, rfl, by simp, rfl⟩
    · rw [hc] at h
      dsimp only at h
      split at h
      · cases h
      · obtain ⟨ds, rfl, rfl, hds, rfl⟩ := ih h
        refine ⟨c :: ds, rfl, by rw [List.length_cons]; omega, ?_, ?_⟩
        · intro x hx
          rcases List.mem_cons.mp hx with rfl | hx
          · exact ⟨d, hc⟩
          · exact hds x hx
        · rw [List.foldl_cons, hc, Option.getD_some]

/-- A group is not the first octet of an IPv4 address: no dot follows it. -/
theorem readIpv4Addr_hex16 (n : Nat) (h : ∀ c, cs.head? = some c → c = ':') :
    readIpv4Addr (hex16 n ++ cs) = none := by
  rw [readIpv4Addr, readOctets, readSeparator_zero]
  rcases hread : readNumber 10 3 256 false (hex16 n ++ cs) with - | ⟨octet, rest⟩
  · rfl
  · -- the digits end inside the group or at its end
    have hdot : rest.head? ≠ some '.' := by
      intro hdot
      obtain ⟨ds, hds, hdigits⟩ : ∃ ds, hex16 n ++ cs = ds ++ rest ∧
          ∀ d ∈ ds, ∃ n, toDigit 10 d = some n := by
        unfold readNumber at hread
        split at hread
        · cases hread
        · rename_i hdigits
          obtain ⟨ds, hds, -, hall, -⟩ := readDigits_eq_some hdigits
          split_ifs at hread
          cases hread
          exact ⟨ds, hds, hall⟩
      rcases List.append_eq_append_iff.mp hds with ⟨bs, rfl, hcs⟩ | ⟨as, has, rfl⟩
      · cases bs with
        | nil =>
          rw [List.nil_append] at hcs
          exact absurd (h _ (hcs ▸ hdot)) (by decide)
        | cons b bs =>
          obtain ⟨d, hd⟩ := hdigits b (List.mem_append_right _ (.head _))
          rw [h b (by rw [hcs]; rfl)] at hd
          cases hd
      · cases as with
        | nil => exact absurd (h _ hdot) (by decide)
        | cons a as =>
          have ha : a = '.' := Option.some.inj hdot
          have hmem : PieceChar '.' := pieceChar_hex16 (n := n) (by
            rw [has, ← ha]
            exact List.mem_append_right _ (.head _))
          rcases hmem with hmem | hmem
          · cases hmem
          · exact absurd hmem (by decide)
    dsimp only
    have hnone : readSeparator '.' 1 (readNumber 10 3 256 false) rest = none := by
      cases rest with
      | nil => rfl
      | cons c rest =>
        rw [readSeparator, if_neg Nat.one_ne_zero, readGivenChar,
          if_neg fun hc => hdot (congrArg some hc)]
        rfl
    rw [readOctets, hnone]

/-! ### Runs of groups -/

/-- Where a run of groups ends. -/
def EndOfRun (cs : List Char) : Prop := cs = [] ∨ ∃ rest, cs = ':' :: ':' :: rest

theorem EndOfRun.head? (h : EndOfRun cs) : ∀ c, cs.head? = some c → c = ':' := by
  rcases h with rfl | ⟨rest, rfl⟩
  · nofun
  · rintro _ ⟨⟩
    rfl

theorem stops_of_head? (hradix : toDigit radix ':' = none) (h : ∀ c, cs.head? = some c → c = ':') :
    Stops radix cs :=
  fun c hc => h c hc ▸ hradix

theorem EndOfRun.readSeparator (h : EndOfRun cs) (i : Nat)
    {inner : List Char → Option (α × List Char)}
    (hinner : ∀ cs, (∀ c, cs.head? = some c → c = ':') → inner cs = none) :
    readSeparator ':' i inner cs = none := by
  cases i with
  | zero => rw [readSeparator_zero, hinner cs h.head?]
  | succ i =>
    rcases h with rfl | ⟨rest, rfl⟩
    · rfl
    · rw [readSeparator_succ, hinner]
      rintro _ ⟨⟩
      rfl

theorem readGroups_of_endOfRun (h : EndOfRun cs) (k i : Nat) :
    readGroups k i cs = ([], false, cs) := by
  cases k with
  | zero => rfl
  | succ k =>
    have hipv4 : (if 0 < k then readSeparator ':' i readIpv4Addr cs else none) = none := by
      rw [h.readSeparator i fun cs hcs => readIpv4Addr_of_stops (stops_of_head? (by decide) hcs)]
      split <;> rfl
    rw [readGroups, hipv4]
    dsimp only
    rw [h.readSeparator i fun cs hcs => readNumber_of_stops (stops_of_head? (by decide) hcs)]

/-- What follows a group in a run. -/
theorem head?_flatMap_groups (groups : List Nat) (h : EndOfRun cs) :
    ∀ c, ((groups.flatMap fun n => ':' :: hex16 n) ++ cs).head? = some c → c = ':' := by
  cases groups with
  | nil => exact h.head?
  | cons g groups =>
    rintro _ ⟨⟩
    rfl

/-- One group of a run, behind its separator. -/
theorem readGroups_cons {k i group : Nat} (hgroup : group < 65536) {text : List Char}
    (h : ∀ c, cs.head? = some c → c = ':')
    (htext : ∀ {α : Type} (inner : List Char → Option (α × List Char)),
      readSeparator ':' i inner text = inner (hex16 group ++ cs)) :
    readGroups (k + 1) i text =
      (group :: (readGroups k (i + 1) cs).1, (readGroups k (i + 1) cs).2) := by
  have hipv4 : (if 0 < k then readSeparator ':' i readIpv4Addr text else none) = none := by
    rw [htext, readIpv4Addr_hex16 _ h]
    split <;> rfl
  rw [readGroups, hipv4, htext, readNumber_hex16 hgroup (stops_of_head? (by decide) h)]

theorem readGroups_flatMap {groups : List Nat} (hgroups : ∀ g ∈ groups, g < 65536) {k : Nat}
    (hk : groups.length ≤ k) (i : Nat) (h : EndOfRun cs) :
    readGroups k (i + 1) ((groups.flatMap fun n => ':' :: hex16 n) ++ cs) =
      (groups, false, cs) := by
  induction groups generalizing k i with
  | nil => exact readGroups_of_endOfRun h k (i + 1)
  | cons g groups ih =>
    obtain ⟨k, rfl⟩ : ∃ k', k = k' + 1 :=
      Nat.exists_eq_add_one.mpr (Nat.lt_of_lt_of_le (by simp) hk)
    rw [readGroups_cons (hgroups g (.head _)) (head?_flatMap_groups groups h) ?_,
      ih (fun g hg => hgroups g (.tail _ hg)) (Nat.le_of_succ_le_succ hk)]
    intro α inner
    rw [List.flatMap_cons, List.append_assoc, List.cons_append, readSeparator_succ]

/-- A run of groups is read. -/
theorem readGroups_joined {groups : List Nat} (hgroups : ∀ g ∈ groups, g < 65536) {k : Nat}
    (hk : groups.length ≤ k) (h : EndOfRun cs) :
    readGroups k 0 (joined ':' hex16 groups ++ cs) = (groups, false, cs) := by
  cases groups with
  | nil => exact readGroups_of_endOfRun h k 0
  | cons g groups =>
    obtain ⟨k, rfl⟩ : ∃ k', k = k' + 1 :=
      Nat.exists_eq_add_one.mpr (Nat.lt_of_lt_of_le (by simp) hk)
    rw [readGroups_cons (hgroups g (.head _)) (head?_flatMap_groups groups h) ?_,
      readGroups_flatMap (fun g hg => hgroups g (.tail _ hg))
        (Nat.le_of_succ_le_succ hk) 0 h]
    intro α inner
    rw [readSeparator_zero, joined_cons, List.append_assoc]

/-! ### The displayed addresses -/

/-- The run that is abbreviated is within the pieces and has zeros only. -/
theorem longestSpan_zeros {zeros : List Bool} (h : zeros.length = 8) :
    1 < (longestSpan 0 (0, 0) (0, 0) zeros).2 →
      (longestSpan 0 (0, 0) (0, 0) zeros).1 + (longestSpan 0 (0, 0) (0, 0) zeros).2 ≤ 8 ∧
      (zeros.drop (longestSpan 0 (0, 0) (0, 0) zeros).1).take
        (longestSpan 0 (0, 0) (0, 0) zeros).2 =
        List.replicate (longestSpan 0 (0, 0) (0, 0) zeros).2 true := by
  obtain ⟨a, b, c, d, e, f, g, z, rfl⟩ := eq_of_length_eight h
  revert a b c d e f g z
  decide

/-- How an address is displayed that is not IPv4-mapped: in one run of groups, or
in two with zeros between them. -/
theorem Ipv6Addr.display_cases (a : Ipv6Addr) (h : a.toIpv4Mapped = none) :
    a.display = joined ':' hex16 a.segments ∨
      ∃ before zeros after, a.segments = before ++ List.replicate zeros 0 ++ after ∧ 1 < zeros ∧
        a.display = joined ':' hex16 before ++ ':' :: ':' :: joined ':' hex16 after := by
  have hlength : (a.segments.map (· == 0)).length = 8 := by rw [List.length_map, a.length_eq]
  have hzeros := longestSpan_zeros hlength
  rw [Ipv6Addr.display, h]
  dsimp only
  generalize longestSpan 0 (0, 0) (0, 0) (a.segments.map (· == 0)) = span at hzeros ⊢
  obtain ⟨start, len⟩ := span
  dsimp only at hzeros ⊢
  by_cases hlen : 1 < len
  · rw [if_pos hlen]
    refine .inr ⟨_, len, _, ?_, hlen, by rw [List.append_assoc]; rfl⟩
    obtain ⟨hle, hrun⟩ := hzeros hlen
    rw [← List.map_drop, ← List.map_take] at hrun
    have hpieces : (a.segments.drop start).take len = List.replicate len 0 := by
      refine List.eq_replicate_iff.mpr ⟨?_, fun p hp => ?_⟩
      · rw [List.length_take, List.length_drop, a.length_eq]
        omega
      · have := (List.eq_replicate_iff.mp hrun).2 _ (List.mem_map_of_mem hp)
        exact beq_iff_eq.mp this
    rw [← hpieces, List.append_assoc, ← List.drop_drop, List.take_append_drop,
      List.take_append_drop]
  · exact .inl (if_neg hlen)

theorem Ipv6Addr.segments_of_mapped {a : Ipv6Addr} (h : a.toIpv4Mapped = some octets) :
    ∃ ab cd, ab < 65536 ∧ cd < 65536 ∧
      a.segments = [0, 0, 0, 0, 0, 0xffff, ab, cd] ∧
      octets = [ab / 256, ab % 256, cd / 256, cd % 256] := by
  rw [Ipv6Addr.toIpv4Mapped] at h
  split at h
  · rename_i ab cd hsegments
    refine ⟨ab, cd, a.segments_lt ab ?_, a.segments_lt cd ?_, hsegments,
      (Option.some.inj h).symm⟩ <;>
      simp [hsegments]
  · cases h

theorem readIpv6Addr_mapped {ab cd : Nat} (hab : ab < 65536) (hcd : cd < 65536) :
    readIpv6Addr ("::ffff:".toList ++
        joined '.' decimal [ab / 256, ab % 256, cd / 256, cd % 256]) =
      some ([0, 0, 0, 0, 0, 0xffff, ab, cd], []) := by
  have hoctets : ∀ b ∈ [ab / 256, ab % 256, cd / 256, cd % 256], b < 256 := by
    simp only [List.mem_cons, List.not_mem_nil, or_false]
    omega
  have hipv4 : readIpv4Addr (joined '.' decimal [ab / 256, ab % 256, cd / 256, cd % 256]) =
      some ([ab / 256, ab % 256, cd / 256, cd % 256], []) := by
    have := readIpv4Addr_joined rfl hoctets (stops_nil 10)
    rwa [List.append_nil] at this
  generalize htext : joined '.' decimal [ab / 256, ab % 256, cd / 256, cd % 256] = text at hipv4
  have htail : readGroups 7 0 ("ffff:".toList ++ text) = ([0xffff, ab, cd], true, []) := by
    have hgroup : "ffff:".toList ++ text = hex16 0xffff ++ ':' :: text := rfl
    have hhead : ∀ c, (':' :: text).head? = some c → c = ':' := by
      rintro _ ⟨⟩
      rfl
    rw [hgroup, readGroups_cons (by decide) hhead fun inner => readSeparator_zero _ _ _]
    rw [readGroups, if_pos (by decide), readSeparator_succ, hipv4]
    simp only [groupsOfOctets]
    rw [Nat.div_add_mod' ab 256, Nat.div_add_mod' cd 256]
  have hcolons : "::ffff:".toList ++ text = ':' :: ':' :: ("ffff:".toList ++ text) := rfl
  rw [readIpv6Addr, hcolons, readGroups_of_endOfRun (Or.inr ⟨_, rfl⟩)]
  simp only [List.length_nil, readGivenChar, if_true, Option.bind_some, Nat.sub_zero, htail]
  rfl

theorem readIpv6Addr_display (a : Ipv6Addr) : readIpv6Addr a.display = some (a.segments, []) := by
  rcases hmapped : a.toIpv4Mapped with - | octets
  · rcases a.display_cases hmapped with hdisplay |
      ⟨before, zeros, after, hsegments, hzeros, hdisplay⟩
    · have hread := readGroups_joined a.segments_lt (Nat.le_of_eq a.length_eq) (Or.inl rfl)
      rw [List.append_nil] at hread
      rw [hdisplay, readIpv6Addr, hread]
      dsimp only
      rw [if_pos a.length_eq]
    · have hlength := a.length_eq
      rw [hsegments, List.length_append, List.length_append, List.length_replicate] at hlength
      have hbefore : ∀ g ∈ before, g < 65536 :=
        fun g hg => a.segments_lt g (by simp [hsegments, hg])
      have hafter : ∀ g ∈ after, g < 65536 := fun g hg => a.segments_lt g (by simp [hsegments, hg])
      have hread := readGroups_joined hafter (k := 7 - before.length) (by omega) (Or.inl rfl)
      rw [List.append_nil] at hread
      rw [hdisplay, readIpv6Addr,
        readGroups_joined hbefore (show before.length ≤ 8 by omega) (Or.inr ⟨_, rfl⟩)]
      simp only [readGivenChar, if_true, Option.bind_some, hread]
      rw [if_neg (by omega), if_neg Bool.false_ne_true, hsegments,
        show 8 - before.length - after.length = zeros by omega]
  · obtain ⟨ab, cd, hab, hcd, hsegments, rfl⟩ := a.segments_of_mapped hmapped
    rw [Ipv6Addr.display, hmapped, hsegments]
    exact readIpv6Addr_mapped hab hcd

/-- **An IPv6 address is read back.** -/
theorem parseIpv6Addr_display (a : Ipv6Addr) : parseIpv6Addr a.display = some a := by
  rw [parseIpv6Addr, readIpv6Addr_display]
  exact dif_pos ⟨a.length_eq, a.segments_lt⟩

/-- No IPv4 address stands at the front of an IPv6 address. -/
theorem readIpv4Addr_display_v6 (a : Ipv6Addr) : readIpv4Addr a.display = none := by
  have hjoined : ∀ groups : List Nat, groups ≠ [] → ∀ cs, (∀ c, cs.head? = some c → c = ':') →
      readIpv4Addr (joined ':' hex16 groups ++ cs) = none := by
    intro groups hne cs hcs
    obtain ⟨g, groups, rfl⟩ := List.exists_cons_of_ne_nil hne
    rw [joined_cons, List.append_assoc, readIpv4Addr_hex16]
    cases groups with
    | nil => exact hcs
    | cons g groups =>
      rintro _ ⟨⟩
      rfl
  rcases hmapped : a.toIpv4Mapped with - | octets
  · rcases a.display_cases hmapped with hdisplay | ⟨before, zeros, after, -, -, hdisplay⟩
    · have hne : a.segments ≠ [] := by
        intro hnil
        have := a.length_eq
        rw [hnil] at this
        cases this
      have := hjoined _ hne [] nofun
      rwa [List.append_nil, ← hdisplay] at this
    · rw [hdisplay]
      by_cases hne : before = []
      · rw [hne]
        exact readIpv4Addr_of_stops (stops_cons (by decide) _)
      · exact hjoined before hne _ (by rintro _ ⟨⟩; rfl)
  · rw [Ipv6Addr.display, hmapped]
    exact readIpv4Addr_of_stops (stops_cons (by decide) _)

/-- **An address is read back.** -/
theorem parseIpAddr_display (ip : IpAddr) : parseIpAddr ip.display = some ip := by
  cases ip with
  | v4 a =>
    have hread := readIpv4Addr_joined a.length_eq a.octets_lt (stops_nil 10)
    rw [List.append_nil] at hread
    rw [IpAddr.display, Ipv4Addr.display, parseIpAddr, hread]
    show Option.map IpAddr.v4 (Ipv4Addr.ofOctets a.octets) = _
    rw [Ipv4Addr.ofOctets, dif_pos ⟨a.length_eq, a.octets_lt⟩, Option.map_some]
  | v6 a => rw [IpAddr.display, parseIpAddr, readIpv4Addr_display_v6, parseIpv6Addr_display,
      Option.map_some]

/-! ### An IPv4 address has one text -/

theorem toDigits_foldl {ds : List Char} (hds : ∀ d ∈ ds, ∃ n, toDigit 10 d = some n) {r : Nat}
    (hr : 0 < r) :
    Nat.toDigits 10 (ds.foldl (fun r d => r * 10 + (toDigit 10 d).getD 0) r) =
      Nat.toDigits 10 r ++ ds := by
  induction ds generalizing r with
  | nil => rw [List.foldl_nil, List.append_nil]
  | cons d ds ih =>
    obtain ⟨n, hn⟩ := hds d (.head _)
    obtain ⟨hchar, hlt⟩ := digitChar_of_toDigit hn
    rw [List.foldl_cons, ih (fun d hd => hds d (.tail _ hd)) (by omega), hn,
      Option.getD_some, Nat.toDigits_of_base_le (by decide) (by omega),
      show (r * 10 + n) / 10 = r by omega, show (r * 10 + n) % 10 = n by omega, ← hchar,
      List.append_assoc, List.singleton_append]

/-- An octet that is read is written in the same way. -/
theorem decimal_of_readNumber {octet : Nat}
    (h : readNumber 10 3 256 false cs = some (octet, rest)) : cs = decimal octet ++ rest := by
  unfold readNumber at h
  split at h
  · cases h
  · rename_i result count rest' hdigits
    obtain ⟨ds, rfl, hcount, hds, hresult⟩ := readDigits_eq_some hdigits
    split_ifs at h with hzero hlead hbound
    cases h
    cases ds with
    | nil => exact absurd hcount hzero
    | cons d ds =>
      obtain ⟨n, hn⟩ := hds d (.head _)
      obtain ⟨hchar, hlt⟩ := digitChar_of_toDigit hn
      rw [List.foldl_cons, hn, Option.getD_some, Nat.zero_mul, Nat.zero_add] at hresult
      rw [decimal_eq_toDigits, hresult]
      congr 1
      cases ds with
      | nil => rw [List.foldl_nil, Nat.toDigits_of_lt_base hlt, ← hchar]
      | cons d' ds =>
        -- a first digit of several is not zero
        have hpos : 0 < n := by
          refine Nat.pos_of_ne_zero fun hn0 => hlead ?_
          rw [hcount, hchar, hn0]
          simp
        rw [toDigits_foldl (fun d hd => hds d (.tail _ hd)) hpos,
          Nat.toDigits_of_lt_base hlt, ← hchar, List.singleton_append]

theorem flatMap_of_readOctets {k i : Nat} (h : readOctets k (i + 1) cs = some (octets, rest)) :
    cs = (octets.flatMap fun n => '.' :: decimal n) ++ rest := by
  induction k generalizing i cs octets with
  | zero =>
    cases h
    rfl
  | succ k ih =>
    rw [readOctets] at h
    split at h
    · cases h
    · rename_i octet mid hoctet
      split at h
      · cases h
      · rename_i octets' rest' hrest
        cases h
        rw [readSeparator, if_neg (Nat.succ_ne_zero i)] at hoctet
        obtain ⟨cs', hsep, hnumber⟩ := Option.bind_eq_some_iff.mp hoctet
        have hcs : cs = '.' :: cs' := by
          cases cs with
          | nil => cases hsep
          | cons c cs =>
            rw [readGivenChar] at hsep
            split at hsep
            · rename_i hc
              cases hsep
              rw [hc]
            · cases hsep
        rw [hcs, decimal_of_readNumber hnumber, ih hrest, List.flatMap_cons, List.append_assoc,
          List.cons_append]

theorem joined_of_readIpv4Addr (h : readIpv4Addr cs = some (octets, rest)) :
    cs = joined '.' decimal octets ++ rest := by
  rw [readIpv4Addr, readOctets, readSeparator_zero] at h
  split at h
  · cases h
  · rename_i octet mid hoctet
    split at h
    · cases h
    · rename_i octets' rest' hrest
      cases h
      rw [joined_cons, decimal_of_readNumber hoctet, flatMap_of_readOctets hrest, List.append_assoc]

/-- **A text that is read as an IPv4 address is the one that is displayed.** -/
theorem display_of_parseIpAddr_v4 {a : Ipv4Addr} (h : parseIpAddr cs = some (.v4 a)) :
    cs = a.display := by
  unfold parseIpAddr at h
  split at h
  · rename_i read hread
    obtain ⟨octets, rest⟩ := read
    obtain ⟨a', hmake, heq⟩ := Option.map_eq_some_iff.mp h
    cases heq
    cases rest with
    | cons c rest => cases hmake
    | nil =>
      have hmake : Ipv4Addr.ofOctets octets = some a := hmake
      rw [Ipv4Addr.ofOctets] at hmake
      split at hmake
      · cases hmake
        rw [joined_of_readIpv4Addr hread, List.append_nil]
        rfl
      · cases hmake
  · obtain ⟨a', -, heq⟩ := Option.map_eq_some_iff.mp h
    cases heq

/-! ### The characters of an address -/

/-- A character of a displayed address. -/
def AddrChar (c : Char) : Prop := c = '.' ∨ PieceChar c

theorem addrChar_decimal (h : c ∈ decimal n) : PieceChar c := by
  rw [decimal_eq_toDigits] at h
  have hdigit := Nat.isDigit_of_mem_toDigits (by decide) (by decide) h
  refine .inr ?_
  have hbounds : 48 ≤ c.toNat ∧ c.toNat ≤ 57 := by
    simpa [Char.isDigit, UInt32.le_iff_toNat_le] using hdigit
  obtain ⟨n, hn, hc⟩ : ∃ n < 10, c.toNat = n + 48 := ⟨c.toNat - 48, by omega, by omega⟩
  have hmem : ∀ n < 10, Char.ofNat (n + 48) ∈ "0123456789abcdef".toList := by decide
  have := hmem n hn
  rwa [← hc, Char.ofNat_toNat] at this

theorem addrChar_joined_decimal {ns : List Nat} (h : c ∈ joined '.' decimal ns) :
    c = '.' ∨ ∃ n, c ∈ decimal n := by
  cases ns with
  | nil => cases h
  | cons n ns =>
    rw [joined_cons] at h
    rcases List.mem_append.mp h with h | h
    · exact .inr ⟨n, h⟩
    · obtain ⟨m, -, hm⟩ := List.mem_flatMap.mp h
      rcases List.mem_cons.mp hm with rfl | hm
      · exact .inl rfl
      · exact .inr ⟨m, hm⟩

theorem IpAddr.addrChar_display {ip : IpAddr} (h : c ∈ ip.display) : AddrChar c := by
  have hdecimal : ∀ ns, c ∈ joined '.' decimal ns → AddrChar c := by
    intro ns hns
    rcases addrChar_joined_decimal hns with rfl | ⟨n, hn⟩
    · exact .inl rfl
    · exact .inr (addrChar_decimal hn)
  cases ip with
  | v4 a => exact hdecimal _ h
  | v6 a =>
    have h : c ∈ a.display := h
    rcases hmapped : a.toIpv4Mapped with - | octets
    · rw [display_eq_serialize a hmapped] at h
      exact .inr (a.pieceChar_serialize h)
    · rw [Ipv6Addr.display, hmapped] at h
      rcases List.mem_append.mp h with h | h
      · have hlead : "::ffff:".toList.all (fun c =>
          c == ':' || "0123456789abcdef".toList.contains c)
            = true := by decide
        have := List.all_eq_true.mp hlead c h
        simp only [Bool.or_eq_true, beq_iff_eq, List.contains_iff_mem] at this
        exact .inr this
      · exact hdecimal _ h

theorem Ipv4Addr.colon_notMem_display (a : Ipv4Addr) : ':' ∉ a.display := by
  intro h
  rcases addrChar_joined_decimal h with h | ⟨n, h⟩
  · cases h
  · rw [decimal_eq_toDigits] at h
    exact absurd (Nat.isDigit_of_mem_toDigits (by decide) (by decide) h) (by decide)

/-- An IPv6 address has several colons. -/
theorem Ipv6Addr.one_lt_count_colon (a : Ipv6Addr) : 1 < a.display.count ':' := by
  rcases hmapped : a.toIpv4Mapped with - | octets
  · rcases a.display_cases hmapped with hdisplay | ⟨before, zeros, after, -, -, hdisplay⟩
    · have hlength := a.length_eq
      rcases hsegments : a.segments with - | ⟨p, - | ⟨q, - | ⟨r, rest⟩⟩⟩
      · rw [hsegments] at hlength
        cases hlength
      · rw [hsegments] at hlength
        cases hlength
      · rw [hsegments] at hlength
        cases hlength
      · rw [hdisplay, hsegments, joined_cons_cons, joined_cons_cons, List.count_append,
          List.count_cons_self, List.count_append, List.count_cons_self]
        omega
    · rw [hdisplay, List.count_append, List.count_cons_self, List.count_cons_self]
      omega
  · rw [Ipv6Addr.display, hmapped]
    show 1 < List.count ':' ("::ffff:".toList ++ joined '.' decimal octets)
    rw [List.count_append, show List.count ':' "::ffff:".toList = 3 by decide]
    omega

end Imago
