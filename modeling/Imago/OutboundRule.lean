/-
Imago/OutboundRule.lean

Outbound rules of `wasi:http`: how the CLI normalizes a rule of `imago.toml` and
how the daemon parses, validates and applies it.

A rule is a host, a host and a port, or a range of addresses.  Both programs have
their own parser (`Build.normalizeWasiHttpOutboundRule` returns a text,
`WasiHttpOutboundRule.parse` a value).  The comparison goes through the text of a
rule (`WasiHttpOutboundRule.render`): the CLI returns the text of the rule that the
daemon parses (`normalize_eq_ok_iff`), a parsed rule is valid (`valid_of_parse`),
and the text of a valid rule is parsed to it (`parse_render`).
-/
import Imago.Errors
import Imago.IpParse
import Mathlib.Data.Nat.Digits.Defs

namespace Imago

open String (ofList ofList_toList)

/-! ### Masks -/

/-- The number with these pieces, the most significant one first. -/
def pieceValue (base : Nat) (pieces : List Nat) : Nat :=
  pieces.foldl (fun value piece => value * base + piece) 0

/-- The last `k` pieces of a number. -/
def piecesOf (base : Nat) : Nat → Nat → List Nat
  | 0, _ => []
  | k + 1, n => piecesOf base k (n / base) ++ [n % base]

@[simp] theorem length_piecesOf (base k n : Nat) : (piecesOf base k n).length = k := by
  induction k generalizing n with
  | zero => rfl
  | succ k ih => rw [piecesOf, List.length_append, ih, List.length_singleton]

variable {n : Nat}

theorem piecesOf_lt {base : Nat} (hbase : 0 < base) {k : Nat} :
    ∀ p ∈ piecesOf base k n, p < base := by
  induction k generalizing n with
  | zero => nofun
  | succ k ih =>
    intro p hp
    rcases List.mem_append.mp hp with hp | hp
    · exact ih p hp
    · rw [List.mem_singleton.mp hp]
      exact Nat.mod_lt _ hbase

theorem pieceValue_concat (base : Nat) (pieces : List Nat) (p : Nat) :
    pieceValue base (pieces ++ [p]) = pieceValue base pieces * base + p := by
  rw [pieceValue, List.foldl_append]
  rfl

theorem pieceValue_piecesOf {base k : Nat} (h : n < base ^ k) :
    pieceValue base (piecesOf base k n) = n := by
  induction k generalizing n with
  | zero =>
    rw [Nat.pow_zero] at h
    rw [show n = 0 by omega]
    rfl
  | succ k ih =>
    have hfront : n / base < base ^ k := by
      rw [Nat.pow_succ] at h
      exact Nat.div_lt_of_lt_mul (Nat.mul_comm .. ▸ h)
    rw [piecesOf, pieceValue_concat, ih hfront, Nat.div_add_mod']

theorem pieceValue_eq_ofDigits (base : Nat) (pieces : List Nat) :
    pieceValue base pieces = Nat.ofDigits base pieces.reverse := by
  rw [Nat.ofDigits_eq_foldr, List.foldr_reverse]
  simp only [pieceValue, Nat.mul_comm base, Nat.add_comm, Nat.cast_id]

theorem pieceValue_lt {base : Nat} (hbase : 1 < base) {pieces : List Nat}
    (h : ∀ p ∈ pieces, p < base) : pieceValue base pieces < base ^ pieces.length := by
  rw [pieceValue_eq_ofDigits, ← List.length_reverse]
  exact Nat.ofDigits_lt_base_pow_length hbase fun p hp => h p (List.mem_reverse.mp hp)

/-- `u32::from`. -/
def Ipv4Addr.bits (a : Ipv4Addr) : Nat := pieceValue 256 a.octets

/-- `Ipv4Addr::from`. -/
def Ipv4Addr.ofBits (n : Nat) : Ipv4Addr :=
  ⟨piecesOf 256 4 n, length_piecesOf 256 4 n, piecesOf_lt (by decide)⟩

/-- `u128::from`. -/
def Ipv6Addr.bits (a : Ipv6Addr) : Nat := pieceValue 65536 a.segments

/-- `Ipv6Addr::from`. -/
def Ipv6Addr.ofBits (n : Nat) : Ipv6Addr :=
  ⟨piecesOf 65536 8 n, length_piecesOf 65536 8 n, piecesOf_lt (by decide)⟩

theorem Ipv4Addr.bits_lt (a : Ipv4Addr) : a.bits < 2 ^ 32 := by
  have := pieceValue_lt (by decide) a.octets_lt
  rwa [a.length_eq] at this

theorem Ipv6Addr.bits_lt (a : Ipv6Addr) : a.bits < 2 ^ 128 := by
  have := pieceValue_lt (by decide) a.segments_lt
  rwa [a.length_eq] at this

theorem Ipv4Addr.bits_ofBits (h : n < 2 ^ 32) : (Ipv4Addr.ofBits n).bits = n :=
  pieceValue_piecesOf h

theorem Ipv6Addr.bits_ofBits (h : n < 2 ^ 128) : (Ipv6Addr.ofBits n).bits = n :=
  pieceValue_piecesOf h

/-- The mask of a prefix: `MAX << (width - prefix_len)`, with zero apart. -/
def prefixMask (width prefixLen : Nat) : Nat :=
  if prefixLen = 0 then 0 else ((2 ^ width - 1) <<< (width - prefixLen)) % 2 ^ width

/-- The address with the bits behind the prefix cleared. -/
def IpAddr.masked (ip : IpAddr) (prefixLen : Nat) : IpAddr :=
  match ip with
  | .v4 a => .v4 (.ofBits (a.bits &&& prefixMask 32 prefixLen))
  | .v6 a => .v6 (.ofBits (a.bits &&& prefixMask 128 prefixLen))

theorem IpAddr.masked_masked (ip : IpAddr) (prefixLen : Nat) :
    (ip.masked prefixLen).masked prefixLen = ip.masked prefixLen := by
  cases ip with
  | v4 a =>
    rw [IpAddr.masked, IpAddr.masked,
      Ipv4Addr.bits_ofBits (Nat.lt_of_le_of_lt Nat.and_le_left a.bits_lt), Nat.and_assoc,
      Nat.and_self]
  | v6 a =>
    rw [IpAddr.masked, IpAddr.masked,
      Ipv6Addr.bits_ofBits (Nat.lt_of_le_of_lt Nat.and_le_left a.bits_lt), Nat.and_assoc,
      Nat.and_self]

/-- The longest prefix of the family of the address. -/
def IpAddr.maxPrefix : IpAddr → Nat
  | .v4 _ => 32
  | .v6 _ => 128

theorem IpAddr.maxPrefix_le : ∀ ip : IpAddr, ip.maxPrefix ≤ 128
  | .v4 _ => (by decide : 32 ≤ 128)
  | .v6 _ => Nat.le_refl 128

theorem IpAddr.maxPrefix_masked (ip : IpAddr) (prefixLen : Nat) :
    (ip.masked prefixLen).maxPrefix = ip.maxPrefix := by
  cases ip <;> rfl

/-- `Display` of an `AddrParseError`. -/
def ipError : String := "invalid IP address syntax"

def ipv6Error : String := "invalid IPv6 address syntax"

/-- `str::strip_prefix` of a character. -/
def stripPrefixChar (c : Char) : List Char → Option (List Char)
  | [] => none
  | x :: xs => if x = c then some xs else none

theorem stripPrefixChar_self (c : Char) (cs : List Char) : stripPrefixChar c (c :: cs) = some cs :=
  if_pos rfl

variable {c : Char}

theorem stripPrefixChar_eq_none {cs : List Char} (h : cs.head? ≠ some c) :
    stripPrefixChar c cs = none := by
  cases cs with
  | nil => rfl
  | cons x xs => exact if_neg fun hx => h (congrArg some hx)

/-! ### The daemon -/

/-- `WasiHttpOutboundRule`. -/
inductive WasiHttpOutboundRule where
  | host (host : String)
  | hostPort (host : String) (port : Nat)
  | cidr (network : IpAddr) (prefixLen : Nat)
  deriving DecidableEq

namespace WasiHttpOutboundRule

/-- `cidr_network_ip`. -/
def cidrNetworkIp (ip : IpAddr) (prefixLen : Nat) : IpAddr := ip.masked prefixLen

/-- `normalize_wasi_http_outbound_host`. -/
def normalizeWasiHttpOutboundHost (raw : List Char) : Option (List Char) :=
  let value := trimChars raw
  if value.isEmpty then none
  else if value.contains '*' || value.contains '/' || value.contains '\\' ||
    value.any isWhitespace then
    none
  else if value.head? == some '[' || value.getLast? == some ']' then none
  else
    match parseIpAddr value with
    | some ip => some ip.display
    | none => if value.contains ':' then none else some (value.map Char.toLower)

/-- `parse_wasi_http_outbound_port`. -/
def parseWasiHttpOutboundPort (text : List Char) : Except String Nat :=
  match parseUnsigned 65535 text with
  | .error err =>
    .error ("port must be in range 1..=65535 (got '" ++ ofList text ++ "'): " ++ err.display)
  | .ok port => if port = 0 then .error "port must be in range 1..=65535 (got 0)" else .ok port

/-- `parse_wasi_http_outbound_cidr`. -/
def parseWasiHttpOutboundCidr (value : List Char) : Except String WasiHttpOutboundRule :=
  match splitOnceChars '/' value with
  | none => .error ("invalid CIDR rule: " ++ ofList value)
  | some (ipText, prefixText) =>
    if ipText.isEmpty || prefixText.isEmpty || prefixText.contains '/' then
      .error ("invalid CIDR rule: " ++ ofList value)
    else
      match parseIpAddr ipText with
      | none => .error ("invalid CIDR IP '" ++ ofList ipText ++ "': " ++ ipError)
      | some ip =>
        match parseUnsigned 255 prefixText with
        | .error err =>
          .error ("invalid CIDR prefix '" ++ ofList prefixText ++ "': " ++ err.display)
        | .ok prefixLen =>
          if ip.maxPrefix < prefixLen then
            .error ("CIDR prefix must be in range 0..=" ++ toString ip.maxPrefix ++ ": " ++
              toString prefixLen)
          else .ok (.cidr (cidrNetworkIp ip prefixLen) prefixLen)

/-- The bracketed form of `parse_wasi_http_outbound_host_or_port`; `rest` is what
follows the bracket. -/
def parseBracketed (value rest : List Char) : Except String WasiHttpOutboundRule :=
  match splitOnceChars ']' rest with
  | none => .error ("invalid bracketed host rule: " ++ ofList value)
  | some (hostText, rest) =>
    match parseIpv6Addr hostText with
    | none => .error ("invalid IPv6 host '" ++ ofList hostText ++ "': " ++ ipv6Error)
    | some hostIp =>
      if rest.isEmpty then .ok (.host (ofList hostIp.display))
      else
        match stripPrefixChar ':' rest with
        | none => .error ("invalid bracketed host: " ++ ofList value)
        | some portText => do
            let port ← parseWasiHttpOutboundPort portText
            return .hostPort (ofList hostIp.display) port

/-- The form without brackets and with one colon at most. -/
def parsePlain (value : List Char) : Except String WasiHttpOutboundRule :=
  match (rsplitOnceChars ':' value).filter fun parts => parts.2.all Char.isDigit with
  | some (hostText, portText) =>
    match normalizeWasiHttpOutboundHost hostText with
    | none => .error ("invalid host in host:port rule: " ++ ofList hostText)
    | some name => do
        let port ← parseWasiHttpOutboundPort portText
        return .hostPort (ofList name) port
  | none =>
    match normalizeWasiHttpOutboundHost value with
    | none => .error ("invalid host rule: " ++ ofList value)
    | some name => .ok (.host (ofList name))

/-- `parse_wasi_http_outbound_host_or_port`. -/
def parseWasiHttpOutboundHostOrPort (value : List Char) : Except String WasiHttpOutboundRule :=
  match stripPrefixChar '[' value with
  | some rest => parseBracketed value rest
  | none =>
    if 1 < value.count ':' then
      match parseIpAddr value with
      | none => .error ("IPv6 host with port must use [ipv6]:port: " ++ ofList value ++
          " (" ++ ipError ++ ")")
      | some ip => .ok (.host (ofList ip.display))
    else parsePlain value

/-- `WasiHttpOutboundRule::parse`. -/
def parse (raw : String) : Except String WasiHttpOutboundRule :=
  let value := trimChars raw.toList
  if value.isEmpty then .error "rule must not be empty"
  else if value.contains '*' then .error ("wildcard is not supported: " ++ ofList value)
  else if value.any isWhitespace then
    .error ("rule must not contain whitespace: " ++ ofList value)
  else if value.contains '/' then parseWasiHttpOutboundCidr value
  else parseWasiHttpOutboundHostOrPort value

/-- The check of a host in `validate`. -/
def validateHost (name : String) : Except ValidationError Unit :=
  match normalizeWasiHttpOutboundHost name.toList with
  | none => .error (.invalid "wasi_http_outbound.host" "contains invalid host")
  | some normalized =>
    if normalized ≠ name.toList then
      .error (.invalid "wasi_http_outbound.host" "must be normalized")
    else .ok ()

/-- `WasiHttpOutboundRule::validate`. -/
def validate : WasiHttpOutboundRule → Except ValidationError Unit
  | .host name => validateHost name
  | .hostPort name port => do
      validateHost name
      if port = 0 then .error (.invalid "wasi_http_outbound.port" "must be between 1 and 65535")
      else .ok ()
  | .cidr network prefixLen =>
    if network.maxPrefix < prefixLen then
      .error (.invalid "wasi_http_outbound.prefix_len" "is out of range for network address family")
    else if cidrNetworkIp network prefixLen ≠ network then
      .error (.invalid "wasi_http_outbound.network" "must be normalized to network address")
    else .ok ()

end WasiHttpOutboundRule

/-! ### The CLI -/

namespace Build

/-- `cidr_network_ip` of the CLI. -/
def cidrNetworkIp (ip : IpAddr) (prefixLen : Nat) : IpAddr := ip.masked prefixLen

/-- `normalize_wasi_http_outbound_host` of the CLI. -/
def normalizeWasiHttpOutboundHost (rawHost : List Char) (fieldName : String) :
    Except String (List Char) :=
  let host := trimChars rawHost
  if host.isEmpty then .error (fieldName ++ " host must not be empty")
  else if host.contains '*' then
    .error (fieldName ++ " wildcard host is not supported: " ++ ofList host)
  else if host.contains '/' || host.contains '\\' then
    .error (fieldName ++ " host must not contain path separators: " ++ ofList host)
  else if host.any isWhitespace then
    .error (fieldName ++ " host must not contain whitespace: " ++ ofList host)
  else if host.head? == some '[' || host.getLast? == some ']' then
    .error (fieldName ++ " host must not contain brackets: " ++ ofList host)
  else
    match parseIpAddr host with
    | some ip => .ok ip.display
    | none =>
      if host.contains ':' then
        .error (fieldName ++ " host with ':' must use [ipv6]:port format: " ++ ofList host)
      else .ok (host.map Char.toLower)

/-- `parse_wasi_http_outbound_port` of the CLI. -/
def parseWasiHttpOutboundPort (portText : List Char) (fieldName : String) : Except String Nat :=
  match parseUnsigned 65535 portText with
  | .error err =>
    .error (fieldName ++ " port must be in range 1..=65535 (got '" ++ ofList portText ++
      "'): " ++ err.display)
  | .ok port =>
    if port = 0 then .error (fieldName ++ " port must be in range 1..=65535 (got 0)") else .ok port

/-- `normalize_wasi_http_outbound_cidr`. -/
def normalizeWasiHttpOutboundCidr (value : List Char) (fieldName : String) :
    Except String (List Char) :=
  match splitOnceChars '/' value with
  | none => .error (fieldName ++ " must be hostname, host:port, or CIDR: " ++ ofList value)
  | some (ipText, prefixText) =>
    if ipText.isEmpty || prefixText.isEmpty || prefixText.contains '/' then
      .error (fieldName ++ " must be valid CIDR (<ip>/<prefix>): " ++ ofList value)
    else
      match parseIpAddr ipText with
      | none =>
        .error (fieldName ++ " CIDR ip is invalid '" ++ ofList (trimChars ipText) ++ "': " ++
          ipError)
      | some ip =>
        match parseUnsigned 255 prefixText with
        | .error err =>
          .error (fieldName ++ " CIDR prefix is invalid '" ++
            ofList (trimChars prefixText) ++ "': " ++ err.display)
        | .ok prefixLen =>
          if ip.maxPrefix < prefixLen then
            .error (fieldName ++ " CIDR prefix must be in range 0..=" ++ toString ip.maxPrefix ++
              ": " ++ toString prefixLen)
          else .ok ((cidrNetworkIp ip prefixLen).display ++ '/' :: decimal prefixLen)

/-- The bracketed form of `normalize_wasi_http_outbound_host_or_host_port`. -/
def normalizeBracketed (value rest : List Char) (fieldName : String) : Except String (List Char) :=
  match splitOnceChars ']' rest with
  | none => .error (fieldName ++ " has invalid bracketed host: " ++ ofList value)
  | some (hostText, rest) =>
    match parseIpv6Addr hostText with
    | none =>
      .error (fieldName ++ " bracketed host must be valid IPv6: " ++ ofList hostText ++
        " (" ++ ipv6Error ++ ")")
    | some hostIp =>
      if rest.isEmpty then .ok hostIp.display
      else
        match stripPrefixChar ':' rest with
        | none =>
          .error (fieldName ++ " bracketed host must use [ipv6]:port format: " ++
            ofList value)
        | some portText => do
            let port ← parseWasiHttpOutboundPort portText fieldName
            return '[' :: hostIp.display ++ [']', ':'] ++ decimal port

/-- The form without brackets and with one colon at most. -/
def normalizePlain (value : List Char) (fieldName : String) : Except String (List Char) :=
  match (rsplitOnceChars ':' value).filter fun parts => parts.2.all Char.isDigit with
  | some (hostText, portText) => do
      let host ← normalizeWasiHttpOutboundHost hostText fieldName
      let port ← parseWasiHttpOutboundPort portText fieldName
      if host.contains ':' then return '[' :: host ++ [']', ':'] ++ decimal port
      else return host ++ ':' :: decimal port
  | none => normalizeWasiHttpOutboundHost value fieldName

/-- `normalize_wasi_http_outbound_host_or_host_port`. -/
def normalizeWasiHttpOutboundHostOrHostPort (value : List Char) (fieldName : String) :
    Except String (List Char) :=
  match stripPrefixChar '[' value with
  | some rest => normalizeBracketed value rest fieldName
  | none =>
    if 1 < value.count ':' then
      match parseIpAddr value with
      | none =>
        .error (fieldName ++ " must use [ipv6]:port for IPv6 host: " ++ ofList value ++
          " (" ++ ipError ++ ")")
      | some ip => .ok ip.display
    else normalizePlain value fieldName

/-- `normalize_wasi_http_outbound_rule`. -/
def normalizeWasiHttpOutboundRule (raw fieldName : String) : Except String String :=
  let value := trimChars raw.toList
  if value.isEmpty then .error (fieldName ++ " must not be empty")
  else if value.contains '*' then
    .error (fieldName ++ " wildcard is not supported: " ++ ofList value)
  else if value.any isWhitespace then
    .error (fieldName ++ " must not contain whitespace: " ++ ofList value)
  else if value.contains '/' then
    (normalizeWasiHttpOutboundCidr value fieldName).map ofList
  else (normalizeWasiHttpOutboundHostOrHostPort value fieldName).map ofList

end Build

/-! ### Numbers and hosts -/

theorem parseDigits_le {max result : Nat} {cs : List Char} (hresult : result ≤ max)
    (h : parseDigits max result cs = .ok n) : n ≤ max := by
  induction cs generalizing result with
  | nil =>
    cases h
    exact hresult
  | cons c cs ih =>
    rw [parseDigits] at h
    split at h
    · cases h
    · split at h
      · cases h
      · exact ih (by omega) h

theorem parseUnsigned_le {max : Nat} {cs : List Char} (h : parseUnsigned max cs = .ok n) :
    n ≤ max := by
  unfold parseUnsigned at h
  split at h
  · cases h
  · cases h
  · exact parseDigits_le (Nat.zero_le _) h
  · exact parseDigits_le (Nat.zero_le _) h

theorem isDigit_of_mem_decimal (h : c ∈ decimal n) : c.isDigit = true := by
  rw [decimal_eq_toDigits] at h
  exact Nat.isDigit_of_mem_toDigits (by decide) (by decide) h

/-- A digit is not white space, a wildcard or a separator. -/
theorem notMem_decimal (hc : c.isDigit = false) (n : Nat) : c ∉ decimal n := by
  intro h
  rw [isDigit_of_mem_decimal h] at hc
  cases hc

theorem parseUnsigned_decimal {max : Nat} (h : n ≤ max) :
    parseUnsigned max (decimal n) = .ok n := by
  have hdigits := parseDigits_decimal h []
  rw [List.append_nil] at hdigits
  have hplus : ∀ cs, decimal n ≠ '+' :: cs := by
    intro cs hcs
    have hmem : '+' ∈ decimal n := by
      rw [hcs]
      exact .head _
    exact notMem_decimal (by decide) n hmem
  unfold parseUnsigned
  split
  · rename_i hnil
    exact absurd ((decimal_eq_toDigits n).symm.trans hnil) Nat.toDigits_ne_nil
  · exact absurd ‹_› (hplus _)
  · exact absurd ‹_› (hplus _)
  · exact hdigits

theorem isWhitespace_toLower (c : Char) : isWhitespace c.toLower = isWhitespace c := by
  by_cases hupper : 65 ≤ c.toNat ∧ c.toNat ≤ 90
  · have hlower : c.toLower.toNat = c.toNat + 32 := by rw [toNat_toLower, if_pos hupper]
    rw [isWhitespace_of_visible (by omega) (by omega),
      isWhitespace_of_visible (by omega) (by omega)]
  · have hsame : c.toLower = c := Char.toNat_inj.mp (by rw [toNat_toLower, if_neg hupper])
    rw [hsame]

theorem mem_of_mem_map_toLower {x : Char} (hlower : ¬(97 ≤ x.toNat ∧ x.toNat ≤ 122))
    (hupper : ¬(65 ≤ x.toNat ∧ x.toNat ≤ 90)) {cs : List Char} (h : x ∈ cs.map Char.toLower) :
    x ∈ cs := by
  obtain ⟨c, hc, hx⟩ := List.mem_map.mp h
  rwa [← (toLower_eq_iff hlower hupper).mp hx]

/-- The characters of a host that passes the checks in front of the parser of
addresses. -/
structure HostText (cs : List Char) : Prop where
  ne_nil : cs ≠ []
  visible : ∀ c ∈ cs, isWhitespace c = false
  wildcard : '*' ∉ cs
  slash : '/' ∉ cs
  backslash : '\\' ∉ cs
  bracket : cs.head? ≠ some '['
  close : cs.getLast? ≠ some ']'

theorem AddrChar.visible (h : AddrChar c) : 33 ≤ c.toNat ∧ c.toNat ≤ 126 := by
  have hdigits : "0123456789abcdef".toList.all (fun c => 33 ≤ c.toNat ∧ c.toNat ≤ 126) = true := by
    decide
  rcases h with rfl | rfl | h
  · decide
  · decide
  · exact of_decide_eq_true (List.all_eq_true.mp hdigits c h)

theorem not_addrChar (hdot : c ≠ '.') (hcolon : c ≠ ':') (hdigit : c ∉ "0123456789abcdef".toList) :
    ¬AddrChar c := by
  rintro (h | h | h)
  · exact hdot h
  · exact hcolon h
  · exact hdigit h

theorem IpAddr.display_ne_nil (ip : IpAddr) : ip.display ≠ [] := by
  intro hnil
  have hparse := parseIpAddr_display ip
  rw [hnil] at hparse
  cases hparse

theorem HostText.display (ip : IpAddr) : HostText ip.display where
  ne_nil := ip.display_ne_nil
  visible c hc := isWhitespace_of_visible (ip.addrChar_display hc).visible.1
    (ip.addrChar_display hc).visible.2
  wildcard h := not_addrChar (by decide) (by decide) (by decide) (ip.addrChar_display h)
  slash h := not_addrChar (by decide) (by decide) (by decide) (ip.addrChar_display h)
  backslash h := not_addrChar (by decide) (by decide) (by decide) (ip.addrChar_display h)
  bracket h := not_addrChar (by decide) (by decide) (by decide)
    (ip.addrChar_display (List.mem_of_mem_head? h))
  close h := not_addrChar (by decide) (by decide) (by decide)
    (ip.addrChar_display (List.mem_of_getLast? h))

theorem HostText.map_toLower {cs : List Char} (h : HostText cs) :
    HostText (cs.map Char.toLower) where
  ne_nil := mt List.map_eq_nil_iff.mp h.ne_nil
  visible := by
    intro c hc
    obtain ⟨x, hx, rfl⟩ := List.mem_map.mp hc
    rw [isWhitespace_toLower, h.visible x hx]
  wildcard := mt (mem_of_mem_map_toLower (by decide) (by decide)) h.wildcard
  slash := mt (mem_of_mem_map_toLower (by decide) (by decide)) h.slash
  backslash := mt (mem_of_mem_map_toLower (by decide) (by decide)) h.backslash
  bracket := by
    rw [List.head?_map]
    intro hhead
    obtain ⟨x, hx, hlower⟩ := Option.map_eq_some_iff.mp hhead
    exact h.bracket (hx.trans (congrArg some ((toLower_eq_iff (by decide) (by decide)).mp hlower)))
  close := by
    rw [List.getLast?_map]
    intro hlast
    obtain ⟨x, hx, hlower⟩ := Option.map_eq_some_iff.mp hlast
    exact h.close (hx.trans (congrArg some ((toLower_eq_iff (by decide) (by decide)).mp hlower)))

namespace WasiHttpOutboundRule

/-- The host that a text names, if its characters are in order. -/
def hostOf (value : List Char) : Option (List Char) :=
  match parseIpAddr value with
  | some ip => some ip.display
  | none => if value.contains ':' then none else some (value.map Char.toLower)

open Classical in
/-- The daemon takes a host if its characters are in order. -/
theorem normalizeHost_eq (raw : List Char) :
    normalizeWasiHttpOutboundHost raw =
      if HostText (trimChars raw) then hostOf (trimChars raw) else none := by
  unfold normalizeWasiHttpOutboundHost
  generalize trimChars raw = value
  dsimp only
  by_cases h : HostText value
  · rw [if_pos h, if_neg (by simpa using h.ne_nil), if_neg ?_, if_neg ?_]
    · rfl
    · have := h.bracket
      have := h.close
      simp [*]
    · have := h.wildcard
      have := h.slash
      have := h.backslash
      have := h.visible
      simp_all
  · rw [if_neg h]
    split
    · rfl
    · split
      · rfl
      · split
        · rfl
        · rename_i hne hchars hbrackets
          refine absurd ?_ h
          simp only [Bool.or_eq_true, not_or, List.contains_iff_mem, List.any_eq_true, not_exists,
            not_and, beq_iff_eq, List.isEmpty_iff] at hne hchars hbrackets
          exact ⟨hne, fun c hc => Bool.eq_false_iff.mpr (hchars.2 c hc), hchars.1.1.1, hchars.1.1.2,
            hchars.1.2, hbrackets.1, hbrackets.2⟩

theorem normalizeHost_of_hostText {cs : List Char} (h : HostText cs) :
    normalizeWasiHttpOutboundHost cs = hostOf cs := by
  rw [normalizeHost_eq, trimChars_eq_self h.visible, if_pos h]

/-- A normalized host: an address as it is displayed, or a name in lower case. -/
theorem normalizeHost_eq_some {raw cs : List Char}
    (h : normalizeWasiHttpOutboundHost raw = some cs) :
    HostText cs ∧ ((∃ ip : IpAddr, cs = ip.display) ∨
      (':' ∉ cs ∧ parseIpAddr cs = none ∧ cs.map Char.toLower = cs)) := by
  rw [normalizeHost_eq] at h
  split at h
  · rename_i htext
    unfold hostOf at h
    split at h
    · rename_i ip hip
      cases h
      exact ⟨.display ip, .inl ⟨ip, rfl⟩⟩
    · rename_i hip
      split at h
      · cases h
      · rename_i hcolon
        cases h
        rw [List.contains_iff_mem] at hcolon
        refine ⟨htext.map_toLower, .inr ⟨mt (mem_of_mem_map_toLower (by decide) (by decide)) hcolon,
          by rw [parseIpAddr_map_toLower, hip], ?_⟩⟩
        exact map_toLower_idem _
  · cases h

theorem normalizeHost_idem {raw cs : List Char} (h : normalizeWasiHttpOutboundHost raw = some cs) :
    normalizeWasiHttpOutboundHost cs = some cs := by
  obtain ⟨htext, ⟨ip, rfl⟩ | ⟨hcolon, hip, hlower⟩⟩ := normalizeHost_eq_some h
  · rw [normalizeHost_of_hostText htext, hostOf, parseIpAddr_display]
  · rw [normalizeHost_of_hostText htext, hostOf, hip, hlower]
    exact if_neg (mt List.contains_iff_mem.mp hcolon)

theorem normalizeHost_display (ip : IpAddr) :
    normalizeWasiHttpOutboundHost ip.display = some ip.display := by
  rw [normalizeHost_of_hostText (.display ip), hostOf, parseIpAddr_display]

/-! ### Valid rules and their texts -/

/-- The rules that the daemon accepts. -/
def WellFormed : WasiHttpOutboundRule → Prop
  | .host name => normalizeWasiHttpOutboundHost name.toList = some name.toList
  | .hostPort name port =>
    normalizeWasiHttpOutboundHost name.toList = some name.toList ∧ 0 < port ∧ port ≤ 65535
  | .cidr network prefixLen => prefixLen ≤ network.maxPrefix ∧ network.masked prefixLen = network

/-- The text of a rule. -/
def render : WasiHttpOutboundRule → List Char
  | .host name => name.toList
  | .hostPort name port =>
    if name.toList.contains ':' then '[' :: name.toList ++ [']', ':'] ++ decimal port
    else name.toList ++ ':' :: decimal port
  | .cidr network prefixLen => network.display ++ '/' :: decimal prefixLen

variable {r : WasiHttpOutboundRule}

theorem WellFormed.validate (h : r.WellFormed) : r.validate = .ok () := by
  have hhost : ∀ name : String, normalizeWasiHttpOutboundHost name.toList = some name.toList →
      validateHost name = .ok () := by
    intro name hname
    rw [validateHost, hname]
    exact if_neg (not_not.mpr rfl)
  cases r with
  | host name => exact hhost name h
  | hostPort name port =>
    obtain ⟨hname, hpos, -⟩ := h
    rw [WasiHttpOutboundRule.validate, hhost name hname]
    exact if_neg (Nat.ne_of_gt hpos)
  | cidr network prefixLen =>
    obtain ⟨hle, hmasked⟩ := h
    rw [WasiHttpOutboundRule.validate, if_neg (Nat.not_lt.mpr hle), cidrNetworkIp, hmasked]
    exact if_neg (not_not.mpr rfl)

variable {port : Nat}

theorem parsePort_eq_ok {text : List Char} (h : parseWasiHttpOutboundPort text = .ok port) :
    0 < port ∧ port ≤ 65535 := by
  unfold parseWasiHttpOutboundPort at h
  split at h
  · cases h
  · rename_i hport
    split at h
    · cases h
    · rename_i hne
      cases h
      exact ⟨Nat.pos_of_ne_zero hne, parseUnsigned_le hport⟩

theorem parsePort_decimal (h : 0 < port) (h' : port ≤ 65535) :
    parseWasiHttpOutboundPort (decimal port) = .ok port := by
  rw [parseWasiHttpOutboundPort, parseUnsigned_decimal h']
  exact if_neg (Nat.ne_of_gt h)

/-- A rule for an address. -/
theorem wellFormed_host_display (ip : IpAddr) : (host (ofList ip.display)).WellFormed := by
  rw [WellFormed, String.toList_ofList]
  exact normalizeHost_display ip

variable {value : List Char}

theorem wellFormed_of_parseCidr (h : parseWasiHttpOutboundCidr value = .ok r) : r.WellFormed := by
  unfold parseWasiHttpOutboundCidr at h
  split at h
  · cases h
  · split at h
    · cases h
    · split at h
      · cases h
      · split at h
        · cases h
        · split at h
          · cases h
          · rename_i ip _ _ prefixLen _ hle
            cases h
            refine ⟨?_, ip.masked_masked prefixLen⟩
            rw [cidrNetworkIp, IpAddr.maxPrefix_masked]
            exact Nat.not_lt.mp hle

theorem wellFormed_of_parseBracketed {rest : List Char} (h : parseBracketed value rest = .ok r) :
    r.WellFormed := by
  unfold parseBracketed at h
  split at h
  · cases h
  · split at h
    · cases h
    · rename_i a _
      split at h
      · cases h
        exact wellFormed_host_display (.v6 a)
      · split at h
        · cases h
        · obtain ⟨port, hport, h⟩ := Except.bind_eq_ok h
          cases h
          exact ⟨wellFormed_host_display (.v6 a), parsePort_eq_ok hport⟩

theorem wellFormed_of_parsePlain (h : parsePlain value = .ok r) : r.WellFormed := by
  unfold parsePlain at h
  split at h
  · split at h
    · cases h
    · rename_i name hname
      obtain ⟨port, hport, h⟩ := Except.bind_eq_ok h
      cases h
      refine ⟨?_, parsePort_eq_ok hport⟩
      rw [String.toList_ofList]
      exact normalizeHost_idem hname
  · split at h
    · cases h
    · rename_i name hname
      cases h
      rw [WellFormed, String.toList_ofList]
      exact normalizeHost_idem hname

theorem wellFormed_of_parseHostOrPort (h : parseWasiHttpOutboundHostOrPort value = .ok r) :
    r.WellFormed := by
  unfold parseWasiHttpOutboundHostOrPort at h
  split at h
  · exact wellFormed_of_parseBracketed h
  · split at h
    · split at h
      · cases h
      · rename_i ip _
        cases h
        exact wellFormed_host_display ip
    · exact wellFormed_of_parsePlain h

/-- **A rule that is parsed is well formed.** -/
theorem wellFormed_of_parse {raw : String} (h : parse raw = .ok r) : r.WellFormed := by
  unfold parse at h
  dsimp only at h
  split_ifs at h
  · exact wellFormed_of_parseCidr h
  · exact wellFormed_of_parseHostOrPort h

/-- Parsing a text without white space and wildcards. -/
theorem parse_ofList {cs : List Char} (hne : cs ≠ []) (hvisible : ∀ c ∈ cs, isWhitespace c = false)
    (hwildcard : '*' ∉ cs) :
    parse (ofList cs) =
      if cs.contains '/' then parseWasiHttpOutboundCidr cs
      else parseWasiHttpOutboundHostOrPort cs := by
  unfold parse
  dsimp only
  rw [String.toList_ofList, trimChars_eq_self hvisible, if_neg (by simpa using hne),
    if_neg (mt List.contains_iff_mem.mp hwildcard), if_neg]
  rw [List.any_eq_true]
  rintro ⟨c, hc, hw⟩
  rw [hvisible c hc] at hw
  cases hw

theorem visible_decimal (h : c ∈ decimal n) : isWhitespace c = false := by
  have hvisible := AddrChar.visible (Or.inr (addrChar_decimal h))
  exact isWhitespace_of_visible hvisible.1 hvisible.2

section Parts

variable {name marks cs : List Char} (htext : HostText name)
  (hmem : ∀ c ∈ cs, c ∈ name ∨ c ∈ marks ∨ c ∈ decimal n)

include hmem

/-- What is in none of the parts of a text is not in the text. -/
theorem notMem_parts (hname : c ∉ name) (hmarks : c ∉ marks) (hdigit : c.isDigit = false) :
    c ∉ cs := by
  intro hc
  rcases hmem c hc with hc | hc | hc
  · exact hname hc
  · exact hmarks hc
  · exact notMem_decimal hdigit n hc

include htext

/-- Parsing a text of a host, a number and marks between them. -/
theorem parse_parts (hne : cs ≠ []) (hmarks : ∀ c ∈ marks, isWhitespace c = false ∧ c ≠ '*') :
    parse (ofList cs) =
      if cs.contains '/' then parseWasiHttpOutboundCidr cs
      else parseWasiHttpOutboundHostOrPort cs := by
  refine parse_ofList hne (fun c hc => ?_) ?_
  · rcases hmem c hc with hc | hc | hc
    · exact htext.visible c hc
    · exact (hmarks c hc).1
    · exact visible_decimal hc
  · exact notMem_parts hmem htext.wildcard (fun h => (hmarks _ h).2 rfl) (by decide)

end Parts

/-- Parsing a text that is not bracketed. -/
theorem parseHostOrPort_plain {cs : List Char} (hbracket : cs.head? ≠ some '[')
    (hcount : cs.count ':' ≤ 1) : parseWasiHttpOutboundHostOrPort cs = parsePlain cs := by
  rw [parseWasiHttpOutboundHostOrPort, stripPrefixChar_eq_none hbracket]
  exact if_neg (Nat.not_lt.mpr hcount)

theorem parse_render_host {name : List Char}
    (h : normalizeWasiHttpOutboundHost name = some name) :
    parse (ofList name) = .ok (.host (ofList name)) := by
  obtain ⟨htext, hkind⟩ := normalizeHost_eq_some h
  rw [parse_ofList htext.ne_nil htext.visible htext.wildcard,
    if_neg (mt List.contains_iff_mem.mp htext.slash)]
  have hplain : ':' ∉ name →
      parseWasiHttpOutboundHostOrPort name = .ok (.host (ofList name)) := by
    intro hcolon
    rw [parseHostOrPort_plain htext.bracket (by rw [List.count_eq_zero.mpr hcolon]; decide),
      parsePlain, rsplitOnceChars_of_notMem hcolon, Option.filter_none, h]
  rcases hkind with ⟨ip, rfl⟩ | ⟨hcolon, -, -⟩
  · cases ip with
    | v4 a => exact hplain a.colon_notMem_display
    | v6 a =>
      -- the branch for several colons
      rw [parseWasiHttpOutboundHostOrPort, stripPrefixChar_eq_none htext.bracket]
      dsimp only
      rw [if_pos (show 1 < (IpAddr.v6 a).display.count ':' from a.one_lt_count_colon),
        parseIpAddr_display]
  · exact hplain hcolon

/-- A host and a port, as the text is written for a name or an IPv4 address. -/
theorem parse_render_plain {name : List Char} (h : normalizeWasiHttpOutboundHost name = some name)
    (hcolon : ':' ∉ name) (hpos : 0 < port) (hport : port ≤ 65535) :
    parse (ofList (name ++ ':' :: decimal port)) =
      .ok (.hostPort (ofList name) port) := by
  obtain ⟨htext, -⟩ := normalizeHost_eq_some h
  have hcolons : ':' ∉ decimal port := notMem_decimal (by decide) port
  have hbracket : (name ++ ':' :: decimal port).head? ≠ some '[' := by
    rw [List.head?_append_of_ne_nil _ htext.ne_nil]
    exact htext.bracket
  have hmem : ∀ c ∈ name ++ ':' :: decimal port, c ∈ name ∨ c ∈ [':'] ∨ c ∈ decimal port := by
    simp
  have hslash := notMem_parts hmem htext.slash (by decide) (by decide)
  rw [parse_parts htext hmem (by simp) (by simp [isWhitespace]),
    if_neg (mt List.contains_iff_mem.mp hslash),
    parseHostOrPort_plain hbracket ?count, parsePlain, rsplitOnceChars_append hcolons,
    Option.filter_some, if_pos (List.all_eq_true.mpr fun c hc => isDigit_of_mem_decimal hc)]
  · dsimp only
    rw [h]
    dsimp only
    rw [parsePort_decimal hpos hport]
    rfl
  case count =>
    rw [List.count_append, List.count_cons_self, List.count_eq_zero.mpr hcolon,
      List.count_eq_zero.mpr hcolons]

/-- A host and a port, as the text is written for an IPv6 address. -/
theorem parse_render_bracketed (a : Ipv6Addr) (hpos : 0 < port) (hport : port ≤ 65535) :
    parse (ofList ('[' :: a.display ++ [']', ':'] ++ decimal port)) =
      .ok (.hostPort (ofList a.display) port) := by
  have htext : HostText a.display := .display (.v6 a)
  have hclose : ']' ∉ a.display := fun h =>
    not_addrChar (by decide) (by decide) (by decide) ((IpAddr.v6 a).addrChar_display h)
  have hmem : ∀ c ∈ '[' :: a.display ++ [']', ':'] ++ decimal port,
      c ∈ a.display ∨ c ∈ ['[', ']', ':'] ∨ c ∈ decimal port := by
    intro c hc
    simp only [List.cons_append, List.mem_cons, List.mem_append, List.not_mem_nil, or_false] at hc ⊢
    tauto
  have hslash := notMem_parts hmem htext.slash (by decide) (by decide)
  rw [parse_parts htext hmem (by simp) (by simp [isWhitespace]),
    if_neg (mt List.contains_iff_mem.mp hslash),
    parseWasiHttpOutboundHostOrPort, List.cons_append, List.cons_append, stripPrefixChar_self]
  dsimp only
  rw [parseBracketed, List.append_assoc, List.cons_append, List.cons_append, List.nil_append,
    splitOnceChars_append hclose]
  dsimp only
  rw [parseIpv6Addr_display]
  dsimp only
  rw [if_neg (by simp), stripPrefixChar_self]
  dsimp only
  rw [parsePort_decimal hpos hport]
  rfl

theorem parse_render_cidr {network : IpAddr} {prefixLen : Nat} (hle : prefixLen ≤ network.maxPrefix)
    (hmasked : network.masked prefixLen = network) :
    parse (ofList (network.display ++ '/' :: decimal prefixLen)) =
      .ok (.cidr network prefixLen) := by
  have htext : HostText network.display := .display network
  have hmem : ∀ c ∈ network.display ++ '/' :: decimal prefixLen,
      c ∈ network.display ∨ c ∈ ['/'] ∨ c ∈ decimal prefixLen := by
    simp
  have hmax : prefixLen ≤ 255 := Nat.le_trans hle (Nat.le_trans network.maxPrefix_le (by decide))
  have hne : decimal prefixLen ≠ [] := by
    rw [decimal_eq_toDigits]
    exact Nat.toDigits_ne_nil
  rw [parse_parts htext hmem (by simp) (by simp [isWhitespace]),
    if_pos (by simp), parseWasiHttpOutboundCidr,
    splitOnceChars_append htext.slash]
  dsimp only
  rw [if_neg ?parts, parseIpAddr_display]
  · dsimp only
    rw [parseUnsigned_decimal hmax]
    dsimp only
    rw [if_neg (Nat.not_lt.mpr hle), cidrNetworkIp, hmasked]
  case parts =>
    simp [htext.ne_nil, hne, notMem_decimal]

/-- **The text of a well-formed rule is parsed to this rule.** -/
theorem parse_render (h : r.WellFormed) : parse (ofList r.render) = .ok r := by
  cases r with
  | host name =>
    have hparse := parse_render_host h
    rw [ofList_toList] at hparse
    rw [render, ofList_toList, hparse]
  | hostPort name port =>
    have hname : normalizeWasiHttpOutboundHost name.toList = some name.toList := h.1
    have hpos : 0 < port := h.2.1
    have hport : port ≤ 65535 := h.2.2
    rw [render]
    obtain ⟨-, ⟨ip, hip⟩ | ⟨hcolon, -, -⟩⟩ := normalizeHost_eq_some hname
    · cases ip with
      | v4 a =>
        have hcolon : ':' ∉ name.toList := hip ▸ a.colon_notMem_display
        rw [if_neg (mt List.contains_iff_mem.mp hcolon), parse_render_plain hname hcolon hpos hport,
          ofList_toList]
      | v6 a =>
        have hip : name.toList = a.display := hip
        rw [hip, if_pos (List.contains_iff_mem.mpr a.colon_mem_display),
          parse_render_bracketed a hpos hport, ← hip, ofList_toList]
    · rw [if_neg (mt List.contains_iff_mem.mp hcolon), parse_render_plain hname hcolon hpos hport,
        ofList_toList]
  | cidr network prefixLen => exact parse_render_cidr h.1 h.2

end WasiHttpOutboundRule

/-! ### The CLI and the daemon -/

namespace Build

theorem toOption_normalizeHost (raw : List Char) (fieldName : String) :
    (normalizeWasiHttpOutboundHost raw fieldName).toOption =
      WasiHttpOutboundRule.normalizeWasiHttpOutboundHost raw := by
  unfold normalizeWasiHttpOutboundHost WasiHttpOutboundRule.normalizeWasiHttpOutboundHost
  generalize trimChars raw = host
  dsimp only
  -- the checks are the same ones in another order
  rcases host.isEmpty with - | -
  · rcases host.contains '*' with - | -
    · rcases host.contains '/' with - | -
      · rcases host.contains '\\' with - | -
        · rcases host.any isWhitespace with - | -
          · rcases (host.head? == some '[' || host.getLast? == some ']') with - | -
            · rcases parseIpAddr host with - | ip
              · rcases host.contains ':' with - | - <;> rfl
              · rfl
            · rfl
          · rfl
        · rfl
      · rfl
    · rfl
  · rfl

theorem toOption_parsePort (text : List Char) (fieldName : String) :
    (parseWasiHttpOutboundPort text fieldName).toOption =
      (WasiHttpOutboundRule.parseWasiHttpOutboundPort text).toOption := by
  unfold parseWasiHttpOutboundPort WasiHttpOutboundRule.parseWasiHttpOutboundPort
  rcases parseUnsigned 65535 text with err | port
  · rfl
  · dsimp only
    split <;> rfl

end Build

theorem toOption_bind {α β : Type} (x : Except String α) (f : α → Except String β) :
    (x >>= f).toOption = x.toOption.bind fun a => (f a).toOption := by
  cases x <;> rfl

open WasiHttpOutboundRule in
theorem toOption_normalizeCidr (value : List Char) (fieldName : String) :
    (Build.normalizeWasiHttpOutboundCidr value fieldName).toOption =
      (parseWasiHttpOutboundCidr value).toOption.map render := by
  unfold Build.normalizeWasiHttpOutboundCidr parseWasiHttpOutboundCidr
  rcases splitOnceChars '/' value with - | ⟨ipText, prefixText⟩
  · rfl
  · dsimp only
    split
    · rfl
    · rcases parseIpAddr ipText with - | ip
      · rfl
      · rcases parseUnsigned 255 prefixText with err | prefixLen
        · rfl
        · dsimp only
          split <;> rfl

open WasiHttpOutboundRule in
theorem toOption_normalizeBracketed (value rest : List Char) (fieldName : String) :
    (Build.normalizeBracketed value rest fieldName).toOption =
      (parseBracketed value rest).toOption.map render := by
  unfold Build.normalizeBracketed parseBracketed
  rcases splitOnceChars ']' rest with - | ⟨hostText, rest⟩
  · rfl
  · dsimp only
    rcases parseIpv6Addr hostText with - | a
    · rfl
    · dsimp only
      split
      · exact congrArg some (String.toList_ofList).symm
      · rcases stripPrefixChar ':' rest with - | portText
        · rfl
        · dsimp only
          rw [toOption_bind, toOption_bind, Build.toOption_parsePort]
          rcases WasiHttpOutboundRule.parseWasiHttpOutboundPort portText with err | port
          · rfl
          · show some _ = some (render (.hostPort (ofList a.display) port))
            rw [render, String.toList_ofList,
              if_pos (List.contains_iff_mem.mpr a.colon_mem_display)]

open WasiHttpOutboundRule in
theorem toOption_normalizePlain (value : List Char) (fieldName : String) :
    (Build.normalizePlain value fieldName).toOption = (parsePlain value).toOption.map render := by
  unfold Build.normalizePlain parsePlain
  generalize (rsplitOnceChars ':' value).filter _ = parts
  rcases parts with - | ⟨hostText, portText⟩
  · show (Build.normalizeWasiHttpOutboundHost value fieldName).toOption = _
    rw [Build.toOption_normalizeHost]
    rcases WasiHttpOutboundRule.normalizeWasiHttpOutboundHost value with - | name
    · rfl
    · exact congrArg some (String.toList_ofList).symm
  · dsimp only
    rw [toOption_bind, Build.toOption_normalizeHost]
    rcases WasiHttpOutboundRule.normalizeWasiHttpOutboundHost hostText with - | name
    · rfl
    · dsimp only [Option.bind_some]
      rw [toOption_bind, toOption_bind, Build.toOption_parsePort]
      rcases WasiHttpOutboundRule.parseWasiHttpOutboundPort portText with err | port
      · rfl
      · show (Except.toOption (if name.contains ':' then _ else _)) =
          some (render (.hostPort (ofList name) port))
        rw [render, String.toList_ofList]
        split <;> rfl

open WasiHttpOutboundRule in
/-- **The CLI returns the text of the rule that the daemon parses.** -/
theorem toOption_normalizeRule (raw fieldName : String) :
    (Build.normalizeWasiHttpOutboundRule raw fieldName).toOption =
      (parse raw).toOption.map fun r => ofList r.render := by
  have hmap : ∀ x : Except String (List Char), (x.map ofList).toOption =
      x.toOption.map ofList := by
    rintro (- | -) <;> rfl
  unfold Build.normalizeWasiHttpOutboundRule parse
  generalize trimChars raw.toList = value
  dsimp only
  split_ifs
  · rfl
  · rfl
  · rfl
  · rw [hmap, toOption_normalizeCidr, Option.map_map]
    rfl
  · rw [hmap, Build.normalizeWasiHttpOutboundHostOrHostPort, parseWasiHttpOutboundHostOrPort]
    rcases stripPrefixChar '[' value with - | rest
    · dsimp only
      split
      · rcases parseIpAddr value with - | ip
        · rfl
        · exact congrArg some (congrArg ofList (String.toList_ofList).symm)
      · rw [toOption_normalizePlain, Option.map_map]
        rfl
    · rw [toOption_normalizeBracketed, Option.map_map]
      rfl

theorem toOption_eq_some_iff {ε α : Type} {x : Except ε α} {a : α} :
    x.toOption = some a ↔ x = .ok a := by
  cases x with
  | error e => exact ⟨nofun, nofun⟩
  | ok b => exact ⟨fun h => congrArg _ (Option.some.inj h), fun h => congrArg _ (Except.ok.inj h)⟩

theorem normalizeRule_eq_ok_iff {raw fieldName n : String} :
    Build.normalizeWasiHttpOutboundRule raw fieldName = .ok n ↔
      ∃ r, WasiHttpOutboundRule.parse raw = .ok r ∧ ofList r.render = n := by
  rw [← toOption_eq_some_iff, toOption_normalizeRule, Option.map_eq_some_iff]
  simp only [toOption_eq_some_iff]

/-- **A rule means the same to the CLI and to the daemon.**  For every text the
CLI normalizes it exactly if the daemon parses it.  Then the daemon parses the
normalized text to the same rule, which is valid, and normalizing once more
changes nothing. -/
theorem outbound_rule_agreement (raw fieldName : String) :
    ((∃ n, Build.normalizeWasiHttpOutboundRule raw fieldName = .ok n) ↔
      ∃ r, WasiHttpOutboundRule.parse raw = .ok r) ∧
    (∀ n, Build.normalizeWasiHttpOutboundRule raw fieldName = .ok n →
      WasiHttpOutboundRule.parse n = WasiHttpOutboundRule.parse raw ∧
      Build.normalizeWasiHttpOutboundRule n fieldName = .ok n) ∧
    ∀ r, WasiHttpOutboundRule.parse raw = .ok r → r.validate = .ok () := by
  refine ⟨⟨?_, ?_⟩, ?_, ?_⟩
  · rintro ⟨n, hn⟩
    obtain ⟨r, hr, -⟩ := normalizeRule_eq_ok_iff.mp hn
    exact ⟨r, hr⟩
  · rintro ⟨r, hr⟩
    exact ⟨_, normalizeRule_eq_ok_iff.mpr ⟨r, hr, rfl⟩⟩
  · intro n hn
    obtain ⟨r, hr, rfl⟩ := normalizeRule_eq_ok_iff.mp hn
    have hrender := WasiHttpOutboundRule.parse_render (WasiHttpOutboundRule.wellFormed_of_parse hr)
    exact ⟨hrender.trans hr.symm, normalizeRule_eq_ok_iff.mpr ⟨r, hrender, rfl⟩⟩
  · intro r hr
    exact (WasiHttpOutboundRule.wellFormed_of_parse hr).validate

/-- A host in capitals with a port. -/
theorem outbound_rule_agreement_name :
    ∃ n r, Build.normalizeWasiHttpOutboundRule " API:0443 " "rules[0]" = .ok n ∧
      WasiHttpOutboundRule.parse n = .ok r ∧ r.validate = .ok () ∧
      Build.normalizeWasiHttpOutboundRule n "rules[0]" = .ok n := by
  obtain ⟨-, hsame, hvalid⟩ := outbound_rule_agreement " API:0443 " "rules[0]"
  have hnormalize : Build.normalizeWasiHttpOutboundRule " API:0443 " "rules[0]" =
      .ok "api:443" := by
    rfl
  have hparse : WasiHttpOutboundRule.parse " API:0443 " = .ok (.hostPort "api" 443) := by
    rfl
  obtain ⟨hn, hidem⟩ := hsame _ hnormalize
  exact ⟨_, _, hnormalize, hn.trans hparse, hvalid _ hparse, hidem⟩

end Imago
