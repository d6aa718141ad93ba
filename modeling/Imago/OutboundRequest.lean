/-
Imago/OutboundRequest.lean

Outgoing requests of a component: which ones the runtime lets through, and where
it connects to.

`WasiHttpOutboundHooks::send_request` takes host and port from the authority of
the URI and asks the rules.  `send_outgoing_request` then makes its own text of
the authority for `TcpStream::connect`.  What a rule, an authority and a text for
`connect` are about is a `Target`: an address or a name (`covers`,
`Authority.target`, `connectTarget`).

The host of an IPv6 literal still has its brackets when the rules are asked, and
no rule matches such a text; so a request to a permitted IPv6 address is refused
(`request_right_iff`).
-/
import Imago.OutboundRule

namespace Imago

/-! ### The rules -/

namespace WasiHttpOutboundRule

/-- `ip_in_cidr`. -/
def ipInCidr (ip network : IpAddr) (prefixLen : Nat) : Bool :=
  match ip, network with
  | .v4 ip, .v4 net => ip.bits &&& prefixMask 32 prefixLen == net.bits &&& prefixMask 32 prefixLen
  | .v6 ip, .v6 net => ip.bits &&& prefixMask 128 prefixLen == net.bits &&& prefixMask 128 prefixLen
  | _, _ => false

/-- `str::eq_ignore_ascii_case`. -/
def eqIgnoreAsciiCase (a b : List Char) : Bool := a.map Char.toLower == b.map Char.toLower

/-- `WasiHttpOutboundRule::matches_authority`. -/
def matchesAuthority (rule : WasiHttpOutboundRule) (requestHost : List Char) (requestPort : Nat) :
    Bool :=
  let normalizedRequestHost := normalizeWasiHttpOutboundHost requestHost
  let requestIp := parseIpAddr requestHost
  match rule with
  | .host name =>
    match normalizedRequestHost with
    | some v => eqIgnoreAsciiCase v name.toList
    | none => false
  | .hostPort name port =>
    if port ≠ requestPort then false
    else
      match normalizedRequestHost with
      | some v => eqIgnoreAsciiCase v name.toList
      | none => false
  | .cidr network prefixLen =>
    match requestIp with
    | some ip => ipInCidr ip network prefixLen
    | none => false

end WasiHttpOutboundRule

/-- `is_http_outbound_allowed`. -/
def isHttpOutboundAllowed (rules : List WasiHttpOutboundRule) (requestHost : List Char)
    (requestPort : Nat) : Bool :=
  rules.any fun rule => rule.matchesAuthority requestHost requestPort

/-! ### Authorities -/

/-- The characters of a host name or a port in an authority: letters, digits and
the marks that RFC 3986 allows. -/
def authorityChar (c : Char) : Bool := c.isAlphanum || "-._~!$&'()*+,;=".toList.contains c

/-- The host of an authority. -/
inductive AuthorityHost where
  | name (text : List Char) (ne_nil : text ≠ []) (chars : text.all authorityChar)
      (not_ip : parseIpAddr text = none)
  | ipv4 (text : List Char) (a : Ipv4Addr) (parse : parseIpAddr text = some (.v4 a))
  | ipv6 (text : List Char) (a : Ipv6Addr) (parse : parseIpv6Addr text = some a)

/-- The authority of a URI, without user information.  What follows the colon need
not be the number of a port. -/
structure Authority where
  host : AuthorityHost
  port : Option (List Char)
  port_chars : ∀ text, port = some text → text.all authorityChar

namespace Authority

/-- `Authority::host`: an IPv6 literal has its brackets. -/
def hostText (a : Authority) : List Char :=
  match a.host with
  | .name text _ _ _ => text
  | .ipv4 text _ _ => text
  | .ipv6 text _ _ => '[' :: text ++ [']']

/-- `Authority::as_str`. -/
def asStr (a : Authority) : List Char :=
  match a.port with
  | none => a.hostText
  | some text => a.hostText ++ ':' :: text

/-- `Authority::port_u16`: the text behind the last colon, if it is a number. -/
def portU16 (a : Authority) : Option Nat :=
  (rsplitOnceChars ':' a.asStr).bind fun parts => (parseUnsigned 65535 parts.2).toOption

end Authority

/-! ### The runtime -/

/-- The errors of `send_request`. -/
inductive WasiHttpErrorCode where
  | httpRequestUriInvalid
  | httpRequestDenied
  deriving DecidableEq

def defaultPort (useTls : Bool) : Nat := if useTls then 443 else 80

/-- What `send_outgoing_request` passes to `TcpStream::connect`. -/
def connectAuthority (authority : Authority) (useTls : Bool) : List Char :=
  let host := authority.hostText
  if authority.portU16.isSome then authority.asStr
  else
    let port := defaultPort useTls
    if host.contains ':' then '[' :: host ++ [']', ':'] ++ decimal port
    else host ++ ':' :: decimal port

/-- `WasiHttpOutboundHooks::send_request`: the text that the spawned task connects
to. -/
def sendRequest (rules : List WasiHttpOutboundRule) (authority : Option Authority) (useTls : Bool) :
    Except WasiHttpErrorCode (List Char) :=
  match authority with
  | none => .error .httpRequestUriInvalid
  | some authority =>
    let requestHost := authority.hostText
    let requestPort := authority.portU16.getD (defaultPort useTls)
    if isHttpOutboundAllowed rules requestHost requestPort then
      .ok (connectAuthority authority useTls)
    else .error .httpRequestDenied

/-! ### What the texts are about -/

/-- An address, or a name in lower case. -/
inductive Target where
  | ip (ip : IpAddr)
  | name (name : List Char)
  deriving DecidableEq

/-- The target of a host without brackets. -/
def hostTarget (text : List Char) : Target :=
  match parseIpAddr text with
  | some ip => .ip ip
  | none => .name (text.map Char.toLower)

def Authority.target (a : Authority) : Target :=
  match a.host with
  | .name text _ _ _ => .name (text.map Char.toLower)
  | .ipv4 _ ip _ => .ip (.v4 ip)
  | .ipv6 _ ip _ => .ip (.v6 ip)

/-- The port that is given, or the one of the scheme. -/
def Authority.effectivePort (a : Authority) (useTls : Bool) : Nat :=
  ((a.port.bind fun text => (parseUnsigned 65535 text).toOption)).getD (defaultPort useTls)

/-- The address agrees with the network in the bits of the prefix. -/
def ContainedIn (ip network : IpAddr) (prefixLen : Nat) : Prop :=
  match ip, network with
  | .v4 ip, .v4 net => ip.bits / 2 ^ (32 - prefixLen) = net.bits / 2 ^ (32 - prefixLen)
  | .v6 ip, .v6 net => ip.bits / 2 ^ (128 - prefixLen) = net.bits / 2 ^ (128 - prefixLen)
  | _, _ => False

/-- A rule covers a target and a port. -/
def WasiHttpOutboundRule.covers (rule : WasiHttpOutboundRule) (target : Target)
    (port : Nat) : Prop :=
  match rule with
  | .host name => hostTarget name.toList = target
  | .hostPort name p => hostTarget name.toList = target ∧ p = port
  | .cidr network prefixLen => ∃ ip, target = .ip ip ∧ ContainedIn ip network prefixLen

/-- How `TcpStream::connect` takes a text: `[ipv6]:port` or `host:port`. -/
def connectTarget (text : List Char) : Option (Target × Nat) :=
  match stripPrefixChar '[' text with
  | some rest =>
    (splitOnceChars ']' rest).bind fun parts =>
      (parseIpv6Addr parts.1).bind fun ip =>
        (stripPrefixChar ':' parts.2).bind fun port =>
          ((parseUnsigned 65535 port).toOption).map fun port => (.ip (.v6 ip), port)
  | none =>
    (rsplitOnceChars ':' text).bind fun parts =>
      if parts.1.contains ':' then none
      else ((parseUnsigned 65535 parts.2).toOption).map fun port => (hostTarget parts.1, port)

/-! ### Prefixes -/

/-- Masking keeps the bits of the prefix. -/
theorem and_prefixMask {width prefixLen n : Nat} (hn : n < 2 ^ width) :
    n &&& prefixMask width prefixLen =
      (n / 2 ^ (width - prefixLen)) <<< (width - prefixLen) := by
  rw [prefixMask]
  split
  · rename_i hzero
    rw [hzero, Nat.sub_zero, Nat.div_eq_of_lt hn, Nat.and_zero, Nat.zero_shiftLeft]
  · rename_i hpos
    refine Nat.eq_of_testBit_eq fun i => ?_
    simp only [Nat.testBit_and, Nat.testBit_mod_two_pow, Nat.testBit_shiftLeft,
      Nat.testBit_two_pow_sub_one, Nat.testBit_div_two_pow]
    by_cases hi : width - prefixLen ≤ i
    · by_cases hw : i < width
      · rw [Nat.sub_add_cancel hi]
        simp [hi, hw, show i - (width - prefixLen) < width by omega]
      · have hbit : n.testBit i = false :=
          Nat.testBit_lt_two_pow (Nat.lt_of_lt_of_le hn
            (Nat.pow_le_pow_right (by decide) (by omega)))
        rw [Nat.sub_add_cancel hi]
        simp [hw, hbit]
    · simp [hi]

theorem and_prefixMask_eq_iff {width prefixLen m n : Nat} (hm : m < 2 ^ width)
    (hn : n < 2 ^ width) : m &&& prefixMask width prefixLen = n &&& prefixMask width prefixLen ↔
      m / 2 ^ (width - prefixLen) = n / 2 ^ (width - prefixLen) := by
  rw [and_prefixMask hm, and_prefixMask hn, Nat.shiftLeft_eq, Nat.shiftLeft_eq]
  exact Nat.mul_left_inj (Nat.ne_of_gt (Nat.two_pow_pos _))

theorem WasiHttpOutboundRule.ipInCidr_iff (ip network : IpAddr) (prefixLen : Nat) :
    ipInCidr ip network prefixLen = true ↔ ContainedIn ip network prefixLen := by
  cases ip with
  | v4 ip =>
    cases network with
    | v4 net => exact beq_iff_eq.trans (and_prefixMask_eq_iff ip.bits_lt net.bits_lt)
    | v6 net => exact ⟨nofun, nofun⟩
  | v6 ip =>
    cases network with
    | v4 net => exact ⟨nofun, nofun⟩
    | v6 net => exact beq_iff_eq.trans (and_prefixMask_eq_iff ip.bits_lt net.bits_lt)

/-! ### Ports -/

variable {cs : List Char}

theorem rsplitOnceChars_eq_some {c : Char} {xs ys : List Char}
    (h : rsplitOnceChars c cs = some (xs, ys)) : cs = xs ++ c :: ys := by
  obtain ⟨⟨as, bs⟩, hsplit, heq⟩ := Option.map_eq_some_iff.mp h
  cases heq
  have hcs := congrArg List.reverse (splitOnceChars_eq_some hsplit)
  rw [List.reverse_reverse, List.reverse_append, List.reverse_cons, List.append_assoc] at hcs
  exact hcs

/-- The characters of a number. -/
theorem toDigit_of_parseDigits {max result n : Nat} (h : parseDigits max result cs = .ok n) :
    ∀ c ∈ cs, ∃ d, toDigit 10 c = some d := by
  induction cs generalizing result with
  | nil => nofun
  | cons c cs ih =>
    rw [parseDigits] at h
    split at h
    · cases h
    · rename_i d hd
      split at h
      · cases h
      · intro x hx
        rcases List.mem_cons.mp hx with rfl | hx
        · exact ⟨d, hd⟩
        · exact ih h x hx

theorem char_of_parseUnsigned {max n : Nat} (h : parseUnsigned max cs = .ok n) :
    ∀ c ∈ cs, c = '+' ∨ ∃ d, toDigit 10 c = some d := by
  unfold parseUnsigned at h
  split at h
  · cases h
  · cases h
  · intro c hc
    rcases List.mem_cons.mp hc with rfl | hc
    · exact .inl rfl
    · exact .inr (toDigit_of_parseDigits h c hc)
  · intro c hc
    exact .inr (toDigit_of_parseDigits h c hc)

variable {text : List Char}

theorem notMem_of_all {c : Char} (hc : authorityChar c = false) (h : text.all authorityChar) :
    c ∉ text := by
  intro hmem
  rw [List.all_eq_true.mp h c hmem] at hc
  cases hc

theorem visible_of_all (h : text.all authorityChar) : ∀ c ∈ text, isWhitespace c = false := by
  intro c hc
  have hmarks :
      "-._~!$&'()*+,;=".toList.all (fun c => 33 ≤ c.toNat ∧ c.toNat ≤ 126) = true := by decide
  have hvisible : 33 ≤ c.toNat ∧ c.toNat ≤ 126 := by
    rcases (Bool.or_eq_true _ _).mp (List.all_eq_true.mp h c hc) with halpha | hmark
    · unfold Char.isAlphanum Char.isAlpha Char.isUpper Char.isLower Char.isDigit at halpha
      simp only [Bool.or_eq_true, Bool.and_eq_true, decide_eq_true_eq, ge_iff_le,
        UInt32.le_iff_toNat_le] at halpha
      have hval : c.val.toNat = c.toNat := rfl
      simp at halpha
      omega
    · exact of_decide_eq_true (List.all_eq_true.mp hmarks c (List.contains_iff_mem.mp hmark))
  exact isWhitespace_of_visible hvisible.1 hvisible.2

/-- The host is asked for without brackets, and it has no wildcard in it. -/
def Authority.Plain (a : Authority) : Prop :=
  match a.host with
  | .name text _ _ _ => '*' ∉ text
  | .ipv4 _ _ _ => True
  | .ipv6 _ _ _ => False

/-- The characters of a host without brackets. -/
theorem Authority.hostText_cases (a : Authority) :
    (':' ∉ a.hostText ∧ a.hostText.head? ≠ some '[' ∧ hostTarget a.hostText = a.target) ∨
      ∃ text, a.hostText = '[' :: text ++ [']'] ∧ ¬a.Plain := by
  unfold Authority.hostText Authority.target Authority.Plain
  rcases a.host with ⟨text, -, hchars, hip⟩ | ⟨text, ip, hip⟩ | ⟨text, ip, -⟩
  · refine .inl ⟨notMem_of_all (by decide) hchars, fun hhead => ?_, ?_⟩
    · exact notMem_of_all (by decide) hchars (List.mem_of_mem_head? hhead)
    · rw [hostTarget, hip]
  · refine .inl ⟨?_, ?_, ?_⟩
    · show ':' ∉ text
      rw [display_of_parseIpAddr_v4 hip]
      exact ip.colon_notMem_display
    · show text.head? ≠ some '['
      rw [display_of_parseIpAddr_v4 hip]
      exact (HostText.display (.v4 ip)).bracket
    · rw [hostTarget, hip]
  · exact .inr ⟨text, rfl, id⟩

/-- The port of the authority is the text behind the host, if it is a number. -/
theorem Authority.portU16_eq (a : Authority) :
    a.portU16 = a.port.bind fun text => (parseUnsigned 65535 text).toOption := by
  rw [Authority.portU16, Authority.asStr]
  rcases hport : a.port with - | text
  · show ((rsplitOnceChars ':' a.hostText).bind _) = none
    rcases a.hostText_cases with ⟨hcolon, -, -⟩ | ⟨text, htext, -⟩
    · rw [rsplitOnceChars_of_notMem hcolon, Option.bind_none]
    · -- what stands behind the last colon ends in a bracket
      rcases hsplit : rsplitOnceChars ':' a.hostText with - | ⟨xs, ys⟩
      · rfl
      · have hcs := rsplitOnceChars_eq_some hsplit
        rw [htext] at hcs
        have hlast := congrArg List.getLast? hcs
        rw [List.getLast?_concat, List.getLast?_append_cons] at hlast
        have hmem : ']' ∈ ys := by
          rcases List.mem_cons.mp (List.mem_of_getLast? hlast.symm) with h | h
          · cases h
          · exact h
        rw [Option.bind_some]
        rcases hparse : parseUnsigned 65535 ys with e | n
        · rfl
        · rcases char_of_parseUnsigned hparse _ hmem with h | ⟨d, h⟩
          · cases h
          · cases h
  · show ((rsplitOnceChars ':' (a.hostText ++ ':' :: text)).bind _) = _
    rw [rsplitOnceChars_append (notMem_of_all (by decide) (a.port_chars text hport)),
      Option.bind_some, Option.bind_some]

theorem Authority.portU16_getD (a : Authority) (useTls : Bool) :
    a.portU16.getD (defaultPort useTls) = a.effectivePort useTls := by
  rw [a.portU16_eq, Authority.effectivePort]

/-! ### Matching -/

section Matching

variable {text : List Char} {name : String}

/-- A name is matched by the same name in any case. -/
theorem eqIgnoreAsciiCase_name (hip : parseIpAddr text = none) :
    WasiHttpOutboundRule.eqIgnoreAsciiCase (text.map Char.toLower) name.toList = true ↔
      hostTarget name.toList = .name (text.map Char.toLower) := by
  rw [WasiHttpOutboundRule.eqIgnoreAsciiCase, beq_iff_eq, map_toLower_idem]
  constructor
  · intro h
    have hname : parseIpAddr name.toList = none := by
      rw [← parseIpAddr_map_toLower, ← h, parseIpAddr_map_toLower, hip]
    rw [hostTarget, hname, h]
  · intro h
    unfold hostTarget at h
    split at h
    · cases h
    · exact (Target.name.inj h).symm

/-- An IPv4 address is matched by its one text. -/
theorem eqIgnoreAsciiCase_ipv4 (a : Ipv4Addr) :
    WasiHttpOutboundRule.eqIgnoreAsciiCase a.display name.toList = true ↔
      hostTarget name.toList = .ip (.v4 a) := by
  rw [WasiHttpOutboundRule.eqIgnoreAsciiCase, beq_iff_eq]
  constructor
  · intro h
    have hname : parseIpAddr name.toList = some (.v4 a) := by
      rw [← parseIpAddr_map_toLower, ← h, parseIpAddr_map_toLower]
      exact parseIpAddr_display (.v4 a)
    rw [hostTarget, hname]
  · intro h
    unfold hostTarget at h
    split at h
    · rename_i ip hip
      rw [Target.ip.inj h] at hip
      rw [display_of_parseIpAddr_v4 hip]
    · cases h

end Matching

namespace WasiHttpOutboundRule

/-- A rule matches a host that is normalized if it covers what the host is about. -/
theorem matchesAuthority_iff {rule : WasiHttpOutboundRule} {v : List Char} {target : Target}
    (hv : normalizeWasiHttpOutboundHost text = some v)
    (heq : ∀ name : String, eqIgnoreAsciiCase v name.toList = true ↔
      hostTarget name.toList = target)
    (hip : ∀ ip, parseIpAddr text = some ip ↔ target = .ip ip) (port : Nat) :
    rule.matchesAuthority text port = true ↔ rule.covers target port := by
  cases rule with
  | host name =>
    rw [matchesAuthority, hv]
    exact heq name
  | hostPort name p =>
    rw [matchesAuthority, hv, covers]
    by_cases hp : p = port
    · dsimp only
      rw [if_neg (not_not.mpr hp), heq name]
      exact ⟨fun h => ⟨h, hp⟩, And.left⟩
    · dsimp only
      rw [if_pos hp]
      exact ⟨nofun, fun h => absurd h.2 hp⟩
  | cidr network prefixLen =>
    rw [matchesAuthority, covers]
    rcases hparse : parseIpAddr text with - | ip
    · refine ⟨nofun, ?_⟩
      rintro ⟨ip, htarget, -⟩
      rw [(hip ip).mpr htarget] at hparse
      cases hparse
    · refine (ipInCidr_iff ip network prefixLen).trans ⟨fun h => ⟨ip, (hip ip).mp hparse, h⟩, ?_⟩
      rintro ⟨ip', htarget, h⟩
      rw [(hip ip').mpr htarget] at hparse
      cases hparse
      exact h

/-- Trimming leaves a visible first character. -/
theorem head?_trimChars {c : Char} (hc : isWhitespace c = false) (cs : List Char) :
    (trimChars (c :: cs)).head? = some c := by
  rw [trimChars, List.dropWhile_cons_of_neg (by rw [hc]; decide)]
  obtain ⟨rest, hrest⟩ := List.rdropWhile_prefix isWhitespace (c :: cs)
  rcases hkept : (c :: cs).rdropWhile isWhitespace with - | ⟨x, xs⟩
  · have := List.rdropWhile_eq_nil_iff.mp hkept c (.head _)
    rw [hc] at this
    cases this
  · rw [hkept] at hrest
    exact congrArg some (List.cons.inj hrest).1

/-- A bracketed host is not matched. -/
theorem matchesAuthority_bracketed (rule : WasiHttpOutboundRule) (text : List Char) (port : Nat) :
    rule.matchesAuthority ('[' :: text) port = false := by
  have hstops : Stops 10 ('[' :: text) := stops_cons (by decide) text
  have hgroups : readGroups 8 0 ('[' :: text) = ([], false, '[' :: text) := by
    rw [readGroups, readSeparator_zero, readSeparator_zero, readIpv4Addr_of_stops hstops,
      readNumber_of_stops (stops_cons (by decide) text)]
    rfl
  have hip : parseIpAddr ('[' :: text) = none := by
    rw [parseIpAddr, readIpv4Addr_of_stops hstops, parseIpv6Addr, readIpv6Addr, hgroups]
    rfl
  have hhost : normalizeWasiHttpOutboundHost ('[' :: text) = none := by
    rw [normalizeHost_eq, if_neg fun htext => htext.bracket (head?_trimChars (by decide) text)]
  cases rule with
  | host name => rw [matchesAuthority, hhost]
  | hostPort name p =>
    rw [matchesAuthority, hhost]
    split <;> rfl
  | cidr network prefixLen => rw [matchesAuthority, hip]

end WasiHttpOutboundRule

/-! ### Requests -/

theorem isHttpOutboundAllowed_iff {rules : List WasiHttpOutboundRule} {port : Nat} :
    isHttpOutboundAllowed rules text port = true ↔
      ∃ rule ∈ rules, rule.matchesAuthority text port = true :=
  List.any_eq_true

open WasiHttpOutboundRule in
/-- A plain host is matched by the rules that cover it. -/
theorem Authority.matches_iff_covers {a : Authority} (h : a.Plain) (rule : WasiHttpOutboundRule)
    (port : Nat) : rule.matchesAuthority a.hostText port = true ↔ rule.covers a.target port := by
  unfold Authority.Plain at h
  unfold Authority.hostText Authority.target
  rcases hhost : a.host with ⟨text, hne, hchars, hip⟩ | ⟨text, ip, hip⟩ | ⟨text, ip, hip⟩ <;>
    rw [hhost] at h
  · have htext : HostText text :=
      { ne_nil := hne
        visible := visible_of_all hchars
        wildcard := h
        slash := notMem_of_all (by decide) hchars
        backslash := notMem_of_all (by decide) hchars
        bracket := fun hhead => notMem_of_all (by decide) hchars (List.mem_of_mem_head? hhead)
        close := fun hlast => notMem_of_all (by decide) hchars (List.mem_of_getLast? hlast) }
    refine matchesAuthority_iff (v := text.map Char.toLower) ?_
      (fun name => eqIgnoreAsciiCase_name hip) (fun ip => ?_) port
    · rw [normalizeHost_of_hostText htext, hostOf, hip]
      exact if_neg (mt List.contains_iff_mem.mp (notMem_of_all (by decide) hchars))
    · rw [hip]
      constructor <;> intro h <;> cases h
  · have htext : text = ip.display := display_of_parseIpAddr_v4 hip
    refine matchesAuthority_iff (v := ip.display) ?_ (fun name => eqIgnoreAsciiCase_ipv4 ip)
      (fun ip' => ?_) port
    · show normalizeWasiHttpOutboundHost text = some ip.display
      rw [htext]
      exact normalizeHost_display (.v4 ip)
    · show parseIpAddr text = some ip' ↔ _
      rw [hip]
      exact ⟨fun h => congrArg Target.ip (Option.some.inj h),
        fun h => congrArg some (Target.ip.inj h)⟩
  · exact h.elim

variable {a : Authority}

/-- No rule matches another host. -/
theorem Authority.matches_of_not_plain (h : ¬a.Plain) (rule : WasiHttpOutboundRule) (port : Nat) :
    rule.matchesAuthority a.hostText port = false := by
  unfold Authority.Plain at h
  unfold Authority.hostText
  rcases hhost : a.host with ⟨text, hne, hchars, hip⟩ | ⟨text, ip, hip⟩ | ⟨text, ip, hip⟩ <;>
    rw [hhost] at h
  · have hnone : WasiHttpOutboundRule.normalizeWasiHttpOutboundHost text = none := by
      rw [WasiHttpOutboundRule.normalizeHost_eq, trimChars_eq_self (visible_of_all hchars),
        if_neg fun htext => h htext.wildcard]
    show rule.matchesAuthority text port = false
    cases rule with
    | host name => rw [WasiHttpOutboundRule.matchesAuthority, hnone]
    | hostPort name p =>
      rw [WasiHttpOutboundRule.matchesAuthority, hnone]
      split <;> rfl
    | cidr network prefixLen => rw [WasiHttpOutboundRule.matchesAuthority, hip]
  · exact absurd trivial h
  · exact rule.matchesAuthority_bracketed _ port

/-- The text for `connect` is about the host and the port. -/
theorem Authority.connectTarget_eq (h : a.Plain) (useTls : Bool) :
    connectTarget (connectAuthority a useTls) = some (a.target, a.effectivePort useTls) := by
  obtain ⟨hcolon, hbracket, htarget⟩ | ⟨-, -, hnot⟩ := a.hostText_cases
  · -- a host without colons, a colon and the number of a port
    have hconnect : ∀ port n, ':' ∉ port → parseUnsigned 65535 port = .ok n →
        connectTarget (a.hostText ++ ':' :: port) = some (a.target, n) := by
      intro port n hport hparse
      have hhead : (a.hostText ++ ':' :: port).head? ≠ some '[' := by
        rcases hhost : a.hostText with - | ⟨c, cs⟩
        · rintro ⟨⟩
        · rw [hhost] at hbracket
          exact hbracket
      rw [connectTarget, stripPrefixChar_eq_none hhead]
      dsimp only
      rw [rsplitOnceChars_append hport, Option.bind_some,
        if_neg (mt List.contains_iff_mem.mp hcolon), hparse, htarget]
      rfl
    rw [connectAuthority, a.portU16_eq, Authority.effectivePort]
    rcases hport : a.port.bind fun text => (parseUnsigned 65535 text).toOption with - | n
    · dsimp only [Option.isSome_none, Option.getD_none]
      rw [if_neg Bool.false_ne_true, if_neg (mt List.contains_iff_mem.mp hcolon)]
      refine hconnect _ _ (notMem_decimal (by decide) _) (parseUnsigned_decimal ?_)
      cases useTls <;> decide
    · obtain ⟨text, htext, hparse⟩ := Option.bind_eq_some_iff.mp hport
      dsimp only [Option.isSome_some, Option.getD_some]
      rw [if_pos rfl, Authority.asStr, htext]
      exact hconnect text n (notMem_of_all (by decide) (a.port_chars text htext))
        (toOption_eq_some_iff.mp hparse)
  · exact absurd h hnot

/-- What a request should come to: it is let through if a rule covers its host and
port, and then the connection is to this host and port. -/
def RequestRight (rules : List WasiHttpOutboundRule) (a : Authority) (useTls : Bool) : Prop :=
  ((∃ text, sendRequest rules (some a) useTls = .ok text) ↔
    ∃ rule ∈ rules, rule.covers a.target (a.effectivePort useTls)) ∧
  ∀ text, sendRequest rules (some a) useTls = .ok text →
    connectTarget text = some (a.target, a.effectivePort useTls)

theorem sendRequest_eq_ok {rules : List WasiHttpOutboundRule} {useTls : Bool} :
    sendRequest rules (some a) useTls = .ok text ↔
      isHttpOutboundAllowed rules a.hostText (a.effectivePort useTls) = true ∧
        connectAuthority a useTls = text := by
  show (if isHttpOutboundAllowed rules a.hostText (a.portU16.getD (defaultPort useTls)) then
    Except.ok (connectAuthority a useTls) else .error WasiHttpErrorCode.httpRequestDenied) = _ ↔ _
  rw [a.portU16_getD]
  split
  · rename_i hallowed
    exact ⟨fun h => ⟨hallowed, Except.ok.inj h⟩, fun h => congrArg _ h.2⟩
  · rename_i hdenied
    exact ⟨nofun, fun h => absurd h.1 hdenied⟩

/-- **A request comes out right unless a rule covers a host that no rule is
compared with properly.**  For all rules and every authority: the request is let
through exactly if a rule covers it, and then to its host and port, if and only if
no rule covers it or its host is a name without wildcard or an IPv4 address. -/
theorem request_right_iff (rules : List WasiHttpOutboundRule) (a : Authority) (useTls : Bool) :
    RequestRight rules a useTls ↔
      ¬(∃ rule ∈ rules, rule.covers a.target (a.effectivePort useTls)) ∨ a.Plain := by
  have hallowed : isHttpOutboundAllowed rules a.hostText (a.effectivePort useTls) = true →
      a.Plain ∧ ∃ rule ∈ rules, rule.covers a.target (a.effectivePort useTls) := by
    intro h
    obtain ⟨rule, hrule, hmatch⟩ := isHttpOutboundAllowed_iff.mp h
    have hplain : a.Plain := by
      by_contra hplain
      rw [Authority.matches_of_not_plain hplain] at hmatch
      cases hmatch
    exact ⟨hplain, rule, hrule, (a.matches_iff_covers hplain rule _).mp hmatch⟩
  constructor
  · rintro ⟨hiff, -⟩
    refine or_iff_not_imp_left.mpr fun hcovered => ?_
    obtain ⟨text, htext⟩ := hiff.mpr (not_not.mp hcovered)
    exact (hallowed (sendRequest_eq_ok.mp htext).1).1
  · intro hcond
    refine ⟨⟨?_, ?_⟩, ?_⟩
    · rintro ⟨text, htext⟩
      exact (hallowed (sendRequest_eq_ok.mp htext).1).2
    · rintro ⟨rule, hrule, hcovers⟩
      have hplain := hcond.resolve_left (not_not.mpr ⟨rule, hrule, hcovers⟩)
      exact ⟨_, sendRequest_eq_ok.mpr ⟨isHttpOutboundAllowed_iff.mpr
        ⟨rule, hrule, (a.matches_iff_covers hplain rule _).mpr hcovers⟩, rfl⟩⟩
    · intro text htext
      obtain ⟨h, rfl⟩ := sendRequest_eq_ok.mp htext
      exact Authority.connectTarget_eq (hallowed h).1 useTls

/-- `::1` is permitted, and a request to `[::1]` is denied. -/
theorem permitted_ipv6_denied :
    ∃ (rule : WasiHttpOutboundRule) (a : Authority), rule.validate = .ok () ∧
      rule.covers a.target (a.effectivePort false) ∧
      sendRequest [rule] (some a) false = .error .httpRequestDenied :=
  ⟨.host "::1",
    ⟨.ipv6 "::1".toList ⟨[0, 0, 0, 0, 0, 0, 0, 1], rfl, by decide⟩ (by decide), none, nofun⟩,
    by rfl, by show hostTarget "::1".toList = _; decide, by rfl⟩

end Imago
