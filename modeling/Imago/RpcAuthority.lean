/-
Imago/RpcAuthority.lean

The three functions that bring an `rpc://` URL into its canonical form: the
command line's (`normalize_rpc_authority`), under whose result a key is pinned;
the node plugin's (`parse_remote_rpc_addr`), whose result a service sends to the
manager; and the manager's own (`parse_rpc_authority`), whose key is looked up.

The first two take the text of the host from the URL, the manager displays the
parsed address.  `authorities_agree_iff`: what the command line pins is what the
manager looks up exactly for the authorities whose port is not zero and whose
host is no IPv4-mapped address; the plugin and the manager always agree.

The `url` crate is a parameter with the part of its documentation that matters
here: the host of a URL with this scheme is an opaque host or an IPv6 address,
and the serialized form of an authority parses to that authority.
-/
import Imago.IpAddr
import Imago.ManagerControl
import Std.Data.String.ToNat

namespace Imago

open Control (RemoteAuthority)

/-! ### URLs -/

/-- `url::Host`. -/
inductive Host
  | domain (d : String)
  | ipv4 (a : Ipv4Addr)
  | ipv6 (a : Ipv6Addr)

namespace Host

/-- The host serializer, which `host_str` gives. -/
def serialize : Host → String
  | domain d => d
  | ipv4 a => String.ofList a.display
  | ipv6 a => "[" ++ String.ofList a.serialize ++ "]"

/-- The host with an ASCII-lowercase domain. -/
def lower : Host → Host
  | domain d => domain (toAsciiLowercase d)
  | ipv4 a => ipv4 a
  | ipv6 a => ipv6 a

/-- The forbidden host code points of the URL Standard. -/
def forbidden : List Char :=
  ['\x00', '\t', '\n', '\r', ' ', '#', '/', ':', '<', '>', '?', '@', '[', '\\', ']', '^', '|']

/-- What the host of a URL without a special scheme is: numbers with dots are
not read as an IPv4 address there. -/
def NonSpecial : Host → Prop
  | domain d => d ≠ "" ∧ ∀ c ∈ d.toList, c ∉ forbidden
  | ipv4 _ => False
  | ipv6 _ => True

/-- `ip.to_string()`, and the lowercase domain. -/
def display : Host → String
  | ipv6 a => String.ofList a.display
  | ipv4 a => String.ofList a.display
  | domain d => toAsciiLowercase d

/-- An IPv6 address that stands for an IPv4 one. -/
def Mapped : Host → Prop
  | ipv6 a => a.toIpv4Mapped.isSome = true
  | _ => False

end Host

/-- The parts of a parsed URL that are looked at. -/
structure ParsedUrl where
  scheme : String
  username : String
  password : Option String
  host : Option Host
  port : Option UInt16
  path : String
  query : Option String
  fragment : Option String

/-- The text of an authority. -/
def authorityText (host : String) (port : UInt16) : String :=
  "rpc://" ++ host ++ ":" ++ toString port.toNat

/-- The `url` crate. -/
structure UrlCrate where
  parse : String → Except String ParsedUrl
  /-- The scheme `rpc` is not special. -/
  host_form : ∀ s u h, parse s = .ok u → u.scheme = "rpc" → u.host = some h → h.NonSpecial
  /-- A host that was parsed is parsed again from its serialized form. -/
  parse_authority : ∀ s u h, parse s = .ok u → u.scheme = "rpc" → u.host = some h →
    ∀ port : UInt16, parse (authorityText h.lower.serialize port) =
      .ok ⟨"rpc", "", none, some h.lower, some port, "", none, none⟩

/-! ### The three functions -/

/-- `format_host_for_url`, of which there are three copies. -/
def formatHostForUrl (host : String) : String :=
  if host.toList.contains ':' &&
      !(host.toList.head? == some '[' && host.toList.getLast? == some ']') then
    "[" ++ host ++ "]"
  else host

/-- `DEFAULT_RPC_PORT`. -/
def defaultRpcPort : UInt16 := 4443

/-- The command line's `normalize_rpc_authority`. -/
def normalizeRpcAuthority (url : UrlCrate) (raw : String) : Except String String :=
  match url.parse raw with
  | .error _ => .error ("authority URL parse failed: " ++ raw)
  | .ok parsed =>
    if parsed.scheme ≠ "rpc" then .error ("authority must use rpc:// scheme: " ++ raw)
    else if parsed.username ≠ "" || parsed.password.isSome then
      .error ("authority must not include user credentials: " ++ raw)
    else if parsed.fragment.isSome then .error ("authority must not include a fragment: " ++ raw)
    else if parsed.query.isSome then
      .error ("authority must not include query parameters: " ++ raw)
    else if parsed.path ≠ "" && parsed.path ≠ "/" then
      .error ("authority must not include a path: " ++ raw)
    else
      match parsed.host with
      | none => .error ("authority host is missing: " ++ raw)
      | some host =>
        match parsed.port with
        | none => .error ("authority must include an explicit port: " ++ raw)
        | some port =>
          .ok (authorityText (toAsciiLowercase (formatHostForUrl host.serialize)) port)

/-- The manager's `parse_rpc_authority`. -/
def parseRpcAuthority (url : UrlCrate) (authority : String) : Except ImagodError RemoteAuthority :=
  match url.parse authority with
  | .error err => .error (remoteError .badRequest ("invalid rpc authority: " ++ err))
  | .ok parsed =>
    if parsed.scheme ≠ "rpc" then
      .error (remoteError .badRequest "rpc authority must use rpc:// scheme")
    else if parsed.username ≠ "" || parsed.password.isSome then
      .error (remoteError .badRequest "rpc authority must not contain userinfo")
    else if parsed.query.isSome || parsed.fragment.isSome then
      .error (remoteError .badRequest "rpc authority must not contain query or fragment")
    else if parsed.path ≠ "/" && parsed.path ≠ "" then
      .error (remoteError .badRequest "rpc authority must not contain a path")
    else
      match parsed.host with
      | none => .error (remoteError .badRequest "rpc authority host is required")
      | some host =>
        let port := parsed.port.getD defaultRpcPort
        if port = 0 then
          .error (remoteError .badRequest "rpc authority port must be greater than zero")
        else
          let hostForUrl := formatHostForUrl host.display
          .ok { key := authorityText (toAsciiLowercase hostForUrl) port
                host := host.display
                hostForUrl := hostForUrl
                port := port.toNat }

/-- The node plugin's `parse_remote_rpc_addr`. -/
def parseRemoteRpcAddr (url : UrlCrate) (addr : String) : Except String String :=
  match url.parse addr with
  | .error err => .error ("invalid rpc address: " ++ err)
  | .ok parsed =>
    if parsed.scheme ≠ "rpc" then .error "rpc address must use rpc:// scheme"
    else if parsed.username ≠ "" || parsed.password.isSome then
      .error "rpc address must not contain userinfo"
    else if parsed.query.isSome || parsed.fragment.isSome then
      .error "rpc address must not contain query or fragment"
    else if parsed.path ≠ "/" && parsed.path ≠ "" then
      .error "rpc address must not contain a path"
    else
      match parsed.host with
      | none => .error "rpc address host is required"
      | some host =>
        let port := parsed.port.getD defaultRpcPort
        if port = 0 then .error "rpc address port must be greater than zero"
        else .ok (authorityText (formatHostForUrl (toAsciiLowercase host.serialize)) port)

/-! ### What they accept -/

/-- A URL that is nothing but an authority. -/
structure ParsedUrl.Bare (u : ParsedUrl) : Prop where
  scheme : u.scheme = "rpc"
  username : u.username = ""
  password : u.password = none
  query : u.query = none
  fragment : u.fragment = none
  path : u.path = "" ∨ u.path = "/"

variable {h : Host}

section Accepted

variable {url : UrlCrate} {raw : String}

theorem normalizeRpcAuthority_eq_ok {n : String} (hn : normalizeRpcAuthority url raw = .ok n) :
    ∃ u h p, url.parse raw = .ok u ∧ u.Bare ∧ u.host = some h ∧ u.port = some p ∧
      n = authorityText (toAsciiLowercase (formatHostForUrl h.serialize)) p := by
  unfold normalizeRpcAuthority at hn
  rcases hparse : url.parse raw with err | u
  · rw [hparse] at hn
    cases hn
  rw [hparse] at hn
  simp only [Bool.or_eq_true, Bool.and_eq_true, decide_eq_true_eq, Option.isSome_iff_ne_none]
    at hn
  split_ifs at hn with hscheme huser hfragment hquery hpath
  push Not at hscheme huser hfragment hquery hpath
  rcases hhost : u.host with - | h
  · rw [hhost] at hn
    cases hn
  rcases hport : u.port with - | p
  · rw [hhost, hport] at hn
    cases hn
  rw [hhost, hport] at hn
  refine ⟨u, h, p, rfl, ⟨hscheme, huser.1, huser.2, hquery, hfragment, ?_⟩, hhost, hport,
    (Except.ok.inj hn).symm⟩
  exact Classical.or_iff_not_imp_left.mpr hpath

theorem parseRemoteRpcAddr_eq_ok {n : String} (hn : parseRemoteRpcAddr url raw = .ok n) :
    ∃ u h, url.parse raw = .ok u ∧ u.Bare ∧ u.host = some h ∧
      u.port.getD defaultRpcPort ≠ 0 ∧
      n = authorityText (formatHostForUrl (toAsciiLowercase h.serialize))
        (u.port.getD defaultRpcPort) := by
  unfold parseRemoteRpcAddr at hn
  rcases hparse : url.parse raw with err | u
  · rw [hparse] at hn
    cases hn
  rw [hparse] at hn
  simp only [Bool.or_eq_true, Bool.and_eq_true, decide_eq_true_eq, Option.isSome_iff_ne_none]
    at hn
  rcases hhost : u.host with - | h
  · rw [hhost] at hn
    split_ifs at hn
  rw [hhost] at hn
  split_ifs at hn with hscheme huser hquery hpath hport
  push Not at hscheme huser hquery hpath
  refine ⟨u, h, rfl, ⟨hscheme, huser.1, huser.2, hquery.1, hquery.2, ?_⟩, hhost, hport,
    (Except.ok.inj hn).symm⟩
  exact (Classical.or_iff_not_imp_left.mpr hpath).symm

/-- What the manager makes of a bare URL. -/
theorem parseRpcAuthority_of_bare {u : ParsedUrl} (hparse : url.parse raw = .ok u) (hbare : u.Bare)
    (hhost : u.host = some h) :
    parseRpcAuthority url raw =
      if u.port.getD defaultRpcPort = 0 then
        .error (remoteError .badRequest "rpc authority port must be greater than zero")
      else
        .ok { key := authorityText (toAsciiLowercase (formatHostForUrl h.display))
                (u.port.getD defaultRpcPort)
              host := h.display
              hostForUrl := formatHostForUrl h.display
              port := (u.port.getD defaultRpcPort).toNat } := by
  have hpath : (u.path ≠ "/" && u.path ≠ "") = false := by
    rcases hbare.path with h | h <;> rw [h] <;> rfl
  rw [parseRpcAuthority, hparse]
  simp only [hbare.scheme, hbare.username, hbare.password, hbare.query, hbare.fragment, hhost,
    hpath, ne_eq, not_true_eq_false, decide_false, Option.isSome_none, Bool.or_false,
    Bool.false_eq_true, if_false]

end Accepted

/-! ### The texts of a host -/

theorem formatHostForUrl_of_no_colon {s : String} (h : ':' ∉ s.toList) :
    formatHostForUrl s = s := by
  rw [formatHostForUrl, if_neg]
  simp [h]

theorem formatHostForUrl_bracketed (l : List Char) :
    formatHostForUrl ("[" ++ String.ofList l ++ "]") = "[" ++ String.ofList l ++ "]" := by
  have hlast : ('[' :: (l ++ [']'])).getLast? = some ']' := by
    rw [← List.cons_append, List.getLast?_concat]
  rw [formatHostForUrl, if_neg]
  simp [hlast]

theorem formatHostForUrl_of_colon {l : List Char} (hcolon : ':' ∈ l) (hhead : l.head? ≠ some '[') :
    formatHostForUrl (String.ofList l) = "[" ++ String.ofList l ++ "]" := by
  rw [formatHostForUrl, if_pos]
  simp [hcolon, hhead]

/-- The text of an IPv6 address is in lower case. -/
theorem toAsciiLowercase_bracketed (l : List Char) (h : ∀ c ∈ l, c.toLower = c) :
    toAsciiLowercase ("[" ++ String.ofList l ++ "]") = "[" ++ String.ofList l ++ "]" := by
  refine String.toList_injective ?_
  have hmap : l.map Char.toLower = l := (List.map_congr_left h).trans (List.map_id l)
  simp [hmap]

theorem toLower_of_pieceChar {c : Char} (h : PieceChar c) : c.toLower = c := by
  rcases h with rfl | h
  · rfl
  · have hdigits : "0123456789abcdef".toList.all (fun c => c.toLower = c) = true := by decide
    exact of_decide_eq_true (List.all_eq_true.mp hdigits c h)

theorem colon_of_toLower {c : Char} (h : c.toLower = ':') : c = ':' := by
  have hnat := congrArg Char.toNat h
  rw [toNat_toLower] at hnat
  change _ = 58 at hnat
  refine Char.toNat_inj.mp ?_
  change c.toNat = 58
  split_ifs at hnat <;> omega

namespace Host

variable {h : Host}

theorem colon_notMem_lower {d : String} (hd : (domain d).NonSpecial) :
    ':' ∉ (toAsciiLowercase d).toList := by
  rw [toList_toAsciiLowercase, List.mem_map]
  rintro ⟨c, hc, hlower⟩
  rw [colon_of_toLower hlower] at hc
  exact hd.2 _ hc (by decide)

/-- What the command line writes. -/
theorem toAsciiLowercase_formatHostForUrl (hh : h.NonSpecial) :
    toAsciiLowercase (formatHostForUrl h.serialize) = h.lower.serialize := by
  rcases h with d | a | a
  · show toAsciiLowercase (formatHostForUrl d) = toAsciiLowercase d
    rw [formatHostForUrl_of_no_colon fun hc => hh.2 _ hc (by decide)]
  · exact hh.elim
  · show toAsciiLowercase (formatHostForUrl ("[" ++ String.ofList a.serialize ++ "]")) = _
    rw [formatHostForUrl_bracketed]
    exact toAsciiLowercase_bracketed _ fun c hc => toLower_of_pieceChar (a.pieceChar_serialize hc)

/-- What the plugin writes. -/
theorem formatHostForUrl_toAsciiLowercase (hh : h.NonSpecial) :
    formatHostForUrl (toAsciiLowercase h.serialize) = h.lower.serialize := by
  rcases h with d | a | a
  · exact formatHostForUrl_of_no_colon (colon_notMem_lower hh)
  · exact hh.elim
  · show formatHostForUrl (toAsciiLowercase ("[" ++ String.ofList a.serialize ++ "]")) = _
    rw [toAsciiLowercase_bracketed _ fun c hc => toLower_of_pieceChar (a.pieceChar_serialize hc)]
    exact formatHostForUrl_bracketed _

/-- The manager writes the same, unless the address is IPv4-mapped: then its
text has dots. -/
theorem toAsciiLowercase_display_iff (hh : h.NonSpecial) :
    toAsciiLowercase (formatHostForUrl h.display) = h.lower.serialize ↔ ¬ h.Mapped := by
  rcases h with d | a | a
  · refine iff_of_true ?_ fun hm => hm
    show toAsciiLowercase (formatHostForUrl (toAsciiLowercase d)) = toAsciiLowercase d
    rw [formatHostForUrl_of_no_colon (colon_notMem_lower hh), toAsciiLowercase_idem]
  · exact hh.elim
  · show toAsciiLowercase (formatHostForUrl (String.ofList a.display)) =
      "[" ++ String.ofList a.serialize ++ "]" ↔ ¬ a.toIpv4Mapped.isSome = true
    rw [formatHostForUrl_of_colon a.colon_mem_display a.head?_display_ne]
    rcases hmapped : a.toIpv4Mapped with - | octets
    · refine iff_of_true ?_ Bool.false_ne_true
      rw [display_eq_serialize a hmapped]
      exact toAsciiLowercase_bracketed _ fun c hc =>
        toLower_of_pieceChar (a.pieceChar_serialize hc)
    · refine iff_of_false (fun heq => ?_) (fun hno => hno rfl)
      have hdot : '.' ∈ (toAsciiLowercase ("[" ++ String.ofList a.display ++ "]")).toList := by
        rw [toList_toAsciiLowercase]
        refine List.mem_map.mpr ⟨'.', ?_, rfl⟩
        simp [Ipv6Addr.dot_mem_display hmapped]
      have hserialize : '.' ∈ a.serialize := by
        rw [heq] at hdot
        simpa using hdot
      exact absurd (a.pieceChar_serialize hserialize) (by unfold PieceChar; decide)

theorem display_lower : h.lower.display = h.display := by
  rcases h with d | a | a
  · exact toAsciiLowercase_idem d
  · rfl
  · rfl

theorem lower_lower : h.lower.lower = h.lower := by
  rcases h with d | a | a
  · exact congrArg domain (toAsciiLowercase_idem d)
  · rfl
  · rfl

theorem mapped_lower : h.lower.Mapped ↔ h.Mapped := by
  cases h <;> exact Iff.rfl

end Host

theorem authorityText_left_inj {a b : String} {port : UInt16} :
    authorityText a port = authorityText b port ↔ a = b := by
  refine ⟨fun h => ?_, fun h => by rw [h]⟩
  have hlist := congrArg String.toList h
  simp only [authorityText, String.toList_append, List.append_assoc, List.append_cancel_left_eq]
    at hlist
  exact String.toList_injective (List.append_cancel_right hlist)

/-! ### The keys -/

/-- What the three functions owe each other on a URL: a key that is pinned for it
is the one that is looked up for it and for its pinned form, and the plugin's
form leads to the key of the URL itself. -/
structure AuthoritiesAgree (url : UrlCrate) (raw : String) : Prop where
  pinned : ∀ n, normalizeRpcAuthority url raw = .ok n →
    (∃ a, parseRpcAuthority url raw = .ok a ∧ a.key = n) ∧
      ∃ a, parseRpcAuthority url n = .ok a ∧ a.key = n
  connected : ∀ out, parseRemoteRpcAddr url raw = .ok out →
    ∃ a b, parseRpcAuthority url raw = .ok a ∧ parseRpcAuthority url out = .ok b ∧ b.key = a.key

/-- A URL that the command line accepts names a port other than zero, and not an
IPv4-mapped address. -/
def Pinnable (url : UrlCrate) (raw : String) : Prop :=
  ∀ n u h, normalizeRpcAuthority url raw = .ok n → url.parse raw = .ok u → u.host = some h →
    u.port ≠ some 0 ∧ ¬ h.Mapped

section Keys

variable {url : UrlCrate} {raw : String} {u : ParsedUrl} {h : Host}

/-- The key of a bare URL is its canonical text. -/
theorem exists_key_iff (hparse : url.parse raw = .ok u) (hbare : u.Bare)
    (hhost : u.host = some h) :
    (∃ a, parseRpcAuthority url raw = .ok a ∧
        a.key = authorityText h.lower.serialize (u.port.getD defaultRpcPort)) ↔
      u.port.getD defaultRpcPort ≠ 0 ∧ ¬ h.Mapped := by
  have hh : h.NonSpecial := url.host_form _ _ _ hparse hbare.scheme hhost
  rw [parseRpcAuthority_of_bare hparse hbare hhost]
  by_cases hport : u.port.getD defaultRpcPort = 0
  · rw [if_pos hport]
    refine iff_of_false ?_ fun hno => hno.1 hport
    rintro ⟨a, ha, -⟩
    cases ha
  · rw [if_neg hport]
    constructor
    · rintro ⟨a, ha, hkey⟩
      cases ha
      exact ⟨hport, (Host.toAsciiLowercase_display_iff hh).mp (authorityText_left_inj.mp hkey)⟩
    · rintro ⟨-, hmapped⟩
      exact ⟨_, rfl, authorityText_left_inj.mpr
        ((Host.toAsciiLowercase_display_iff hh).mpr hmapped)⟩

/-- The URL that an authority's text parses to. -/
theorem parse_lower (hparse : url.parse raw = .ok u) (hbare : u.Bare) (hhost : u.host = some h)
    (port : UInt16) :
    ∃ v : ParsedUrl, url.parse (authorityText h.lower.serialize port) = .ok v ∧ v.Bare ∧
      v.host = some h.lower ∧ v.port = some port :=
  ⟨_, url.parse_authority _ _ _ hparse hbare.scheme hhost port,
    ⟨rfl, rfl, rfl, rfl, rfl, Or.inl rfl⟩, rfl, rfl⟩

end Keys

/-- The plugin and the manager agree. -/
theorem connected_of_parseRemoteRpcAddr {url : UrlCrate} {raw out : String}
    (hout : parseRemoteRpcAddr url raw = .ok out) :
    ∃ a b, parseRpcAuthority url raw = .ok a ∧ parseRpcAuthority url out = .ok b ∧
      b.key = a.key := by
  obtain ⟨u, h, hparse, hbare, hhost, hport, rfl⟩ := parseRemoteRpcAddr_eq_ok hout
  have hh : h.NonSpecial := url.host_form _ _ _ hparse hbare.scheme hhost
  obtain ⟨v, hv, hvbare, hvhost, hvport⟩ :=
    parse_lower hparse hbare hhost (u.port.getD defaultRpcPort)
  rw [Host.formatHostForUrl_toAsciiLowercase hh, parseRpcAuthority_of_bare hparse hbare hhost,
    parseRpcAuthority_of_bare hv hvbare hvhost, hvport, Option.getD_some, if_neg hport,
    if_neg hport, Host.display_lower]
  exact ⟨_, _, rfl, rfl, rfl⟩

/-- What the manager finds for a URL that the command line accepts. -/
theorem pinnable_of_agree {url : UrlCrate} {raw : String} (hagree : AuthoritiesAgree url raw) :
    Pinnable url raw := by
  intro n u h hn hparse hhost
  obtain ⟨⟨a, ha⟩, -⟩ := hagree.pinned n hn
  obtain ⟨u', h', p, hparse', hbare, hhost', hport, rfl⟩ := normalizeRpcAuthority_eq_ok hn
  obtain rfl : u = u' := Except.ok.inj (hparse.symm.trans hparse')
  obtain rfl : h = h' := Option.mem_unique hhost hhost'
  have hh : h.NonSpecial := url.host_form _ _ _ hparse hbare.scheme hhost
  have hkey := (exists_key_iff hparse hbare hhost).mp (by
    rw [hport, Option.getD_some, ← Host.toAsciiLowercase_formatHostForUrl hh]
    exact ⟨a, ha⟩)
  rw [hport, Option.getD_some] at hkey
  exact ⟨fun hzero => hkey.1 (Option.mem_unique hport hzero), hkey.2⟩

/-- **A pinned key is found**: the command line, the plugin and the manager agree
on a URL exactly when, if the command line accepts it, its port is not zero and
its host is not an IPv4-mapped address. -/
theorem authorities_agree_iff (url : UrlCrate) (raw : String) :
    AuthoritiesAgree url raw ↔ Pinnable url raw := by
  refine ⟨pinnable_of_agree, fun hpin =>
    ⟨fun n hn => ?_, fun out hout => connected_of_parseRemoteRpcAddr hout⟩⟩
  obtain ⟨u, h, p, hparse, hbare, hhost, hport, hnorm⟩ := normalizeRpcAuthority_eq_ok hn
  obtain ⟨hzero, hmapped⟩ := hpin n u h hn hparse hhost
  have hp : p ≠ 0 := fun h0 => hzero (by rw [hport, h0])
  have hh : h.NonSpecial := url.host_form _ _ _ hparse hbare.scheme hhost
  rw [Host.toAsciiLowercase_formatHostForUrl hh] at hnorm
  subst hnorm
  constructor
  · have hraw := (exists_key_iff hparse hbare hhost).mpr
    rw [hport, Option.getD_some] at hraw
    exact hraw ⟨hp, hmapped⟩
  · -- the pinned text parses to the host in lower case, whose key it is again
    obtain ⟨v, hv, hvbare, hvhost, hvport⟩ := parse_lower hparse hbare hhost p
    have hnormal := (exists_key_iff hv hvbare hvhost).mpr
    rw [hvport, Option.getD_some, Host.mapped_lower] at hnormal
    rw [Host.lower_lower] at hnormal
    exact hnormal ⟨hp, hmapped⟩

/-! ### A crate for one host -/

@[irreducible] def portsBelow (n : Nat) : List UInt16 := (List.range n).map UInt16.ofNat

theorem mem_portsBelow {p : UInt16} {n : Nat} (h : p.toNat < n) : p ∈ portsBelow n := by
  rw [portsBelow, List.mem_map]
  exact ⟨p.toNat, List.mem_range.mpr h, UInt16.ofNat_toNat⟩

/-- A crate that knows one host, in its canonical form. -/
def soloParse (h : Host) (s : String) : Except String ParsedUrl :=
  match (portsBelow UInt16.size).find? fun p => s == authorityText h.serialize p with
  | some p => .ok ⟨"rpc", "", none, some h, some p, "", none, none⟩
  | none => .error "invalid authority"

theorem authorityText_right_inj {host : String} {p q : UInt16} :
    authorityText host p = authorityText host q ↔ p = q := by
  refine ⟨fun h => ?_, fun h => by rw [h]⟩
  have hlist := congrArg String.toList h
  simp only [authorityText, String.toList_append, List.append_assoc, List.append_cancel_left_eq]
    at hlist
  exact UInt16.toNat_inj.mp (Nat.repr_inj.mp (String.toList_injective hlist))

theorem soloParse_authorityText (h : Host) (port : UInt16) :
    soloParse h (authorityText h.serialize port) =
      .ok ⟨"rpc", "", none, some h, some port, "", none, none⟩ := by
  rw [soloParse]
  rcases hp : (portsBelow UInt16.size).find? fun p =>
      authorityText h.serialize port == authorityText h.serialize p with - | p
  · have hno := List.find?_eq_none.mp hp port (mem_portsBelow port.toNat_lt_size)
    exact absurd (beq_self_eq_true _) hno
  · have heq := List.find?_some hp
    obtain rfl := authorityText_right_inj.mp (beq_iff_eq.mp heq)
    rfl

/-- What it accepts has the one host. -/
theorem host_of_soloParse {s : String} {u : ParsedUrl} (hu : soloParse h s = .ok u) :
    u.host = some h := by
  rw [soloParse] at hu
  split at hu
  · cases hu
    rfl
  · cases hu

/-- `soloParse` as a crate. -/
def soloCrate (h : Host) (hform : h.NonSpecial) (hlower : h.lower = h) : UrlCrate where
  parse := soloParse h
  host_form := by
    intro s u host hparse _ hhost
    obtain rfl := Option.mem_unique (host_of_soloParse hparse) hhost
    exact hform
  parse_authority := by
    intro s u host hparse _ hhost port
    obtain rfl := Option.mem_unique (host_of_soloParse hparse) hhost
    rw [hlower]
    exact soloParse_authorityText h port

/-- The command line accepts every port of the host. -/
theorem normalize_soloCrate (hform : h.NonSpecial) (hlower : h.lower = h) (port : UInt16) :
    normalizeRpcAuthority (soloCrate h hform hlower) (authorityText h.serialize port) =
      .ok (authorityText (toAsciiLowercase (formatHostForUrl h.serialize)) port) := by
  have hparse : (soloCrate h hform hlower).parse (authorityText h.serialize port) = _ :=
    soloParse_authorityText h port
  rw [normalizeRpcAuthority, hparse]
  rfl

theorem pinnable_soloCrate {hform : h.NonSpecial} {hlower : h.lower = h} {port : UInt16}
    (hagree : AuthoritiesAgree (soloCrate h hform hlower) (authorityText h.serialize port)) :
    port ≠ 0 ∧ ¬ h.Mapped := by
  obtain ⟨hport, hmapped⟩ := pinnable_of_agree hagree _ _ h (normalize_soloCrate hform hlower port)
    (soloParse_authorityText h port) rfl
  exact ⟨fun hzero => hport (congrArg some hzero), hmapped⟩

/-- `::ffff:1.2.3.4`. -/
def mappedAddr : Ipv6Addr := ⟨[0, 0, 0, 0, 0, 0xffff, 0x102, 0x304], rfl, by decide⟩

theorem peer_nonSpecial : (Host.domain "peer").NonSpecial := by
  refine ⟨by decide, fun c hc => ?_⟩
  have hchars : "peer".toList.all (fun c => c ∉ Host.forbidden) = true := by decide
  exact of_decide_eq_true (List.all_eq_true.mp hchars c hc)

/-- The key pinned for an IPv4-mapped address is not the one that is looked up,
and the manager refuses a port that the command line pins. -/
theorem authorities_disagree :
    ¬ AuthoritiesAgree (soloCrate (.ipv6 mappedAddr) trivial rfl) "rpc://[::ffff:102:304]:4443" ∧
      ¬ AuthoritiesAgree (soloCrate (.domain "peer") peer_nonSpecial rfl)
        "rpc://peer:0" := by
  have hmapped : "rpc://[::ffff:102:304]:4443" =
      authorityText (Host.ipv6 mappedAddr).serialize 4443 := by decide +kernel
  have hpeer : "rpc://peer:0" = authorityText (Host.domain "peer").serialize 0 := by
    decide +kernel
  rw [hmapped, hpeer]
  exact ⟨fun hagree => (pinnable_soloCrate hagree).2 rfl,
    fun hagree => (pinnable_soloCrate hagree).1 rfl⟩

end Imago
