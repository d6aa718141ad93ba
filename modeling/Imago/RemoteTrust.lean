/-
Imago/RemoteTrust.lean

Trust on first use.  `connect_remote_session` looks up the key that is known
for an authority, connects, and compares it with the key that the server
presented; if none was known it writes the server's key into `imagod.toml`.
Between the lookup and the end there are awaits, and the write does not look
again: of two calls that both found no key, the second one to finish replaces
the key of the first.

`FirstUse` is the run in which this does not happen: a call that found no key
still finds none when it writes its own, or finds that very key.  Then a key
that is known stays known, and a session always belongs to the known key
(`first_key_kept`).
-/
import Imago.DaemonConfig
import Imago.Runs

namespace Imago

/-! ### The keys in the document -/

/-- `known_public_keys[authority]`, as it is written. -/
def knownText (root : Table) (authority : String) : Option String :=
  ((((tlsOf root).lookup "known_public_keys").bind Toml.asTable).bind
    (·.lookup authority)).bind Toml.asStr

theorem lookup_mapM {α β : Type} {f : α → Option β} {t : List (String × α)}
    {u : List (String × β)} (h : t.mapM (fun e => (f e.2).map (e.1, ·)) = some u) (k : String) :
    u.lookup k = (t.lookup k).bind f := by
  induction t generalizing u with
  | nil =>
    obtain rfl : u = [] := by simpa using h.symm
    rfl
  | cons e t ih =>
    obtain ⟨key, v⟩ := e
    obtain ⟨v', u', hv, hu, rfl⟩ := mapM_values_cons h
    rw [lookup_cons_ite, lookup_cons_ite, ih hu]
    split
    · exact hv.symm
    · rfl

variable {root : Table}

/-- The loaded configuration has the keys of the document. -/
theorem lookup_knownPublicKeys {d : BuildDefaults} {c : ImagodConfig}
    (h : decodeConfig d root = some c) (authority : String) :
    c.tls.knownPublicKeys.lookup authority = knownText root authority := by
  obtain ⟨-, -, -, htls, -⟩ := decodeConfig_eq_some.mp h
  obtain ⟨v, hv, htable⟩ := Option.bind_eq_some_iff.mp htls
  obtain ⟨tls, hasTable, hdecode⟩ := Option.bind_eq_some_iff.mp htable
  obtain ⟨-, -, hknown⟩ := decodeTls_eq_some.mp hdecode
  have htlsOf : tlsOf root = tls := by rw [tlsOf, hv, Option.bind_some, hasTable]; rfl
  rw [knownText, htlsOf]
  rw [fieldOr] at hknown
  rcases hlookup : tls.lookup "known_public_keys" with - | m
  · rw [hlookup] at hknown
    obtain hknown : [] = c.tls.knownPublicKeys := Option.some.inj hknown
    rw [← hknown]
    rfl
  · rw [hlookup] at hknown
    obtain ⟨map, hmap, hentries⟩ := Option.bind_eq_some_iff.mp hknown
    rw [Option.bind_some, hmap, Option.bind_some]
    exact lookup_mapM hentries authority

theorem upsertClientPublicKeyValue_lookup {tls tls' : Table} {keyHex k : String}
    (h : upsertClientPublicKeyValue tls keyHex = .ok tls') (hk : k ≠ "client_public_keys") :
    tls'.lookup k = tls.lookup k := by
  rw [upsertClientPublicKeyValue] at h
  split at h
  · rename_i values _
    rcases hkeys : normalizeKeys 0 values with e | keys
    · rw [hkeys] at h
      cases h
    · rw [hkeys] at h
      cases h
      exact lookup_insertKey_ne tls hk _
  · cases h

/-- The entries of the document's table of known keys. -/
def knownTable (tls : Table) : Table :=
  ((tls.lookup "known_public_keys").bind Toml.asTable).getD []

theorem knownText_eq (root : Table) (authority : String) :
    knownText root authority = ((knownTable (tlsOf root)).lookup authority).bind Toml.asStr := by
  rw [knownText, knownTable]
  rcases ((tlsOf root).lookup "known_public_keys").bind Toml.asTable with - | map <;> rfl

variable {authority : String}

theorem upsertKnownPublicKeyValue_table {tls tls' : Table} {keyHex : String}
    (h : upsertKnownPublicKeyValue tls authority keyHex = .ok tls') :
    knownTable tls' = insertKey (knownTable tls) authority (.str keyHex) := by
  rw [upsertKnownPublicKeyValue] at h
  split at h
  · rename_i map hmap
    have htable : knownTable tls = map := by
      rw [knownTable]
      rcases hlookup : tls.lookup "known_public_keys" with - | v
      · rw [hlookup] at hmap
        cases hmap
        rfl
      · rw [hlookup] at hmap
        obtain rfl : v = .table map := hmap
        rfl
    split at h
    · cases h
    · cases h
      rw [htable, knownTable, lookup_insertKey_self]
      rfl
  · cases h

/-- An update changes the key of its own authority and of no other. -/
theorem knownText_edit {kind : UpsertKind} {key : String} {root' : Table}
    (h : kind.edit authority key root = .ok root') (a : String) :
    knownText root' a =
      if a = trim authority then some (toAsciiLowercase key) else knownText root a := by
  rw [UpsertKind.edit] at h
  rcases hensure : ensureTlsTable root with e | tls
  · rw [hensure] at h
    cases h
  have htls : tlsOf root = tls := by
    rw [ensureTlsTable] at hensure
    rw [tlsOf]
    split at hensure
    · rename_i hnone
      rw [hnone]
      exact Except.ok.inj hensure
    · rename_i hsome
      rw [hsome]
      exact Except.ok.inj hensure
    · cases hensure
  have hmain : ∀ tls₁, knownTable tls₁ = knownTable tls →
      (upsertKnownPublicKeyValue tls₁ (trim authority) (toAsciiLowercase key)).bind
        (fun tls => .ok (insertKey root "tls" (.table tls))) = .ok root' →
      knownText root' a =
        if a = trim authority then some (toAsciiLowercase key) else knownText root a := by
    intro tls₁ hsame h
    rcases hknown : upsertKnownPublicKeyValue tls₁ (trim authority) (toAsciiLowercase key) with
      e | tls'
    · rw [hknown] at h
      cases h
    · rw [hknown] at h
      cases h
      have htls' : tlsOf (insertKey root "tls" (.table tls')) = tls' := by
        rw [tlsOf, lookup_insertKey_self]
        rfl
      rw [knownText_eq, htls', upsertKnownPublicKeyValue_table hknown, lookup_insertKey, hsame,
        knownText_eq root, htls]
      split <;> rfl
  rw [hensure] at h
  cases kind with
  | publicKey => exact hmain tls rfl h
  | clientKey =>
    rcases hclient : upsertClientPublicKeyValue tls (toAsciiLowercase key) with e | tls₁
    · simp only [hclient, bind, Except.bind] at h
      cases h
    · simp only [hclient, bind, Except.bind] at h
      refine hmain tls₁ ?_ h
      rw [knownTable, knownTable, upsertClientPublicKeyValue_lookup hclient (by decide)]

/-! ### Connecting -/

namespace RemoteTrust

/-- `ServerIdentityStatus`. -/
inductive ServerIdentityStatus where
  | matched
  | unknown
  | mismatch

/-- `verify_server_cert`, for the raw key that the server presented. -/
def verifyServerCert (expected : Option String) (presented : String) : ServerIdentityStatus :=
  match expected with
  | some e => if toAsciiLowercase e = toAsciiLowercase presented then .matched else .mismatch
  | none => .unknown

/-- A call of `connect_remote_session`: between its lookup and its end, with
the key that it expects, or over. -/
inductive Call where
  | connecting (expected : Option String)
  | over

/-- How the write of `imagod.toml` ends: before or after the file is replaced. -/
inductive WriteEnd where
  | fails
  | replaces
  deriving DecidableEq

/-- The parsed `imagod.toml`, the calls for one authority, and the sessions
that they returned, each with the server's key and the one known by then. -/
structure World where
  root : Table
  calls : List Call
  sessions : List (String × Option String)

/-- What happens to the trust state. -/
inductive Action where
  | connect
  | finish (i : Nat) (raw : List UInt8) (write : WriteEnd)
  | giveUp (i : Nat)
  | update (kind : UpsertKind) (authority publicKeyHex : String) (write : WriteEnd)

/-- An update of the file, and whether it succeeds. -/
@[irreducible] def upsert (d : BuildDefaults) (kind : UpsertKind) (authority publicKeyHex : String)
    (write : WriteEnd) (root : Table) : Table × Bool :=
  match checkUpsert authority publicKeyHex with
  | .error _ => (root, false)
  | .ok _ =>
    match kind.edit authority publicKeyHex root with
    | .error _ => (root, false)
    | .ok root' =>
      match write with
      | .fails => (root, false)
      | .replaces => (root', (loadRoot d root').toOption.isSome)

/-- The key that is known for an authority, in lower case. -/
def World.known (w : World) (key : String) : Option String :=
  (knownText w.root key).map toAsciiLowercase

/-- The call returns a session. -/
def World.returnSession (w : World) (key presented : String) : World :=
  { w with sessions := w.sessions ++ [(presented, w.known key)] }

/-- The end of the call, behind the handshake. -/
def finish (d : BuildDefaults) (key : String) (w : World) (i : Nat) (expected : Option String)
    (presented : String) (write : WriteEnd) : World :=
  let w := { w with calls := w.calls.set i .over }
  match verifyServerCert expected presented with
  | .matched => w.returnSession key presented
  | .mismatch => w
  | .unknown =>
    let written := upsert d .publicKey key presented write w.root
    let w := { w with root := written.1 }
    if written.2 then w.returnSession key presented else w

/-- Steps from one await to the next, of the calls for the authority `key` and
of updates that concern another one. -/
def step (d : BuildDefaults) (key : String) (w : World) : Action → Option World
  | .connect =>
    match loadRoot d w.root with
    | .error _ => some { w with calls := w.calls ++ [.over] }
    | .ok c =>
      let expected := (c.tls.knownPublicKeys.lookup key).map toAsciiLowercase
      some { w with calls := w.calls ++ [.connecting expected] }
  | .finish i raw write =>
    match w.calls[i]? with
    | some (.connecting expected) => some (finish d key w i expected (hexEncode raw) write)
    | _ => none
  | .giveUp i =>
    match w.calls[i]? with
    | some (.connecting _) => some { w with calls := w.calls.set i .over }
    | _ => none
  | .update kind authority publicKeyHex write =>
    if trim authority = key then none
    else some { w with root := (upsert d kind authority publicKeyHex write w.root).1 }

/-- A call that found no key writes the first one, or the one that is there. -/
def FirstUse (key : String) (w : World) : Action → Prop
  | .finish i raw .replaces =>
    w.calls[i]? = some (.connecting none) → w.known key = none ∨ w.known key = some (hexEncode raw)
  | _ => True

/-! ### What stays known -/

section Steps

variable {d : BuildDefaults} {key : String} {w w' : World} {a : Action}

theorem toAsciiLowercase_hexEncode (raw : List UInt8) :
    toAsciiLowercase (hexEncode raw) = hexEncode raw := by
  rw [toAsciiLowercase, hexEncode, String.toList_ofList]
  induction raw with
  | nil => rfl
  | cons b raw ih =>
    have ih := congrArg String.toList ih
    simp only [String.toList_ofList] at ih
    rw [List.flatMap_cons, List.map_append, ih]
    simp [hexByte, toLower_hexDigit]

/-- An update leaves a key alone, or writes it. -/
theorem upsert_known (d : BuildDefaults) (kind : UpsertKind) (authority publicKeyHex : String)
    (write : WriteEnd) (root : Table) (a : String) :
    knownText (upsert d kind authority publicKeyHex write root).1 a = knownText root a ∨
      (write = .replaces ∧ a = trim authority ∧
        knownText (upsert d kind authority publicKeyHex write root).1 a =
          some (toAsciiLowercase publicKeyHex)) := by
  rw [upsert]
  rcases checkUpsert authority publicKeyHex with e | u
  · exact .inl rfl
  · rcases hedit : kind.edit authority publicKeyHex root with e | root'
    · exact .inl rfl
    · cases write with
      | fails => exact Or.inl rfl
      | replaces =>
        dsimp only
        rw [knownText_edit hedit]
        by_cases ha : a = trim authority
        · exact .inr ⟨rfl, ha, if_pos ha⟩
        · exact .inl (if_neg ha)

theorem known_finish (d : BuildDefaults) (key : String) (w : World) (i : Nat)
    (expected : Option String) (presented : String) (write : WriteEnd) :
    (finish d key w i expected presented write).known key = w.known key ∨
      (expected = none ∧ write = .replaces ∧
        (finish d key w i expected presented write).known key =
          some (toAsciiLowercase presented)) := by
  rcases expected with - | e
  · have hknown : (finish d key w i none presented write).known key =
        (knownText (upsert d .publicKey key presented write w.root).1 key).map
          toAsciiLowercase := by
      rw [finish, verifyServerCert]
      dsimp only
      split <;> rfl
    rcases upsert_known d .publicKey key presented write w.root key with h | ⟨hwrite, -, h⟩
    · exact .inl (hknown.trans (congrArg (Option.map toAsciiLowercase) h))
    · exact .inr ⟨rfl, hwrite, by rw [hknown, h, Option.map_some, toAsciiLowercase_idem]⟩
  · refine .inl ?_
    rw [finish]
    split
    · rfl
    · rfl
    · rename_i hunknown
      rw [verifyServerCert] at hunknown
      split at hunknown <;> cases hunknown

/-- **What is known stays known.** -/
theorem known_step {k : String} (hok : FirstUse key w a) (hstep : step d key w a = some w')
    (hk : w.known key = some k) : w'.known key = some k := by
  cases a with rw [step] at hstep
  | connect =>
    split at hstep <;> (obtain rfl := Option.some.inj hstep; exact hk)
  | finish i raw write =>
    split at hstep
    · rename_i expected hi
      cases hstep
      rcases known_finish d key w i expected (hexEncode raw) write with h | ⟨rfl, rfl, h⟩
      · rw [h, hk]
      · -- the call found no key when it began, but there is one now
        have hfirst := hok hi
        rw [hk] at hfirst
        rcases hfirst with hnone | hsame
        · cases hnone
        · rw [h, toAsciiLowercase_hexEncode, hsame]
    · cases hstep
  | giveUp i =>
    split at hstep
    · cases hstep
      exact hk
    · cases hstep
  | update kind authority publicKeyHex write =>
    split at hstep
    · cases hstep
    · rename_i hne
      cases hstep
      rcases upsert_known d kind authority publicKeyHex write w.root key with h | ⟨-, h, -⟩
      · exact (congrArg _ h).trans hk
      · exact absurd h.symm hne

/-- A call that expects a key expects the known one, and every session was
with the server of the key known then. -/
structure Inv (key : String) (w : World) : Prop where
  expects : ∀ (i : Nat) e, w.calls[i]? = some (.connecting (some e)) →
    w.known key = some (toAsciiLowercase e)
  sessions : ∀ s ∈ w.sessions, ∀ k, s.2 = some k → s.1 = k

theorem upsert_replaces {kind : UpsertKind} {publicKeyHex : String} {write : WriteEnd}
    (h : (upsert d kind authority publicKeyHex write root).2 = true) : write = .replaces := by
  cases write with
  | replaces => rfl
  | fails =>
    rw [upsert] at h
    split at h
    · cases h
    · split at h <;> cases h

/-- The session that a call returns. -/
theorem sessions_finish {i : Nat} {expected : Option String} {presented : String}
    {write : WriteEnd} :
    (finish d key w i expected presented write).sessions = w.sessions ∨
      ((∀ e, expected = some e → toAsciiLowercase e = toAsciiLowercase presented) ∧
        (expected = none → write = .replaces) ∧
        ∃ w₁ : World, finish d key w i expected presented write = w₁.returnSession key presented ∧
          w₁.sessions = w.sessions) := by
  rw [finish]
  rcases expected with - | e
  · rw [verifyServerCert]
    dsimp only
    split
    · rename_i hwritten
      exact .inr ⟨nofun, fun _ => upsert_replaces hwritten, _, rfl, rfl⟩
    · exact .inl rfl
  · rw [verifyServerCert]
    by_cases hmatch : toAsciiLowercase e = toAsciiLowercase presented
    · simp only [if_pos hmatch]
      exact .inr ⟨fun e' he => Option.some.inj he ▸ hmatch, nofun, _, rfl, rfl⟩
    · simp only [if_neg hmatch]
      exact .inl trivial

theorem calls_finish (d : BuildDefaults) (key : String) (w : World) (i : Nat)
    (expected : Option String) (presented : String) (write : WriteEnd) :
    (finish d key w i expected presented write).calls = w.calls.set i .over := by
  rw [finish]
  split
  · rfl
  · rfl
  · dsimp only
    split <;> rfl

theorem Inv.step (h : Inv key w) (hok : FirstUse key w a) (hstep : step d key w a = some w') :
    Inv key w' := by
  have hknown : ∀ k, w.known key = some k → w'.known key = some k :=
    fun k => known_step hok hstep
  cases a with rw [RemoteTrust.step] at hstep
  | connect =>
    split at hstep
    · cases hstep
      refine ⟨fun i e hi => ?_, h.sessions⟩
      rcases getElem?_concat_cases hi with hi | ⟨-, hi⟩
      · exact h.expects i e hi
      · cases hi
    · rename_i c hload
      cases hstep
      refine ⟨fun i e hi => ?_, h.sessions⟩
      rcases getElem?_concat_cases hi with hi | ⟨-, hi⟩
      · exact h.expects i e hi
      · injection hi with hi
        rw [lookup_knownPublicKeys (loadRoot_eq_ok.mp hload).1] at hi
        obtain ⟨text, htext, rfl⟩ := Option.map_eq_some_iff.mp hi.symm
        show (knownText w.root key).map toAsciiLowercase = _
        rw [htext, Option.map_some, toAsciiLowercase_idem]
  | finish i raw write =>
    split at hstep
    · rename_i expected hi
      cases hstep
      refine ⟨fun j e hj => ?_, ?_⟩
      · rw [calls_finish] at hj
        rcases getElem?_set_cases hj with ⟨-, hj⟩ | ⟨-, hj⟩
        · cases hj
        · exact hknown _ (h.expects j e hj)
      · rcases sessions_finish with hsame | ⟨hmatch, hwrite, w₁, hnew, hold⟩
        · rw [hsame]
          exact h.sessions
        · intro s hs k hk
          rw [hnew] at hs
          rcases List.mem_append.mp hs with hs | hs
          · exact h.sessions s (hold ▸ hs) k hk
          · obtain rfl := List.mem_singleton.mp hs
            have hk : (finish d key w i expected (hexEncode raw) write).known key = some k := by
              rw [hnew]
              exact hk
            -- the known key at the end is the one of this server
            rcases expected with - | e
            · obtain rfl := hwrite rfl
              rcases known_finish d key w i none (hexEncode raw) .replaces with hu | ⟨-, -, hu⟩
              · rcases hok hi with hnone | hsame
                · rw [hu, hnone] at hk
                  cases hk
                · rw [hu, hsame] at hk
                  exact Option.some.inj hk
              · rw [hu, toAsciiLowercase_hexEncode] at hk
                exact Option.some.inj hk
            · rw [hknown _ (h.expects i e hi), hmatch e rfl, toAsciiLowercase_hexEncode] at hk
              exact Option.some.inj hk
    · cases hstep
  | giveUp i =>
    split at hstep
    · cases hstep
      refine ⟨fun j e hj => ?_, h.sessions⟩
      rcases getElem?_set_cases hj with ⟨-, hj⟩ | ⟨-, hj⟩
      · cases hj
      · exact h.expects j e hj
    · cases hstep
  | update kind authority publicKeyHex write =>
    split at hstep
    · cases hstep
    · cases hstep
      exact ⟨fun j e hj => hknown _ (h.expects j e hj), h.sessions⟩

end Steps

/-- **The first key is kept.**  In every run in which no call that found no key
writes one over another, a key that is known for the authority at some point is
known for ever, and every session was returned for a server that presented the
key known then. -/
theorem first_key_kept (d : BuildDefaults) (key : String) {w₀ w : World} {as : List Action}
    (hcalls : w₀.calls = []) (hsessions : w₀.sessions = [])
    (hok : RunMeets (step d key) (FirstUse key) w₀ as) (h : run (step d key) w₀ as = some w) :
    (∀ bs cs w₁ k, as = bs ++ cs → run (step d key) w₀ bs = some w₁ → w₁.known key = some k →
      w.known key = some k) ∧
    ∀ s ∈ w.sessions, ∀ k, s.2 = some k → s.1 = k := by
  have hinit : Inv key w₀ := ⟨by simp [hcalls], by simp [hsessions]⟩
  refine ⟨?_, (run_invariant_of_meets (fun _ _ _ hi => hi.step) hok h hinit).sessions⟩
  rintro bs cs w₁ k rfl hbs hk
  rw [run_append, hbs, Option.bind_some] at h
  have hkeep : ∀ w a w', w.known key = some k → FirstUse key w a → step d key w a = some w' →
      w'.known key = some k := fun _ _ _ hk' hok' hstep => known_step hok' hstep hk'
  exact run_invariant_of_meets hkeep ((runMeets_append hbs).mp hok).2 h hk

/-! ### Two first calls -/

/-- A configuration that knows no server. -/
def sampleWorld : World :=
  ⟨[("tls", .table [("server_key", .str "server.key"), ("client_public_keys", .array [])])], [], []⟩

def sampleRaw (b : UInt8) : List UInt8 := List.replicate 32 b

/-- A first call and a second one, after it. -/
def sampleSequential : List Action :=
  [.connect, .finish 0 (sampleRaw 1) .replaces, .connect, .finish 1 (sampleRaw 1) .replaces]

/-- Two calls that both find no key; two more begin in between. -/
def sampleRace : List Action :=
  [.connect, .connect, .finish 0 (sampleRaw 1) .replaces, .connect,
    .finish 1 (sampleRaw 2) .replaces, .finish 2 (sampleRaw 1) .replaces]

/-- `FirstUse` as a computation. -/
def firstUseBy (key : String) (w : World) : Action → Bool
  | .finish i raw .replaces =>
    match w.calls[i]? with
    | some (.connecting none) =>
      w.known key == none || w.known key == some (hexEncode raw)
    | _ => true
  | _ => true

theorem firstUseBy_sound (key : String) (w : World) (a : Action) (h : firstUseBy key w a = true) :
    FirstUse key w a := by
  cases a with
  | finish i raw write =>
    cases write with
    | fails => trivial
    | replaces =>
      intro hi
      rw [firstUseBy, hi] at h
      simpa using h
  | _ => trivial

theorem first_key_kept_sequential : ∃ w,
    run (step sampleDefaults "rpc://peer:4443") sampleWorld sampleSequential = some w ∧
    w.sessions.map (·.1) = [hexEncode (sampleRaw 1), hexEncode (sampleRaw 1)] ∧
    ∀ s ∈ w.sessions, ∀ k, s.2 = some k → s.1 = k := by
  have hrun : ((run (step sampleDefaults "rpc://peer:4443") sampleWorld sampleSequential).map
      fun w => w.sessions.map (·.1)) = some [hexEncode (sampleRaw 1), hexEncode (sampleRaw 1)] := by
    decide +kernel
  obtain ⟨w, hw, hsessions⟩ := Option.map_eq_some_iff.mp hrun
  exact ⟨w, hw, hsessions, (first_key_kept sampleDefaults "rpc://peer:4443" rfl rfl
    (.of_meetsBy (firstUseBy_sound "rpc://peer:4443") (by decide +kernel)) hw).2⟩

/-- **A known key may be replaced**: of two calls that found no key, the second
to finish overwrites the key of the first, and a call that expected that key
then returns a session for a server whose key is no longer the known one. -/
theorem first_key_lost : ∃ w₁ w,
    run (step sampleDefaults "rpc://peer:4443") sampleWorld (sampleRace.take 3) = some w₁ ∧
    run (step sampleDefaults "rpc://peer:4443") sampleWorld sampleRace = some w ∧
    w₁.known "rpc://peer:4443" = some (hexEncode (sampleRaw 1)) ∧
    w.known "rpc://peer:4443" = some (hexEncode (sampleRaw 2)) ∧
    (hexEncode (sampleRaw 1), some (hexEncode (sampleRaw 2))) ∈ w.sessions := by
  have hfirst : ((run (step sampleDefaults "rpc://peer:4443") sampleWorld (sampleRace.take 3)).map
      fun w => w.known "rpc://peer:4443") = some (some (hexEncode (sampleRaw 1))) := by
    decide +kernel
  have hlast : ((run (step sampleDefaults "rpc://peer:4443") sampleWorld sampleRace).map
      fun w => (w.known "rpc://peer:4443",
        w.sessions.contains (hexEncode (sampleRaw 1), some (hexEncode (sampleRaw 2))))) =
      some (some (hexEncode (sampleRaw 2)), true) := by
    decide +kernel
  obtain ⟨w₁, hw₁, hknown₁⟩ := Option.map_eq_some_iff.mp hfirst
  obtain ⟨w, hw, heq⟩ := Option.map_eq_some_iff.mp hlast
  obtain ⟨hknown, hsession⟩ := Prod.mk.inj heq
  exact ⟨w₁, w, hw₁, hw, hknown₁, hknown, List.contains_iff_mem.mp hsession⟩

end RemoteTrust

end Imago
