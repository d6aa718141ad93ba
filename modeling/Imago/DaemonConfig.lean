/-
Imago/DaemonConfig.lean

The daemon's configuration (`imagod-config`): how `imagod.toml` is decoded and
validated, and how a public key is added to it.

`loadRoot` is `ImagodConfig::load` behind reading and parsing the file.  An
update edits the parsed document (`UpsertKind.edit`); `edit_spec` says what
this does to a valid one.  It stays valid, the loaded configuration changes in
the two key lists as `ImagodConfig.upsert` says, and outside of them the
document is the same (`SameOutside`).
-/
import Imago.Toml
import Imago.Errors

namespace Imago

/-! ### Public keys -/

/-- `decode_hex_nibble`. -/
def decodeHexNibble (c : Char) : Option Nat :=
  let n := c.toNat
  if 48 ≤ n ∧ n ≤ 57 then some (n - 48)
  else if 97 ≤ n ∧ n ≤ 102 then some (n - 97 + 10)
  else if 65 ≤ n ∧ n ≤ 70 then some (n - 65 + 10)
  else none

/-- Two digits a byte. -/
def pairNibbles : List Nat → List Nat
  | hi :: lo :: rest => (hi * 16 + lo) :: pairNibbles rest
  | _ => []

/-- `parse_ed25519_raw_public_key_hex`.  Before the first character that is no
digit every character is one byte, so its index is the position of the byte. -/
def parseEd25519RawPublicKeyHex (value : String) : Except String (List Nat) :=
  if strLen value ≠ 64 then
    .error ("must be 64 hex characters (got " ++ toString (strLen value) ++ ")")
  else
    match value.toList.findIdx? fun c => (decodeHexNibble c).isNone with
    | some pos =>
      .error ("must contain only hex characters (invalid byte at position " ++ toString pos ++ ")")
    | none => .ok (pairNibbles (value.toList.filterMap decodeHexNibble))

/-! ### The configuration -/

structure TlsConfig where
  serverKey : String
  clientPublicKeys : List String
  knownPublicKeys : List (String × String)

inductive RuntimeFeatures where
  | enabled (all : Bool)
  | packages (names : List String)

structure RuntimeConfig where
  chunkSize : Nat
  maxInflightChunks : Nat
  maxArtifactSizeBytes : Nat
  uploadSessionTtlSecs : Nat
  stopGraceTimeoutSecs : Nat
  runnerReadyTimeoutSecs : Nat
  runnerLogBufferBytes : Nat
  retainedLogsCapacityBytes : Nat
  committedSessionTtlSecs : Nat
  maxCommittedSessions : Nat
  epochTickIntervalMs : Nat
  wasmMemoryReservationBytes : Nat
  wasmMemoryReservationForGrowthBytes : Nat
  wasmMemoryGuardSizeBytes : Nat
  wasmGuardBeforeLinearMemory : Bool
  wasmParallelCompilation : Bool
  httpWorkerCount : Nat
  httpWorkerQueueCapacity : Nat
  httpQueueMemoryBudgetBytes : Nat
  managerControlReadTimeoutMs : Nat
  maxConcurrentSessions : Nat
  deployStreamTimeoutSecs : Nat
  transportKeepaliveIntervalSecs : Nat
  transportMaxIdleTimeoutSecs : Nat
  bootPluginGcEnabled : Bool
  bootRestoreEnabled : Bool
  features : RuntimeFeatures

structure ImagodConfig where
  listenAddr : String
  controlSocketPath : String
  tls : TlsConfig
  storageRoot : String
  runtime : RuntimeConfig
  serverVersion : String

/-! ### Decoding -/

def decodeFeatures : Toml → Option RuntimeFeatures
  | .bool all => some (.enabled all)
  | v => v.asStrings.map .packages

/-- The fields of `[runtime]` with their defaults. -/
def decodeRuntime (t : Table) : Option RuntimeConfig := do
  let u64 := Toml.asUnsigned 64
  let u32 := Toml.asUnsigned 32
  return {
    chunkSize := ← fieldOr t "chunk_size" u64 (1024 * 1024)
    maxInflightChunks := ← fieldOr t "max_inflight_chunks" u64 16
    maxArtifactSizeBytes := ← fieldOr t "max_artifact_size_bytes" u64 (64 * 1024 * 1024)
    uploadSessionTtlSecs := ← fieldOr t "upload_session_ttl_secs" u64 (15 * 60)
    stopGraceTimeoutSecs := ← fieldOr t "stop_grace_timeout_secs" u64 30
    runnerReadyTimeoutSecs := ← fieldOr t "runner_ready_timeout_secs" u64 60
    runnerLogBufferBytes := ← fieldOr t "runner_log_buffer_bytes" u64 (256 * 1024)
    retainedLogsCapacityBytes := ← fieldOr t "retained_logs_capacity_bytes" u64 (2 * (256 * 1024))
    committedSessionTtlSecs := ← fieldOr t "committed_session_ttl_secs" u64 120
    maxCommittedSessions := ← fieldOr t "max_committed_sessions" u64 16
    epochTickIntervalMs := ← fieldOr t "epoch_tick_interval_ms" u64 50
    wasmMemoryReservationBytes :=
      ← fieldOr t "wasm_memory_reservation_bytes" u64 (64 * 1024 * 1024)
    wasmMemoryReservationForGrowthBytes :=
      ← fieldOr t "wasm_memory_reservation_for_growth_bytes" u64 (16 * 1024 * 1024)
    wasmMemoryGuardSizeBytes := ← fieldOr t "wasm_memory_guard_size_bytes" u64 (64 * 1024)
    wasmGuardBeforeLinearMemory := ← fieldOr t "wasm_guard_before_linear_memory" Toml.asBool false
    wasmParallelCompilation := ← fieldOr t "wasm_parallel_compilation" Toml.asBool false
    httpWorkerCount := ← fieldOr t "http_worker_count" u32 2
    httpWorkerQueueCapacity := ← fieldOr t "http_worker_queue_capacity" u32 4
    httpQueueMemoryBudgetBytes :=
      ← fieldOr t "http_queue_memory_budget_bytes" u64 (32 * 1024 * 1024)
    managerControlReadTimeoutMs := ← fieldOr t "manager_control_read_timeout_ms" u64 500
    maxConcurrentSessions := ← fieldOr t "max_concurrent_sessions" u32 256
    deployStreamTimeoutSecs := ← fieldOr t "deploy_stream_timeout_secs" u64 15
    transportKeepaliveIntervalSecs := ← fieldOr t "transport_keepalive_interval_secs" u64 5
    transportMaxIdleTimeoutSecs := ← fieldOr t "transport_max_idle_timeout_secs" u64 180
    bootPluginGcEnabled := ← fieldOr t "boot_plugin_gc_enabled" Toml.asBool true
    bootRestoreEnabled := ← fieldOr t "boot_restore_enabled" Toml.asBool true
    features := ← fieldOr t "features" decodeFeatures (.enabled false) }

def decodeTls (t : Table) : Option TlsConfig := do
  return {
    serverKey := ← field t "server_key" Toml.asStr
    clientPublicKeys := ← field t "client_public_keys" Toml.asStrings
    knownPublicKeys := ← fieldOr t "known_public_keys" Toml.asStringMap [] }

/-- What is fixed when the daemon is built: the storage root and the version
that a missing field stands for. -/
structure BuildDefaults where
  storageRoot : String
  serverVersion : String

def sampleDefaults : BuildDefaults := ⟨"/var/lib/imago", "imagod/0"⟩

/-- `load::parsing::decode`; the text of a decoding error is the decoder's. -/
def decodeConfig (d : BuildDefaults) (root : Table) : Option ImagodConfig := do
  -- a reference for editors, which must be a text and is not kept
  let _ ← fieldOr root "$schema" Toml.asStr ""
  return {
    listenAddr := ← fieldOr root "listen_addr" Toml.asStr "[::]:4443"
    controlSocketPath := ← fieldOr root "control_socket_path" Toml.asStr "/run/imago/imagod.sock"
    tls := ← field root "tls" fun v => v.asTable.bind decodeTls
    storageRoot := ← fieldOr root "storage_root" Toml.asStr d.storageRoot
    runtime := ← decodeRuntime (← fieldOr root "runtime" Toml.asTable [])
    serverVersion := ← fieldOr root "server_version" Toml.asStr d.serverVersion }

/-! ### Validation -/

def stageConfigLoad : String := "config.load"

def require (ok : Bool) (message : String) : Except ImagodError Unit :=
  if ok then .ok () else .error (.new .badRequest stageConfigLoad message)

/-- `parse_unique_public_key_hexes`, with the keys seen so far. -/
def parseUniquePublicKeyHexes (fieldName : String) :
    Nat → List (List Nat) → List String → Except ImagodError (List (List Nat))
  | _, seen, [] => .ok seen
  | index, seen, key :: keys =>
    match parseEd25519RawPublicKeyHex key with
    | .error reason =>
      .error ((ImagodError.new .badRequest stageConfigLoad
        (fieldName ++ "[" ++ toString index ++ "] " ++ reason)).withDetail "index" (toString index))
    | .ok decoded =>
      if decoded ∈ seen then
        .error ((ImagodError.new .badRequest stageConfigLoad
          (fieldName ++ "[" ++ toString index ++ "] is duplicated")).withDetail "index"
            (toString index))
      else parseUniquePublicKeyHexes fieldName (index + 1) (decoded :: seen) keys

/-- `parse_known_public_key_map`. -/
def parseKnownPublicKeyMap : List (String × String) → Except ImagodError Unit
  | [] => .ok ()
  | (authority, key) :: entries =>
    let trimmed := trim authority
    if trimmed.isEmpty then
      .error (.new .badRequest stageConfigLoad "tls.known_public_keys authority must not be empty")
    else
      match parseEd25519RawPublicKeyHex key with
      | .error reason =>
        .error ((ImagodError.new .badRequest stageConfigLoad
          ("tls.known_public_keys['" ++ trimmed ++ "'] " ++ reason)).withDetail "authority" trimmed)
      | .ok _ => parseKnownPublicKeyMap entries

/-- The names in `BUILTIN_NATIVE_PLUGIN_DESCRIPTORS`. -/
def builtinNativePluginPackageNames : List String :=
  ["imago:admin", "imago:node", "imago:experimental-gpio", "imago:experimental-i2c", "imago:usb",
    "imago:v4l2"]

/-- `validate_runtime_features`. -/
def validateRuntimeFeatures : RuntimeFeatures → Except ImagodError Unit
  | .enabled _ => .ok ()
  | .packages names =>
    match names.findIdx? fun name => name ∉ builtinNativePluginPackageNames with
    | none => .ok ()
    | some index =>
      let name := names.getD index ""
      .error (((ImagodError.new .badRequest stageConfigLoad
        ("runtime.features[" ++ toString index ++ "] must be one of: " ++
          ", ".intercalate builtinNativePluginPackageNames ++ " (got '" ++ name ++ "')")).withDetail
            "index" (toString index)).withDetail "value" name)

/-- `MAX_CHUNK_SIZE_BYTES`. -/
def maxChunkSizeBytes : Nat := 8 * 1024 * 1024

/-- `MAX_HTTP_QUEUE_MEMORY_BUDGET_BYTES`. -/
def maxHttpQueueMemoryBudgetBytes : Nat := 64 * 1024 * 1024

def requirePositive (value : Nat) (name : String) : Except ImagodError Unit :=
  require (decide (0 < value)) ("runtime." ++ name ++ " must be greater than 0")

/-- The checks of `validate` on `[runtime]`. -/
def validateRuntime (r : RuntimeConfig) : Except ImagodError Unit := do
  validateRuntimeFeatures r.features
  requirePositive r.stopGraceTimeoutSecs "stop_grace_timeout_secs"
  requirePositive r.epochTickIntervalMs "epoch_tick_interval_ms"
  requirePositive r.wasmMemoryReservationBytes "wasm_memory_reservation_bytes"
  requirePositive r.wasmMemoryReservationForGrowthBytes "wasm_memory_reservation_for_growth_bytes"
  requirePositive r.runnerReadyTimeoutSecs "runner_ready_timeout_secs"
  requirePositive r.runnerLogBufferBytes "runner_log_buffer_bytes"
  requirePositive r.retainedLogsCapacityBytes "retained_logs_capacity_bytes"
  requirePositive r.committedSessionTtlSecs "committed_session_ttl_secs"
  requirePositive r.maxCommittedSessions "max_committed_sessions"
  require (decide (1 ≤ r.httpWorkerCount ∧ r.httpWorkerCount ≤ 4))
    "runtime.http_worker_count must be between 1 and 4"
  require (decide (1 ≤ r.httpWorkerQueueCapacity ∧ r.httpWorkerQueueCapacity ≤ 16))
    "runtime.http_worker_queue_capacity must be between 1 and 16"
  require (decide (r.httpQueueMemoryBudgetBytes ≠ 0 ∧
      r.httpQueueMemoryBudgetBytes ≤ maxHttpQueueMemoryBudgetBytes))
    ("runtime.http_queue_memory_budget_bytes must be in range 1..=" ++
      toString maxHttpQueueMemoryBudgetBytes)
  requirePositive r.managerControlReadTimeoutMs "manager_control_read_timeout_ms"
  requirePositive r.maxConcurrentSessions "max_concurrent_sessions"
  requirePositive r.deployStreamTimeoutSecs "deploy_stream_timeout_secs"
  requirePositive r.transportKeepaliveIntervalSecs "transport_keepalive_interval_secs"
  requirePositive r.transportMaxIdleTimeoutSecs "transport_max_idle_timeout_secs"
  require (decide (r.transportKeepaliveIntervalSecs < r.transportMaxIdleTimeoutSecs))
    ("runtime.transport_keepalive_interval_secs must be less than " ++
      "runtime.transport_max_idle_timeout_secs")
  requirePositive r.maxArtifactSizeBytes "max_artifact_size_bytes"
  requirePositive r.chunkSize "chunk_size"
  require (decide (r.chunkSize ≤ maxChunkSizeBytes))
    ("runtime.chunk_size must be less than or equal to " ++ toString maxChunkSizeBytes)
  requirePositive r.maxInflightChunks "max_inflight_chunks"

/-- `load::validation::validate`. -/
def validateConfig (c : ImagodConfig) : Except ImagodError Unit := do
  require (!c.controlSocketPath.isEmpty) "control_socket_path must not be empty"
  require (c.controlSocketPath.toList.head? == some '/')
    ("control_socket_path must be an absolute path: " ++ c.controlSocketPath)
  let _ ← parseUniquePublicKeyHexes "tls.client_public_keys" 0 [] c.tls.clientPublicKeys
  parseKnownPublicKeyMap c.tls.knownPublicKeys
  validateRuntime c.runtime

/-- `ImagodConfig::load` of a file that has been parsed. -/
def loadRoot (d : BuildDefaults) (root : Table) : Except ImagodError ImagodConfig :=
  match decodeConfig d root with
  | none => .error (.new .badRequest stageConfigLoad "config decode failed")
  | some c => (validateConfig c).map fun _ => c

/-! ### Adding a key -/

def stageConfigUpdate : String := "config.update"

def updateError (message : String) : ImagodError := .new .badRequest stageConfigUpdate message

/-- `upsert_tls_known_client_key` and `upsert_tls_known_public_key`. -/
inductive UpsertKind where
  | clientKey
  | publicKey
  deriving DecidableEq

/-- The checks of an update's arguments. -/
def checkUpsert (authority publicKeyHex : String) : Except ImagodError Unit :=
  if (trim authority).isEmpty then .error (updateError "authority must not be empty")
  else
    match parseEd25519RawPublicKeyHex publicKeyHex with
    | .error reason => .error (updateError ("public key is invalid: " ++ reason))
    | .ok _ => .ok ()

/-- `ensure_tls_table_mut`. -/
def ensureTlsTable (root : Table) : Except ImagodError Table :=
  match root.lookup "tls" with
  | none => .ok []
  | some (.table tls) => .ok tls
  | some _ => .error (updateError "tls must be a table")

/-- The keys of the list in lower case. -/
def normalizeKeys : Nat → List Toml → Except ImagodError (List String)
  | _, [] => .ok []
  | index, .str text :: values =>
    (normalizeKeys (index + 1) values).map (toAsciiLowercase text :: ·)
  | index, _ :: _ =>
    .error (updateError ("tls.client_public_keys[" ++ toString index ++ "] must be a string"))

/-- `upsert_client_public_key_value`. -/
def upsertClientPublicKeyValue (tls : Table) (keyHex : String) : Except ImagodError Table :=
  match (tls.lookup "client_public_keys").getD (.array []) with
  | .array values => do
      let normalized ← normalizeKeys 0 values
      let keys := if keyHex ∈ normalized then normalized else normalized ++ [keyHex]
      return insertKey tls "client_public_keys" (.array (keys.map .str))
  | _ => .error (updateError "tls.client_public_keys must be an array")

/-- `upsert_known_public_key_value`. -/
def upsertKnownPublicKeyValue (tls : Table) (authority keyHex : String) :
    Except ImagodError Table :=
  match (tls.lookup "known_public_keys").getD (.table []) with
  | .table map =>
    match map.find? fun e => e.2.asStr.isNone with
    | some (existing, _) =>
      .error (updateError ("tls.known_public_keys['" ++ existing ++ "'] must be a string"))
    | none => .ok (insertKey tls "known_public_keys"
        (.table (insertKey map authority (.str keyHex))))
  | _ => .error (updateError "tls.known_public_keys must be a table")

/-- The edit of a parsed document. -/
def UpsertKind.edit (kind : UpsertKind) (authority publicKeyHex : String) (root : Table) :
    Except ImagodError Table := do
  let tls ← ensureTlsTable root
  let keyLower := toAsciiLowercase publicKeyHex
  let tls ←
    match kind with
    | .clientKey => upsertClientPublicKeyValue tls keyLower
    | .publicKey => pure tls
  let tls ← upsertKnownPublicKeyValue tls (trim authority) keyLower
  return insertKey root "tls" (.table tls)

/-! ### What an update does to a valid configuration -/

/-- The client keys in lower case, with one more. -/
def addClientKey (keys : List String) (keyHex : String) : List String :=
  let normalized := keys.map toAsciiLowercase
  if keyHex ∈ normalized then normalized else normalized ++ [keyHex]

/-- The configuration with one key more. -/
def ImagodConfig.upsert (c : ImagodConfig) (kind : UpsertKind) (authority publicKeyHex : String) :
    ImagodConfig :=
  let keyLower := toAsciiLowercase publicKeyHex
  { c with tls := { c.tls with
      clientPublicKeys :=
        match kind with
        | .clientKey => addClientKey c.tls.clientPublicKeys keyLower
        | .publicKey => c.tls.clientPublicKeys
      knownPublicKeys := insertKey c.tls.knownPublicKeys (trim authority) keyLower } }

/-- The document has a `[tls]` table. -/
def tlsOf (root : Table) : Table := ((root.lookup "tls").bind Toml.asTable).getD []

/-- Two documents that differ at most in the two lists of keys. -/
def SameOutside (root root' : Table) : Prop :=
  (∀ key, key ≠ "tls" → root'.lookup key = root.lookup key) ∧
    ∀ key, key ≠ "client_public_keys" → key ≠ "known_public_keys" →
      (tlsOf root').lookup key = (tlsOf root).lookup key

theorem SameOutside.refl (root : Table) : SameOutside root root :=
  ⟨fun _ _ => rfl, fun _ _ _ => rfl⟩

theorem SameOutside.trans {r₁ r₂ r₃ : Table} (h : SameOutside r₁ r₂) (h' : SameOutside r₂ r₃) :
    SameOutside r₁ r₃ :=
  ⟨fun key hkey => (h'.1 key hkey).trans (h.1 key hkey),
    fun key hclient hknown => (h'.2 key hclient hknown).trans (h.2 key hclient hknown)⟩

section Decode

variable {tls : Table} {t : TlsConfig}

theorem normalizeKeys_eq {values : List Toml} {keys : List String}
    (h : values.mapM Toml.asStr = some keys) (index : Nat) :
    normalizeKeys index values = .ok (keys.map toAsciiLowercase) := by
  induction values generalizing keys index with
  | nil =>
    obtain rfl : keys = [] := by simpa using h.symm
    rfl
  | cons v values ih =>
    rw [List.mapM_cons] at h
    simp only [Option.bind_eq_bind, Option.bind_eq_some_iff] at h
    obtain ⟨text, htext, keys', hkeys, hcons⟩ := h
    obtain rfl : text :: keys' = keys := Option.some.inj hcons
    cases v with
    | str s =>
      obtain rfl : s = text := Option.some.inj htext
      rw [normalizeKeys, ih hkeys]
      rfl
    | _ => cases htext

theorem mapM_asStr_str (keys : List String) : (keys.map Toml.str).mapM Toml.asStr = some keys := by
  induction keys with
  | nil => rfl
  | cons key keys ih =>
    rw [List.map_cons, List.mapM_cons, ih]
    rfl

/-- The fields of a table that has been decoded. -/
theorem decodeTls_eq_some : decodeTls tls = some t ↔
    field tls "server_key" Toml.asStr = some t.serverKey ∧
      field tls "client_public_keys" Toml.asStrings = some t.clientPublicKeys ∧
      fieldOr tls "known_public_keys" Toml.asStringMap [] = some t.knownPublicKeys := by
  simp only [decodeTls, Option.bind_eq_bind, Option.bind_eq_some_iff]
  constructor
  · rintro ⟨serverKey, h₁, clientKeys, h₂, knownKeys, h₃, heq⟩
    cases heq
    exact ⟨h₁, h₂, h₃⟩
  · rintro ⟨h₁, h₂, h₃⟩
    exact ⟨_, h₁, _, h₂, _, h₃, rfl⟩

theorem upsertClientPublicKeyValue_spec (h : decodeTls tls = some t) (keyHex : String) :
    ∃ v, upsertClientPublicKeyValue tls keyHex = .ok (insertKey tls "client_public_keys" v) ∧
      decodeTls (insertKey tls "client_public_keys" v) =
        some { t with clientPublicKeys := addClientKey t.clientPublicKeys keyHex } := by
  obtain ⟨hserver, hclient, hknown⟩ := decodeTls_eq_some.mp h
  obtain ⟨v, hv, hstrings⟩ := Option.bind_eq_some_iff.mp hclient
  obtain ⟨values, hvalues, hkeys⟩ := Option.bind_eq_some_iff.mp hstrings
  obtain rfl := Toml.asArray_eq_some.mp hvalues
  refine ⟨.array ((addClientKey t.clientPublicKeys keyHex).map .str), ?_, ?_⟩
  · rw [upsertClientPublicKeyValue, hv]
    show (normalizeKeys 0 values).bind _ = _
    rw [normalizeKeys_eq hkeys]
    rfl
  · refine decodeTls_eq_some.mpr ⟨?_, ?_, ?_⟩
    · rw [field_insertKey_ne _ (by decide), hserver]
    · rw [field, lookup_insertKey_self]
      exact mapM_asStr_str _
    · rw [fieldOr_insertKey_ne _ (by decide), hknown]

/-- The entries of a map of strings are strings. -/
theorem find?_asStr_eq_none {map : Table} {entries : List (String × String)}
    (h : map.mapM (fun e => (Toml.asStr e.2).map (e.1, ·)) = some entries) :
    (map.find? fun e => e.2.asStr.isNone) = none := by
  induction map generalizing entries with
  | nil => rfl
  | cons e map ih =>
    obtain ⟨text, entries', htext, hentries, -⟩ := mapM_values_cons h
    rw [List.find?_cons_of_neg (by rw [htext]; simp), ih hentries]

theorem upsertKnownPublicKeyValue_spec (h : decodeTls tls = some t) (authority keyHex : String) :
    ∃ v, upsertKnownPublicKeyValue tls authority keyHex =
        .ok (insertKey tls "known_public_keys" v) ∧
      decodeTls (insertKey tls "known_public_keys" v) =
        some { t with knownPublicKeys := insertKey t.knownPublicKeys authority keyHex } := by
  obtain ⟨hserver, hclient, hknown⟩ := decodeTls_eq_some.mp h
  -- a missing table is an empty one
  obtain ⟨map, hmap, hentries⟩ : ∃ map, (tls.lookup "known_public_keys").getD (.table []) =
      .table map ∧ map.mapM (fun e => (Toml.asStr e.2).map (e.1, ·)) = some t.knownPublicKeys := by
    rw [fieldOr] at hknown
    rcases hlookup : tls.lookup "known_public_keys" with - | v
    · rw [hlookup] at hknown
      obtain hknown : [] = t.knownPublicKeys := Option.some.inj hknown
      exact ⟨[], rfl, by rw [← hknown]; rfl⟩
    · rw [hlookup] at hknown
      obtain ⟨map, hmap, hentries⟩ := Option.bind_eq_some_iff.mp hknown
      exact ⟨map, Toml.asTable_eq_some.mp hmap, hentries⟩
  refine ⟨.table (insertKey map authority (.str keyHex)), ?_, ?_⟩
  · rw [upsertKnownPublicKeyValue, hmap]
    simp only [find?_asStr_eq_none hentries]
  · refine decodeTls_eq_some.mpr ⟨?_, ?_, ?_⟩
    · rw [field_insertKey_ne _ (by decide), hserver]
    · rw [field_insertKey_ne _ (by decide), hclient]
    · rw [fieldOr, lookup_insertKey_self]
      exact mapM_insertKey hentries rfl

end Decode

variable {c : ImagodConfig} {d : BuildDefaults} {root : Table}

theorem decodeConfig_eq_some :
    decodeConfig d root = some c ↔
      (∃ schema, fieldOr root "$schema" Toml.asStr "" = some schema) ∧
      fieldOr root "listen_addr" Toml.asStr "[::]:4443" = some c.listenAddr ∧
      fieldOr root "control_socket_path" Toml.asStr "/run/imago/imagod.sock" =
        some c.controlSocketPath ∧
      (field root "tls" fun v => v.asTable.bind decodeTls) = some c.tls ∧
      fieldOr root "storage_root" Toml.asStr d.storageRoot = some c.storageRoot ∧
      (fieldOr root "runtime" Toml.asTable []).bind decodeRuntime = some c.runtime ∧
      fieldOr root "server_version" Toml.asStr d.serverVersion = some c.serverVersion := by
  simp only [decodeConfig, Option.bind_eq_bind, Option.bind_eq_some_iff]
  constructor
  · rintro ⟨schema, h₀, listen, h₁, socket, h₂, tls, h₃, storage, h₄, table, h₅, runtime, h₆,
      version, h₇, heq⟩
    cases heq
    exact ⟨⟨schema, h₀⟩, h₁, h₂, h₃, h₄, ⟨table, h₅, h₆⟩, h₇⟩
  · rintro ⟨⟨schema, h₀⟩, h₁, h₂, h₃, h₄, ⟨table, h₅, h₆⟩, h₇⟩
    exact ⟨schema, h₀, c.listenAddr, h₁, c.controlSocketPath, h₂, c.tls, h₃, c.storageRoot, h₄,
      table, h₅, c.runtime, h₆, c.serverVersion, h₇, rfl⟩

/-- An edit of `[tls]` and what it decodes to. -/
theorem edit_decode (h : decodeConfig d root = some c) (kind : UpsertKind)
    (authority publicKeyHex : String) :
    ∃ root', kind.edit authority publicKeyHex root = .ok root' ∧
      decodeConfig d root' = some (c.upsert kind authority publicKeyHex) ∧
      SameOutside root root' := by
  obtain ⟨⟨schema, h₀⟩, h₁, h₂, htls, h₄, h₅, h₆⟩ := decodeConfig_eq_some.mp h
  obtain ⟨v, hv, htable⟩ := Option.bind_eq_some_iff.mp htls
  obtain ⟨tls, hasTable, hdecode⟩ := Option.bind_eq_some_iff.mp htable
  obtain rfl := Toml.asTable_eq_some.mp hasTable
  have hensure : ensureTlsTable root = .ok tls := by rw [ensureTlsTable, hv]
  have htlsOf : tlsOf root = tls := by rw [tlsOf, hv]; rfl
  have hmain : ∀ {tls' : Table} {t : TlsConfig}, decodeTls tls' = some t →
      (∀ key, key ≠ "client_public_keys" → tls'.lookup key = tls.lookup key) →
      t = { c.tls with clientPublicKeys := t.clientPublicKeys } →
      ∃ tls'', upsertKnownPublicKeyValue tls' (trim authority) (toAsciiLowercase publicKeyHex) =
          .ok tls'' ∧
        decodeConfig d (insertKey root "tls" (.table tls'')) =
          some { c with tls := { c.tls with
            clientPublicKeys := t.clientPublicKeys
            knownPublicKeys := insertKey c.tls.knownPublicKeys (trim authority)
              (toAsciiLowercase publicKeyHex) } } ∧
        SameOutside root (insertKey root "tls" (.table tls'')) := by
    intro tls' t ht hsame heq
    obtain ⟨known, hupsert, hknown⟩ :=
      upsertKnownPublicKeyValue_spec ht (trim authority) (toAsciiLowercase publicKeyHex)
    refine ⟨_, hupsert, decodeConfig_eq_some.mpr ⟨⟨schema, ?_⟩, ?_, ?_, ?_, ?_, ?_, ?_⟩, ?_, ?_⟩
    · rw [fieldOr_insertKey_ne _ (by decide), h₀]
    · rw [fieldOr_insertKey_ne _ (by decide), h₁]
    · rw [fieldOr_insertKey_ne _ (by decide), h₂]
    · rw [field, lookup_insertKey_self]
      refine hknown.trans ?_
      rw [heq]
    · rw [fieldOr_insertKey_ne _ (by decide), h₄]
    · rw [fieldOr_insertKey_ne _ (by decide), h₅]
    · rw [fieldOr_insertKey_ne _ (by decide), h₆]
    · exact fun key hkey => lookup_insertKey_ne root hkey _
    · intro key hclient hknown'
      rw [htlsOf, tlsOf, lookup_insertKey_self]
      show (insertKey tls' "known_public_keys" known).lookup key = _
      rw [lookup_insertKey_ne _ hknown', hsame key hclient]
  cases kind with
  | clientKey =>
    obtain ⟨keys, hupsert, hkeys⟩ :=
      upsertClientPublicKeyValue_spec hdecode (toAsciiLowercase publicKeyHex)
    obtain ⟨tls'', hedit, hdone⟩ := hmain hkeys
      (fun key hkey => lookup_insertKey_ne tls hkey _) rfl
    refine ⟨_, ?_, hdone⟩
    simp only [UpsertKind.edit, hensure, hupsert, hedit, bind, Except.bind, pure, Except.pure]
  | publicKey =>
    obtain ⟨tls'', hedit, hdone⟩ := hmain hdecode (fun _ _ => rfl) rfl
    refine ⟨_, ?_, hdone⟩
    simp only [UpsertKind.edit, hensure, hedit, bind, Except.bind, pure, Except.pure]

/-! ### Keys that stay valid -/

section Keys

variable {k k' : String} {value : List Nat}

theorem decodeHexNibble_toLower (c : Char) : decodeHexNibble c.toLower = decodeHexNibble c := by
  simp only [decodeHexNibble, toNat_toLower]
  split <;> grind

/-- A digit is determined by its value, up to its case. -/
theorem toLower_eq_of_nibble {c c' : Char} {n : Nat} (h : decodeHexNibble c = some n)
    (h' : decodeHexNibble c' = some n) : c.toLower = c'.toLower := by
  refine Char.toNat_inj.mp ?_
  rw [toNat_toLower, toNat_toLower]
  simp only [decodeHexNibble] at h h'
  grind

theorem nibble_lt {c : Char} {n : Nat} (h : decodeHexNibble c = some n) : n < 16 := by
  simp only [decodeHexNibble] at h
  grind

theorem parse_eq_ok : parseEd25519RawPublicKeyHex k = .ok value ↔
    strLen k = 64 ∧ (∀ c ∈ k.toList, (decodeHexNibble c).isSome) ∧
      pairNibbles (k.toList.filterMap decodeHexNibble) = value := by
  rw [parseEd25519RawPublicKeyHex]
  by_cases hlen : strLen k = 64
  · rw [if_neg (by simp [hlen])]
    split
    · rename_i pos hpos
      obtain ⟨hlt, hnone, -⟩ := List.findIdx?_eq_some_iff_getElem.mp hpos
      refine ⟨nofun, fun h => ?_⟩
      have := h.2.1 _ (List.getElem_mem hlt)
      rw [Option.isNone_iff_eq_none.mp hnone] at this
      cases this
    · rename_i hnone
      have hall : ∀ c ∈ k.toList, (decodeHexNibble c).isSome := by
        intro c hc
        have := List.findIdx?_eq_none_iff.mp hnone c hc
        simpa using this
      exact ⟨fun h => ⟨hlen, hall, Except.ok.inj h⟩, fun h => congrArg _ h.2.2⟩
  · rw [if_pos hlen]
    exact ⟨nofun, fun h => absurd h.1 hlen⟩

/-- The key that a text stands for. -/
@[irreducible] def keyOf (k : String) : Option (List Nat) :=
  (parseEd25519RawPublicKeyHex k).toOption

theorem keyOf_eq_some : keyOf k = some value ↔ parseEd25519RawPublicKeyHex k = .ok value := by
  rw [keyOf]
  rcases parseEd25519RawPublicKeyHex k with e | v
  · exact ⟨nofun, nofun⟩
  · exact ⟨fun h => congrArg _ (Option.some.inj h), fun h => congrArg _ (Except.ok.inj h)⟩

/-- The case of a key does not matter. -/
theorem keyOf_toAsciiLowercase (k : String) : keyOf (toAsciiLowercase k) = keyOf k := by
  refine Option.ext fun value => ?_
  rw [keyOf_eq_some, keyOf_eq_some, parse_eq_ok, parse_eq_ok, strLen_toAsciiLowercase,
    toList_toAsciiLowercase, List.filterMap_map]
  simp only [List.mem_map, forall_exists_index, and_imp, forall_apply_eq_imp_iff₂,
    decodeHexNibble_toLower, Function.comp_def]

/-- Two lists of digits that give the same bytes are the same up to case. -/
theorem map_toLower_of_pairNibbles {cs cs' : List Char} (hlen : cs.length = cs'.length)
    (hcs : ∀ c ∈ cs, (decodeHexNibble c).isSome) (hcs' : ∀ c ∈ cs', (decodeHexNibble c).isSome)
    (heven : cs.length % 2 = 0)
    (h : pairNibbles (cs.filterMap decodeHexNibble) = pairNibbles (cs'.filterMap decodeHexNibble)) :
    cs.map Char.toLower = cs'.map Char.toLower := by
  match cs, cs' with
  | [], [] => rfl
  | [_], _ => simp at heven
  | _ :: _ :: _, [_] => simp at hlen
  | hi :: lo :: cs, hi' :: lo' :: cs' =>
    simp only [List.forall_mem_cons, Option.isSome_iff_exists] at hcs hcs'
    obtain ⟨⟨n, hn⟩, ⟨m, hm⟩, hrest⟩ := hcs
    obtain ⟨⟨n', hn'⟩, ⟨m', hm'⟩, hrest'⟩ := hcs'
    simp only [List.filterMap_cons, hn, hm, hn', hm', pairNibbles, List.cons.injEq] at h
    have hlt := nibble_lt hm
    have hlt' := nibble_lt hm'
    obtain rfl : n = n' := by omega
    obtain rfl : m = m' := by omega
    have ih : cs.map Char.toLower = cs'.map Char.toLower :=
      map_toLower_of_pairNibbles (by simpa using hlen)
        (fun c hc => Option.isSome_iff_exists.mpr (hrest c hc))
        (fun c hc => Option.isSome_iff_exists.mpr (hrest' c hc))
        (by simp only [List.length_cons] at heven; omega) h.2
    rw [List.map_cons, List.map_cons, List.map_cons, List.map_cons, ih,
      toLower_eq_of_nibble hn hn', toLower_eq_of_nibble hm hm']

/-- Digits are one byte each. -/
theorem strLen_eq_length (h : ∀ c ∈ k.toList, (decodeHexNibble c).isSome) :
    strLen k = k.toList.length := by
  rw [strLen]
  have hone : k.toList.map Char.utf8Size = k.toList.map fun _ => 1 := by
    refine List.map_congr_left fun c hc => Char.utf8Size_eq_one_iff.mpr ?_
    obtain ⟨n, hn⟩ := Option.isSome_iff_exists.mp (h c hc)
    simp only [decodeHexNibble] at hn
    show c.toNat ≤ 127
    grind
  rw [hone]
  simp

/-- A key is determined by its value, up to case. -/
theorem toAsciiLowercase_eq_of_keyOf (h : keyOf k = some value) (h' : keyOf k' = some value) :
    toAsciiLowercase k = toAsciiLowercase k' := by
  obtain ⟨hlen, hdigits, hvalue⟩ := parse_eq_ok.mp (keyOf_eq_some.mp h)
  obtain ⟨hlen', hdigits', hvalue'⟩ := parse_eq_ok.mp (keyOf_eq_some.mp h')
  rw [strLen_eq_length hdigits] at hlen
  rw [strLen_eq_length hdigits'] at hlen'
  refine String.toList_inj.mp ?_
  rw [toList_toAsciiLowercase, toList_toAsciiLowercase]
  exact map_toLower_of_pairNibbles (hlen.trans hlen'.symm) hdigits hdigits' (by rw [hlen])
    (hvalue.trans hvalue'.symm)

end Keys

/-- Client keys that the validator accepts: keys, and no two the same. -/
def ClientKeysOk (keys : List String) : Prop :=
  (∀ k ∈ keys, (keyOf k).isSome) ∧ (keys.map keyOf).Nodup

theorem parseUniquePublicKeyHexes_isOk (fieldName : String) (index : Nat) (seen : List (List Nat))
    (keys : List String) :
    (∃ seen', parseUniquePublicKeyHexes fieldName index seen keys = .ok seen') ↔
      ClientKeysOk keys ∧ ∀ value ∈ seen, some value ∉ keys.map keyOf := by
  induction keys generalizing index seen with
  | nil => exact ⟨fun _ => ⟨⟨by simp, by simp⟩, by simp⟩, fun _ => ⟨seen, rfl⟩⟩
  | cons key keys ih =>
    rw [parseUniquePublicKeyHexes]
    rcases hkey : parseEd25519RawPublicKeyHex key with e | value
    · have hnone : keyOf key = none := by rw [keyOf, hkey]; rfl
      refine ⟨fun ⟨_, h⟩ => (by cases h), fun h => ?_⟩
      have := h.1.1 key (.head _)
      rw [hnone] at this
      cases this
    · have hsome : keyOf key = some value := keyOf_eq_some.mpr hkey
      dsimp only
      by_cases hseen : value ∈ seen
      · rw [if_pos hseen]
        refine ⟨fun ⟨_, h⟩ => (by cases h), fun h => ?_⟩
        exact absurd (hsome ▸ (.head _) : some value ∈ (key :: keys).map keyOf)
          (h.2 value hseen)
      · rw [if_neg hseen, ih]
        simp only [ClientKeysOk, List.forall_mem_cons, List.map_cons, List.nodup_cons, hsome]
        constructor
        · rintro ⟨⟨hall, hnodup⟩, hnew, hold⟩
          refine ⟨⟨⟨rfl, hall⟩, hnew, hnodup⟩, fun v hv => ?_⟩
          refine List.not_mem_cons_of_ne_of_not_mem (fun heq => ?_) (hold v hv)
          exact hseen (Option.some.inj heq ▸ hv)
        · rintro ⟨⟨⟨-, hall⟩, hnew, hnodup⟩, hold⟩
          exact ⟨⟨hall, hnodup⟩, hnew, fun v hv => List.not_mem_of_not_mem_cons (hold v hv)⟩

/-- One more key, in lower case, keeps the list acceptable. -/
theorem clientKeysOk_addClientKey {keys : List String} {key : String} (h : ClientKeysOk keys)
    (hkey : (keyOf key).isSome) : ClientKeysOk (addClientKey keys (toAsciiLowercase key)) := by
  have hmap : (keys.map toAsciiLowercase).map keyOf = keys.map keyOf := by
    rw [List.map_map, show keyOf ∘ toAsciiLowercase = keyOf from funext keyOf_toAsciiLowercase]
  have hall : ∀ k ∈ keys.map toAsciiLowercase, (keyOf k).isSome := by
    intro k hk
    obtain ⟨k', hk', rfl⟩ := List.mem_map.mp hk
    rw [keyOf_toAsciiLowercase]
    exact h.1 k' hk'
  rw [addClientKey]
  split
  · refine ⟨hall, ?_⟩
    rw [hmap]
    exact h.2
  · rename_i hnew
    refine ⟨fun k hk => ?_, ?_⟩
    · rcases List.mem_append.mp hk with hk | hk
      · exact hall k hk
      · rw [List.mem_singleton.mp hk, keyOf_toAsciiLowercase]
        exact hkey
    · rw [List.map_append, hmap, List.map_singleton, keyOf_toAsciiLowercase]
      refine List.nodup_append.mpr ⟨h.2, List.pairwise_singleton _ _,
        fun v hv v' hv' heq => hnew ?_⟩
      obtain ⟨k, hk, rfl⟩ := List.mem_map.mp hv
      obtain rfl := List.mem_singleton.mp hv'
      obtain ⟨value, hvalue⟩ := Option.isSome_iff_exists.mp hkey
      rw [toAsciiLowercase_eq_of_keyOf hvalue (heq.trans hvalue)]
      exact List.mem_map_of_mem hk

theorem parseKnownPublicKeyMap_eq_ok {entries : List (String × String)} :
    parseKnownPublicKeyMap entries = .ok () ↔
      ∀ e ∈ entries, (trim e.1).isEmpty = false ∧ (keyOf e.2).isSome := by
  induction entries with
  | nil => exact ⟨fun _ => by simp, fun _ => rfl⟩
  | cons e entries ih =>
    obtain ⟨authority, key⟩ := e
    rw [parseKnownPublicKeyMap, List.forall_mem_cons, ← ih]
    dsimp only
    by_cases hempty : (trim authority).isEmpty = true
    · rw [if_pos hempty]
      exact ⟨nofun, fun h => (by rw [hempty] at h; cases h.1.1)⟩
    · rw [if_neg hempty]
      rcases hkey : parseEd25519RawPublicKeyHex key with e | value
      · have hnone : keyOf key = none := by rw [keyOf, hkey]; rfl
        exact ⟨nofun, fun h => (by rw [hnone] at h; cases h.1.2)⟩
      · have hsome : keyOf key = some value := keyOf_eq_some.mpr hkey
        rw [hsome]
        exact ⟨fun h => ⟨⟨by simpa using hempty, rfl⟩, h⟩, fun h => h.2⟩

theorem validateConfig_eq_ok :
    validateConfig c = .ok () ↔
      require (!c.controlSocketPath.isEmpty) "control_socket_path must not be empty" = .ok () ∧
      require (c.controlSocketPath.toList.head? == some '/')
        ("control_socket_path must be an absolute path: " ++ c.controlSocketPath) = .ok () ∧
      ClientKeysOk c.tls.clientPublicKeys ∧
      (∀ e ∈ c.tls.knownPublicKeys, (trim e.1).isEmpty = false ∧ (keyOf e.2).isSome) ∧
      validateRuntime c.runtime = .ok () := by
  have hunique := parseUniquePublicKeyHexes_isOk "tls.client_public_keys" 0 []
    c.tls.clientPublicKeys
  simp only [List.not_mem_nil, false_imp_iff, implies_true, and_true] at hunique
  rw [← hunique, ← parseKnownPublicKeyMap_eq_ok, validateConfig]
  simp only [bind, Except.bind]
  constructor
  · intro h
    split at h
    · cases h
    · rename_i h₁
      split at h
      · cases h
      · rename_i h₂
        split at h
        · cases h
        · rename_i seen h₃
          split at h
          · cases h
          · rename_i h₄
            exact ⟨h₁, h₂, ⟨seen, h₃⟩, h₄, h⟩
  · rintro ⟨h₁, h₂, ⟨seen, h₃⟩, h₄, h₅⟩
    simp only [h₁, h₂, h₃, h₄, h₅]

theorem loadRoot_eq_ok :
    loadRoot d root = .ok c ↔ decodeConfig d root = some c ∧ validateConfig c = .ok () := by
  rw [loadRoot]
  rcases decodeConfig d root with - | c'
  · exact ⟨nofun, fun h => (by cases h.1)⟩
  · dsimp only
    constructor
    · intro h
      rcases hvalid : validateConfig c' with e | u
      · rw [hvalid] at h
        cases h
      · rw [hvalid] at h
        obtain rfl : c' = c := Except.ok.inj h
        exact ⟨rfl, hvalid⟩
    · rintro ⟨hc, hvalid⟩
      cases hc
      rw [hvalid]
      rfl

/-- **What an update does to a valid document**: it stays valid, one key is
added, and nothing else changes. -/
theorem edit_spec {authority publicKeyHex : String} (h : loadRoot d root = .ok c)
    (hargs : checkUpsert authority publicKeyHex = .ok ()) (kind : UpsertKind) :
    ∃ root', kind.edit authority publicKeyHex root = .ok root' ∧
      loadRoot d root' = .ok (c.upsert kind authority publicKeyHex) ∧ SameOutside root root' := by
  have hempty : (trim authority).isEmpty = false := by
    rw [checkUpsert] at hargs
    split at hargs
    · cases hargs
    · rename_i hne
      simpa using hne
  have hkey : (keyOf publicKeyHex).isSome := by
    rw [checkUpsert, hempty, if_neg Bool.false_ne_true] at hargs
    rcases hparse : parseEd25519RawPublicKeyHex publicKeyHex with e | value
    · rw [hparse] at hargs
      cases hargs
    · rw [keyOf_eq_some.mpr hparse]
      rfl
  obtain ⟨hdecode, hvalid⟩ := loadRoot_eq_ok.mp h
  obtain ⟨root', hedit, hdecode', hsame⟩ := edit_decode hdecode kind authority publicKeyHex
  refine ⟨root', hedit, loadRoot_eq_ok.mpr ⟨hdecode', ?_⟩, hsame⟩
  obtain ⟨hsocket, habsolute, hclients, hknown, hruntime⟩ := validateConfig_eq_ok.mp hvalid
  refine validateConfig_eq_ok.mpr ⟨hsocket, habsolute, ?_, ?_, hruntime⟩
  · cases kind with
    | clientKey => exact clientKeysOk_addClientKey hclients hkey
    | publicKey => exact hclients
  · intro e he
    rcases mem_insertKey he with rfl | he
    · rw [isEmpty_trim, isBlank_trim, ← isEmpty_trim, keyOf_toAsciiLowercase]
      exact ⟨hempty, hkey⟩
    · exact hknown e he

end Imago
