/-
Imago/PluginDependencies.lean

The plugin dependencies of a manifest and the checks that
`prepare_plugin_dependencies_for_root` makes of them before it looks at the
component cache: names, versions and requirements, and for a component its
digest, its path and the file in the release directory.

The release directory is what its files are (`ReleaseDir`); hashing and the
parsing of a component are third-party code and stay parameters
(`ComponentCrates`).
-/
import Imago.Orchestrator
import Mathlib.Data.List.Dedup

namespace Imago

open Orchestrator (Path normalComponents windowsPrefixed)

/-! ### Data -/

/-- `PluginKind`. -/
inductive PluginKind
  | native | wasm
  deriving DecidableEq

/-- `PluginComponent`. -/
structure PluginComponent where
  path : String
  sha256 : String
  imports : Option (List String)
  exports : Option (List String)
  deriving DecidableEq

/-- `CapabilityPolicy`; a map is the list of its entries in the order of the keys. -/
structure CapabilityPolicy where
  privileged : Bool
  deps : List (String × List String)
  wasi : List (String × List String)
  deriving DecidableEq

/-- `PluginDependency`. -/
structure PluginDependency where
  name : String
  version : String
  kind : PluginKind
  wit : String
  requires : List String
  component : Option PluginComponent
  capabilities : CapabilityPolicy
  deriving DecidableEq

/-- What `fs::metadata` says of a path in the release directory, with the bytes
of a file. -/
inductive ReleaseNode
  | file (bytes : List UInt8)
  | notFile
  | inaccessible (error : String)

/-- The release directory: its path and what is in it. -/
structure ReleaseDir where
  dir : String
  node : Path → ReleaseNode

/-- The call that fails when a file is read: its digest needs it to be opened and
read (`compute_sha256_hex_async`), and `fs::read` reads it again. -/
inductive ReadFault
  | opening (error : String)
  | digest (error : String)
  | bytes (error : String)

/-- The third-party functions: SHA-256 in hex, and the names of the instances
that a component imports and exports. -/
structure ComponentCrates where
  sha256Hex : List UInt8 → String
  interfaces : List UInt8 → Except ImagodError (List String × List String)

/-! ### The manifest validator -/

/-- `str::eq_ignore_ascii_case`. -/
def eqIgnoreAsciiCase (a b : String) : Bool := toAsciiLowercase a = toAsciiLowercase b

/-- `char::is_ascii_hexdigit`. -/
def isAsciiHexdigit (c : Char) : Bool :=
  ('0' ≤ c && c ≤ '9') || ('A' ≤ c && c ≤ 'F') || ('a' ≤ c && c ≤ 'f')

/-- `validate_plugin_package_name`. -/
def validatePluginPackageName (name : String) : Except ImagodError Unit :=
  if name = "" then .error (mapBadManifest "manifest.dependencies[].name must not be empty")
  else if '\\' ∈ name.toList ∨ containsStr name ".." then
    .error (mapBadManifest ("manifest dependency name contains invalid path characters: " ++ name))
  else if name.toList.all fun c =>
      isAsciiAlphanumeric c || c = '.' || c = '_' || c = '-' || c = ':' || c = '/' then
    .ok ()
  else
    .error (mapBadManifest ("manifest dependency name contains unsupported characters: " ++ name))

/-- `validate_sha256_hex`. -/
def validateSha256Hex (value field : String) : Except ImagodError Unit :=
  if strLen value ≠ 64 ∨ ¬ value.toList.all isAsciiHexdigit then
    .error (mapBadManifest (field ++ " must be a 64-character hex string"))
  else .ok ()

/-- `normalize_relative_path`: the components of the path. -/
def normalizeRelativePath (raw field : String) : Except ImagodError Path :=
  if raw = "" then .error (mapBadManifest (field ++ " must not be empty"))
  else if raw.toList.head? = some '/' then
    .error (mapBadManifest (field ++ " must be a relative path: " ++ raw))
  else if windowsPrefixed raw then
    .error (mapBadManifest (field ++ " must not be windows-prefixed: " ++ raw))
  else
    match normalComponents (raw.toList.splitOn '/') with
    | none => .error (mapBadManifest (field ++ " contains invalid path traversal: " ++ raw))
    | some [] => .error (mapBadManifest (field ++ " is invalid: " ++ raw))
    | some path => .ok path

/-- `normalize_string_set`. -/
def normalizeStringSet (values : List String) : List String :=
  (((values.map trim).filter (· ≠ "")).dedup).mergeSort

/-- `normalize_capability_rule_map`. -/
def normalizeCapabilityRuleMap (map : List (String × List String)) : List (String × List String) :=
  map.filterMap fun (key, values) =>
    if isBlank key then none
    else if normalizeStringSet values = [] then none
    else some (key, normalizeStringSet values)

/-- `normalize_capability_policy`. -/
def normalizeCapabilityPolicy (policy : CapabilityPolicy) : CapabilityPolicy where
  privileged := policy.privileged
  deps := normalizeCapabilityRuleMap policy.deps
  wasi := normalizeCapabilityRuleMap policy.wasi

/-! ### The checks of the dependencies -/

/-- `manifest.dependencies[name]`, followed by the text. -/
def dependencyError (dep : PluginDependency) (text : String) : ImagodError :=
  mapBadManifest ("manifest.dependencies[" ++ dep.name ++ "]" ++ text)

/-- The first loop: each dependency for itself, and no name twice. -/
def checkNames (known : List String) : List PluginDependency → Except ImagodError (List String)
  | [] => .ok known
  | dep :: deps =>
    match validatePluginPackageName dep.name with
    | .error e => .error e
    | .ok () =>
      if isBlank dep.version then .error (dependencyError dep ".version must not be empty")
      else if isBlank dep.wit then .error (dependencyError dep ".wit must not be empty")
      else if dep.name ∈ known then
        .error (mapBadManifest
          ("manifest.dependencies contains duplicate dependency '" ++ dep.name ++ "'"))
      else checkNames (dep.name :: known) deps

/-- The names that a dependency requires are known. -/
def checkRequires (known : List String) (dep : PluginDependency) :
    List String → Except ImagodError Unit
  | [] => .ok ()
  | required :: rest =>
    match validatePluginPackageName required with
    | .error e => .error e
    | .ok () =>
      if required ∈ known then checkRequires known dep rest
      else .error (dependencyError dep
        (".requires references unknown dependency '" ++ required ++ "'"))

/-- A component whose file in the release directory has the digest that the
manifest states. -/
structure CheckedComponent where
  sha256 : String
  bytes : List UInt8
  imports : List String
  exports : List String

/-- What the second loop makes of a dependency before it looks at the cache. -/
inductive CheckedDependency
  | native (dep : PluginDependency)
  | wasm (dep : PluginDependency) (component : CheckedComponent)

/-- The dependency with its policy and its requirements normalized. -/
def PluginDependency.normalized (dep : PluginDependency) : PluginDependency :=
  { dep with
    capabilities := normalizeCapabilityPolicy dep.capabilities
    requires := normalizeStringSet dep.requires }

section Checks

variable (crates : ComponentCrates) (release : ReleaseDir)

/-- `compute_sha256_hex_async` of the file at `shown`. -/
def sha256HexOf (shown : String) (bytes : List UInt8) : Option ReadFault → Except ImagodError String
  | some (.opening e) =>
    .error (Orchestrator.mapInternal ("failed to open file for sha256 " ++ shown ++ ": " ++ e))
  | some (.digest e) =>
    .error (Orchestrator.mapInternal ("failed to read file for sha256 " ++ shown ++ ": " ++ e))
  | _ => .ok (crates.sha256Hex bytes)

/-- The component's digest, path and file; `fault` is the read that fails. -/
def checkComponent (dep : PluginDependency) (component : PluginComponent)
    (fault : Option ReadFault) : Except ImagodError CheckedComponent := do
  let field := "manifest.dependencies[" ++ dep.name ++ "].component"
  validateSha256Hex component.sha256 (field ++ ".sha256")
  let path ← normalizeRelativePath component.path (field ++ ".path")
  let shown := release.dir ++ "/" ++ String.intercalate "/" path
  match release.node path with
  | .inaccessible e =>
    .error (mapBadManifest ("plugin component is not accessible: " ++ shown ++ " (" ++ e ++ ")"))
  | .notFile => .error (mapBadManifest ("plugin component path is not a file: " ++ shown))
  | .file bytes => do
    let digest ← sha256HexOf crates shown bytes fault
    if eqIgnoreAsciiCase digest component.sha256 then
      match fault, crates.interfaces bytes with
      | some (.bytes e), _ =>
        .error (mapBadManifest ("failed to read plugin component bytes " ++ shown ++ ": " ++ e))
      | _, .error e =>
        .error (mapBadManifest ("failed to extract plugin component metadata for '" ++
          dep.name ++ "': " ++ e.message))
      | _, .ok (imports, exports) => .ok ⟨component.sha256, bytes, imports, exports⟩
    else
      .error (mapBadManifest ("plugin component sha256 mismatch for '" ++ dep.name ++
        "': expected " ++ component.sha256 ++ ", actual " ++ digest))

/-- The second loop's checks of one dependency. -/
def checkDependency (known : List String) (dep : PluginDependency) (fault : Option ReadFault) :
    Except ImagodError CheckedDependency := do
  checkRequires known dep dep.requires
  match dep.kind, dep.component with
  | .native, none => .ok (.native dep.normalized)
  | .native, some _ =>
    .error (dependencyError dep ".component is only allowed when kind=\"wasm\"")
  | .wasm, none => .error (dependencyError dep ".component is required when kind=\"wasm\"")
  | .wasm, some component =>
    (checkComponent crates release dep component fault).map (.wasm dep.normalized)

end Checks

/-! ### What the checks say -/

section Spec

variable {crates : ComponentCrates} {release : ReleaseDir} {known : List String}
  {dep : PluginDependency} {fault : Option ReadFault}

theorem sha256HexOf_eq_ok {shown digest : String} {bytes : List UInt8}
    (h : sha256HexOf crates shown bytes fault = .ok digest) : digest = crates.sha256Hex bytes := by
  unfold sha256HexOf at h
  split at h <;> cases h
  rfl

/-- The file of a checked component has the stated digest. -/
theorem checkComponent_verified {component : PluginComponent} {c : CheckedComponent}
    (h : checkComponent crates release dep component fault = .ok c) :
    eqIgnoreAsciiCase (crates.sha256Hex c.bytes) c.sha256 = true := by
  unfold checkComponent at h
  obtain ⟨-, -, h⟩ := Except.bind_eq_ok h
  obtain ⟨path, -, h⟩ := Except.bind_eq_ok h
  dsimp only at h
  split at h
  · cases h
  · cases h
  · next bytes _ =>
    obtain ⟨digest, hsha, h⟩ := Except.bind_eq_ok h
    obtain rfl := sha256HexOf_eq_ok hsha
    split at h
    · next hdigest =>
      split at h
      · cases h
      · cases h
      · cases h
        exact hdigest
    · cases h

/-- A dependency that passes the checks is normalized, with its component. -/
theorem checkDependency_cases {d : CheckedDependency}
    (h : checkDependency crates release known dep fault = .ok d) :
    (d = .native dep.normalized ∧ dep.component = none) ∨
      ∃ c, d = .wasm dep.normalized c ∧
        eqIgnoreAsciiCase (crates.sha256Hex c.bytes) c.sha256 = true := by
  unfold checkDependency at h
  obtain ⟨-, -, h⟩ := Except.bind_eq_ok h
  split at h
  · next hcomponent =>
    cases h
    exact .inl ⟨rfl, hcomponent⟩
  · cases h
  · cases h
  · next component _ _ =>
    rcases hc : checkComponent crates release dep component fault with e | c <;> rw [hc] at h <;>
      cases h
    exact .inr ⟨c, rfl, checkComponent_verified hc⟩

end Spec

end Imago
