/-
Imago/ImportShims.lean

The capability check of a component's imports, `register_plugin_import_shims`.

An import goes to WASI, to a service binding, to the component itself, to a wasm
dependency or to a native one.  For the last of these the whole package of the
native plugin is linked with shadowing allowed, so that an import which was given to
another provider before may end up with the native functions: this is what
`Displaced` says, and `Inv.native` is the exact content of the linker.

What wasmtime answers when a shim is defined (signatures, resources, the definition
of a function) is a parameter (`Bridge`); a linker is the map from the interfaces to
those who serve them.
-/
import Imago.PluginResolver
import Mathlib.Data.List.Dedup

namespace Imago

open Std (TreeMap)

/-! ### Capability rules -/

namespace CapabilityChecker

/-- `rule_matches`. -/
def ruleMatches (rule interfaceName functionName : String) : Bool :=
  rule = "*" || rule = functionName || rule = interfaceName ++ "." ++ functionName ||
    rule = interfaceName ++ "/" ++ functionName || rule = interfaceName ++ "#" ++ functionName

/-- The rules under a key, or those under the wildcard, let a function through. -/
def rulesAllow (privileged : Bool) (rules : List (String × List String))
    (key interfaceName functionName : String) : Bool :=
  privileged ||
    match (rules.lookup key).or (rules.lookup "*") with
    | none => false
    | some found => found.any fun rule => ruleMatches rule interfaceName functionName

/-- `is_dependency_function_allowed`. -/
def isDependencyFunctionAllowed (policy : CapabilityPolicy)
    (dependencyName interfaceName functionName : String) : Bool :=
  rulesAllow policy.privileged policy.deps dependencyName interfaceName functionName

/-- `is_wasi_function_allowed`. -/
def isWasiFunctionAllowed (policy : CapabilityPolicy)
    (interfaceName functionName : String) : Bool :=
  rulesAllow policy.privileged policy.wasi interfaceName interfaceName functionName

/-- `map_runtime_unauthorized_error`. -/
def mapRuntimeUnauthorizedError (message : String) : ImagodError :=
  .new .unauthorized "runtime.start" message

/-- `ensure_dependency_function_allowed`. -/
def ensureDependencyFunctionAllowed (callerName : String) (policy : CapabilityPolicy)
    (dependencyName interfaceName functionName : String) : Except ImagodError Unit :=
  if isDependencyFunctionAllowed policy dependencyName interfaceName functionName then .ok ()
  else
    .error (mapRuntimeUnauthorizedError ("capability denied caller '" ++ callerName ++
      "' -> dependency '" ++ dependencyName ++ "' function '" ++ interfaceName ++ "." ++
      functionName ++ "'"))

/-- `ensure_wasi_function_allowed`. -/
def ensureWasiFunctionAllowed (callerName : String) (policy : CapabilityPolicy)
    (interfaceName functionName : String) : Except ImagodError Unit :=
  if isWasiFunctionAllowed policy interfaceName functionName then .ok ()
  else
    .error (mapRuntimeUnauthorizedError ("capability denied caller '" ++ callerName ++
      "' -> wasi '" ++ interfaceName ++ "' function '" ++ functionName ++ "'"))

end CapabilityChecker

open CapabilityChecker

/-! ### Component types -/

/-- A value type, as far as the shims of a binding look at it. -/
inductive ValType where
  | borrow
  | string
  | result (ok err : Option ValType)
  | other (tag : Nat)

/-- `types::ComponentFunc`. -/
structure ComponentFunc where
  params : List ValType
  results : List ValType

/-- An export of an instance. -/
inductive InstanceItem where
  | func (ty : ComponentFunc)
  | other

/-- `types::ComponentInstance`. -/
structure ComponentInstance where
  exports : List (String × InstanceItem)

/-- The functions among the exports, with their types. -/
def ComponentInstance.functions (ty : ComponentInstance) : List (String × ComponentFunc) :=
  ty.exports.filterMap fun entry =>
    match entry.2 with
    | .func f => some (entry.1, f)
    | .other => none

/-- `types::ComponentItem`. -/
inductive ComponentItem where
  | componentInstance (ty : ComponentInstance)
  | other

/-- The type of a component. -/
structure Component where
  imports : List (String × ComponentItem)
  exports : List (String × ComponentItem)

/-- The test for an interface of WASI. -/
def isWasiImport (importName : String) : Bool := "wasi:".toList.isPrefixOf importName.toList

def ComponentItem.isInstance : ComponentItem → Bool
  | .componentInstance _ => true
  | .other => false

/-- `collect_component_instance_export_names`. -/
def Component.instanceExportNames (component : Component) : List String :=
  component.exports.filterMap fun entry => if entry.2.isInstance then some entry.1 else none

/-- `collect_component_instance_import_names`. -/
def Component.instanceImportNames (component : Component) : List String :=
  component.imports.filterMap fun entry =>
    if isWasiImport entry.1 then none else if entry.2.isInstance then some entry.1 else none

/-! ### The linker -/

/-- Who serves an interface. -/
inductive Server where
  | host
  | binding (targetService interfaceId : String)
  | selfComponent
  | wasm (dependency : String)
  | native (dependency : String)
  deriving DecidableEq

/-- `Linker`: the interfaces that are defined. -/
abbrev Linker := String → Option Server

namespace Linker

/-- `Linker::instance` without shadowing. -/
def defineInstance (linker : Linker) (name : String) (server : Server) : Except String Linker :=
  if (linker name).isSome then .error ("map entry `" ++ name ++ "` defined twice")
  else .ok (Function.update linker name (some server))

/-- The definition of several interfaces, with shadowing. -/
def shadow (linker : Linker) (names : List String) (server : Server) : Linker :=
  fun name => if name ∈ names then some server else linker name

/-- A linker into which only the host has been entered. -/
def ofHost (interfaces : List String) : Linker := shadow (fun _ => none) interfaces .host

end Linker

/-- `NativePlugin`; `links` are the interfaces that `add_to_linker` defines. -/
structure NativePlugin where
  packageName : String
  supportsImport : String → Bool
  supportsSymbol : String → Bool
  links : List String
  addToLinker : Except ImagodError Unit
  validateResources : Except ImagodError Unit

/-- `NativePluginRegistry`: a plugin is found under its package name, trimmed. -/
structure NativePluginRegistry where
  plugin : String → Option NativePlugin
  key : ∀ name p, plugin name = some p → trim p.packageName = name

/-- `AvailablePlugin`; of the instance it counts whether there is one. -/
structure AvailablePlugin where
  kind : PluginKind
  hasInstance : Bool

/-- What wasmtime and the other components answer while shims are defined. -/
structure Bridge where
  /-- The resources of a wasm dependency for an import. -/
  resources : String → String → Except ImagodError Unit
  /-- The component's own export, its signature, and the definition of the function. -/
  selfShim : String → String → Except ImagodError Unit
  /-- The export of a wasm dependency, its signature, and the definition. -/
  wasmShim : String → String → String → Except ImagodError Unit
  /-- The definition of a function that calls a bound service. -/
  bindingShim : String → String → Except String Unit
  /-- `add_to_linker_async` behind a native plugin. -/
  refreshWasi : Except String Unit

/-- The arguments of `register_plugin_import_shims`, apart from the linker. -/
structure ShimContext where
  registry : NativePluginRegistry
  bridge : Bridge
  /-- The interfaces that `add_to_linker_async` defines. -/
  wasiInterfaces : List String
  component : Component
  callerName : String
  explicitDependencyNames : List String
  capabilities : CapabilityPolicy
  bindings : List ServiceBinding
  availablePlugins : TreeMap String AvailablePlugin
  selfInstance : Bool

/-! ### The loop over the imports -/

namespace ImportShims

/-- What the loop carries: the linker, and `linked_native_plugin_packages`. -/
structure State where
  linker : Linker
  linked : List String

/-- `enforce_wasi_import_capabilities`. -/
def enforceWasiImportCapabilities (callerName : String) (policy : CapabilityPolicy)
    (interfaceName : String) (ty : ComponentInstance) : Except ImagodError Unit :=
  ty.functions.forM fun f => ensureWasiFunctionAllowed callerName policy interfaceName f.1

/-- `parse_binding_shim_signature`, of which only the refusals count. -/
def parseBindingShimSignature (ty : ComponentFunc) (importName funcName : String) :
    Except ImagodError Unit :=
  let refuse (text : String) : Except ImagodError Unit :=
    .error (mapRuntimeError ("binding import '" ++ importName ++ "." ++ funcName ++ "' " ++ text))
  match ty.params with
  | [] => refuse "must take connection as first argument"
  | .borrow :: _ =>
    match ty.results with
    | [.result _ (some .string)] => .ok ()
    | [.result _ (some _)] => refuse "err type must be string"
    | [.result _ none] => refuse "result must define err type"
    | [_] => refuse "must return result<_, string>"
    | _ => refuse "must return exactly one result"
  | _ => refuse "first argument must be borrow<connection>"

/-- `register_binding_import_shims`. -/
def registerBindingImportShims (bridge : Bridge) (linker : Linker) (importName : String)
    (ty : ComponentInstance) (targetService interfaceId : String) : Except ImagodError Linker := do
  let linker ← (linker.defineInstance importName (.binding targetService interfaceId)).mapError
    fun e =>
    mapRuntimeError ("failed to define binding import namespace '" ++ importName ++ "': " ++ e)
  ty.functions.forM fun f => do
    parseBindingShimSignature f.2 importName f.1
    (bridge.bindingShim importName f.1).mapError fun e =>
      mapRuntimeError
        ("failed to define binding rpc shim '" ++ importName ++ "." ++ f.1 ++ "': " ++ e)
  return linker

/-- The import of a native dependency: the check of its functions, and the link of
the package if it is the first import from it. -/
def linkNativeDependency (ctx : ShimContext) (st : State) (importName : String)
    (ty : ComponentInstance) (targetDependency : String) : Except ImagodError State :=
  match ctx.registry.plugin targetDependency with
  | none =>
    .error (mapRuntimeError ("native plugin '" ++ targetDependency ++
      "' is not registered in runtime registry"))
  | some plugin =>
    if plugin.supportsImport importName = false then
      .error (mapRuntimeError ("native plugin '" ++ targetDependency ++
        "' does not support import '" ++ importName ++ "'"))
    else do
      ty.functions.forM fun f => do
        ensureDependencyFunctionAllowed ctx.callerName ctx.capabilities targetDependency importName
          f.1
        if plugin.supportsSymbol (importName ++ "." ++ f.1) then .ok ()
        else
          .error (mapRuntimeError ("native plugin '" ++ targetDependency ++
            "' does not expose symbol '" ++ importName ++ "." ++ f.1 ++ "'"))
      if plugin.packageName ∈ st.linked then .ok st
      else do
        plugin.addToLinker
        ctx.bridge.refreshWasi.mapError fun e =>
          mapRuntimeError ("failed to refresh WASI linker after native plugin '" ++
            plugin.packageName ++ "' link: " ++ e)
        return { linker := (st.linker.shadow plugin.links (.native targetDependency)).shadow
                   ctx.wasiInterfaces .host
                 linked := plugin.packageName :: st.linked }

/-- The resources of a dependency, before its functions. -/
def bridgeResources (ctx : ShimContext) (importName : String) :
    PluginImportProvider → Except ImagodError Unit
  | .selfComponent => .ok ()
  | .dependency target =>
    match ctx.availablePlugins[target]? with
    | none =>
      .error (mapRuntimeError ("missing target dependency '" ++ target ++ "' for plugin import '" ++
        importName ++ "'"))
    | some plugin =>
      if plugin.kind ≠ .wasm then .ok ()
      else if plugin.hasInstance then ctx.bridge.resources target importName
      else
        .error (mapRuntimeError ("internal error: wasm plugin dependency '" ++ target ++
          "' is missing instance during bridge registration"))

/-- The shim of one function. -/
def bridgeFunction (ctx : ShimContext) (importName funcName : String) :
    PluginImportProvider → Except ImagodError Unit
  | .selfComponent =>
    if ctx.selfInstance then ctx.bridge.selfShim importName funcName
    else
      .error (mapRuntimeError ("self provider is unavailable for caller='" ++ ctx.callerName ++
        "', import='" ++ importName ++ "'"))
  | .dependency target => do
      ensureDependencyFunctionAllowed ctx.callerName ctx.capabilities target importName funcName
      match ctx.availablePlugins[target]? with
      | none =>
        .error (mapRuntimeError ("missing target dependency '" ++ target ++
          "' for plugin import '" ++ importName ++ "." ++ funcName ++ "'"))
      | some plugin =>
        match plugin.kind with
        | .native =>
          .error (mapRuntimeError ("internal error: native plugin dependency '" ++ target ++
            "' should have been linked before fallback bridge '" ++ importName ++ "." ++ funcName ++
            "'"))
        | .wasm => ctx.bridge.wasmShim target importName funcName

/-- Who serves the shims of a provider. -/
def serverOf : PluginImportProvider → Server
  | .selfComponent => .selfComponent
  | .dependency target => .wasm target

/-- The import of the component itself or of a wasm dependency. -/
def bridgeImport (ctx : ShimContext) (st : State) (importName : String) (ty : ComponentInstance)
    (provider : PluginImportProvider) : Except ImagodError State := do
  let linker ← (st.linker.defineInstance importName (serverOf provider)).mapError fun e =>
    mapRuntimeError ("failed to define plugin import namespace '" ++ importName ++ "': " ++ e)
  bridgeResources ctx importName provider
  ty.functions.forM fun f => bridgeFunction ctx importName f.1 provider
  return { st with linker := linker }

/-- The provider of an import that is neither of WASI nor bound. -/
def providerOf (ctx : ShimContext) (importName : String) :
    Except ImagodError PluginImportProvider :=
  PluginResolver.resolveImportProvider ctx.callerName importName ctx.component.instanceExportNames
    ctx.explicitDependencyNames ctx.availablePlugins.keys ctx.selfInstance

/-- `native_dependency`. -/
def nativeDependency (ctx : ShimContext) : PluginImportProvider → Option String
  | .selfComponent => none
  | .dependency target =>
    if (ctx.availablePlugins[target]?.map (·.kind)) = some .native then some target else none

/-- One import. -/
def registerImport (ctx : ShimContext) (bindingTargets : TreeMap String String) (st : State)
    (importName : String) (ty : ComponentInstance) : Except ImagodError State :=
  if isWasiImport importName then do
    enforceWasiImportCapabilities ctx.callerName ctx.capabilities importName ty
    return st
  else
    match resolveBindingTargetForImport bindingTargets importName with
    | some (targetService, interfaceId) => do
        let linker ← registerBindingImportShims ctx.bridge st.linker importName ty targetService
          interfaceId
        return { st with linker := linker }
    | none => do
        let provider ← providerOf ctx importName
        match nativeDependency ctx provider with
        | some target => linkNativeDependency ctx st importName ty target
        | none => bridgeImport ctx st importName ty provider

/-- The loop. -/
def registerImports (ctx : ShimContext) (bindingTargets : TreeMap String String) :
    State → List (String × ComponentItem) → Except ImagodError State
  | st, [] => .ok st
  | st, (importName, .componentInstance ty) :: rest => do
      let st ← registerImport ctx bindingTargets st importName ty
      registerImports ctx bindingTargets st rest
  | st, (_, .other) :: rest => registerImports ctx bindingTargets st rest

end ImportShims

/-- `register_plugin_import_shims`. -/
def registerPluginImportShims (ctx : ShimContext) (linker : Linker) :
    Except ImagodError Linker := do
  let bindingTargets ← buildBindingTargetMap ctx.bindings
  let st ← ImportShims.registerImports ctx bindingTargets ⟨linker, []⟩ ctx.component.imports
  return st.linker

/-! ### What a checked import is -/

namespace ImportShims

/-- Every function of an import is allowed by the rules for a dependency. -/
def Allowed (ctx : ShimContext) (dependency importName : String) (ty : ComponentInstance) : Prop :=
  ∀ f ∈ ty.functions, isDependencyFunctionAllowed ctx.capabilities dependency importName f.1 = true

/-- One of the declared bindings is for this import. -/
def Declared (ctx : ShimContext) (importName : String) : Prop :=
  ∃ b ∈ ctx.bindings, normalizeBindingWitId b.wit = normalizeBindingWitId importName

/-- What may stand behind an import: the service of a declared binding, the component
with its instance, or a dependency that is allowed. -/
def Fits (ctx : ShimContext) (importName : String) (ty : ComponentInstance) : Server → Prop
  | .host => True
  | .binding service interfaceId =>
    interfaceId = normalizeBindingWitId importName ∧
      ∃ b ∈ ctx.bindings, b.name = service ∧ normalizeBindingWitId b.wit = interfaceId
  | .selfComponent => ctx.selfInstance = true ∧ importName ∈ ctx.component.instanceExportNames
  | .wasm dependency | .native dependency => Allowed ctx dependency importName ty

/-- The native dependency that an import is resolved to. -/
def nativeTarget (ctx : ShimContext) (bindingTargets : TreeMap String String)
    (importName : String) : Option String :=
  if isWasiImport importName then none
  else if (resolveBindingTargetForImport bindingTargets importName).isSome then none
  else
    match providerOf ctx importName with
    | .ok provider => nativeDependency ctx provider
    | .error _ => none

/-- The native dependencies that the instances among some imports are resolved to. -/
def nativeTargets (ctx : ShimContext) (bindingTargets : TreeMap String String)
    (imports : List (String × ComponentItem)) : List String :=
  imports.filterMap fun entry =>
    if entry.2.isInstance then nativeTarget ctx bindingTargets entry.1 else none

/-- The native plugin of this name defines the interface. -/
def links (ctx : ShimContext) (importName dependency : String) : Bool :=
  ((ctx.registry.plugin dependency).map fun plugin => decide (importName ∈ plugin.links)).getD false

/-- Of the native packages that the imports pull in, the one that defines an interface;
where there are several, the one that is linked last, that is, whose first import is
the last one. -/
def lastToLink (ctx : ShimContext) (bindingTargets : TreeMap String String)
    (imports : List (String × ComponentItem)) (importName : String) : Option String :=
  (nativeTargets ctx bindingTargets imports).reverse.dedup.find? (links ctx importName)

variable {dependency target : String}

section Step

variable {ctx : ShimContext} {bindingTargets : TreeMap String String} {st st' : State}
  {importName : String} {ty : ComponentInstance}

theorem allowed_of_ensure {funcName : String}
    (h : ensureDependencyFunctionAllowed ctx.callerName ctx.capabilities dependency importName
      funcName = .ok ()) :
    isDependencyFunctionAllowed ctx.capabilities dependency importName funcName = true := by
  unfold ensureDependencyFunctionAllowed at h
  split at h
  · assumption
  · cases h

theorem wasi_of_enforce
    (h : enforceWasiImportCapabilities ctx.callerName ctx.capabilities importName ty = .ok ()) :
    ∀ f ∈ ty.functions, isWasiFunctionAllowed ctx.capabilities importName f.1 = true := by
  intro f hf
  have hf := Except.forM_eq_ok.mp h f hf
  unfold ensureWasiFunctionAllowed at hf
  split at hf
  · assumption
  · cases hf

theorem defineInstance_eq_ok {linker linker' : Linker} {server : Server}
    (h : linker.defineInstance importName server = .ok linker') :
    linker importName = none ∧ linker' = Function.update linker importName (some server) := by
  unfold Linker.defineInstance at h
  split at h
  · cases h
  · rename_i hnone
    exact ⟨by simpa using hnone, (Except.ok.inj h).symm⟩

/-- The import of a native dependency that succeeds: all functions are allowed, and the
package is linked unless it was before. -/
theorem linkNativeDependency_eq_ok
    (h : linkNativeDependency ctx st importName ty target = .ok st') :
    Allowed ctx target importName ty ∧ ∃ plugin, ctx.registry.plugin target = some plugin ∧
      ((plugin.packageName ∈ st.linked ∧ st' = st) ∨
        (plugin.packageName ∉ st.linked ∧
          st' = ⟨(st.linker.shadow plugin.links (.native target)).shadow ctx.wasiInterfaces .host,
            plugin.packageName :: st.linked⟩)) := by
  unfold linkNativeDependency at h
  split at h
  · cases h
  · rename_i plugin hplugin
    split at h
    · cases h
    · obtain ⟨_, hfunctions, h⟩ := Except.bind_eq_ok h
      refine ⟨fun f hf => ?_, plugin, hplugin, ?_⟩
      · obtain ⟨_, hallowed, _⟩ := Except.bind_eq_ok (Except.forM_eq_ok.mp hfunctions f hf)
        exact allowed_of_ensure hallowed
      · split at h
        · rename_i hlinked
          exact .inl ⟨hlinked, (Except.ok.inj h).symm⟩
        · rename_i hlinked
          obtain ⟨_, _, h⟩ := Except.bind_eq_ok h
          obtain ⟨_, _, h⟩ := Except.bind_eq_ok h
          exact .inr ⟨hlinked, (Except.ok.inj h).symm⟩

/-- The shims of the component itself or of a wasm dependency: the interface was not
defined, and the functions of a dependency are allowed. -/
theorem bridgeImport_eq_ok {provider : PluginImportProvider}
    (h : bridgeImport ctx st importName ty provider = .ok st') :
    st.linker importName = none ∧
    st' = { st with linker := Function.update st.linker importName (some (serverOf provider)) } ∧
    ∀ target, provider = .dependency target → Allowed ctx target importName ty := by
  obtain ⟨linker, hlinker, h⟩ := Except.bind_eq_ok h
  obtain ⟨_, _, h⟩ := Except.bind_eq_ok h
  obtain ⟨_, hfunctions, h⟩ := Except.bind_eq_ok h
  obtain ⟨hnone, rfl⟩ := defineInstance_eq_ok (Except.mapError_eq_ok.mp hlinker)
  refine ⟨hnone, (Except.ok.inj h).symm, ?_⟩
  rintro target rfl f hf
  obtain ⟨_, hallowed, _⟩ := Except.bind_eq_ok (Except.forM_eq_ok.mp hfunctions f hf)
  exact allowed_of_ensure hallowed

theorem registerBindingImportShims_eq_ok {linker linker' : Linker} {service interfaceId : String}
    (h : registerBindingImportShims ctx.bridge linker importName ty service interfaceId =
      .ok linker') :
    linker importName = none ∧
    linker' = Function.update linker importName (some (.binding service interfaceId)) := by
  obtain ⟨_, hlinker, h⟩ := Except.bind_eq_ok h
  obtain ⟨_, _, h⟩ := Except.bind_eq_ok h
  obtain ⟨hnone, rfl⟩ := defineInstance_eq_ok (Except.mapError_eq_ok.mp hlinker)
  exact ⟨hnone, (Except.ok.inj h).symm⟩

/-- The import is neither of WASI nor bound, and this is its provider. -/
def Resolved (ctx : ShimContext) (bindingTargets : TreeMap String String) (importName : String)
    (provider : PluginImportProvider) : Prop :=
  isWasiImport importName = false ∧
  resolveBindingTargetForImport bindingTargets importName = none ∧
  providerOf ctx importName = .ok provider

theorem nativeTarget_of_resolved {provider : PluginImportProvider}
    (h : Resolved ctx bindingTargets importName provider) :
    nativeTarget ctx bindingTargets importName = nativeDependency ctx provider := by
  simp only [nativeTarget, h.1, h.2.1, h.2.2, Bool.false_eq_true, if_false, Option.isSome_none]

theorem resolved_of_nativeTarget
    (h : nativeTarget ctx bindingTargets importName = some dependency) :
    Resolved ctx bindingTargets importName (.dependency dependency) := by
  unfold nativeTarget at h
  split at h
  · cases h
  · rename_i hwasi
    split at h
    · cases h
    · rename_i hbound
      split at h
      · rename_i provider hprovider
        refine ⟨by simpa using hwasi, by simpa using hbound, ?_⟩
        rw [hprovider]
        cases provider with
        | selfComponent => cases h
        | dependency target =>
          simp only [nativeDependency] at h
          split at h
          · rw [Option.some.inj h]
          · cases h
      · cases h

/-- **The four ways of an import that is accepted.** -/
theorem registerImport_cases (h : registerImport ctx bindingTargets st importName ty = .ok st') :
    (isWasiImport importName = true ∧ st' = st ∧
      ∀ f ∈ ty.functions, isWasiFunctionAllowed ctx.capabilities importName f.1 = true) ∨
    (isWasiImport importName = false ∧ st.linker importName = none ∧
      ∃ service interfaceId,
        resolveBindingTargetForImport bindingTargets importName = some (service, interfaceId) ∧
        st' = { st with linker :=
          Function.update st.linker importName (some (.binding service interfaceId)) }) ∨
    (∃ target, nativeTarget ctx bindingTargets importName = some target ∧
      linkNativeDependency ctx st importName ty target = .ok st') ∨
    (∃ provider, Resolved ctx bindingTargets importName provider ∧
      nativeTarget ctx bindingTargets importName = none ∧
      bridgeImport ctx st importName ty provider = .ok st') := by
  unfold registerImport at h
  split at h
  · rename_i hwasi
    obtain ⟨_, henforce, h⟩ := Except.bind_eq_ok h
    exact .inl ⟨hwasi, (Except.ok.inj h).symm, wasi_of_enforce henforce⟩
  · rename_i hwasi
    have hwasi : isWasiImport importName = false := by simpa using hwasi
    split at h
    · rename_i service interfaceId hbound
      obtain ⟨linker, hlinker, h⟩ := Except.bind_eq_ok h
      obtain ⟨hnone, rfl⟩ := registerBindingImportShims_eq_ok hlinker
      exact .inr (.inl ⟨hwasi, hnone, service, interfaceId, hbound, (Except.ok.inj h).symm⟩)
    · rename_i hbound
      obtain ⟨provider, hprovider, h⟩ := Except.bind_eq_ok h
      have hresolved : Resolved ctx bindingTargets importName provider := ⟨hwasi, hbound, hprovider⟩
      have htarget := nativeTarget_of_resolved hresolved
      split at h
      · rename_i target hnative
        exact .inr (.inr (.inl ⟨target, htarget.trans hnative, h⟩))
      · rename_i hnative
        exact .inr (.inr (.inr ⟨provider, hresolved, htarget.trans hnative, h⟩))

end Step

/-! ### The invariant of the loop -/

/-- What has been checked when an import is accepted. -/
def Checked (ctx : ShimContext) (bindingTargets : TreeMap String String) (importName : String)
    (ty : ComponentInstance) : Prop :=
  (isWasiImport importName = true ∧
    ∀ f ∈ ty.functions, isWasiFunctionAllowed ctx.capabilities importName f.1 = true) ∨
  (isWasiImport importName = false ∧
    (resolveBindingTargetForImport bindingTargets importName).isSome = true) ∨
  ∃ provider, Resolved ctx bindingTargets importName provider ∧
    ∀ target, provider = .dependency target → Allowed ctx target importName ty

/-- How an interface came to its server, the host and the native packages apart. -/
def Given (ctx : ShimContext) (bindingTargets : TreeMap String String) (importName : String) :
    Server → Prop
  | .host | .native _ => True
  | .binding service interfaceId =>
    resolveBindingTargetForImport bindingTargets importName = some (service, interfaceId)
  | .selfComponent => Resolved ctx bindingTargets importName .selfComponent
  | .wasm dependency => Resolved ctx bindingTargets importName (.dependency dependency)

/-- The state behind some imports. -/
structure Inv (ctx : ShimContext) (bindingTargets : TreeMap String String)
    (done : List (String × ComponentItem)) (st : State) : Prop where
  linked : ∀ dependency plugin, ctx.registry.plugin dependency = some plugin →
    (plugin.packageName ∈ st.linked ↔ dependency ∈ nativeTargets ctx bindingTargets done)
  native : ∀ name dependency, st.linker name = some (.native dependency) ↔
    lastToLink ctx bindingTargets done name = some dependency ∧ name ∉ ctx.wasiInterfaces
  given : ∀ name server, st.linker name = some server → Given ctx bindingTargets name server
  defined : ∀ name ty, (name, .componentInstance ty) ∈ done → isWasiImport name = false →
    nativeTarget ctx bindingTargets name = none → st.linker name ≠ none
  checked : ∀ name ty, (name, .componentInstance ty) ∈ done → Checked ctx bindingTargets name ty

section Loop

variable {ctx : ShimContext} {bindingTargets : TreeMap String String}
  {done : List (String × ComponentItem)} {st st' : State} {importName : String}
  {ty : ComponentInstance}

theorem nativeTargets_concat (entry : String × ComponentItem) :
    nativeTargets ctx bindingTargets (done ++ [entry]) =
      nativeTargets ctx bindingTargets done ++
        (if entry.2.isInstance then nativeTarget ctx bindingTargets entry.1 else none).toList := by
  unfold nativeTargets
  rw [List.filterMap_append, List.filterMap_cons, List.filterMap_nil]
  split <;> rename_i hentry <;> rw [hentry] <;> rfl

/-- An import that is not of a native dependency leaves the native packages alone. -/
theorem nativeTargets_of_none (hnone : nativeTarget ctx bindingTargets importName = none) :
    nativeTargets ctx bindingTargets (done ++ [(importName, .componentInstance ty)]) =
      nativeTargets ctx bindingTargets done := by
  rw [nativeTargets_concat]
  simp [ComponentItem.isInstance, hnone]

theorem nativeTargets_of_some (hsome : nativeTarget ctx bindingTargets importName = some target) :
    nativeTargets ctx bindingTargets (done ++ [(importName, .componentInstance ty)]) =
      nativeTargets ctx bindingTargets done ++ [target] := by
  rw [nativeTargets_concat]
  simp [ComponentItem.isInstance, hsome]

theorem nativeTarget_of_wasi (hwasi : isWasiImport importName = true) :
    nativeTarget ctx bindingTargets importName = none := by
  simp [nativeTarget, hwasi]

theorem nativeTarget_of_bound
    (hbound : (resolveBindingTargetForImport bindingTargets importName).isSome = true) :
    nativeTarget ctx bindingTargets importName = none := by
  simp [nativeTarget, hbound]

/-- A native package is linked under one dependency name only. -/
theorem packageName_inj {a b : String} {p q : NativePlugin} (ha : ctx.registry.plugin a = some p)
    (hb : ctx.registry.plugin b = some q) (h : p.packageName = q.packageName) : a = b := by
  rw [← ctx.registry.key a p ha, h, ctx.registry.key b q hb]

/-- A property of all instances among the imports, with one more. -/
theorem forall_concat_instance {P : String → ComponentInstance → Prop}
    (hold : ∀ name ty, (name, .componentInstance ty) ∈ done → P name ty) (hnew : P importName ty) :
    ∀ name ty', (name, .componentInstance ty') ∈ done ++ [(importName, .componentInstance ty)] →
      P name ty' := by
  intro name ty' hmem
  rcases List.mem_append.mp hmem with hmem | hmem
  · exact hold name ty' hmem
  · obtain ⟨rfl, hty⟩ := Prod.mk.inj (List.mem_singleton.mp hmem)
    cases hty
    exact hnew

section

variable (htargets : ∀ target, nativeTarget ctx bindingTargets importName = some target →
  target ∈ nativeTargets ctx bindingTargets done)

include htargets

/-- An import that pulls in no new package leaves their order alone. -/
theorem dedup_nativeTargets_keep :
    (nativeTargets ctx bindingTargets
      (done ++ [(importName, .componentInstance ty)])).reverse.dedup =
      (nativeTargets ctx bindingTargets done).reverse.dedup := by
  cases htarget : nativeTarget ctx bindingTargets importName with
  | none => rw [nativeTargets_of_none htarget]
  | some target =>
    rw [nativeTargets_of_some htarget, List.reverse_append, List.reverse_singleton,
      List.singleton_append, List.dedup_cons_of_mem
        (List.mem_reverse.mpr (htargets target htarget))]

/-- The packages that are linked, behind such an import. -/
theorem Inv.linked_keep (hinv : Inv ctx bindingTargets done st) (dependency : String)
    (plugin : NativePlugin) (hplugin : ctx.registry.plugin dependency = some plugin) :
    plugin.packageName ∈ st.linked ↔ dependency ∈
      nativeTargets ctx bindingTargets (done ++ [(importName, .componentInstance ty)]) := by
  rw [hinv.linked dependency plugin hplugin, ← List.mem_reverse, ← List.mem_dedup,
    ← dedup_nativeTargets_keep htargets, List.mem_dedup, List.mem_reverse]

/-- An import that changes nothing in the linker: of WASI, or of a package that is
linked. -/
theorem Inv.keep (hinv : Inv ctx bindingTargets done st)
    (hdefined : isWasiImport importName = false → nativeTarget ctx bindingTargets importName ≠ none)
    (hnew : Checked ctx bindingTargets importName ty) :
    Inv ctx bindingTargets (done ++ [(importName, .componentInstance ty)]) st where
  linked := hinv.linked_keep htargets
  native name dependency := by
    rw [lastToLink, dedup_nativeTargets_keep htargets]
    exact hinv.native name dependency
  given := hinv.given
  defined := forall_concat_instance hinv.defined fun hwasi hnone => absurd hnone (hdefined hwasi)
  checked := forall_concat_instance hinv.checked hnew

end

section

variable (hinv : Inv ctx bindingTargets done st)

include hinv

/-- An interface that is defined for the first time. -/
theorem Inv.define (hnone : st.linker importName = none)
    (htarget : nativeTarget ctx bindingTargets importName = none) {server : Server}
    (hnative : ∀ dependency, server ≠ .native dependency)
    (hgiven : Given ctx bindingTargets importName server)
    (hnew : Checked ctx bindingTargets importName ty) :
    Inv ctx bindingTargets (done ++ [(importName, .componentInstance ty)])
      { st with linker := Function.update st.linker importName (some server) } := by
  have htargets : ∀ target, nativeTarget ctx bindingTargets importName = some target →
      target ∈ nativeTargets ctx bindingTargets done :=
        fun target h => by rw [htarget] at h; cases h
  refine ⟨(hinv.linked_keep htargets :), fun name dependency => ?_, ?_, ?_,
    forall_concat_instance hinv.checked hnew⟩
  · rw [lastToLink, dedup_nativeTargets_keep htargets, ← lastToLink, ← hinv.native]
    show Function.update st.linker importName (some server) name = _ ↔ _
    by_cases hname : name = importName
    · subst hname
      rw [Function.update_self, hnone]
      exact ⟨fun h => absurd (Option.some.inj h) (hnative dependency), nofun⟩
    · rw [Function.update_of_ne hname]
  · refine (Function.forall_update_iff st.linker fun name served => ∀ server,
      served = some server → Given ctx bindingTargets name server).mpr ⟨?_, fun name _ => ?_⟩
    · rintro _ ⟨rfl⟩
      exact hgiven
    · exact hinv.given name
  · have hmono : ∀ name, st.linker name ≠ none →
        Function.update st.linker importName (some server) name ≠ none :=
      (Function.forall_update_iff st.linker fun name served => st.linker name ≠ none →
        served ≠ none).mpr ⟨fun _ => nofun, fun _ _ h => h⟩
    refine forall_concat_instance
      (fun name ty hmem hwasi h => hmono name (hinv.defined name ty hmem hwasi h)) fun _ _ => ?_
    show Function.update st.linker importName (some server) importName ≠ none
    rw [Function.update_self]
    exact nofun

/-- The link of a native package. -/
theorem Inv.link {plugin : NativePlugin}
    (htarget : nativeTarget ctx bindingTargets importName = some target)
    (hplugin : ctx.registry.plugin target = some plugin) (hlinked : plugin.packageName ∉ st.linked)
    (hnew : Checked ctx bindingTargets importName ty) :
    Inv ctx bindingTargets (done ++ [(importName, .componentInstance ty)])
      ⟨(st.linker.shadow plugin.links (.native target)).shadow ctx.wasiInterfaces .host,
        plugin.packageName :: st.linked⟩ := by
  have htargets : nativeTargets ctx bindingTargets (done ++ [(importName, .componentInstance ty)]) =
      nativeTargets ctx bindingTargets done ++ [target] := nativeTargets_of_some htarget
  have hfresh : target ∉ nativeTargets ctx bindingTargets done := fun h =>
    hlinked ((hinv.linked target plugin hplugin).mpr h)
  have hlast : ∀ name,
      lastToLink ctx bindingTargets (done ++ [(importName, .componentInstance ty)]) name =
        if name ∈ plugin.links then some target else lastToLink ctx bindingTargets done name := by
    intro name
    unfold lastToLink
    rw [htargets, List.reverse_append, List.reverse_singleton, List.singleton_append,
      List.dedup_cons_of_notMem (mt List.mem_reverse.mp hfresh), List.find?_cons]
    by_cases hname : name ∈ plugin.links <;> simp [links, hplugin, hname]
  refine ⟨fun dependency found hfound => ?_, fun name dependency => ?_, fun name server h => ?_,
    ?_, forall_concat_instance hinv.checked hnew⟩
  · rw [htargets, List.mem_append, List.mem_singleton, ← hinv.linked dependency found hfound,
      List.mem_cons, or_comm]
    refine or_congr Iff.rfl ⟨packageName_inj hfound hplugin, ?_⟩
    rintro rfl
    rw [Option.mem_unique hfound hplugin]
  · rw [hlast]
    by_cases hwasi : name ∈ ctx.wasiInterfaces
    · simp [Linker.shadow, hwasi]
    · by_cases hname : name ∈ plugin.links
      · simp [Linker.shadow, hwasi, hname]
      · simp only [Linker.shadow, hwasi, hname, if_false, not_false_eq_true, and_true]
        rw [hinv.native]
        exact and_iff_left hwasi
  · simp only [Linker.shadow] at h
    split at h
    · cases h
      trivial
    · split at h
      · cases h
        trivial
      · exact hinv.given name server h
  · refine forall_concat_instance (fun name ty hmem hwasi hnone => ?_) fun _ hnone => ?_
    · simp only [Linker.shadow]
      split
      · exact nofun
      · split
        · exact nofun
        · exact hinv.defined name ty hmem hwasi hnone
    · rw [htarget] at hnone
      cases hnone

/-- **One import keeps the invariant.** -/
theorem Inv.step (h : registerImport ctx bindingTargets st importName ty = .ok st') :
    Inv ctx bindingTargets (done ++ [(importName, .componentInstance ty)]) st' := by
  rcases registerImport_cases h with ⟨hwasi, rfl, hallowed⟩ |
    ⟨hwasi, hnone, service, interfaceId, hbound, rfl⟩ | ⟨target, htarget, h⟩ |
    ⟨provider, hresolved, htarget, h⟩
  · exact hinv.keep (fun target h => by rw [nativeTarget_of_wasi hwasi] at h; cases h)
      (fun hnot => by rw [hwasi] at hnot; cases hnot) (.inl ⟨hwasi, hallowed⟩)
  · have hsome : (resolveBindingTargetForImport bindingTargets importName).isSome = true := by
      rw [hbound, Option.isSome_some]
    exact hinv.define hnone (nativeTarget_of_bound hsome) nofun hbound (.inr (.inl ⟨hwasi, hsome⟩))
  · obtain ⟨hallowed, plugin, hplugin, hst⟩ := linkNativeDependency_eq_ok h
    have hnew : Checked ctx bindingTargets importName ty := by
      refine .inr (.inr ⟨_, resolved_of_nativeTarget htarget, ?_⟩)
      rintro _ ⟨rfl⟩
      exact hallowed
    rcases hst with ⟨hlinked, rfl⟩ | ⟨hlinked, rfl⟩
    · refine hinv.keep (fun target' h => ?_) (fun _ => by rw [htarget]; exact nofun) hnew
      obtain rfl := Option.mem_unique htarget h
      exact (hinv.linked target plugin hplugin).mp hlinked
    · exact hinv.link htarget hplugin hlinked hnew
  · obtain ⟨hnone, rfl, hallowed⟩ := bridgeImport_eq_ok h
    refine hinv.define hnone htarget ?_ ?_ (.inr (.inr ⟨provider, hresolved, hallowed⟩))
    · cases provider <;> exact nofun
    · cases provider <;> exact hresolved

/-- An import that is no instance is passed over. -/
theorem Inv.skip (name : String) :
    Inv ctx bindingTargets (done ++ [(name, .other)]) st := by
  have htargets : nativeTargets ctx bindingTargets (done ++ [(name, .other)]) =
      nativeTargets ctx bindingTargets done := by
    rw [nativeTargets_concat]
    exact List.append_nil _
  have hmem : ∀ name' ty, (name', .componentInstance ty) ∈ done ++ [(name, .other)] →
      (name', .componentInstance ty) ∈ done := by
    intro name' ty hmem
    rcases List.mem_append.mp hmem with hmem | hmem
    · exact hmem
    · cases (Prod.mk.inj (List.mem_singleton.mp hmem)).2
  refine ⟨?_, ?_, hinv.given, fun name' ty h => hinv.defined name' ty (hmem name' ty h),
    fun name' ty h => hinv.checked name' ty (hmem name' ty h)⟩
  · rw [htargets]
    exact hinv.linked
  · unfold lastToLink
    rw [htargets]
    exact hinv.native

end

/-- **The whole loop keeps it.** -/
theorem Inv.run {rest : List (String × ComponentItem)} (hinv : Inv ctx bindingTargets done st)
    (h : registerImports ctx bindingTargets st rest = .ok st') :
    Inv ctx bindingTargets (done ++ rest) st' := by
  -- the imports that are done grow with those that are left
  induction rest generalizing done st with
  | nil =>
    rw [List.append_nil, ← Except.ok.inj h]
    exact hinv
  | cons entry rest ih =>
    obtain ⟨name, item⟩ := entry
    rw [List.append_cons]
    cases item with
    | componentInstance ty =>
      obtain ⟨st₁, hstep, h⟩ := Except.bind_eq_ok h
      exact ih (hinv.step hstep) h
    | other => exact ih (hinv.skip name) h

/-- A linker with the host in it only. -/
theorem Inv.ofHost (interfaces : List String) :
    Inv ctx bindingTargets [] ⟨Linker.ofHost interfaces, []⟩ := by
  have hserver : ∀ name server, Linker.ofHost interfaces name = some server → server = .host := by
    intro name server h
    unfold Linker.ofHost Linker.shadow at h
    split at h
    · exact (Option.some.inj h).symm
    · cases h
  refine ⟨fun _ _ _ => ⟨nofun, nofun⟩, fun name dependency => ⟨fun h => ?_, ?_⟩,
    fun name server h => ?_, nofun, nofun⟩
  · cases hserver name _ h
  · rintro ⟨hlast, -⟩
    cases hlast
  · rw [hserver name server h]
    trivial

end Loop

/-! ### All imports -/

section Main

variable {ctx : ShimContext} {bindingTargets : TreeMap String String} {importName : String}
  {ty : ComponentInstance}

/-- The check of an import that is resolved to a dependency was for this dependency. -/
theorem Checked.allowed (h : Checked ctx bindingTargets importName ty)
    (hresolved : Resolved ctx bindingTargets importName (.dependency dependency)) :
    Allowed ctx dependency importName ty := by
  rcases h with ⟨hwasi, -⟩ | ⟨-, hbound⟩ | ⟨provider, hprovider, hallowed⟩
  · rw [hresolved.1] at hwasi
    cases hwasi
  · rw [hresolved.2.1] at hbound
    cases hbound
  · exact hallowed dependency (Except.ok.inj (hprovider.2.2.symm.trans hresolved.2.2))

/-- Only the component itself, with its instance, is a provider besides the dependencies. -/
theorem self_of_providerOf (h : providerOf ctx importName = .ok .selfComponent) :
    ctx.selfInstance = true ∧ importName ∈ ctx.component.instanceExportNames := by
  unfold providerOf PluginResolver.resolveImportProvider at h
  split at h
  · assumption
  · split at h
    · split at h <;> cases h
    · cases h

/-- A target in the map comes from a declared binding. -/
theorem declared_of_bound {service interfaceId : String}
    (htargets : buildBindingTargetMap ctx.bindings = .ok bindingTargets)
    (hbound : resolveBindingTargetForImport bindingTargets importName =
      some (service, interfaceId)) :
    interfaceId = normalizeBindingWitId importName ∧
      ∃ b ∈ ctx.bindings, b.name = service ∧ normalizeBindingWitId b.wit = interfaceId := by
  obtain ⟨_, hservice, hpair⟩ := Option.map_eq_some_iff.mp hbound
  cases hpair
  rcases (of_bindingTargetMapFrom htargets).2.2 _ _ hservice with hempty | ⟨b, hb, hwit, hname⟩
  · rw [TreeMap.getElem?_emptyc] at hempty
    cases hempty
  · exact ⟨rfl, b, hb, hname, hwit⟩

/-- The part of the check that no later import undoes. -/
theorem Checked.provided {linker : Linker} (h : Checked ctx bindingTargets importName ty)
    (htargets : buildBindingTargetMap ctx.bindings = .ok bindingTargets)
    (hwasi : isWasiImport importName = false)
    (hdefined : nativeTarget ctx bindingTargets importName = none → linker importName ≠ none) :
    (linker importName ≠ none ∧ (Declared ctx importName ∨
      ctx.selfInstance = true ∧ importName ∈ ctx.component.instanceExportNames)) ∨
    ∃ dependency, providerOf ctx importName = .ok (.dependency dependency) ∧
      Allowed ctx dependency importName ty := by
  rcases h with ⟨hwasi', -⟩ | ⟨-, hbound⟩ | ⟨provider, hprovider, hallowed⟩
  · rw [hwasi] at hwasi'
    cases hwasi'
  · obtain ⟨⟨service, interfaceId⟩, htarget⟩ := Option.isSome_iff_exists.mp hbound
    obtain ⟨hid, b, hb, -, hwit⟩ := declared_of_bound htargets htarget
    exact .inl ⟨hdefined (nativeTarget_of_bound hbound), .inl ⟨b, hb, hwit.trans hid⟩⟩
  · cases provider with
    | selfComponent =>
      exact .inl ⟨hdefined (nativeTarget_of_resolved hprovider),
        .inr (self_of_providerOf hprovider.2.2)⟩
    | dependency target => exact .inr ⟨target, hprovider.2.2, hallowed target rfl⟩

theorem Checked.wasi (h : Checked ctx bindingTargets importName ty)
    (hwasi : isWasiImport importName = true) :
    ∀ f ∈ ty.functions, isWasiFunctionAllowed ctx.capabilities importName f.1 = true := by
  rcases h with ⟨-, hallowed⟩ | ⟨hwasi', -⟩ | ⟨_, hprovider, -⟩
  · exact hallowed
  · rw [hwasi] at hwasi'
    cases hwasi'
  · rw [hprovider.1] at hwasi
    cases hwasi

end Main

end ImportShims

open ImportShims

namespace ImportShims

/-- Nothing fails in wasmtime. -/
def plainBridge : Bridge where
  resources _ _ := .ok ()
  selfShim _ _ := .ok ()
  wasmShim _ _ _ := .ok ()
  bindingShim _ _ := .ok ()
  refreshWasi := .ok ()

end ImportShims

end Imago
