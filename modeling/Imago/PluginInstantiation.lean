/-
Imago/PluginInstantiation.lean

The instantiation of plugin dependencies, `instantiate_plugin_dependencies`.

The order is taken from the interfaces that the dependencies say they import, and the
imports are resolved later, from the component itself.  Where the two agree
(`MetadataReal`), every import from the package of another dependency finds it among
those that are there (`available_of_import`); an interface that the component exports
itself is served by the component.

A component file is taken not to change between the two times it may be loaded.
-/
import Imago.ImportShims

namespace Imago

open Std (TreeMap)

/-- What is around the instantiation: the registry, the linkers' own interfaces, and
what wasmtime makes of a file, of the shims and of an instantiation. -/
structure PluginRuntime where
  registry : NativePluginRegistry
  bridge : String → Bridge
  wasiInterfaces : List String
  httpInterfaces : List String
  fromFile : String → Except String Component
  instantiate : String → Except String Unit

namespace PluginInstantiation

open PluginResolver ImportShims

/-! ### Interfaces -/

/-- `Component::from_file` for a dependency. -/
def fromFile (rt : PluginRuntime) (dep : PluginDependency) (path : String) :
    Except ImagodError Component :=
  (rt.fromFile path).mapError fun e =>
    mapRuntimeError
      ("failed to load plugin component '" ++ dep.name ++ "' from " ++ path ++ ": " ++ e)

/-- `load_component_for_instantiation`. -/
def loadComponentForInstantiation (rt : PluginRuntime) (dep : PluginDependency) :
    Except ImagodError Component :=
  match dep.component with
  | none =>
    .error (mapRuntimeError ("plugin dependency '" ++ dep.name ++ "' missing component definition"))
  | some component => fromFile rt dep component.path

/-- `component_interfaces_for_dependency`. -/
def componentInterfacesForDependency (rt : PluginRuntime) (dep : PluginDependency) :
    Except ImagodError PluginComponentInterfaces :=
  match dep.component with
  | none =>
    .error (mapRuntimeError ("plugin dependency '" ++ dep.name ++ "' missing component definition"))
  | some component =>
    match component.imports, component.exports with
    | some imports, some exports => .ok ⟨imports, exports⟩
    | _, _ => do
        let loaded ← fromFile rt dep component.path
        return ⟨loaded.instanceImportNames, loaded.instanceExportNames⟩

/-- The first loop: `component_interfaces`. -/
def collectInterfaces (rt : PluginRuntime) :
    (String → Option PluginComponentInterfaces) → List PluginDependency →
      Except ImagodError (String → Option PluginComponentInterfaces)
  | found, [] => .ok found
  | found, dep :: deps =>
    if dep.kind ≠ .wasm then collectInterfaces rt found deps
    else do
      let interfaces ← componentInterfacesForDependency rt dep
      collectInterfaces rt (Function.update found dep.name (some interfaces)) deps

/-! ### The loop over the order -/

/-- The arguments of the registration of a dependency's imports. -/
def shimContext (rt : PluginRuntime) (names : List String)
    (available : TreeMap String AvailablePlugin)
    (dep : PluginDependency) (component : Component) : ShimContext where
  registry := rt.registry
  bridge := rt.bridge dep.name
  wasiInterfaces := rt.wasiInterfaces
  component := component
  callerName := dep.name
  explicitDependencyNames := names
  capabilities := dep.capabilities
  bindings := []
  availablePlugins := available
  selfInstance := true

/-- What one dependency becomes. -/
def instantiateDependency (rt : PluginRuntime) (names : List String)
    (available : TreeMap String AvailablePlugin) (dep : PluginDependency) :
    Except ImagodError AvailablePlugin :=
  match dep.kind with
  | .native =>
    match rt.registry.plugin dep.name with
    | none =>
      .error (mapRuntimeError ("native plugin '" ++ dep.name ++
        "' is declared in manifest but not registered in runtime"))
    | some plugin => do
        plugin.validateResources
        return ⟨.native, false⟩
  | .wasm => do
      let component ← loadComponentForInstantiation rt dep
      let _ ← registerPluginImportShims (shimContext rt names available dep component)
        (Linker.ofHost (rt.wasiInterfaces ++ rt.httpInterfaces))
      (rt.instantiate dep.name).mapError fun e =>
        mapRuntimeError ("failed to instantiate plugin component '" ++ dep.name ++ "': " ++ e)
      return ⟨.wasm, true⟩

/-- The second loop. -/
def instantiateInOrder (rt : PluginRuntime) (names : List String) :
    TreeMap String AvailablePlugin → List PluginDependency →
      Except ImagodError (TreeMap String AvailablePlugin)
  | available, [] => .ok available
  | available, dep :: deps => do
      let plugin ← instantiateDependency rt names available dep
      instantiateInOrder rt names (available.insert dep.name plugin) deps

/-- The dependencies at some indices. -/
def atIndices (deps : List PluginDependency) (indices : List Nat) : List PluginDependency :=
  indices.filterMap fun index => deps[index]?

end PluginInstantiation

open PluginInstantiation in
/-- `instantiate_plugin_dependencies`; nothing if the order is not found in time. -/
def instantiatePluginDependencies (rt : PluginRuntime) (deps : List PluginDependency) :
    Option (Except ImagodError (TreeMap String AvailablePlugin)) :=
  match collectInterfaces rt (fun _ => none) deps with
  | .error e => some (.error e)
  | .ok interfaces =>
    (PluginResolver.dependencyTopologicalOrder deps interfaces).map fun result => do
      let order ← result
      instantiateInOrder rt (deps.map (·.name)) ∅ (atIndices deps order)

namespace PluginInstantiation

open PluginResolver ImportShims

/-! ### What the loops leave behind -/

section Loops

variable {rt : PluginRuntime} {deps : List PluginDependency}

/-- The interfaces that are found are those of the dependencies. -/
theorem collectInterfaces_eq_ok {found interfaces : String → Option PluginComponentInterfaces}
    (h : collectInterfaces rt found deps = .ok interfaces) (hnodup : (deps.map (·.name)).Nodup) :
    (∀ name, name ∉ deps.map (·.name) → interfaces name = found name) ∧
    ∀ user ∈ deps, user.kind = .wasm → ∃ own,
      componentInterfacesForDependency rt user = .ok own ∧ interfaces user.name = some own := by
  induction deps generalizing found with
  | nil =>
    cases h
    exact ⟨fun _ _ => rfl, nofun⟩
  | cons dep deps ih =>
    rw [List.map_cons, List.nodup_cons] at hnodup
    rw [collectInterfaces] at h
    split at h
    · rename_i hkind
      obtain ⟨hother, hown⟩ := ih h hnodup.2
      refine ⟨fun name hname => hother name fun hmem => hname (.tail _ hmem), ?_⟩
      intro user huser hwasm
      rcases List.mem_cons.mp huser with rfl | huser
      · exact absurd hwasm hkind
      · exact hown user huser hwasm
    · obtain ⟨own, hfound, h⟩ := Except.bind_eq_ok h
      obtain ⟨hother, hown⟩ := ih h hnodup.2
      refine ⟨fun name hname => ?_, fun user huser hwasm => ?_⟩
      · rw [List.map_cons, List.mem_cons, not_or] at hname
        rw [hother name hname.2, Function.update_of_ne hname.1]
      · rcases List.mem_cons.mp huser with rfl | huser
        · exact ⟨own, hfound, by rw [hother _ hnodup.1, Function.update_self]⟩
        · exact hown user huser hwasm

/-- Every dependency that the loop has passed is available. -/
theorem mem_of_instantiateInOrder {names : List String}
    {available available' : TreeMap String AvailablePlugin}
    (h : instantiateInOrder rt names available deps = .ok available') :
    (∀ name, name ∈ available → name ∈ available') ∧ ∀ dep ∈ deps, dep.name ∈ available' := by
  induction deps generalizing available with
  | nil =>
    cases h
    exact ⟨fun _ h => h, nofun⟩
  | cons dep deps ih =>
    obtain ⟨plugin, -, h⟩ := Except.bind_eq_ok h
    obtain ⟨hkeep, hall⟩ := ih h
    refine ⟨fun name hname => hkeep name (TreeMap.mem_insert.mpr (.inr hname)), ?_⟩
    intro dep' hdep'
    rcases List.mem_cons.mp hdep' with rfl | hdep'
    · exact hkeep _ TreeMap.mem_insert_self
    · exact hall dep' hdep'

theorem instantiateInOrder_append {names : List String} (deps' : List PluginDependency)
    {available available' : TreeMap String AvailablePlugin}
    (h : instantiateInOrder rt names available deps = .ok available') :
    instantiateInOrder rt names available (deps ++ deps') =
      instantiateInOrder rt names available' deps' := by
  induction deps generalizing available with
  | nil =>
    cases h
    rfl
  | cons dep deps ih =>
    obtain ⟨plugin, hplugin, h⟩ := Except.bind_eq_ok h
    rw [List.cons_append, instantiateInOrder, hplugin]
    exact ih h

end Loops

/-- The instantiation comes to a dependency, with some plugins available and some
dependencies behind it. -/
def ComesTo (rt : PluginRuntime) (deps : List PluginDependency)
    (available : TreeMap String AvailablePlugin) (user : PluginDependency)
    (rest : List PluginDependency) : Prop :=
  ∃ interfaces order before j after, collectInterfaces rt (fun _ => none) deps = .ok interfaces ∧
    dependencyTopologicalOrder deps interfaces = some (.ok order) ∧ order = before ++ j :: after ∧
    instantiateInOrder rt (deps.map (·.name)) ∅ (atIndices deps before) = .ok available ∧
    deps[j]? = some user ∧ atIndices deps after = rest

/-- What is returned is what is returned from there on. -/
theorem instantiate_of_comesTo {rt : PluginRuntime} {deps rest : List PluginDependency}
    {available : TreeMap String AvailablePlugin} {user : PluginDependency}
    (h : ComesTo rt deps available user rest) : instantiatePluginDependencies rt deps =
      some (instantiateInOrder rt (deps.map (·.name)) available (user :: rest)) := by
  obtain ⟨interfaces, order, before, j, after, hinterfaces, heq, rfl, havailable, huser, rfl⟩ := h
  have hsplit : atIndices deps (before ++ j :: after) =
      atIndices deps before ++ user :: atIndices deps after := by
    rw [atIndices, List.filterMap_append, List.filterMap_cons_some huser]
    rfl
  rw [instantiatePluginDependencies, hinterfaces]
  show (dependencyTopologicalOrder deps interfaces).map _ = _
  rw [heq, ← instantiateInOrder_append _ havailable, ← hsplit]
  rfl

/-! ### The metadata of the components -/

/-- What a dependency says about its component leaves out no import, those of WASI
apart, which it may list or not, and adds no export. -/
def MetadataReal (rt : PluginRuntime) (deps : List PluginDependency) : Prop :=
  ∀ user ∈ deps, user.kind = .wasm → ∀ component,
    loadComponentForInstantiation rt user = .ok component →
    ∀ stated imports exports, user.component = some stated → stated.imports = some imports →
      stated.exports = some exports →
      (∀ name ∈ component.instanceImportNames, name ∈ imports) ∧
      ∀ name ∈ exports, name ∈ component.instanceExportNames

section Imports

variable {rt : PluginRuntime} {deps : List PluginDependency}

/-- The interfaces of a dependency, from the metadata or from the file, have its
component's imports, and no other exports. -/
theorem interfaces_real (hreal : MetadataReal rt deps) {user : PluginDependency}
    (huser : user ∈ deps) (hwasm : user.kind = .wasm) {component : Component}
    (hcomponent : loadComponentForInstantiation rt user = .ok component)
    {own : PluginComponentInterfaces} (hown : componentInterfacesForDependency rt user = .ok own) :
    (∀ name ∈ component.instanceImportNames, name ∈ own.imports) ∧
    ∀ name ∈ own.exports, name ∈ component.instanceExportNames := by
  unfold componentInterfacesForDependency at hown
  split at hown
  · cases hown
  · rename_i stated hstated
    split at hown
    · rename_i imports exports himports hexports
      cases hown
      exact hreal user huser hwasm component hcomponent stated imports exports hstated himports
        hexports
    · obtain ⟨loaded, hloaded, hown⟩ := Except.bind_eq_ok hown
      have hsame : loaded = component := by
        rw [loadComponentForInstantiation, hstated] at hcomponent
        exact Except.ok.inj (hloaded.symm.trans hcomponent)
      cases hown
      subst hsame
      exact ⟨fun _ h => h, fun _ h => h⟩

/-- **The imports of a dependency when its turn comes.**  The package of one that the
component does not export itself is there already. -/
theorem available_of_import (hreal : MetadataReal rt deps)
    {interfaces : String → Option PluginComponentInterfaces}
    (hinterfaces : collectInterfaces rt (fun _ => none) deps = .ok interfaces) {order : List Nat}
    (hnodup : (deps.map (·.name)).Nodup) (hfirst : ProvidersFirst deps interfaces order)
    {before after : List Nat} {j : Nat} (horder : order = before ++ j :: after)
    {available : TreeMap String AvailablePlugin}
    (havailable : instantiateInOrder rt (deps.map (·.name)) ∅ (atIndices deps before) =
      .ok available)
    {user : PluginDependency} (huser : deps[j]? = some user) (hwasm : user.kind = .wasm)
    {component : Component} (hcomponent : loadComponentForInstantiation rt user = .ok component)
    {importName package : String} (himport : importName ∈ component.instanceImportNames)
    (hparse : parseImportPackageName importName = some package)
    (hlisted : package ∈ deps.map (·.name)) (hother : package ≠ user.name)
    (hown : importName ∉ component.instanceExportNames) : package ∈ available := by
  have hmem : user ∈ deps := List.mem_iff_getElem?.mpr ⟨j, huser⟩
  obtain ⟨own, hfound, hlookup⟩ := (collectInterfaces_eq_ok hinterfaces hnodup).2 user hmem hwasm
  obtain ⟨himports, hexports⟩ := interfaces_real hreal hmem hwasm hcomponent hfound
  obtain ⟨provider, hprovider, hname⟩ := List.mem_map.mp hlisted
  obtain ⟨i, hi⟩ := List.mem_iff_getElem?.mp hprovider
  -- the edge that the order was made with is the one that the import asks for
  have hprovides : Provides deps interfaces i j :=
    ⟨provider, user, hi, huser, .inr ⟨own, hlookup, importName, himports _ himport,
      fun h => hown (hexports _ h), by rw [hparse, hname], by rw [hname]; exact hother⟩⟩
  have hbefore : i ∈ before := hfirst.first before j after horder i hprovides
  rw [← hname]
  exact (mem_of_instantiateInOrder havailable).2 provider (List.mem_filterMap.mpr ⟨i, hbefore, hi⟩)

end Imports

end PluginInstantiation

open PluginInstantiation PluginResolver ImportShims

/-- **The order of plugin dependencies, and the imports resolved in it.**  Wherever the
instantiation comes to a wasm dependency, its imports have their providers. -/
theorem plugin_dependencies_ordered (deps : List PluginDependency) :
    (∀ interfaces, ∃ result, dependencyTopologicalOrder deps interfaces = some result ∧
      ((∃ order, result = .ok order) ↔ (deps.map (·.name)).Nodup ∧
        (∀ user ∈ deps, RequiresKnown deps user) ∧ AcyclicProvides deps interfaces) ∧
      ∀ order, result = .ok order → ProvidersFirst deps interfaces order) ∧
    ∀ rt, (instantiatePluginDependencies rt deps).isSome ∧
      ∀ available user rest, ComesTo rt deps available user rest →
        instantiatePluginDependencies rt deps =
          some (instantiateInOrder rt (deps.map (·.name)) available (user :: rest)) ∧
        (MetadataReal rt deps → user.kind = .wasm → ∀ component,
          loadComponentForInstantiation rt user = .ok component →
          ∀ importName ∈ component.instanceImportNames, ∀ package,
            parseImportPackageName importName = some package → package ∈ deps.map (·.name) →
            package ≠ user.name →
            (importName ∈ component.instanceExportNames →
              providerOf (shimContext rt (deps.map (·.name)) available user component) importName =
                .ok .selfComponent) ∧
            (importName ∉ component.instanceExportNames →
              package ∈ available ∧
              providerOf (shimContext rt (deps.map (·.name)) available user component) importName =
                .ok (.dependency package))) := by
  refine ⟨fun interfaces => ?_, fun rt => ⟨?_, fun available user rest hcomes => ?_⟩⟩
  · rcases dependencyTopologicalOrder_cases deps interfaces with
      ⟨hall, order, heq, hfirst⟩ | ⟨hnot, e, heq⟩
    · refine ⟨.ok order, heq, ⟨fun _ => hall, fun _ => ⟨order, rfl⟩⟩, ?_⟩
      rintro _ ⟨rfl⟩
      exact hfirst
    · exact ⟨.error e, heq, ⟨nofun, fun h => absurd h hnot⟩, nofun⟩
  · rw [instantiatePluginDependencies]
    split
    · rfl
    · next interfaces _ =>
      rcases dependencyTopologicalOrder_cases deps interfaces with ⟨-, _, heq, -⟩ | ⟨-, _, heq⟩ <;>
        rw [heq] <;> rfl
  · refine ⟨instantiate_of_comesTo hcomes, ?_⟩
    intro hreal hwasm component hcomponent importName himport package hparse hlisted hother
    obtain ⟨interfaces, order, before, j, after, hinterfaces, heq, hsplit, havailable, huser, -⟩ :=
      hcomes
    obtain ⟨hall, order', heq', hfirst⟩ | ⟨-, e, heq'⟩ :=
      dependencyTopologicalOrder_cases deps interfaces
    swap
    · cases heq.symm.trans heq'
    obtain rfl : order = order' := by cases heq.symm.trans heq'; rfl
    refine ⟨fun hown => if_pos ⟨rfl, hown⟩, fun hown => ?_⟩
    have hthere := available_of_import hreal hinterfaces hall.1 hfirst hsplit havailable huser hwasm
      hcomponent himport hparse hlisted hother hown
    exact ⟨hthere, resolveImportProvider_eq_dependency hown hparse hlisted
      (TreeMap.mem_keys.mpr hthere)⟩

/-! ### A sensor and its user -/

namespace PluginInstantiation

def sensorPlugin : NativePlugin where
  packageName := "acme:sensor"
  supportsImport _ := true
  supportsSymbol _ := true
  links := ["acme:sensor/read"]
  addToLinker := .ok ()
  validateResources := .ok ()

/-- A component that imports the interface of the sensor, and one of WASI. -/
def sensorUser (exports : List String) : Component where
  imports := [("wasi:io/streams@0.2.6", .componentInstance ⟨[]⟩),
    ("acme:sensor/read", .componentInstance ⟨[]⟩)]
  exports := exports.map fun name => (name, .componentInstance ⟨[]⟩)

/-- The sensor is registered, and every file holds its user. -/
def sensorRuntime (exports : List String) : PluginRuntime where
  registry :=
    { plugin := fun name => if name = "acme:sensor" then some sensorPlugin else none
      key := by
        intro name p h
        split at h
        · rename_i hname
          rw [hname, ← Option.some.inj h]
          decide +kernel
        · cases h }
  bridge _ := plainBridge
  wasiInterfaces := ["wasi:io/streams@0.2.6"]
  httpInterfaces := []
  fromFile _ := .ok (sensorUser exports)
  instantiate _ := .ok ()

def sensorDep : PluginDependency :=
  ⟨"acme:sensor", "0.1.0", .native, "acme:sensor", [], none, ⟨true, [], []⟩⟩

/-- The user, whose metadata lists all instances that its component imports. -/
def userDep (requires exports : List String) : PluginDependency :=
  ⟨"zoo:user", "0.1.0", .wasm, "zoo:user", requires, some ⟨"user.wasm", "",
    some ["wasi:io/streams@0.2.6", "acme:sensor/read"], some exports⟩, ⟨true, [], []⟩⟩

theorem metadataReal_sensor :
    MetadataReal (sensorRuntime []) [sensorDep, userDep [] []] := by
  intro user huser hwasm component hcomponent stated imports _ hstated himports hexports
  rcases List.mem_pair.mp huser with rfl | rfl
  · cases hwasm
  · cases hcomponent
    cases hstated
    cases himports
    cases hexports
    decide +kernel

/-- The interfaces that are found for the two. -/
def sensorInterfaces (exports : List String) : String → Option PluginComponentInterfaces :=
  Function.update (fun _ => none) "zoo:user"
    (some ⟨["wasi:io/streams@0.2.6", "acme:sensor/read"], exports⟩)

/-- The order, once it has been computed. -/
theorem order_of_value {result : Option (Except ImagodError (List Nat))} {order : List Nat}
    (h : result.bind Except.toOption = some order) : result = some (.ok order) := by
  obtain ⟨result, rfl, hok⟩ := Option.bind_eq_some_iff.mp h
  cases result with
  | error e => cases hok
  | ok order' => rw [Option.some.inj hok]

end PluginInstantiation

/-- The sensor is there when the turn of its user comes, and serves it. -/
theorem plugin_dependencies_ordered_sensor :
    ∃ available, "acme:sensor" ∈ available ∧
      providerOf (shimContext (sensorRuntime []) ["acme:sensor", "zoo:user"] available
        (userDep [] []) (sensorUser [])) "acme:sensor/read" = .ok (.dependency "acme:sensor") := by
  -- the sensor, which has no number before it, comes first
  have hcomes : ∃ available, ComesTo (sensorRuntime [])
      [sensorDep, userDep [] []] available (userDep [] []) [] :=
    ⟨_, sensorInterfaces [], [0, 1], [0], 1, [], rfl, order_of_value (by decide +kernel), rfl, rfl,
      rfl, rfl⟩
  obtain ⟨available, hcomes⟩ := hcomes
  have hturn := ((plugin_dependencies_ordered [sensorDep, userDep [] []]).2 (sensorRuntime [])).2
    available (userDep [] []) [] hcomes
  exact ⟨available, (hturn.2 (metadataReal_sensor) rfl (sensorUser []) rfl "acme:sensor/read"
    (by decide +kernel) "acme:sensor" (by decide +kernel) (by decide) (by decide)).2 (by decide)⟩

/-- A component that exports what it imports from the sensor is its own provider. -/
theorem own_export_preferred :
    ∃ available rest, ComesTo (sensorRuntime ["acme:sensor/read"])
        [sensorDep, userDep ["acme:sensor"] ["acme:sensor/read"]] available
          (userDep ["acme:sensor"] ["acme:sensor/read"]) rest ∧
      "acme:sensor/read" ∈ (sensorUser ["acme:sensor/read"]).instanceImportNames ∧
      parseImportPackageName "acme:sensor/read" = some "acme:sensor" ∧
      providerOf (shimContext (sensorRuntime ["acme:sensor/read"]) ["acme:sensor", "zoo:user"]
        available (userDep ["acme:sensor"] ["acme:sensor/read"])
        (sensorUser ["acme:sensor/read"])) "acme:sensor/read" =
        .ok .selfComponent := by
  have hown : "acme:sensor/read" ∈
      (sensorUser ["acme:sensor/read"]).instanceExportNames := by decide
  refine ⟨_, _, ⟨sensorInterfaces ["acme:sensor/read"], [0, 1], [0], 1, [], rfl,
    order_of_value (by decide +kernel), rfl, rfl, rfl, rfl⟩, by decide +kernel, by decide +kernel,
      ?_⟩
  rw [providerOf, resolveImportProvider, if_pos]
  exact ⟨rfl, hown⟩

end Imago
