/-
Imago/PluginResolver.lean

The resolver of plugin dependencies: in which order they are instantiated, and who
provides an import.

`dependency_topological_order` is Kahn's algorithm (`KahnOrder`) over the graph in
which a dependency stands behind those that it requires by name and behind those
whose package one of its imports is in (`Provides`).  The graph is built with one
edge for a pair, however often the pair occurs (`addAllEdges_spec`), and the in-degree is
the number of these edges.
-/
import Imago.KahnOrder
import Imago.PluginDependencies
import Imago.ServiceBindings
import Std.Data.TreeMap.Lemmas

namespace Imago

open Std (TreeMap)

/-- `PluginComponentInterfaces`: the instances that a component imports and exports;
from its file those of WASI are left out of the imports, from the manifest not. -/
structure PluginComponentInterfaces where
  imports : List String
  exports : List String
  deriving DecidableEq

/-- `PluginImportProvider`. -/
inductive PluginImportProvider where
  | selfComponent
  | dependency (name : String)
  deriving DecidableEq

namespace PluginResolver

/-- `parse_import_package_name`: what stands in front of the last slash. -/
def parseImportPackageName (importName : String) : Option String :=
  (rsplitOnceChars '/' importName.toList).map fun parts => String.ofList parts.1

/-! ### The graph -/

/-- `edges` and `indegree`, by index. -/
structure DependencyGraph where
  edges : Nat → List Nat
  indegree : Nat → Nat

/-- `add_dependency_edge`. -/
def addDependencyEdge (g : DependencyGraph) (source target : Nat) : DependencyGraph :=
  if target ∈ g.edges source then g
  else
    { edges := Function.update g.edges source ((g.edges source).orderedInsert (· ≤ ·) target)
      indegree := Function.update g.indegree target (g.indegree target + 1) }

/-- The loop that enters the names. -/
def byNameFrom (byName : TreeMap String Nat) (index : Nat) :
    List PluginDependency → Except ImagodError (TreeMap String Nat)
  | [] => .ok byName
  | dep :: deps =>
    if byName.contains dep.name then
      .error (mapRuntimeError ("duplicate plugin dependency name '" ++ dep.name ++ "'"))
    else byNameFrom (byName.insert dep.name index) (index + 1) deps

/-- The loop over `requires`. -/
def addRequires (byName : TreeMap String Nat) (dep : PluginDependency) (index : Nat) :
    DependencyGraph → List String → Except ImagodError DependencyGraph
  | g, [] => .ok g
  | g, req :: reqs =>
    match byName[req]? with
    | none =>
      .error (mapRuntimeError ("plugin dependency '" ++ dep.name ++
        "' requires unknown dependency '" ++ req ++ "'"))
    | some reqIndex => addRequires byName dep index (addDependencyEdge g reqIndex index) reqs

/-- `collect_implicit_provider_indices`: the set, in ascending order. -/
def collectImplicitProviderIndices (dependencyName : String) (importNames selfExports : List String)
    (byName : TreeMap String Nat) : List Nat :=
  let providers := importNames.filterMap fun importName =>
    if importName ∈ selfExports then none
    else
      match parseImportPackageName importName with
      | none => none
      | some packageName => if packageName = dependencyName then none else byName[packageName]?
  providers.dedup.mergeSort

/-- Edges from several providers. -/
def addProviders (g : DependencyGraph) (providers : List Nat) (index : Nat) : DependencyGraph :=
  providers.foldl (fun g provider => addDependencyEdge g provider index) g

/-- The edges to one dependency. -/
def addEdgesTo (byName : TreeMap String Nat)
    (interfaces : String → Option PluginComponentInterfaces)
    (g : DependencyGraph) (index : Nat) (dep : PluginDependency) :
    Except ImagodError DependencyGraph := do
  let g ← addRequires byName dep index g dep.requires
  match interfaces dep.name with
  | none => return g
  | some found =>
    return addProviders g
      (collectImplicitProviderIndices dep.name found.imports found.exports byName) index

/-- The loop over the dependencies. -/
def addAllEdges (byName : TreeMap String Nat)
    (interfaces : String → Option PluginComponentInterfaces) :
    DependencyGraph → Nat → List PluginDependency → Except ImagodError DependencyGraph
  | g, _, [] => .ok g
  | g, index, dep :: deps => do
      let g ← addEdgesTo byName interfaces g index dep
      addAllEdges byName interfaces g (index + 1) deps

/-- No edges. -/
def emptyGraph : DependencyGraph := ⟨fun _ => [], fun _ => 0⟩

/-! ### The order -/

def nameOf (deps : List PluginDependency) (index : Nat) : String :=
  (deps[index]?.map (·.name)).getD ""

/-- `sort_unstable_by` the names. -/
def sortByName (deps : List PluginDependency) (ready : List Nat) : List Nat :=
  ready.mergeSort fun a b => nameOf deps a ≤ nameOf deps b

/-- `dependency_topological_order`; nothing if the loop does not end. -/
def dependencyTopologicalOrder (deps : List PluginDependency)
    (interfaces : String → Option PluginComponentInterfaces) :
    Option (Except ImagodError (List Nat)) :=
  match byNameFrom ∅ 0 deps with
  | .error e => some (.error e)
  | .ok byName =>
    match addAllEdges byName interfaces emptyGraph 0 deps with
    | .error e => some (.error e)
    | .ok g =>
      let ready := (List.range deps.length).filter fun index => g.indegree index = 0
      (Kahn.loop (sortByName deps) g.edges (deps.length + 1) (sortByName deps ready) g.indegree
        []).map fun order =>
          if order.length ≠ deps.length then
            .error (mapRuntimeError "plugin dependency graph contains a cycle")
          else .ok order

/-! ### Providers -/

/-- `resolve_import_provider`. -/
def resolveImportProvider (callerName importName : String)
    (selfExports explicitNames availableNames : List String) (allowSelf : Bool) :
    Except ImagodError PluginImportProvider :=
  if allowSelf = true ∧ importName ∈ selfExports then .ok .selfComponent
  else
    match (parseImportPackageName importName).filter (· ∈ explicitNames) with
    | some explicitDep =>
      if explicitDep ∈ availableNames then .ok (.dependency explicitDep)
      else
        .error (mapRuntimeError ("failed to resolve plugin import provider for caller='" ++
          callerName ++ "', import='" ++ importName ++ "': checked=self, explicit_dep='" ++
          explicitDep ++ "' exists but is not instantiated yet"))
    | none =>
      .error (mapRuntimeError ("failed to resolve plugin import provider for caller='" ++
        callerName ++ "', import='" ++ importName ++ "': checked=self, explicit_dep='" ++
        (parseImportPackageName importName).getD "<none>" ++ "', result=not-found"))

/-- An import that the caller does not export itself is served by the dependency whose
package it is in, if this one is listed and there. -/
theorem resolveImportProvider_eq_dependency {callerName importName package : String}
    {selfExports explicitNames availableNames : List String} {allowSelf : Bool}
    (hself : importName ∉ selfExports) (hparse : parseImportPackageName importName = some package)
    (hlisted : package ∈ explicitNames) (hthere : package ∈ availableNames) :
    resolveImportProvider callerName importName selfExports explicitNames availableNames allowSelf =
      .ok (.dependency package) := by
  unfold resolveImportProvider
  rw [if_neg fun h => hself h.2, hparse, Option.filter_some, if_pos (decide_eq_true hlisted)]
  exact if_pos hthere

/-! ### Who stands behind whom -/

/-- Dependency `i` is required by dependency `j`, or an import of `j` that `j` does
not export itself is in the package of `i`. -/
def Provides (deps : List PluginDependency) (interfaces : String → Option PluginComponentInterfaces)
    (i j : Nat) : Prop :=
  ∃ provider user, deps[i]? = some provider ∧ deps[j]? = some user ∧
    (provider.name ∈ user.requires ∨
      ∃ found, interfaces user.name = some found ∧ ∃ importName ∈ found.imports,
        importName ∉ found.exports ∧ parseImportPackageName importName = some provider.name ∧
        provider.name ≠ user.name)

/-! ### Names -/

variable {index : Nat}

section Names

variable {deps : List PluginDependency} {byName : TreeMap String Nat}

/-- The names that have been entered, behind those that were there. -/
theorem byNameFrom_spec {start : TreeMap String Nat} :
    (∃ result, byNameFrom start index deps = .ok result) ↔
      (deps.map (·.name)).Nodup ∧ ∀ dep ∈ deps, dep.name ∉ start := by
  induction deps generalizing start index with
  | nil => exact ⟨fun _ => ⟨List.nodup_nil, nofun⟩, fun _ => ⟨start, rfl⟩⟩
  | cons dep deps ih =>
    rw [byNameFrom]
    by_cases hmem : start.contains dep.name
    · rw [if_pos hmem]
      refine ⟨nofun, fun h => absurd ?_ (h.2 dep (.head _))⟩
      exact TreeMap.contains_iff_mem.mp hmem
    · rw [if_neg hmem, ih, List.map_cons, List.nodup_cons]
      have hmem : dep.name ∉ start := mt TreeMap.contains_iff_mem.mpr hmem
      constructor
      · rintro ⟨hnodup, hnot⟩
        refine ⟨⟨?_, hnodup⟩, ?_⟩
        · intro hname
          obtain ⟨d, hd, hd'⟩ := List.mem_map.mp hname
          exact hnot d hd (TreeMap.mem_insert.mpr (.inl (by simp [hd'])))
        · intro d hd hin
          rcases List.mem_cons.mp hd with rfl | hd
          · exact hmem hin
          · exact hnot d hd (TreeMap.mem_insert.mpr (.inr hin))
      · rintro ⟨⟨hname, hnodup⟩, hnot⟩
        refine ⟨hnodup, fun d hd hin => ?_⟩
        rcases TreeMap.mem_insert.mp hin with heq | hin
        · have heq : dep.name = d.name := by simpa using heq
          exact hname (heq ▸ List.mem_map_of_mem hd)
        · exact hnot d (.tail _ hd) hin

theorem byNameFrom_getElem? {start result : TreeMap String Nat}
    (h : byNameFrom start index deps = .ok result) (name : String) (i : Nat) :
    result[name]? = some i ↔
      start[name]? = some i ∨ ∃ k, i = index + k ∧ deps[k]?.map (·.name) = some name := by
  induction deps generalizing start index with
  | nil =>
    cases h
    refine ⟨.inl, ?_⟩
    rintro (h | ⟨k, -, hk⟩)
    · exact h
    · cases hk
  | cons dep deps ih =>
    rw [byNameFrom] at h
    split at h
    · cases h
    · rename_i hnot
      have hnot : start[dep.name]? = none :=
        TreeMap.getElem?_eq_none (mt TreeMap.contains_iff_mem.mpr hnot)
      rw [ih h]
      constructor
      · rintro (hstart | ⟨k, rfl, hk⟩)
        · rcases lookup_of_insert hstart with ⟨rfl, rfl⟩ | hstart
          · exact .inr ⟨0, rfl, rfl⟩
          · exact .inl hstart
        · exact .inr ⟨k + 1, by omega, hk⟩
      · rintro (hstart | ⟨k, rfl, hk⟩)
        · refine .inl ((getElem?_insert_ne fun heq => ?_).trans hstart)
          rw [heq, hstart] at hnot
          cases hnot
        · cases k with
          | zero =>
            have hname : dep.name = name := Option.some.inj hk
            refine .inl ?_
            rw [hname, TreeMap.getElem?_insert_self]
            rfl
          | succ k => exact Or.inr ⟨k, by omega, hk⟩

/-- The map gives the index of a name. -/
theorem byName_iff (h : byNameFrom ∅ 0 deps = .ok byName) (name : String) (i : Nat) :
    byName[name]? = some i ↔ deps[i]?.map (·.name) = some name := by
  rw [byNameFrom_getElem? h]
  constructor
  · rintro (hempty | ⟨k, rfl, hk⟩)
    · rw [TreeMap.getElem?_emptyc] at hempty
      cases hempty
    · rwa [Nat.zero_add]
  · exact fun hk => .inr ⟨i, (Nat.zero_add i).symm, hk⟩

end Names

/-! ### Edges -/

/-- The graph has each edge once, between dependencies, and counts them. -/
structure DependencyGraph.Valid (g : DependencyGraph) (n : Nat) : Prop where
  nodup : ∀ a, (g.edges a).Nodup
  range : ∀ a, ∀ b ∈ g.edges a, a < n ∧ b < n
  indegree_eq : ∀ v, g.indegree v = ((Finset.range n).filter fun a => v ∈ g.edges a).card

theorem valid_emptyGraph (n : Nat) : emptyGraph.Valid n where
  nodup _ := List.nodup_nil
  range _ := nofun
  indegree_eq v := by
    refine (Finset.card_eq_zero.mpr ?_).symm
    exact Finset.filter_eq_empty_iff.mpr fun _ _ => List.not_mem_nil

section Edges

variable {g : DependencyGraph} {n source target : Nat}

theorem edges_addDependencyEdge (h : target ∉ g.edges source) :
    (addDependencyEdge g source target).edges =
      Function.update g.edges source ((g.edges source).orderedInsert (· ≤ ·) target) := by
  rw [addDependencyEdge, if_neg h]

theorem indegree_addDependencyEdge (h : target ∉ g.edges source) :
    (addDependencyEdge g source target).indegree =
      Function.update g.indegree target (g.indegree target + 1) := by
  rw [addDependencyEdge, if_neg h]

theorem mem_edges_addDependencyEdge (a b : Nat) :
    b ∈ (addDependencyEdge g source target).edges a ↔ b ∈ g.edges a ∨
      (a = source ∧ b = target) := by
  by_cases hmem : target ∈ g.edges source
  · rw [addDependencyEdge, if_pos hmem]
    refine ⟨.inl, ?_⟩
    rintro (h | ⟨rfl, rfl⟩)
    · exact h
    · exact hmem
  · rw [edges_addDependencyEdge hmem]
    by_cases ha : a = source
    · subst ha
      rw [Function.update_self, List.mem_orderedInsert]
      tauto
    · rw [Function.update_of_ne ha]
      tauto

/-- The predecessors of a node, with the new edge. -/
theorem filter_addDependencyEdge (hsource : source < n) (v : Nat) :
    ((Finset.range n).filter fun a => v ∈ (addDependencyEdge g source target).edges a) =
      if v = target then insert source ((Finset.range n).filter fun a => v ∈ g.edges a)
      else (Finset.range n).filter fun a => v ∈ g.edges a := by
  ext a
  simp only [Finset.mem_filter, Finset.mem_range, mem_edges_addDependencyEdge]
  split
  · rename_i hv
    simp only [Finset.mem_insert, Finset.mem_filter, Finset.mem_range, hv, and_true]
    constructor
    · rintro ⟨ha, hb | rfl⟩
      · exact .inr ⟨ha, hb⟩
      · exact .inl rfl
    · rintro (rfl | ⟨ha, hb⟩)
      · exact ⟨hsource, .inr rfl⟩
      · exact ⟨ha, .inl hb⟩
  · rename_i hv
    simp only [Finset.mem_filter, Finset.mem_range, hv, and_false, or_false]

theorem DependencyGraph.Valid.addDependencyEdge (h : g.Valid n) (hsource : source < n)
    (htarget : target < n) : (addDependencyEdge g source target).Valid n := by
  by_cases hmem : target ∈ g.edges source
  · rw [PluginResolver.addDependencyEdge, if_pos hmem]
    exact h
  · refine ⟨fun a => ?_, fun a b hb => ?_, fun v => ?_⟩
    · rw [edges_addDependencyEdge hmem]
      by_cases ha : a = source
      · subst ha
        rw [Function.update_self, (List.perm_orderedInsert _ _ _).nodup_iff]
        exact List.nodup_cons.mpr ⟨hmem, h.nodup a⟩
      · rw [Function.update_of_ne ha]
        exact h.nodup a
    · rcases (mem_edges_addDependencyEdge a b).mp hb with hb | ⟨rfl, rfl⟩
      · exact h.range a b hb
      · exact ⟨hsource, htarget⟩
    · rw [filter_addDependencyEdge hsource, indegree_addDependencyEdge hmem]
      by_cases hv : v = target
      · subst hv
        rw [Function.update_self, if_pos rfl, Finset.card_insert_of_notMem, h.indegree_eq]
        exact fun hin => hmem (Finset.mem_filter.mp hin).2
      · rw [Function.update_of_ne hv, if_neg hv, h.indegree_eq]

/-- Edges from several providers to one user. -/
theorem addProviders_spec (h : g.Valid n) (providers : List Nat)
    (hproviders : ∀ p ∈ providers, p < n) (htarget : target < n) :
    (addProviders g providers target).Valid n ∧ ∀ a b,
      b ∈ (addProviders g providers target).edges a ↔
        b ∈ g.edges a ∨ (b = target ∧ a ∈ providers) := by
  induction providers generalizing g with
  | nil =>
    refine ⟨h, fun a b => ⟨.inl, ?_⟩⟩
    rintro (hb | ⟨-, ha⟩)
    · exact hb
    · cases ha
  | cons p providers ih =>
    obtain ⟨hvalid, hedges⟩ := ih
      (h.addDependencyEdge (hproviders p (.head _)) htarget)
      fun q hq => hproviders q (.tail _ hq)
    refine ⟨hvalid, fun a b => ?_⟩
    show b ∈ (addProviders (addDependencyEdge g p target) providers target).edges a ↔ _
    rw [hedges, mem_edges_addDependencyEdge, List.mem_cons]
    tauto

end Edges

variable {g : DependencyGraph}

section Graph

variable {deps : List PluginDependency} {interfaces : String → Option PluginComponentInterfaces}
  {byName : TreeMap String Nat}

/-- The loop over `requires` succeeds if the names are known, and adds their edges. -/
theorem addRequires_eq (byName : TreeMap String Nat) (dep : PluginDependency) (index : Nat)
    (g : DependencyGraph) (reqs : List String) :
    (∀ req ∈ reqs, byName[req]? ≠ none) ∧
        addRequires byName dep index g reqs =
          .ok (addProviders g (reqs.filterMap fun req => byName[req]?) index) ∨
      ∃ req ∈ reqs, byName[req]? = none ∧ ∃ e, addRequires byName dep index g reqs = .error e := by
  induction reqs generalizing g with
  | nil => exact Or.inl ⟨nofun, rfl⟩
  | cons req reqs ih =>
    rw [addRequires]
    rcases hreq : byName[req]? with - | i
    · exact .inr ⟨req, .head _, hreq, _, rfl⟩
    · dsimp only
      rcases ih (addDependencyEdge g i index) with ⟨hknown, heq⟩ | ⟨r, hr, hnone, herror⟩
      · refine .inl ⟨?_, ?_⟩
        · intro r hr
          rcases List.mem_cons.mp hr with rfl | hr
          · rw [hreq]
            exact nofun
          · exact hknown r hr
        · rw [heq, List.filterMap_cons_some hreq]
          rfl
      · exact .inr ⟨r, List.mem_cons_of_mem _ hr, hnone, herror⟩

/-- The names that a dependency requires are those of dependencies. -/
def RequiresKnown (deps : List PluginDependency) (user : PluginDependency) : Prop :=
  ∀ req ∈ user.requires, ∃ provider ∈ deps, provider.name = req

theorem requiresKnown_iff (h : byNameFrom ∅ 0 deps = .ok byName) (user : PluginDependency) :
    RequiresKnown deps user ↔ ∀ req ∈ user.requires, byName[req]? ≠ none := by
  refine forall₂_congr fun req _ => ?_
  constructor
  · rintro ⟨provider, hmem, rfl⟩ hnone
    obtain ⟨i, hi⟩ := List.mem_iff_getElem?.mp hmem
    rw [(byName_iff h provider.name i).mpr (by rw [hi]; rfl)] at hnone
    cases hnone
  · intro hne
    obtain ⟨i, hi⟩ := Option.ne_none_iff_exists'.mp hne
    obtain ⟨provider, hprovider, hname⟩ := Option.map_eq_some_iff.mp ((byName_iff h req i).mp hi)
    exact ⟨provider, List.mem_of_getElem? hprovider, hname⟩

theorem lt_of_byName (h : byNameFrom ∅ 0 deps = .ok byName) {name : String} {i : Nat}
    (hi : byName[name]? = some i) : i < deps.length := by
  obtain ⟨provider, hprovider, -⟩ := Option.map_eq_some_iff.mp ((byName_iff h name i).mp hi)
  exact (List.getElem?_eq_some_iff.mp hprovider).1

theorem mem_collectImplicit {dependencyName : String} {imports exports : List String} {i : Nat} :
    i ∈ collectImplicitProviderIndices dependencyName imports exports byName ↔
      ∃ importName ∈ imports, importName ∉ exports ∧ ∃ packageName,
        parseImportPackageName importName = some packageName ∧ packageName ≠ dependencyName ∧
        byName[packageName]? = some i := by
  unfold collectImplicitProviderIndices
  rw [List.mem_mergeSort, List.mem_dedup, List.mem_filterMap]
  refine exists_congr fun importName => and_congr_right fun _ => ?_
  constructor
  · intro h
    split at h
    · cases h
    · rename_i hexport
      refine ⟨hexport, ?_⟩
      split at h
      · cases h
      · rename_i packageName hpackage
        split at h
        · cases h
        · exact ⟨packageName, hpackage, ‹_›, h⟩
  · rintro ⟨hexport, packageName, hpackage, hne, hi⟩
    rw [if_neg hexport, hpackage]
    dsimp only
    rw [if_neg hne, hi]

section

variable (interfaces : String → Option PluginComponentInterfaces)
  (h : byNameFrom ∅ 0 deps = .ok byName)

include h

/-- Who stands in front of a dependency, in terms of the map. -/
theorem provides_iff {i : Nat} {user : PluginDependency}
    (huser : deps[index]? = some user) :
    Provides deps interfaces i index ↔
      i ∈ (user.requires.filterMap fun req => byName[req]?) ∨
        ∃ found, interfaces user.name = some found ∧
          i ∈ collectImplicitProviderIndices user.name found.imports found.exports byName := by
  have hname : ∀ name, byName[name]? = some i ↔ ∃ provider, deps[i]? = some provider ∧
      provider.name = name := fun name => (byName_iff h name i).trans Option.map_eq_some_iff
  unfold Provides
  simp only [mem_collectImplicit, List.mem_filterMap, hname, huser]
  constructor
  · rintro ⟨provider, _, hprovider, ⟨⟩,
      hreq | ⟨found, hfound, importName, himport, hexport, hpackage, hne⟩⟩
    · exact .inl ⟨_, hreq, provider, hprovider, rfl⟩
    · exact .inr ⟨found, hfound, importName, himport, hexport, _, hpackage, hne, provider,
        hprovider, rfl⟩
  · rintro (⟨req, hreq, provider, hprovider, rfl⟩ |
      ⟨found, hfound, importName, himport, hexport, _, hpackage, hne, provider, hprovider, rfl⟩)
    · exact ⟨provider, user, hprovider, rfl, .inl hreq⟩
    · exact ⟨provider, user, hprovider, rfl,
        Or.inr ⟨found, hfound, importName, himport, hexport, hpackage, hne⟩⟩

/-- The edges to one dependency: it is an error if it requires an unknown name. -/
theorem addEdgesTo_spec (hg : g.Valid deps.length) {user : PluginDependency}
    (huser : deps[index]? = some user) :
    (RequiresKnown deps user ∧ ∃ g', addEdgesTo byName interfaces g index user = .ok g' ∧
        g'.Valid deps.length ∧ ∀ a b, b ∈ g'.edges a ↔
          b ∈ g.edges a ∨ (b = index ∧ Provides deps interfaces a b)) ∨
      ¬RequiresKnown deps user ∧ ∃ e, addEdgesTo byName interfaces g index user = .error e := by
  have hindex : index < deps.length := (List.getElem?_eq_some_iff.mp huser).1
  rcases addRequires_eq byName user index g user.requires with
    ⟨hknown, heq⟩ | ⟨req, hreq, hnone, e, herror⟩
  · refine .inl ⟨(requiresKnown_iff h user).mpr hknown, ?_⟩
    obtain ⟨hvalid, hedges⟩ :=
      addProviders_spec hg (user.requires.filterMap fun req => byName[req]?)
      (fun p hp => by
        obtain ⟨req, -, hp⟩ := List.mem_filterMap.mp hp
        exact lt_of_byName h hp) hindex
    have hprovides := fun i => provides_iff interfaces h (i := i) huser
    rcases hfound : interfaces user.name with - | found
    · refine ⟨_, by rw [addEdgesTo, heq]; simp only [hfound]; rfl, hvalid, fun a b => ?_⟩
      rw [hedges]
      refine or_congr_right (and_congr_right fun hb => ?_)
      rw [hb, hprovides, hfound]
      simp
    · obtain ⟨hvalid', hedges'⟩ := addProviders_spec hvalid
        (collectImplicitProviderIndices user.name found.imports found.exports byName)
        (fun p hp => by
          obtain ⟨_, _, _, _, _, _, hp⟩ := mem_collectImplicit.mp hp
          exact lt_of_byName h hp) hindex
      refine ⟨_, by rw [addEdgesTo, heq]; simp only [hfound]; rfl, hvalid', fun a b => ?_⟩
      rw [hedges', hedges, or_assoc]
      refine or_congr_right ?_
      rw [← and_or_left]
      refine and_congr_right fun hb => ?_
      rw [hb, hprovides, hfound]
      simp
  · refine .inr ⟨?_, e, ?_⟩
    · rw [requiresKnown_iff h]
      exact fun hall => hall req hreq hnone
    · rw [addEdgesTo, herror]
      rfl

/-- The edges to the dependencies from `index` on. -/
theorem addAllEdges_spec (hg : g.Valid deps.length) {rest : List PluginDependency}
    (hrest : deps.drop index = rest) :
    ((∀ user ∈ rest, RequiresKnown deps user) ∧
        ∃ g', addAllEdges byName interfaces g index rest = .ok g' ∧ g'.Valid deps.length ∧
          ∀ a b, b ∈ g'.edges a ↔ b ∈ g.edges a ∨ (index ≤ b ∧ Provides deps interfaces a b)) ∨
      (∃ user ∈ rest, ¬RequiresKnown deps user) ∧
        ∃ e, addAllEdges byName interfaces g index rest = .error e := by
  induction rest generalizing g index with
  | nil =>
    refine .inl ⟨nofun, g, rfl, hg, fun a b => ⟨.inl, ?_⟩⟩
    rintro (hb | ⟨hle, provider, user, -, huser, -⟩)
    · exact hb
    · have := (List.getElem?_eq_some_iff.mp huser).1
      have := List.drop_eq_nil_iff.mp hrest
      omega
  | cons user rest ih =>
    have huser : deps[index]? = some user := by
      rw [← List.head?_drop, hrest, List.head?_cons]
    have hnext : deps.drop (index + 1) = rest := by
      rw [← List.tail_drop, hrest, List.tail_cons]
    rw [addAllEdges]
    rcases addEdgesTo_spec interfaces h hg huser with
      ⟨hknown, g', heq, hvalid, hedges⟩ | ⟨hunknown, e, heq⟩
    · rw [heq]
      rcases ih hvalid hnext with ⟨hall, g'', heq', hvalid', hedges'⟩ | ⟨⟨u, hu, hnot⟩, e, herror⟩
      · refine .inl ⟨?_, g'', heq', hvalid', fun a b => ?_⟩
        · intro u hu
          rcases List.mem_cons.mp hu with rfl | hu
          · exact hknown
          · exact hall u hu
        · rw [hedges', hedges, or_assoc]
          refine or_congr_right ?_
          rw [← or_and_right]
          refine and_congr_left fun _ => ?_
          omega
      · exact .inr ⟨⟨u, List.mem_cons_of_mem _ hu, hnot⟩, e, herror⟩
    · rw [heq]
      exact .inr ⟨⟨user, .head _, hunknown⟩, e, rfl⟩

end

/-! ### The order -/

/-- No dependency stands behind itself. -/
def AcyclicProvides (deps : List PluginDependency)
    (interfaces : String → Option PluginComponentInterfaces) : Prop :=
  ∀ i, ¬Relation.TransGen (Provides deps interfaces) i i

/-- The dependencies in an order in which those that provide come first. -/
structure ProvidersFirst (deps : List PluginDependency)
    (interfaces : String → Option PluginComponentInterfaces) (order : List Nat) : Prop where
  perm : order.Perm (List.range deps.length)
  first : ∀ pre j post, order = pre ++ j :: post → ∀ i, Provides deps interfaces i j → i ∈ pre

/-- The loop starts with the dependencies that have nothing in front of them. -/
theorem inv_start {n : Nat} (hg : g.Valid n) :
    Kahn.Inv (Finset.range n) g.edges ((List.range n).filter fun i => g.indegree i = 0)
      g.indegree []
    where
  nodup := List.nodup_range.filter _
  subset v hv := Finset.mem_range.mpr (List.mem_range.mp (List.mem_of_mem_filter hv))
  indegree_eq v _ := by
    rw [hg.indegree_eq v]
    refine congrArg Finset.card (Finset.filter_congr fun a _ => ?_)
    exact ⟨fun h => ⟨List.not_mem_nil, h⟩, And.right⟩
  ready_iff v hv := by
    rw [List.nil_append, List.mem_filter, List.mem_range, decide_eq_true_eq]
    exact ⟨And.right, fun h => ⟨Finset.mem_range.mp hv, h⟩⟩
  first pre v post h := absurd h.symm
    (List.append_ne_nil_of_right_ne_nil _ (List.cons_ne_nil v post))

theorem order_cases (hgraph : byNameFrom ∅ 0 deps = .ok byName)
    (hall : addAllEdges byName interfaces emptyGraph 0 deps = .ok g) (hg : g.Valid deps.length)
    (hedges : ∀ a b, b ∈ g.edges a ↔ Provides deps interfaces a b) :
    (AcyclicProvides deps interfaces ∧ ∃ order,
        dependencyTopologicalOrder deps interfaces = some (.ok order) ∧
          ProvidersFirst deps interfaces order) ∨
      ¬AcyclicProvides deps interfaces ∧
        ∃ e, dependencyTopologicalOrder deps interfaces = some (.error e) := by
  have hsort : ∀ l, (sortByName deps l).Perm l := fun l => List.mergeSort_perm l _
  obtain ⟨order, indegree, hloop, hinv⟩ := Kahn.loop_total hsort hg.nodup
    (fun a v hv => Finset.mem_range.mpr (hg.range a v hv).2) (deps.length + 1)
    ((inv_start hg).perm (hsort _)) (by rw [Finset.card_range, List.length_nil]; omega)
  have hiff := Kahn.taken_all_iff (fun a v hv => ⟨Finset.mem_range.mpr (hg.range a v hv).1,
    Finset.mem_range.mpr (hg.range a v hv).2⟩) hinv
  have hacyclic : Kahn.Acyclic g.edges ↔ AcyclicProvides deps interfaces := by
    have hrel : (fun a b => b ∈ g.edges a) = Provides deps interfaces := by
      funext a b
      exact propext (hedges a b)
    rw [Kahn.Acyclic, hrel]
    rfl
  rw [Finset.card_range, hacyclic] at hiff
  have hresult : dependencyTopologicalOrder deps interfaces =
      some (if order.length ≠ deps.length then
        .error (mapRuntimeError "plugin dependency graph contains a cycle") else .ok order) := by
    rw [dependencyTopologicalOrder, hgraph]
    dsimp only
    rw [hall]
    dsimp only
    rw [hloop, Option.map_some]
  by_cases hlen : order.length = deps.length
  · refine .inl ⟨hiff.mp hlen, order, by rw [hresult, if_neg (not_not.mpr hlen)], ?_, ?_⟩
    · have hnodup : order.Nodup := by simpa using hinv.nodup
      refine (List.subperm_of_subset hnodup fun v hv => ?_).perm_of_length_le ?_
      · exact List.mem_range.mpr (Finset.mem_range.mp (hinv.subset v (by simpa using hv)))
      · rw [List.length_range, hlen]
    · intro pre j post hsplit i hprovides
      have hedge := (hedges i j).mpr hprovides
      exact hinv.first pre j post hsplit i (Finset.mem_range.mpr (hg.range i j hedge).1) hedge
  · exact .inr ⟨mt hiff.mpr hlen, _, by rw [hresult, if_pos hlen]⟩

/-- **The order of the dependencies.**  It is found exactly if the names are
different, all required names are known and no dependency stands behind itself; it
has every dependency once, those that provide first. -/
theorem dependencyTopologicalOrder_cases (deps : List PluginDependency)
    (interfaces : String → Option PluginComponentInterfaces) :
    (((deps.map (·.name)).Nodup ∧ (∀ user ∈ deps, RequiresKnown deps user) ∧
        AcyclicProvides deps interfaces) ∧ ∃ order,
        dependencyTopologicalOrder deps interfaces = some (.ok order) ∧
          ProvidersFirst deps interfaces order) ∨
      ¬((deps.map (·.name)).Nodup ∧ (∀ user ∈ deps, RequiresKnown deps user) ∧
        AcyclicProvides deps interfaces) ∧
        ∃ e, dependencyTopologicalOrder deps interfaces = some (.error e) := by
  rcases hnames : byNameFrom ∅ 0 deps with e | byName
  · refine .inr ⟨fun h => ?_, e, by rw [dependencyTopologicalOrder, hnames]⟩
    obtain ⟨result, hresult⟩ : ∃ result, byNameFrom ∅ 0 deps = .ok result :=
      byNameFrom_spec.mpr ⟨h.1, fun dep _ => TreeMap.not_mem_emptyc⟩
    rw [hnames] at hresult
    cases hresult
  · have hnodup : (deps.map (·.name)).Nodup := (byNameFrom_spec.mp ⟨byName, hnames⟩).1
    rcases addAllEdges_spec interfaces hnames (valid_emptyGraph deps.length)
      (show deps.drop 0 = deps from List.drop_zero) with ⟨hknown, g, hall, hg, hedges⟩ |
        ⟨⟨user, huser, hnot⟩, e, herror⟩
    · have hedges : ∀ a b, b ∈ g.edges a ↔ Provides deps interfaces a b := by
        intro a b
        rw [hedges]
        exact ⟨fun h => (h.resolve_left List.not_mem_nil).2, fun h => .inr ⟨Nat.zero_le b, h⟩⟩
      rcases order_cases hnames hall hg hedges with ⟨hacyclic, horder⟩ | ⟨hcycle, herror⟩
      · exact .inl ⟨⟨hnodup, hknown, hacyclic⟩, horder⟩
      · exact .inr ⟨fun h => hcycle h.2.2, herror⟩
    · refine .inr ⟨fun h => hnot (h.2.1 user huser), e, ?_⟩
      rw [dependencyTopologicalOrder, hnames]
      dsimp only
      rw [herror]

end Graph

end PluginResolver

end Imago
