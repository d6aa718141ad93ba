/-
Imago/PluginCache.lean

The cache of plugin components, which all services share.  A preparation
(`prepare_plugin_dependencies_for_root`) goes through the dependencies of one
manifest; for a component it looks at the cache file that is named after the
component's hash, computes the digest of what it finds, and copies the release's
file over it if the digest is another one.  The copy truncates the file and then
fills it.  Preparations of different services run at the same time, since the
command gate excludes only those of one service.

A file that is being copied looks to another preparation like one with a wrong
digest, so that it is truncated again, after the first preparation has returned
its path.  `cached_components_whole`: if a preparation looks at a cache file only
while no other one is between its own look and the end of its copy, every path
that was returned holds, from then on, contents with the hash in its name.
-/
import Imago.FileStore
import Imago.PluginDependencies
import Imago.Runs
import Mathlib.Logic.Function.Basic

namespace Imago.PluginCache

/-! ### The model -/

/-- What is at a path of the cache. -/
inductive CacheNode
  | file (bytes : List UInt8)
  | other

/-- The cache directory: what is at the path of a hash. -/
abbrev Cache := String → Option CacheNode

/-- Where a preparation is. -/
inductive Pc
  | createDir
  | next
  | inspect (dep : PluginDependency) (c : CheckedComponent)
  | digest (dep : PluginDependency) (c : CheckedComponent)
  | copy (dep : PluginDependency) (c : CheckedComponent)
  | copying (dep : PluginDependency) (c : CheckedComponent) (written : Nat)
  | returned (result : Except ImagodError (List PluginDependency))

/-- A preparation: the names that are known, the dependencies that are left and
those that are done. -/
structure Prep where
  release : ReleaseDir
  known : List String
  todo : List PluginDependency
  normalized : List PluginDependency
  pc : Pc

/-- The cache directory and the preparations, of all services. -/
structure World where
  storageRoot : String
  cache : Cache
  preps : List Prep

/-- How a file-system call ends: it fails, is done, or (for the copy) has written
some more bytes.  A file that is read may fail in several calls. -/
inductive Io
  | done
  | wrote (n : Nat)
  | failed (error : String)
  | unread (fault : ReadFault)

/-- What happens next, and how the call ends that preparation `i` makes. -/
inductive Action
  /-- a preparation begins -/
  | prepare (release : ReleaseDir) (dependencies : List PluginDependency)
  | proceed (i : Nat) (io : Io)

section Model

variable (crates : ComponentCrates) (storageRoot : String)

/-- `plugin_component_cache_root`. -/
def cacheRoot : String := storageRoot ++ "/plugins/components"

/-- The file of a hash. -/
def cachePath (sha256 : String) : String := cacheRoot storageRoot ++ "/" ++ sha256 ++ ".wasm"

/-- The checks before the directory is created. -/
def Prep.new (release : ReleaseDir) (dependencies : List PluginDependency) : Prep :=
  if dependencies = [] then ⟨release, [], [], [], .returned (.ok [])⟩
  else
    match checkNames [] dependencies with
    | .error e => ⟨release, [], [], [], .returned (.error e)⟩
    | .ok known => ⟨release, known, dependencies, [], .createDir⟩

/-- The preparation returns an error. -/
def Prep.fail (p : Prep) (e : ImagodError) : Prep := { p with pc := .returned (.error e) }

/-- The next dependency, up to the look at the cache. -/
def Prep.check (p : Prep) (fault : Option ReadFault) : Prep :=
  match p.todo with
  | [] => { p with pc := .returned (.ok p.normalized) }
  | dep :: todo =>
    match checkDependency crates p.release p.known dep fault with
    | .error e => p.fail e
    | .ok (.native dep) => { p with todo := todo, normalized := p.normalized ++ [dep] }
    | .ok (.wasm dep c) => { p with todo := todo, pc := .inspect dep c }

/-- The dependency is normalized, with the component in the cache. -/
def Prep.push (p : Prep) (dep : PluginDependency) (c : CheckedComponent) : Prep :=
  let component := ⟨cachePath storageRoot c.sha256, c.sha256, some c.imports, some c.exports⟩
  { p with
    normalized := p.normalized ++ [{ dep with component := some component }]
    pc := .next }

/-- One step of a preparation. -/
def Prep.step (cache : Cache) (p : Prep) (io : Io) : Option (Cache × Prep) :=
  match p.pc, io with
  | .createDir, .done => some (cache, { p with pc := .next })
  | .createDir, .failed e =>
    some (cache, p.fail (Orchestrator.mapInternal ("failed to create plugin component cache dir " ++
      cacheRoot storageRoot ++ ": " ++ e)))
  | .next, .done => some (cache, p.check crates none)
  | .next, .unread fault => some (cache, p.check crates (some fault))
  | .inspect dep c, .done =>
    match cache c.sha256 with
    | none => some (cache, { p with pc := .copy dep c })
    | some (.file _) => some (cache, { p with pc := .digest dep c })
    | some .other =>
      some (cache, p.fail (Orchestrator.mapInternal
        ("plugin component cache path is not a file: " ++ cachePath storageRoot c.sha256)))
  | .inspect _ c, .failed e =>
    some (cache, p.fail (Orchestrator.mapInternal ("failed to inspect plugin component cache " ++
      cachePath storageRoot c.sha256 ++ ": " ++ e)))
  | .digest dep c, .done =>
    match cache c.sha256 with
    | some (.file bytes) =>
      if eqIgnoreAsciiCase (crates.sha256Hex bytes) c.sha256 then
        some (cache, p.push storageRoot dep c)
      else some (cache, { p with pc := .copy dep c })
    | _ => none
  | .digest _ c, .unread fault =>
    match sha256HexOf crates (cachePath storageRoot c.sha256) [] (some fault) with
    | .error e => some (cache, p.fail e)
    | .ok _ => none
  | .copy dep c, .done =>
    -- opened with `create` and `truncate`
    some (Function.update cache c.sha256 (some (.file [])), { p with pc := .copying dep c 0 })
  | .copying dep c written, .wrote n =>
    match cache c.sha256 with
    | some (.file bytes) =>
      if 0 < n ∧ written + n ≤ c.bytes.length then
        let bytes := writeAt bytes written ((c.bytes.drop written).take n)
        some (Function.update cache c.sha256 (some (.file bytes)),
          { p with pc := .copying dep c (written + n) })
      else none
    | _ => none
  | .copying dep c written, .done =>
    if written = c.bytes.length then some (cache, p.push storageRoot dep c) else none
  | .copy _ c, .failed e | .copying _ c _, .failed e =>
    -- what was written stays
    some (cache, p.fail (Orchestrator.mapInternal ("failed to copy plugin component to cache " ++
      cachePath storageRoot c.sha256 ++ ": " ++ e)))
  | _, _ => none

end Model

/-- A preparation begins, or one makes its next call. -/
def step (crates : ComponentCrates) (w : World) : Action → Option World
  | .prepare release dependencies => some { w with preps := w.preps ++ [.new release dependencies] }
  | .proceed i io => do
      let p ← w.preps[i]?
      let (cache, p) ← p.step crates w.storageRoot w.cache io
      return { w with cache := cache, preps := w.preps.set i p }

/-- The file of a hash is there, and has it. -/
def Whole (crates : ComponentCrates) (cache : Cache) (sha256 : String) : Prop :=
  ∃ bytes, cache sha256 = some (.file bytes) ∧
    eqIgnoreAsciiCase (crates.sha256Hex bytes) sha256 = true

/-- Every component that a preparation has returned is in the cache, under the
path returned, with contents that have its hash. -/
def ReturnedWhole (crates : ComponentCrates) (w : World) : Prop :=
  ∀ (i : Nat) p deps, w.preps[i]? = some p → p.pc = .returned (.ok deps) →
    ∀ dep ∈ deps, ∀ component, dep.component = some component →
      component.path = cachePath w.storageRoot component.sha256 ∧
        Whole crates w.cache component.sha256

/-- The cache file that a preparation has looked at and is not done with. -/
def Pc.engaged : Pc → Option String
  | .digest _ c | .copy _ c | .copying _ c _ => some c.sha256
  | _ => none

/-- The condition: a preparation looks at a cache file only if no other one is
between its own look at this file and the end of its copy. -/
def Alone (w : World) : Action → Prop
  | .proceed i _ => ∀ p dep c, w.preps[i]? = some p → p.pc = .inspect dep c →
      ∀ q ∈ w.preps, q.pc.engaged ≠ some c.sha256
  | .prepare _ _ => True

/-! ### Steps -/

/-- The component a preparation is at. -/
def Pc.component : Pc → Option CheckedComponent
  | .inspect _ c | .digest _ c | .copy _ c | .copying _ c _ => some c
  | _ => none

/-- The cache file that a preparation has decided to write. -/
def Pc.writes : Pc → Option String
  | .copy _ c | .copying _ c _ => some c.sha256
  | _ => none

variable {s : String}

theorem Pc.engaged_of_writes {pc : Pc} (h : pc.writes = some s) : pc.engaged = some s := by
  cases pc with
  | copy dep c | copying dep c written => exact h
  | createDir | next | inspect | digest | returned => cases h

/-- The components that a preparation is done with. -/
def Prep.components (p : Prep) : List PluginComponent := p.normalized.filterMap (·.component)

/-- The release file of a component has the component's digest. -/
def Verified (crates : ComponentCrates) (c : CheckedComponent) : Prop :=
  eqIgnoreAsciiCase (crates.sha256Hex c.bytes) c.sha256 = true

/-- The steps of a preparation. -/
inductive Move (crates : ComponentCrates) (root : String) (cache : Cache) (p : Prep) :
    Cache → Prep → Prop
  | created : Move crates root cache p cache { p with pc := .next }
  | finish : Move crates root cache p cache { p with pc := .returned (.ok p.normalized) }
  | fail (e : ImagodError) : Move crates root cache p cache (p.fail e)
  | native (todo : List PluginDependency) (dep : PluginDependency) (hpc : p.pc = .next)
      (hdep : dep.component = none) :
      Move crates root cache p cache
        { p with todo := todo, normalized := p.normalized ++ [dep] }
  | wasm (todo : List PluginDependency) (dep : PluginDependency) (c : CheckedComponent)
      (hc : Verified crates c) :
      Move crates root cache p cache { p with todo := todo, pc := .inspect dep c }
  | missing (dep : PluginDependency) (c : CheckedComponent) (hpc : p.pc = .inspect dep c)
      (hcache : cache c.sha256 = none) :
      Move crates root cache p cache { p with pc := .copy dep c }
  | found (dep : PluginDependency) (c : CheckedComponent) (hpc : p.pc = .inspect dep c) :
      Move crates root cache p cache { p with pc := .digest dep c }
  | same (dep : PluginDependency) (c : CheckedComponent) (hpc : p.pc = .digest dep c)
      (hwhole : Whole crates cache c.sha256) :
      Move crates root cache p cache (p.push root dep c)
  | differs (dep : PluginDependency) (c : CheckedComponent) (hpc : p.pc = .digest dep c)
      (hbroken : ¬ Whole crates cache c.sha256) :
      Move crates root cache p cache { p with pc := .copy dep c }
  | truncate (dep : PluginDependency) (c : CheckedComponent) (hpc : p.pc = .copy dep c) :
      Move crates root cache p (Function.update cache c.sha256 (some (.file [])))
        { p with pc := .copying dep c 0 }
  | write (dep : PluginDependency) (c : CheckedComponent) (written n : Nat) (bytes : List UInt8)
      (hpc : p.pc = .copying dep c written) (hcache : cache c.sha256 = some (.file bytes))
      (hn : written + n ≤ c.bytes.length) :
      Move crates root cache p
        (Function.update cache c.sha256
          (some (.file (writeAt bytes written ((c.bytes.drop written).take n)))))
        { p with pc := .copying dep c (written + n) }
  | copied (dep : PluginDependency) (c : CheckedComponent)
      (hpc : p.pc = .copying dep c c.bytes.length) :
      Move crates root cache p cache (p.push root dep c)

variable {cache' : Cache} {p : Prep}

section Moves

variable {crates : ComponentCrates} {root : String} {cache : Cache}

theorem move_check (hpc : p.pc = .next) (fault : Option ReadFault) :
    Move crates root cache p cache (p.check crates fault) := by
  unfold Prep.check
  split
  · exact .finish
  · next dep todo _ =>
    split
    · exact .fail _
    · next d hdep =>
      obtain ⟨hd, hnone⟩ | ⟨c, hd, -⟩ := checkDependency_cases hdep <;> cases hd
      exact .native todo _ hpc hnone
    · next d c hdep =>
      obtain ⟨hd, -⟩ | ⟨c', hd, hc⟩ := checkDependency_cases hdep <;> cases hd
      exact .wasm todo _ c hc

theorem move_of_step {p' : Prep} {io : Io} (h : p.step crates root cache io = some (cache', p')) :
    Move crates root cache p cache' p' := by
  unfold Prep.step at h
  split at h
  · cases h
    exact .created
  · cases h
    exact .fail _
  · next hpc =>
    cases h
    exact move_check hpc none
  · next fault hpc =>
    cases h
    exact move_check hpc (some fault)
  · next dep c hpc =>
    split at h
    · next hcache =>
      cases h
      exact .missing dep c hpc hcache
    · cases h
      exact .found dep c hpc
    · cases h
      exact .fail _
  · cases h
    exact .fail _
  · next dep c hpc =>
    split at h
    · next bytes hcache =>
      split at h
      · next hsame =>
        cases h
        exact .same dep c hpc ⟨bytes, hcache, hsame⟩
      · next hdiffers =>
        cases h
        refine .differs dep c hpc ?_
        rintro ⟨bytes', hcache', hsame⟩
        rw [hcache] at hcache'
        cases hcache'
        exact hdiffers hsame
    · cases h
  · split at h <;> cases h
    exact .fail _
  · next dep c hpc =>
    cases h
    exact .truncate dep c hpc
  · next dep c written n hpc =>
    split at h
    · next bytes hcache =>
      split at h
      · next hn =>
        cases h
        exact .write dep c written n bytes hpc hcache hn.2
      · cases h
    · cases h
  · next dep c written hpc =>
    split at h
    · next hwritten =>
      cases h
      subst hwritten
      exact .copied dep c hpc
    · cases h
  · cases h
    exact .fail _
  · cases h
    exact .fail _
  · cases h

end Moves

/-! ### The invariant -/

/-- What holds of a preparation by itself. -/
structure PrepInv (crates : ComponentCrates) (root : String) (cache : Cache) (p : Prep) : Prop where
  verified : ∀ c, p.pc.component = some c → Verified crates c
  copied : ∀ dep c n, p.pc = .copying dep c n →
    n ≤ c.bytes.length ∧ cache c.sha256 = some (.file (c.bytes.take n))
  returned : ∀ deps, p.pc = .returned (.ok deps) → deps = p.normalized
  path : ∀ component ∈ p.components, component.path = cachePath root component.sha256

/-- No two preparations are at one cache file, and the file of a component that
one is done with is whole and written by none. -/
structure Inv (crates : ComponentCrates) (w : World) : Prop where
  prep : ∀ (i : Nat) p, w.preps[i]? = some p → PrepInv crates w.storageRoot w.cache p
  alone : ∀ (i j : Nat) p q s, w.preps[i]? = some p → w.preps[j]? = some q → i ≠ j →
    p.pc.engaged = some s → q.pc.engaged ≠ some s
  done : ∀ (i : Nat) p, w.preps[i]? = some p → ∀ component ∈ p.components,
    Whole crates w.cache component.sha256 ∧
      ∀ (j : Nat) q, w.preps[j]? = some q → q.pc.writes ≠ some component.sha256

variable {i : Nat}

section Inv

variable {crates : ComponentCrates} {w w' : World}

theorem Whole.congr {cache : Cache} (h : Whole crates cache s) (heq : cache' s = cache s) :
    Whole crates cache' s := by
  obtain ⟨bytes, hcache, hdigest⟩ := h
  exact ⟨bytes, heq.trans hcache, hdigest⟩

/-- A preparation moves: it touches only the file that it writes, looks at a file
only when no other one is at it, writes only a file that is not whole, and is done
with a component only when the file is. -/
theorem Inv.update (h : Inv crates w) {p' : Prep} (hp : w.preps[i]? = some p)
    (hsame : ∀ s, p.pc.writes ≠ some s → cache' s = w.cache s)
    (hengaged : ∀ s, p'.pc.engaged = some s →
      p.pc.engaged = some s ∨ ∀ q ∈ w.preps, q.pc.engaged ≠ some s)
    (hwrites : ∀ s, p'.pc.writes = some s → p.pc.writes = some s ∨ ¬ Whole crates w.cache s)
    (hprep : PrepInv crates w.storageRoot cache' p')
    (hdone : ∀ component ∈ p'.components, component ∈ p.components ∨
      Whole crates cache' component.sha256 ∧ p.pc.engaged = some component.sha256 ∧
        p'.pc.writes ≠ some component.sha256) :
    Inv crates { w with cache := cache', preps := w.preps.set i p' } := by
  -- a file that some preparation is done with is not touched
  have hkept : ∀ (j : Nat) q, w.preps[j]? = some q → ∀ component ∈ q.components,
      Whole crates cache' component.sha256 ∧ ∀ (k : Nat) r, (w.preps.set i p')[k]? = some r →
        r.pc.writes ≠ some component.sha256 := by
    intro j q hq component hmem
    obtain ⟨hwhole, hnot⟩ := h.done j q hq component hmem
    refine ⟨hwhole.congr (hsame _ (hnot i p hp)), forall_set hnot fun hw => ?_⟩
    rcases hwrites _ hw with hold | hbroken
    · exact hnot i p hp hold
    · exact hbroken hwhole
  -- another preparation's file is not touched either
  have hother : ∀ (j : Nat) q s, w.preps[j]? = some q → j ≠ i → q.pc.engaged = some s →
      p.pc.writes ≠ some s := by
    intro j q s hq hj hs hw
    exact h.alone j i q p s hq hp hj hs (Pc.engaged_of_writes hw)
  refine ⟨?_, ?_, forall_set hkept fun component hmem => ?_⟩
  · intro j q hq
    rcases getElem?_set_cases hq with ⟨-, rfl⟩ | ⟨hj, hq'⟩
    · exact hprep
    · have hold := h.prep j q hq'
      refine ⟨hold.verified, fun dep c n hpc => ?_, hold.returned, hold.path⟩
      obtain ⟨hn, hcache⟩ := hold.copied dep c n hpc
      refine ⟨hn, (hsame _ (hother j q _ hq' hj ?_)).trans hcache⟩
      rw [hpc]
      rfl
  · intro j k q r s hq hr hjk hs hs'
    rcases getElem?_set_cases hq with ⟨hj, rfl⟩ | ⟨hj, hq'⟩
    · rcases getElem?_set_cases hr with ⟨hk, -⟩ | ⟨hk, hr'⟩
      · exact hjk (hj.trans hk.symm)
      · rcases hengaged s hs with hold | hfree
        · exact h.alone i k p r s hp hr' (Ne.symm hk) hold hs'
        · exact hfree r (List.mem_of_getElem? hr') hs'
    · rcases getElem?_set_cases hr with ⟨-, rfl⟩ | ⟨hk, hr'⟩
      · rcases hengaged s hs' with hold | hfree
        · exact h.alone j i q p s hq' hp hj hs hold
        · exact hfree q (List.mem_of_getElem? hq') hs
      · exact h.alone j k q r s hq' hr' hjk hs hs'
  · rcases hdone component hmem with hold | ⟨hwhole, hat, hnot⟩
    · exact hkept i p hp component hold
    · refine ⟨hwhole, fun k r hr => ?_⟩
      rcases getElem?_set_cases hr with ⟨-, rfl⟩ | ⟨hk, hr'⟩
      · exact hnot
      · intro hw
        exact h.alone i k p r _ hp hr' (Ne.symm hk) hat (Pc.engaged_of_writes hw)

theorem components_push (root : String) (p : Prep) (dep : PluginDependency)
    (c : CheckedComponent) :
    (p.push root dep c).components =
      p.components ++ [⟨cachePath root c.sha256, c.sha256, some c.imports, some c.exports⟩] := by
  rw [Prep.components, Prep.push, List.filterMap_append]
  rfl

theorem components_native (p : Prep) {dep : PluginDependency} (h : dep.component = none) :
    (p.normalized ++ [dep]).filterMap (·.component) = p.components := by
  rw [List.filterMap_append, List.filterMap_cons_none h, List.filterMap_nil, List.append_nil]
  rfl

/-- A preparation that is done with its component. -/
theorem Inv.push (h : Inv crates w) (hp : w.preps[i]? = some p) (dep : PluginDependency)
    (c : CheckedComponent) (hat : p.pc.engaged = some c.sha256)
    (hwhole : Whole crates w.cache c.sha256) :
    Inv crates { w with preps := w.preps.set i (p.push w.storageRoot dep c) } := by
  have hmem : ∀ component ∈ (p.push w.storageRoot dep c).components,
      component ∈ p.components ∨
        component.path = cachePath w.storageRoot c.sha256 ∧ component.sha256 = c.sha256 := by
    intro component hc
    rw [components_push] at hc
    rcases List.mem_append.mp hc with hold | hnew
    · exact .inl hold
    · rw [List.mem_singleton.mp hnew]
      exact .inr ⟨rfl, rfl⟩
  refine h.update hp (fun s _ => rfl) nofun nofun ?_ ?_
  · refine ⟨nofun, nofun, nofun, ?_⟩
    intro component hc
    rcases hmem component hc with hold | ⟨hpath, hsha⟩
    · exact (h.prep i p hp).path component hold
    · rw [hpath, hsha]
  · intro component hc
    rcases hmem component hc with hold | ⟨-, hsha⟩
    · exact .inl hold
    · rw [hsha]
      exact .inr ⟨hwhole, hat, nofun⟩

theorem Inv.move (h : Inv crates w) {p' : Prep} (hp : w.preps[i]? = some p)
    (hmove : Move crates w.storageRoot w.cache p cache' p')
    (halone : ∀ dep c, p.pc = .inspect dep c → ∀ q ∈ w.preps, q.pc.engaged ≠ some c.sha256) :
    Inv crates { w with cache := cache', preps := w.preps.set i p' } := by
  have hold := h.prep i p hp
  cases hmove with
  | finish =>
    refine h.update hp (fun s _ => rfl) nofun nofun ?_ fun _ => .inl
    exact ⟨nofun, nofun, fun deps hpc => by cases hpc; rfl, hold.path⟩
  | created | fail e =>
    refine h.update hp (fun s _ => rfl) nofun nofun ?_ fun _ => .inl
    exact ⟨nofun, nofun, nofun, hold.path⟩
  | native todo dep hpc hdep =>
    have hsame : ({ p with todo := todo, normalized := p.normalized ++ [dep] } : Prep).components =
        p.components := components_native p hdep
    refine h.update hp (fun s _ => rfl) (fun s hs => .inl hs) (fun s hs => .inl hs) ?_
      (fun component hc => .inl (hsame ▸ hc))
    refine ⟨hold.verified, hold.copied, fun deps hreturned => ?_, fun component hc => ?_⟩
    · rw [show _ = Pc.next from hpc] at hreturned
      cases hreturned
    · exact hold.path component (hsame ▸ hc)
  | wasm todo dep c hc =>
    refine h.update hp (fun s _ => rfl) nofun nofun ?_ fun _ => .inl
    exact ⟨fun c' hc' => Option.some.inj hc' ▸ hc, nofun, nofun, hold.path⟩
  | missing dep c hpc hcache =>
    refine h.update hp (fun s _ => rfl) (fun s hs => ?_) (fun s hs => ?_) ?_ fun _ => .inl
    · cases hs
      exact .inr (halone dep c hpc)
    · cases hs
      refine .inr ?_
      rintro ⟨bytes, hfile, -⟩
      rw [hcache] at hfile
      cases hfile
    · exact ⟨fun c' hc' => hold.verified c' (by rw [hpc]; exact hc'),
        nofun, nofun, hold.path⟩
  | found dep c hpc =>
    refine h.update hp (fun s _ => rfl) (fun s hs => ?_) nofun ?_ fun _ => .inl
    · cases hs
      exact .inr (halone dep c hpc)
    · exact ⟨fun c' hc' => hold.verified c' (by rw [hpc]; exact hc'),
        nofun, nofun, hold.path⟩
  | same dep c hpc hwhole => exact h.push hp dep c (by rw [hpc]; rfl) hwhole
  | differs dep c hpc hbroken =>
    refine h.update hp (fun s _ => rfl) (fun s hs => ?_) (fun s hs => ?_) ?_ fun _ => .inl
    · exact .inl (by rw [hpc]; exact hs)
    · cases hs
      exact .inr hbroken
    · exact ⟨fun c' hc' => hold.verified c' (by rw [hpc]; exact hc'),
        nofun, nofun, hold.path⟩
  | truncate dep c hpc =>
    refine h.update hp (fun s hs => ?_) (fun s hs => ?_) (fun s hs => ?_) ?_ fun _ => .inl
    · refine Function.update_of_ne (fun heq => hs ?_) ..
      rw [hpc, heq]
      rfl
    · exact .inl (by rw [hpc]; exact hs)
    · exact .inl (by rw [hpc]; exact hs)
    · refine ⟨fun c' hc' => hold.verified c' (by rw [hpc]; exact hc'), fun dep' c' n hpc' => ?_,
        nofun, hold.path⟩
      cases hpc'
      exact ⟨Nat.zero_le _, Function.update_self ..⟩
  | write dep c written n bytes hpc hcache hn =>
    refine h.update hp (fun s hs => ?_) (fun s hs => ?_) (fun s hs => ?_) ?_ fun _ => .inl
    · refine Function.update_of_ne (fun heq => hs ?_) ..
      rw [hpc, heq]
      rfl
    · exact .inl (by rw [hpc]; exact hs)
    · exact .inl (by rw [hpc]; exact hs)
    · refine ⟨fun c' hc' => hold.verified c' (by rw [hpc]; exact hc'), fun dep' c' m hpc' => ?_,
        nofun, hold.path⟩
      cases hpc'
      -- the bytes so far are the first ones of the release's file
      obtain ⟨hle, hfile⟩ := hold.copied dep c written hpc
      obtain rfl : bytes = c.bytes.take written := by
        rw [hcache] at hfile
        cases hfile
        rfl
      have hlen : (c.bytes.take written).length = written := List.length_take_of_le hle
      have happend := writeAt_length (c.bytes.take written) ((c.bytes.drop written).take n)
      rw [hlen, ← List.take_add] at happend
      refine ⟨hn, ?_⟩
      rw [Function.update_self, happend]
  | copied dep c hpc =>
    refine h.push hp dep c (by rw [hpc]; rfl) ?_
    obtain ⟨-, hfile⟩ := hold.copied dep c _ hpc
    rw [List.take_length] at hfile
    exact ⟨c.bytes, hfile, hold.verified c (by rw [hpc]; rfl)⟩

/-- A preparation that has not begun with a component. -/
theorem prep_new (crates : ComponentCrates) (release : ReleaseDir)
    (dependencies : List PluginDependency) (root : String) (cache : Cache) :
    PrepInv crates root cache (.new release dependencies) ∧
      (Prep.new release dependencies).pc.engaged = none ∧
      (Prep.new release dependencies).components = [] := by
  unfold Prep.new
  split
  · exact ⟨⟨nofun, nofun, fun deps hpc => by cases hpc; rfl, nofun⟩, rfl, rfl⟩
  · split <;> exact ⟨⟨nofun, nofun, nofun, nofun⟩, rfl, rfl⟩

theorem Inv.prepare (h : Inv crates w) (release : ReleaseDir)
    (dependencies : List PluginDependency) :
    Inv crates { w with preps := w.preps ++ [.new release dependencies] } := by
  obtain ⟨hprep, hengaged, hcomponents⟩ :=
    prep_new crates release dependencies w.storageRoot w.cache
  refine ⟨forall_concat h.prep hprep, ?_, forall_concat (fun j q hq component hmem => ?_) ?_⟩
  · intro j k q r s hq hr hjk hs hs'
    rcases getElem?_concat_cases hq with hq' | ⟨-, rfl⟩
    · rcases getElem?_concat_cases hr with hr' | ⟨-, rfl⟩
      · exact h.alone j k q r s hq' hr' hjk hs hs'
      · rw [hengaged] at hs'
        cases hs'
    · rw [hengaged] at hs
      cases hs
  · obtain ⟨hwhole, hnot⟩ := h.done j q hq component hmem
    refine ⟨hwhole, forall_concat hnot fun hw => ?_⟩
    rw [Pc.engaged_of_writes hw] at hengaged
    cases hengaged
  · rw [hcomponents]
    exact nofun

theorem Inv.step {a : Action} (h : Inv crates w) (hok : Alone w a)
    (hstep : step crates w a = some w') : Inv crates w' := by
  cases a with
  | prepare release dependencies =>
    cases hstep
    exact h.prepare release dependencies
  | proceed i io =>
    obtain ⟨p, hp, hstep⟩ := Option.bind_eq_some_iff.mp hstep
    obtain ⟨⟨cache', p'⟩, hp', hstep⟩ := Option.bind_eq_some_iff.mp hstep
    cases hstep
    exact h.move hp (move_of_step hp') fun dep c hpc => hok p dep c hp hpc

theorem inv_init (crates : ComponentCrates) (root : String) (cache : Cache) :
    Inv crates ⟨root, cache, []⟩ where
  prep i p hp := by simp at hp
  alone i j p q s hp := by simp at hp
  done i p hp := by simp at hp

end Inv

/-- **The component cache.**  In every run in which a preparation looks at a cache
file only while no other one is between its own look at this file and the end of
its copy, whatever was in the cache before and whichever calls fail, each
component that a preparation has returned is, from then on, at the path returned,
with contents whose SHA-256 is the hash in its name. -/
theorem cached_components_whole (crates : ComponentCrates) (root : String) (cache : Cache)
    (as : List Action) (w : World) (hok : RunMeets (step crates) Alone ⟨root, cache, []⟩ as)
    (hrun : run (step crates) ⟨root, cache, []⟩ as = some w) : ReturnedWhole crates w := by
  have hinv : Inv crates w :=
    run_invariant_of_meets (fun s a s' hs hok hstep => hs.step hok hstep) hok hrun
      (inv_init crates root cache)
  intro i p deps hp hpc dep hdep component hcomponent
  have hmem : component ∈ p.components := by
    rw [Prep.components, ← (hinv.prep i p hp).returned deps hpc]
    exact List.mem_filterMap.mpr ⟨dep, hdep, hcomponent⟩
  exact ⟨(hinv.prep i p hp).path component hmem, (hinv.done i p hp component hmem).1⟩

section Sample

/-- A digest to run the model with. -/
def sampleSha : String := String.ofList (List.replicate 64 'a')

/-- The component of one byte has the digest, and nothing else has. -/
def sampleCrates : ComponentCrates where
  sha256Hex bytes := if bytes = [7] then sampleSha else "other"
  interfaces _ := .ok (["acme:plugin/api"], [])

/-- A release in which every file is one byte. -/
def sampleRelease : ReleaseDir := ⟨"/srv/release", fun _ => .file [7]⟩

/-- A dependency on a file of that release. -/
def sampleDependency : PluginDependency where
  name := "acme:plugin"
  version := "1.0"
  kind := .wasm
  wit := "acme"
  requires := []
  component := some ⟨"plugin.wasm", sampleSha, none, none⟩
  capabilities := ⟨false, [], []⟩

/-- Nothing is cached, and no service is prepared. -/
def sampleWorld : World := ⟨"/srv", fun _ => none, []⟩

/-- No other preparation is at work on the component. -/
def aloneTest (w : World) : Action → Bool
  | .proceed i _ =>
    match w.preps[i]? with
    | some ⟨_, _, _, _, .inspect _ c⟩ =>
      w.preps.all fun q => q.pc.engaged ≠ some c.sha256
    | _ => true
  | .prepare _ _ => true

theorem alone_of_aloneTest {w : World} {a : Action} (h : aloneTest w a = true) : Alone w a := by
  cases a with
  | prepare => trivial
  | proceed i io =>
    intro p dep c hp hpc q hq
    obtain ⟨release, known, todo, normalized, pc⟩ := p
    dsimp only at hpc
    subst hpc
    simp only [aloneTest, hp] at h
    exact of_decide_eq_true (List.all_eq_true.mp h q hq)

/-- How many dependencies a preparation has returned. -/
def returnedCount (p : Prep) : Option Nat :=
  match p.pc with
  | .returned (.ok deps) => some deps.length
  | _ => none

/-- Two services with the same component: the second one finds the first one's
copy. -/
def inTurn : List Action :=
  [.prepare sampleRelease [sampleDependency], .prepare sampleRelease [sampleDependency],
    .proceed 0 .done, .proceed 0 .done, .proceed 0 .done, .proceed 0 .done, .proceed 0 (.wrote 1),
    .proceed 0 .done, .proceed 1 .done, .proceed 1 .done, .proceed 1 .done, .proceed 1 .done,
    .proceed 0 .done, .proceed 1 .done]

theorem cached_components_whole_twice : ∃ w, run (step sampleCrates) sampleWorld inTurn = some w ∧
    w.preps.map returnedCount = [some 1, some 1] ∧ ReturnedWhole sampleCrates w := by
  have hend : (run (step sampleCrates) sampleWorld inTurn).map
      (fun w => w.preps.map returnedCount) = some [some 1, some 1] := by
    decide +kernel
  obtain ⟨w, hrun, hcount⟩ := Option.map_eq_some_iff.mp hend
  refine ⟨w, hrun, hcount, cached_components_whole sampleCrates _ _ inTurn w ?_ hrun⟩
  exact .of_meetsBy (fun _ _ => alone_of_aloneTest) (by decide +kernel)

/-- The hashes of the components that a preparation has returned. -/
def returnedHashes (p : Prep) : List String :=
  match p.pc with
  | .returned (.ok deps) => deps.filterMap fun dep => dep.component.map (·.sha256)
  | _ => []

theorem whole_of_returnedWhole {crates : ComponentCrates} {w : World} (h : ReturnedWhole crates w)
    (hp : w.preps[i]? = some p) (hs : s ∈ returnedHashes p) : Whole crates w.cache s := by
  unfold returnedHashes at hs
  split at hs
  · next deps hpc =>
    obtain ⟨dep, hdep, hsha⟩ := List.mem_filterMap.mp hs
    obtain ⟨component, hcomponent, rfl⟩ := Option.map_eq_some_iff.mp hsha
    exact (h i p deps hp hpc dep hdep component hcomponent).2
  · cases hs

/-- The bytes of a cached file. -/
def fileAt (cache : Cache) (s : String) : Option (List UInt8) :=
  match cache s with
  | some (.file bytes) => some bytes
  | _ => none

/-- Two services with the same component: the second one looks at the file while
the first one copies it. -/
def atOnce : List Action :=
  [.prepare sampleRelease [sampleDependency], .prepare sampleRelease [sampleDependency],
    .proceed 0 .done, .proceed 0 .done, .proceed 0 .done, .proceed 0 .done, .proceed 1 .done,
    .proceed 1 .done, .proceed 1 .done, .proceed 1 .done, .proceed 0 (.wrote 1), .proceed 0 .done,
    .proceed 0 .done, .proceed 1 .done]

/-- The second service finds another digest, and truncates the file after the
first one has returned its path. -/
theorem returned_component_truncated :
    ∃ w, run (step sampleCrates) sampleWorld atOnce = some w ∧ ¬ ReturnedWhole sampleCrates w := by
  have hend : (run (step sampleCrates) sampleWorld atOnce).map
      (fun w => (w.preps[0]?.map returnedHashes, fileAt w.cache sampleSha)) =
      some (some [sampleSha], some []) := by
    decide +kernel
  obtain ⟨w, hrun, hw⟩ := Option.map_eq_some_iff.mp hend
  obtain ⟨hhashes, hfile⟩ := Prod.mk.inj hw
  obtain ⟨p, hp, hhashes⟩ := Option.map_eq_some_iff.mp hhashes
  refine ⟨w, hrun, fun hwhole => ?_⟩
  obtain ⟨bytes, hbytes, hdigest⟩ :=
    whole_of_returnedWhole (s := sampleSha) hwhole hp (by rw [hhashes]; exact .head _)
  rw [fileAt, hbytes] at hfile
  cases hfile
  revert hdigest
  decide +kernel

end Sample

end Imago.PluginCache
