/-
Imago/OrchestratorSteps.lean

What one step of the orchestrator can do.

* `DiskOp.Touches` is the set of paths that a file-system call may change; a
  call that was interrupted touches nothing else (`touches_of_interrupted`).
* `Deploy.Moves` lists the transitions of a deploy, `ServiceCall.Steps` those of
  `run` and `stop`; `Steps` those of the system.  They are read off the code once.
* `GateInv`: a name is in the command gate for the one task that has it.
* `Deploy.Known`: what is known of a deploy by its program counter alone.
-/
import Imago.Orchestrator

namespace Imago.Orchestrator

open Std (TreeMap TreeSet)
open Imago.PathTree
open Imago.Command (Summary)

/-! ### What a call can touch -/

/-- The call may change the node at `q`.  The directories on the way to a path
are only made where nothing is. -/
def DiskOp.Touches (q : Path) : DiskOp → Prop
  | .pass => False
  | .cleanDir p | .removeDirAll p | .removePart p _ | .removeFile p => p <+: q
  | .createDirAll p => q <+: p
  | .unpack p entry => q <+: p ++ entry.path
  | .rename p p' => p <+: q ∨ p' <+: q
  | .write p _ => q = p
  | .cache _ => q <+: pluginComponentCacheRoot ∨ pluginComponentCacheRoot <+: q

variable {q : Path}

theorem unpack_of_not_prefix {t : Disk} {p : Path} {entry : ArchiveEntry}
    (h : ¬ q <+: p ++ entry.path) : unpack t p entry q = t q := by
  rcases hc : entry.content with - | content <;> simp only [unpack, hc]
  · exact fill_of_not_prefix h
  · have hparent : ¬ q <+: p ++ entry.path.dropLast := fun hq =>
      h (hq.trans ((List.prefix_append_right_inj p).mpr (List.dropLast_prefix _)))
    rw [put_of_ne, fill_of_not_prefix hparent]
    rintro rfl
    exact h (List.prefix_refl _)

theorem cached_of_not_prefix (hroot : ¬ pluginComponentCacheRoot <+: q) (t : Disk)
    (components : List (String × Content)) :
    components.foldl
      (fun t c => t.put (pluginComponentCacheRoot ++ [c.1 ++ ".wasm"]) (.file c.2)) t q = t q := by
  induction components generalizing t with
  | nil => rfl
  | cons c components ih =>
    rw [List.foldl_cons, ih, put_of_ne]
    rintro rfl
    exact hroot (List.prefix_append _ _)

variable {op : DiskOp}

theorem DiskOp.apply_of_not_touches (h : ¬ op.Touches q) (n : Nat) (t : Disk) :
    op.apply n t q = t q := by
  cases op with
  | pass => rfl
  | cleanDir p | removeDirAll p | removeFile p => exact remove_of_not_prefix h
  | removePart p keep =>
    rw [apply]
    exact graft_of_not_prefix h
  | createDirAll p => exact fill_of_not_prefix h
  | unpack p entry => exact unpack_of_not_prefix h
  | rename p p' => exact move_of_not_prefix (fun hp => h (.inl hp)) fun hp => h (.inr hp)
  | write p content => exact put_of_ne h
  | cache components =>
    rw [apply, cached_of_not_prefix fun hq => h (.inr hq)]
    exact fill_of_not_prefix fun hq => h (.inl hq)

/-- A subtree that the call does not touch. -/
theorem DiskOp.below_apply_of_not_touches (h : ∀ r, ¬ op.Touches (q ++ r)) (n : Nat) (t : Disk) :
    (op.apply n t).below q = t.below q := by
  funext r
  exact apply_of_not_touches (h r) n t

theorem DiskOp.touches_of_interrupted {f : Fault} (h : (op.interrupted f).Touches q) :
    op.Touches q := by
  cases op with
  | cleanDir p | removeDirAll p =>
    rcases hkeep : f.keep with - | keep <;> simp only [interrupted, hkeep] at h
    · exact h.elim
    · exact h
  | createDirAll p =>
    have hq : q <+: p.take f.made := h
    exact hq.trans (List.take_prefix _ _)
  | unpack p entry =>
    rcases hcut : f.cut with - | content <;> simp only [interrupted, hcut] at h
    · exact h.elim
    · exact h
  | write p content =>
    rcases htorn : f.torn with - | n <;> simp only [interrupted, htorn] at h
    · exact h.elim
    · exact h
  | pass | removePart | rename | removeFile | cache => exact False.elim h

theorem serviceRoot_append (name : String) (r : Path) :
    ∃ q, serviceRoot name ++ r = "services" :: q := by
  unfold serviceRoot join
  split
  · exact ⟨r, rfl⟩
  · exact ⟨name :: r, rfl⟩

/-! ### Transitions of a deploy -/

variable {cfg : Config} {sh : Shared} {i : Input} {d d' : Deploy} {running : Running}

/-- What a supervisor call does to the runners: nothing, it takes the service's
runner out, or it puts a new one in, launched from a release directory that is
there. -/
inductive RunnerMoves (disk : Disk) (running : Running) (name release : String) : Running → Prop
  | same : RunnerMoves disk running name release running
  | stopped : RunnerMoves disk running name release (running.erase name)
  | started {serial : Nat} (free : name ∉ running)
      (there : disk (join (serviceRoot name) release) = some (.dir serial)) :
      RunnerMoves disk running name release (running.insert name ⟨release, serial⟩)

variable {result : Except ImagodError Unit} {outcome : Option ImagodError} {name : String}
  {running' : Running}

theorem runnerMoves_of_stop (release : String) (disk : Disk)
    (h : stopService running name outcome = (running', result)) :
    RunnerMoves disk running name release running' := by
  unfold stopService at h
  split at h
  · split at h
    · cases h
      exact .stopped
    · rename_i e
      by_cases hcode : e.code = .notFound
      · rw [if_pos hcode] at h
        cases h
        exact .stopped
      · rw [if_neg hcode] at h
        cases h
        exact .same
  · cases h
    exact .same

variable {disk : Disk}

theorem runnerMoves_of_start {release : String}
    (h : startService running disk name release outcome = some (running', result)) :
    RunnerMoves disk running name release running' := by
  unfold startService at h
  split at h
  · cases h
    exact .same
  · rename_i hfree
    split at h
    · cases h
      exact .same
    · rename_i hthere
      cases h
      exact .started hfree hthere
    · cases h

/-- The service is not running when a start has succeeded before it began, nor
after a stop that let the caller go on. -/
theorem not_mem_of_stop (h : stopService running name outcome = (running', result))
    (hgoes : ∀ e, result = .error e → e.code = .notFound) : name ∉ running' := by
  unfold stopService at h
  split at h
  · split at h
    · cases h
      simp
    · rename_i e
      cases h
      rw [if_pos (hgoes e rfl)]
      simp
  · rename_i hnot
    cases h
    exact hnot

/-- The transitions of a deploy whose file-system call was made. -/
inductive Deploy.Moves (cfg : Config) (sh : Shared) (i : Input) (d : Deploy) :
    Running → Deploy → Prop
  | fail (e : ImagodError) : Moves cfg sh i d sh.running (d.fail e)
  | lookup {a : CommittedArtifact} (hpc : d.pc = .lookup)
      (ha : cfg.committed d.payload.deployId = some a) (hfree : a.serviceName ∉ sh.gate) :
      Moves cfg sh i d sh.running
        { d with guard := some a.serviceName, sessionName := a.serviceName, pc := .fetch }
  | fetch {a : CommittedArtifact} (hpc : d.pc = .fetch)
      (ha : cfg.committed d.payload.deployId = some a) :
      Moves cfg sh i d sh.running
        { d with
          release := cfg.releaseId a.artifactDigest
          manifestDigest := a.manifestDigest
          pc := .clean a.entries }
  | clean {entries : List TarEntry} (hpc : d.pc = .clean entries) :
      Moves cfg sh i d sh.running { d with pc := .makeStaging entries }
  | makeStaging {entries : List TarEntry} (hpc : d.pc = .makeStaging entries) :
      Moves cfg sh i d sh.running { d with pc := .extract entries }
  | extracted (hpc : d.pc = .extract []) :
      Moves cfg sh i d sh.running { d with pc := .readManifest }
  | extract {e : TarEntry} {rest : List TarEntry} {entry : ArchiveEntry}
      (hpc : d.pc = .extract (e :: rest)) (hcheck : e.check = .ok entry) :
      Moves cfg sh i d sh.running { d with pc := .extract rest }
  | sameName {m : Manifest} (hpc : d.pc = .readManifest)
      (hm : stagedManifest cfg sh.disk d.staging d.manifestDigest i.text = .ok m)
      (hname : d.sessionName = m.name) :
      Moves cfg sh i d sh.running { d with name := m.name, pc := .readActive }
  | otherName {m : Manifest} (hpc : d.pc = .readManifest)
      (hm : stagedManifest cfg sh.disk d.staging d.manifestDigest i.text = .ok m)
      (hname : d.sessionName ≠ m.name) (hfree : m.name ∉ sh.gate) :
      Moves cfg sh i d sh.running
        { d with name := m.name, guard := some m.name, pc := .readActive }
  | readActive {previous : Option String} (hpc : d.pc = .readActive)
      (hread : readActiveRelease sh.disk d.name i.text = .ok previous) :
      Moves cfg sh i d sh.running { d with previous := previous, pc := .readPolicy }
  | readPolicy {policy : Option String} (hpc : d.pc = .readPolicy)
      (hpre : validateDeployPreconditions d.payload d.previous = .ok ()) :
      Moves cfg sh i d sh.running { d with previousPolicy := policy, pc := .makeRoot }
  | makeRoot (hpc : d.pc = .makeRoot) : Moves cfg sh i d sh.running { d with pc := .inspect }
  | missing (hpc : d.pc = .inspect) (hnone : sh.disk d.releaseDir = none) :
      Moves cfg sh i d sh.running { d with pc := .promote }
  | present (hpc : d.pc = .inspect) : Moves cfg sh i d sh.running { d with pc := .toBackup }
  | promote (hpc : d.pc = .promote) : Moves cfg sh i d sh.running { d with pc := .listReleases }
  | toBackup (hpc : d.pc = .toBackup) :
      Moves cfg sh i d sh.running { d with pc := .swapIn (d.backupDir i.uuid) }
  | swapIn {backup : Path} (hpc : d.pc = .swapIn backup) :
      Moves cfg sh i d sh.running { d with pc := .dropBackup backup }
  | dropBackup {backup : Path} (hpc : d.pc = .dropBackup backup) :
      Moves cfg sh i d sh.running { d with pc := .listReleases }
  | listReleases (hpc : d.pc = .listReleases) :
      Moves cfg sh i d sh.running { d with pc := .cleanup }
  | cleanup (hpc : d.pc = .cleanup) : Moves cfg sh i d sh.running { d with pc := .cleanup }
  | cleaned (hpc : d.pc = .cleanup) (hentry : i.entry = none) :
      Moves cfg sh i d sh.running { d with pc := .build }
  | build (hpc : d.pc = .build) : Moves cfg sh i d sh.running { d with pc := .replaceStop }
  | replaceStop {running : Running} (hpc : d.pc = .replaceStop)
      (hrun : RunnerMoves sh.disk sh.running d.name d.release running)
      (hfree : d.name ∉ running) :
      Moves cfg sh i d running { d with pc := .replaceStart }
  | replaceStart {running : Running} (hpc : d.pc = .replaceStart)
      (hrun : RunnerMoves sh.disk sh.running d.name d.release running) :
      Moves cfg sh i d running { d with pc := .writeActive }
  | rollBack {running : Running} {e : ImagodError} {previous : String}
      (hpc : d.pc = .replaceStop ∨ d.pc = .replaceStart)
      (hrun : RunnerMoves sh.disk sh.running d.name d.release running)
      (hprevious : d.previous = some previous) :
      Moves cfg sh i d running { d with pc := .rollbackActive e previous }
  | startFailed {running : Running} {e : ImagodError}
      (hpc : d.pc = .replaceStop ∨ d.pc = .replaceStart)
      (hrun : RunnerMoves sh.disk sh.running d.name d.release running) :
      Moves cfg sh i d running (d.fail e)
  | rollbackActive {e : ImagodError} {previous : String} (hpc : d.pc = .rollbackActive e previous) :
      Moves cfg sh i d sh.running { d with pc := .rollbackPolicy e previous }
  | rollbackPolicy {e : ImagodError} {previous : String} (hpc : d.pc = .rollbackPolicy e previous) :
      Moves cfg sh i d sh.running { d with pc := .rollbackLoad e previous }
  | rollbackLoad {e : ImagodError} {previous : String} (hpc : d.pc = .rollbackLoad e previous)
      (hload : loadLaunch cfg sh.disk d.name previous i = .ok ()) :
      Moves cfg sh i d sh.running { d with pc := .rollbackStart e previous }
  | rollbackBusy {running : Running} {e : ImagodError} {previous : String}
      (hpc : d.pc = .rollbackStart e previous)
      (hrun : RunnerMoves sh.disk sh.running d.name previous running) :
      Moves cfg sh i d running { d with pc := .rollbackForce e previous }
  | rollbackForce {running : Running} {e : ImagodError} {previous : String}
      (hpc : d.pc = .rollbackForce e previous)
      (hrun : RunnerMoves sh.disk sh.running d.name previous running) :
      Moves cfg sh i d running { d with pc := .rollbackRetry e previous }
  | rolledBack {running : Running} {e e' : ImagodError} {previous : String}
      (hpc : d.pc = .rollbackStart e previous ∨ d.pc = .rollbackForce e previous ∨
        d.pc = .rollbackRetry e previous)
      (hrun : RunnerMoves sh.disk sh.running d.name previous running) :
      Moves cfg sh i d running (d.fail e')
  | writeActive (hpc : d.pc = .writeActive) :
      Moves cfg sh i d sh.running { d with pc := .writePolicy }
  | writePolicy (hpc : d.pc = .writePolicy) :
      Moves cfg sh i d sh.running (d.finish (.ok ⟨d.name, d.release⟩))

/-- A deploy whose `replace` has failed rolls back, or it returns. -/
theorem Deploy.moves_startFailed (hpc : d.pc = .replaceStop ∨ d.pc = .replaceStart)
    (hrun : RunnerMoves sh.disk sh.running d.name d.release running) (e : ImagodError) :
    d.Moves cfg sh i running (d.startFailed e) := by
  unfold Deploy.startFailed
  split
  · rename_i hprevious
    exact .rollBack hpc hrun hprevious
  · exact .startFailed hpc hrun
  · exact .startFailed hpc hrun

theorem sessionOf_eq_ok {deployId : String} {a : CommittedArtifact}
    (h : sessionOf cfg deployId i = .ok a) : cfg.committed deployId = some a := by
  unfold sessionOf at h
  split at h
  · cases h
  · rename_i hsome
    cases h
    exact hsome
  · cases h

theorem Deploy.moves_rebind {m : Manifest} (hpc : d.pc = .readManifest)
    (hm : stagedManifest cfg sh.disk d.staging d.manifestDigest i.text = .ok m) :
    d.Moves cfg sh i sh.running (d.rebind sh.gate m.name) := by
  unfold Deploy.rebind
  split
  · rename_i hname
    exact .sameName hpc hm hname
  · rename_i hname
    split
    · exact .fail _
    · rename_i hfree
      exact .otherName hpc hm hname hfree

theorem Deploy.moves_of_next (h : d.next cfg sh i = some (running, d')) :
    d.Moves cfg sh i running d' := by
  cases hpc : d.pc <;> simp only [next, hpc] at h
  case lookup =>
    split at h
    · cases h
      exact .fail _
    · rename_i a ha
      split at h
      · cases h
        exact .fail _
      · rename_i hfree
        cases h
        exact .lookup hpc (sessionOf_eq_ok ha) hfree
  case fetch =>
    split at h
    · cases h
      exact .fail _
    · rename_i a ha
      cases h
      exact .fetch hpc (sessionOf_eq_ok ha)
  case clean =>
    cases h
    exact .clean hpc
  case makeStaging =>
    cases h
    exact .makeStaging hpc
  case extract rest =>
    rcases rest with - | ⟨e, rest⟩ <;> simp only at h
    · cases h
      exact .extracted hpc
    · split at h
      · rename_i hcheck
        cases h
        exact .extract hpc hcheck
      · cases h
        exact .fail _
  case readManifest =>
    split at h
    · cases h
      exact .fail _
    · rename_i hm
      cases h
      exact Deploy.moves_rebind hpc hm
  case readActive =>
    split at h
    · cases h
      exact .fail _
    · rename_i hread
      cases h
      exact .readActive hpc hread
  case readPolicy =>
    split at h
    · cases h
      exact .fail _
    · split at h
      · cases h
        exact .fail _
      · rename_i hpre
        cases h
        exact .readPolicy hpc hpre
  case makeRoot =>
    cases h
    exact .makeRoot hpc
  case inspect =>
    split at h
    · rename_i hnone
      cases h
      exact .missing hpc (Option.isNone_iff_eq_none.mp hnone)
    · cases h
      exact .present hpc
  case promote =>
    cases h
    exact .promote hpc
  case toBackup =>
    cases h
    exact .toBackup hpc
  case swapIn =>
    cases h
    exact .swapIn hpc
  case restoreBackup =>
    cases h
    exact .fail _
  case dropBackup =>
    cases h
    exact .dropBackup hpc
  case listReleases =>
    cases h
    exact .listReleases hpc
  case cleanup =>
    split at h
    · cases h
      exact .cleanup hpc
    · rename_i hentry
      cases h
      exact .cleaned hpc (by simpa using hentry)
  case build =>
    split at h
    · cases h
      exact .fail _
    · cases h
      exact .build hpc
  case replaceStop =>
    split at h
    · rename_i hstop
      cases h
      exact .replaceStop hpc (runnerMoves_of_stop _ _ hstop) (not_mem_of_stop hstop nofun)
    · rename_i e hstop
      split at h
      · rename_i hcode
        cases h
        refine .replaceStop hpc (runnerMoves_of_stop _ _ hstop) (not_mem_of_stop hstop ?_)
        rintro e' ⟨⟩
        exact hcode
      · cases h
        exact moves_startFailed (.inl hpc) (runnerMoves_of_stop _ _ hstop) e
  case replaceStart =>
    obtain ⟨⟨running', result⟩, hstart, hend⟩ := Option.map_eq_some_iff.mp h
    rcases result with e | _ <;> cases hend
    · exact moves_startFailed (.inr hpc) (runnerMoves_of_start hstart) e
    · exact .replaceStart hpc (runnerMoves_of_start hstart)
  case rollbackActive =>
    cases h
    exact .rollbackActive hpc
  case rollbackPolicy =>
    split at h
    · split at h
      · cases h
        exact .rollbackPolicy hpc
      · cases h
        exact .fail _
    · cases h
      exact .rollbackPolicy hpc
  case rollbackLoad =>
    split at h
    · rename_i hload
      cases h
      exact .rollbackLoad hpc hload
    · cases h
      exact .fail _
  case rollbackStart =>
    obtain ⟨⟨running', result⟩, hstart, hend⟩ := Option.map_eq_some_iff.mp h
    rcases result with err | _
    · by_cases hbusy : err.code = .busy
      · simp only [hbusy, if_true] at hend
        cases hend
        exact .rollbackBusy hpc (runnerMoves_of_start hstart)
      · simp only [hbusy, if_false] at hend
        cases hend
        exact .rolledBack (.inl hpc) (runnerMoves_of_start hstart)
    · cases hend
      exact .rolledBack (.inl hpc) (runnerMoves_of_start hstart)
  case rollbackForce =>
    split at h
    · rename_i hstop
      cases h
      exact .rollbackForce hpc (runnerMoves_of_stop _ _ hstop)
    · rename_i hstop
      split at h <;> cases h
      · exact .rollbackForce hpc (runnerMoves_of_stop _ _ hstop)
      · exact .rolledBack (.inr (.inl hpc)) (runnerMoves_of_stop _ _ hstop)
  case rollbackRetry =>
    obtain ⟨⟨running', result⟩, hstart, hend⟩ := Option.map_eq_some_iff.mp h
    rcases result with err | _ <;> cases hend <;>
      exact .rolledBack (.inr (.inr hpc)) (runnerMoves_of_start hstart)
  case writeActive =>
    cases h
    exact .writeActive hpc
  case writePolicy =>
    split at h
    · cases h
      exact .writePolicy hpc
    · cases h
      exact .fail _
  case returned =>
    cases h

variable {text : String}

theorem Deploy.failed_cases (h : d.failed cfg i text = some d') :
    (∃ backup, d.pc = .swapIn backup ∧
      d' = { d with pc := .restoreBackup backup text, faults := d.faults + 1 }) ∨
    ((∀ backup, d.pc ≠ .swapIn backup) ∧ (∀ result, d.pc ≠ .returned result) ∧
      ∃ e, d' = { d.fail e with faults := d.faults + 1 }) := by
  unfold Deploy.failed at h
  split at h
  · rename_i backup hpc
    cases h
    exact .inl ⟨backup, hpc, rfl⟩
  · rename_i hswap
    obtain ⟨e, he, rfl⟩ := Option.map_eq_some_iff.mp h
    refine .inr ⟨hswap, fun result hpc => ?_, e, rfl⟩
    simp only [Deploy.callError, hpc] at he
    cases he

/-- `op` is what a failed call `whole` has done: nothing, or a part. -/
def Leaves (i : Input) (whole op : DiskOp) : Prop :=
  op = .pass ∨ ∃ f, i.fault = some f ∧ op = whole.interrupted f

theorem Leaves.touches {whole : DiskOp} (h : Leaves i whole op) (hq : op.Touches q) :
    whole.Touches q := by
  rcases h with rfl | ⟨f, -, rfl⟩
  · exact hq.elim
  · exact DiskOp.touches_of_interrupted hq

/-- The steps of a deploy: a transition with the whole call made, or a call
that failed, which ends the deploy unless it was the second rename of a swap. -/
inductive Deploy.Steps (cfg : Config) (sh : Shared) (i : Input) (d : Deploy) :
    DiskOp → Running → Deploy → Prop
  | moves {running : Running} {d' : Deploy} (hop : (d.op sh.disk i).possible sh.disk)
      (h : d.next cfg sh i = some (running, d')) : Steps cfg sh i d (d.op sh.disk i) running d'
  | swapFails {op : DiskOp} {backup : Path} {text : String} (hpc : d.pc = .swapIn backup)
      (hop : Leaves i (d.op sh.disk i) op) :
      Steps cfg sh i d op sh.running
        { d with pc := .restoreBackup backup text, faults := d.faults + 1 }
  | fails {op : DiskOp} {e : ImagodError} (hop : Leaves i (d.op sh.disk i) op)
      (hswap : ∀ backup, d.pc ≠ .swapIn backup) (hlive : ∀ result, d.pc ≠ .returned result) :
      Steps cfg sh i d op sh.running { d.fail e with faults := d.faults + 1 }

variable {op : DiskOp} {t t' : Task}

theorem Deploy.steps_of_failed (hop : Leaves i (d.op sh.disk i) op)
    (h : d.failed cfg i text = some d') : d.Steps cfg sh i op sh.running d' := by
  rcases Deploy.failed_cases h with ⟨backup, hpc, rfl⟩ | ⟨hswap, hlive, e, rfl⟩
  · exact .swapFails hpc hop
  · exact .fails hop hswap hlive

theorem Deploy.Steps.touches (h : d.Steps cfg sh i op running d') (hq : op.Touches q) :
    (d.op sh.disk i).Touches q := by
  cases h with
  | moves => exact hq
  | swapFails _ hop | fails hop => exact hop.touches hq

/-! ### Transitions of `run` and `stop` -/

/-- The file that `load_launch_from_release` begins with. -/
def ManifestThere (disk : Disk) (name release : String) : Prop :=
  ∃ bytes, disk (join (serviceRoot name) release ++ ["manifest.json"]) = some (.file bytes)

theorem manifestThere_of_load {release : String} (h : loadLaunch cfg disk name release i = .ok ()) :
    ManifestThere disk name release := by
  unfold loadLaunch at h
  split at h
  · rename_i bytes hbytes
    exact ⟨bytes, hbytes⟩
  · cases h

/-- What a step of `run` or `stop` can do. -/
structure ServiceCall.Steps (sh : Shared) (c : ServiceCall) (op : DiskOp) (running : Running)
    (c' : ServiceCall) : Prop where
  op : op = .pass ∨ ∃ components, op = .cache components
  running : ∃ release, RunnerMoves sh.disk sh.running c.name release running ∧
    (c.pc = .start release ∨ running = sh.running ∨ running = sh.running.erase c.name)
  load : ∀ release, c'.pc = .load release →
    ∃ text, readActiveRelease sh.disk c.name text = .ok (some release)
  start : ∀ release, c'.pc = .start release →
    c.pc = .load release ∧ ManifestThere sh.disk c.name release
  name : c'.name = c.name
  guard : c'.guard = c.guard ∨ c'.guard = none ∨ (c'.guard = some c.name ∧ c.name ∉ sh.gate)
  live : ∀ result, c.pc ≠ .returned result

variable {c c' : ServiceCall}

theorem ServiceCall.op_cases (c : ServiceCall) (i : Input) :
    c.op i = .pass ∨ ∃ components, c.op i = .cache components := by
  unfold ServiceCall.op
  split
  · exact .inr ⟨_, rfl⟩
  · exact .inl rfl

section

variable (hop : op = .pass ∨ ∃ components, op = .cache components)
  (hlive : ∀ result, c.pc ≠ .returned result)

include hop hlive

theorem ServiceCall.steps_finish {result : Except ImagodError Summary} {release : String}
    (hrun : RunnerMoves sh.disk sh.running c.name release running)
    (hstart : c.pc = .start release ∨ running = sh.running ∨ running = sh.running.erase c.name) :
    c.Steps sh op running (c.finish result) :=
  ⟨hop, ⟨release, hrun, hstart⟩, nofun, nofun, rfl, .inr (.inl rfl), hlive⟩

theorem ServiceCall.steps_fail {result : Except ImagodError Summary} :
    c.Steps sh op sh.running (c.finish result) :=
  @steps_finish sh sh.running op c hop hlive result "" .same (.inr (.inl rfl))

theorem ServiceCall.steps_acquire {pc : CallPc}
    (hguard : ({ c with pc := pc } : ServiceCall).guard = some c.name)
    (hpc : pc = .readActive ∨ pc = .stop) :
    c.Steps sh op sh.running (c.acquire sh.gate pc) := by
  unfold ServiceCall.acquire
  split
  · exact steps_fail hop hlive
  · rename_i hfree
    refine ⟨hop, ⟨"", .same, .inr (.inl rfl)⟩, ?_, ?_, rfl, .inr (.inr ⟨hguard, hfree⟩), hlive⟩ <;>
      rcases hpc with rfl | rfl <;> exact nofun

end

/-- What a stop does to the runners. -/
theorem eq_of_stop (h : stopService running name outcome = (running', result)) :
    running' = running ∨ running' = running.erase name := by
  cases runnerMoves_of_stop "" (fun _ => none) h with
  | same => exact .inl rfl
  | stopped => exact .inr rfl
  | started _ hthere => cases hthere

theorem ServiceCall.steps_of_next (h : c.next cfg sh i = some (running, c')) :
    c.Steps sh (c.op i) running c' := by
  have hop := c.op_cases i
  have hlive : ∀ result, c.pc ≠ .returned result := by
    intro result hpc
    simp only [next, hpc] at h
    cases h
  rcases hpc : c.pc with _ | _ | release | release | _ | _ | result <;> simp only [next, hpc] at h
  case acquireRun =>
    cases h
    exact steps_acquire hop hlive rfl (.inl rfl)
  case readActive =>
    split at h
    · cases h
      exact steps_fail hop hlive
    · rename_i release hread
      cases h
      refine ⟨hop, ⟨"", .same, .inr (.inl rfl)⟩, ?_, nofun, rfl, .inl ?_, hlive⟩
      · rintro r ⟨⟩
        exact ⟨_, hread⟩
      · simp only [guard, hpc]
    · cases h
      exact steps_fail hop hlive
  case load =>
    split at h
    · rename_i hload
      cases h
      refine ⟨hop, ⟨"", .same, .inr (.inl rfl)⟩, nofun, ?_, rfl, .inl ?_, hlive⟩
      · rintro r ⟨⟩
        exact ⟨hpc, manifestThere_of_load hload⟩
      · simp only [guard, hpc]
    · cases h
      exact steps_fail hop hlive
  case start =>
    obtain ⟨⟨running', result⟩, hstart, hend⟩ := Option.map_eq_some_iff.mp h
    rcases result with e | _ <;> cases hend <;>
      exact steps_finish hop hlive (runnerMoves_of_start hstart) (.inl hpc)
  case acquireStop =>
    cases h
    exact steps_acquire hop hlive rfl (.inr rfl)
  case stop =>
    split at h <;> rename_i hstop <;> cases h <;>
      exact steps_finish hop hlive (runnerMoves_of_stop "" _ hstop) (.inr (eq_of_stop hstop))
  case returned =>
    cases h

theorem ServiceCall.steps_of_failed (h : c.failed text = some c') (hop : Leaves i (c.op i) op) :
    c.Steps sh op sh.running c' := by
  have hpass : op = .pass := by
    rcases hop with rfl | ⟨f, -, rfl⟩
    · rfl
    · rcases c.op_cases i with hc | ⟨components, hc⟩ <;> rw [hc] <;> rfl
  unfold ServiceCall.failed at h
  split at h
  · rename_i hpc
    cases h
    refine steps_fail (.inl hpass) ?_
    rw [hpc]
    exact fun _ => CallPc.noConfusion
  · rename_i hpc
    cases h
    refine steps_fail (.inl hpass) ?_
    rw [hpc]
    exact fun _ => CallPc.noConfusion
  · cases h

/-! ### Steps of the system -/

variable {w w' : World} {a : Action}

inductive Steps (cfg : Config) (w : World) : Action → World → Prop
  | submit (command : Command.CommandPayload) :
      Steps cfg w (.submit command) { w with tasks := w.tasks ++ [Task.new command] }
  | deploy {k : Nat} {i : Input} {d d' : Deploy} {op : DiskOp} {running : Running}
      (hk : w.tasks[k]? = some (.deploy d)) (h : d.Steps cfg w.shared i op running d') :
      Steps cfg w (.act k i) (w.after k (.deploy d) op running (.deploy d'))
  | call {k : Nat} {i : Input} {c c' : ServiceCall} {op : DiskOp} {running : Running}
      (hk : w.tasks[k]? = some (.call c)) (h : c.Steps w.shared op running c') :
      Steps cfg w (.act k i) (w.after k (.call c) op running (.call c'))
  | exit (name : String) :
      Steps cfg w (.exit name)
        { w with shared := { w.shared with running := w.shared.running.erase name } }

variable {k : Nat}

theorem steps_of_advance (hk : w.tasks[k]? = some t)
    (h : t.advance cfg w.shared i = some (op, running, t')) :
    Steps cfg w (.act k i) (w.after k t op running t') := by
  unfold Task.advance at h
  split at h
  · -- the environment makes the call fail
    rename_i f hfault
    obtain ⟨u, hu, hend⟩ := Option.map_eq_some_iff.mp h
    cases hend
    cases t with
    | deploy d =>
      obtain ⟨d', hd', rfl⟩ := Option.map_eq_some_iff.mp hu
      exact .deploy hk (Deploy.steps_of_failed (.inr ⟨f, hfault, rfl⟩) hd')
    | call c =>
      obtain ⟨c', hc', rfl⟩ := Option.map_eq_some_iff.mp hu
      exact .call hk (ServiceCall.steps_of_failed hc' (.inr ⟨f, hfault, rfl⟩))
  · split at h
    · rename_i hpossible
      obtain ⟨⟨running', u⟩, hu, hend⟩ := Option.map_eq_some_iff.mp h
      cases hend
      cases t with
      | deploy d =>
        obtain ⟨⟨running'', d'⟩, hd', hpair⟩ := Option.map_eq_some_iff.mp hu
        cases hpair
        exact .deploy hk (.moves hpossible hd')
      | call c =>
        obtain ⟨⟨running'', c'⟩, hc', hpair⟩ := Option.map_eq_some_iff.mp hu
        cases hpair
        exact .call hk (ServiceCall.steps_of_next hc')
    · -- the tree does not allow the call
      obtain ⟨u, hu, hend⟩ := Option.map_eq_some_iff.mp h
      cases hend
      cases t with
      | deploy d =>
        obtain ⟨d', hd', rfl⟩ := Option.map_eq_some_iff.mp hu
        exact .deploy hk (Deploy.steps_of_failed (.inl rfl) hd')
      | call c =>
        obtain ⟨c', hc', rfl⟩ := Option.map_eq_some_iff.mp hu
        exact .call hk (ServiceCall.steps_of_failed (i := i) hc' (.inl rfl))

theorem steps_of_step (h : step cfg w a = some w') : Steps cfg w a w' := by
  cases a with
  | submit command =>
    cases h
    exact .submit command
  | act k i =>
    obtain ⟨t, hk, h⟩ := Option.bind_eq_some_iff.mp h
    obtain ⟨⟨op, running, t'⟩, hadvance, rfl⟩ := Option.map_eq_some_iff.mp h
    exact steps_of_advance hk hadvance
  | exit name =>
    cases h
    exact .exit name

/-! ### The command gate -/

/-- How the guard of a task can change. -/
def GuardMoves (gate : TreeSet String) (old new : Option String) : Prop :=
  new = old ∨ new = none ∨ ∃ name, new = some name ∧ name ∉ gate

theorem Deploy.Moves.guard (h : d.Moves cfg sh i running d') :
    GuardMoves sh.gate d.guard d'.guard := by
  cases h with
  | fail | startFailed | rolledBack | writePolicy => exact .inr (.inl rfl)
  | lookup _ _ hfree | otherName _ _ _ hfree => exact .inr (.inr ⟨_, rfl, hfree⟩)
  | _ => exact .inl rfl

theorem Deploy.Steps.guard (h : d.Steps cfg sh i op running d') :
    GuardMoves sh.gate d.guard d'.guard := by
  cases h with
  | moves _ h => exact (Deploy.moves_of_next h).guard
  | swapFails => exact .inl rfl
  | fails => exact .inr (.inl rfl)

theorem ServiceCall.Steps.guardMoves (h : c.Steps sh op running c') :
    GuardMoves sh.gate c.guard c'.guard := by
  rcases h.guard with hsame | hnone | ⟨hsome, hfree⟩
  · exact .inl hsame
  · exact .inr (.inl hnone)
  · exact .inr (.inr ⟨_, hsome, hfree⟩)

variable {gate : TreeSet String}

theorem mem_erase_of_ne {n : String} (h : name ∈ gate) (hne : n ≠ name) :
    name ∈ gate.erase n :=
  TreeSet.mem_erase.mpr ⟨fun heq => hne (Std.LawfulEqCmp.compare_eq_iff_eq.mp heq), h⟩

theorem mem_regate_of_ne {old new : Option String} (h : name ∈ gate) (hne : old ≠ some name) :
    name ∈ regate gate old new := by
  unfold regate
  split
  · exact h
  · rcases old with - | n <;> rcases new with - | m
    · exact h
    · exact TreeSet.mem_insert.mpr (.inr h)
    · exact mem_erase_of_ne h fun hn => hne (congrArg some hn)
    · exact mem_erase_of_ne (TreeSet.mem_insert.mpr (.inr h)) fun hn => hne (congrArg some hn)

theorem mem_regate_new {old : Option String} (h : old = some name → name ∈ gate) :
    name ∈ regate gate old (some name) := by
  unfold regate
  split
  · rename_i hold
    exact h hold
  · rename_i hold
    rcases old with - | n
    · exact TreeSet.mem_insert.mpr (.inl Std.ReflCmp.compare_self)
    · exact mem_erase_of_ne (TreeSet.mem_insert.mpr (.inl Std.ReflCmp.compare_self))
        fun hn => hold (congrArg some hn)

/-- A guard's name is in the gate, and no two tasks have the same one. -/
structure GateInv (w : World) : Prop where
  listed : ∀ {k : Nat} {t : Task} {name : String}, w.tasks[k]? = some t →
    t.guard = some name → name ∈ w.shared.gate
  exclusive : ∀ {j k : Nat} {s t : Task} {name : String}, w.tasks[j]? = some s →
    w.tasks[k]? = some t → s.guard = some name → t.guard = some name → j = k

theorem gateInv_init : GateInv World.init where
  listed hk := by cases hk
  exclusive hj := by cases hj

theorem GateInv.after (h : GateInv w) (hk : w.tasks[k]? = some t)
    (hguard : GuardMoves w.shared.gate t.guard t'.guard) : GateInv (w.after k t op running t') := by
  -- a name the moved task has now was its own before, or nobody had it
  have hothers : ∀ {j : Nat} {s : Task} {name : String}, j ≠ k → w.tasks[j]? = some s →
      s.guard = some name → t'.guard ≠ some name := by
    intro j s name hjk hj hs ht'
    rcases hguard with hsame | hnone | ⟨n, hn, hfree⟩
    · exact hjk (h.exclusive hj hk hs (hsame.symm.trans ht'))
    · rw [hnone] at ht'
      cases ht'
    · obtain rfl : n = name := Option.mem_unique hn ht'
      exact hfree (h.listed hj hs)
  refine ⟨fun {j s name} hj hs => ?_, fun {j l s u name} hj hl hs hu => ?_⟩
  · rcases getElem?_set_cases hj with ⟨rfl, rfl⟩ | ⟨hjk, hj⟩
    · show name ∈ regate w.shared.gate t.guard s.guard
      rw [hs]
      exact mem_regate_new fun ht => h.listed hk ht
    · exact mem_regate_of_ne (h.listed hj hs) fun ht => hjk (h.exclusive hj hk hs ht)
  · rcases getElem?_set_cases hj with ⟨hjk, hst⟩ | ⟨hjk, hj'⟩ <;>
      rcases getElem?_set_cases hl with ⟨hlk, hut⟩ | ⟨hlk, hl'⟩
    · rw [hjk, hlk]
    · exact (hothers hlk hl' hu (hst ▸ hs)).elim
    · exact (hothers hjk hj' hs (hut ▸ hu)).elim
    · exact h.exclusive hj' hl' hs hu

theorem Task.guard_new (command : Command.CommandPayload) : (Task.new command).guard = none := by
  cases command <;> rfl

theorem GateInv.step (h : GateInv w) (hstep : step cfg w a = some w') : GateInv w' := by
  cases steps_of_step hstep with
  | submit command =>
    have hold : ∀ {j : Nat} {s : Task} {name : String},
        (w.tasks ++ [Task.new command])[j]? = some s → s.guard = some name →
          w.tasks[j]? = some s := by
      intro j s name hj hs
      rcases getElem?_concat_cases hj with hj | ⟨-, rfl⟩
      · exact hj
      · rw [Task.guard_new] at hs
        cases hs
    exact ⟨fun hj hs => h.listed (hold hj hs) hs,
      fun hj hk hs ht => h.exclusive (hold hj hs) (hold hk ht) hs ht⟩
  | deploy hk hd => exact h.after hk hd.guard
  | call hk hc => exact h.after hk hc.guardMoves
  | exit name => exact ⟨h.listed, h.exclusive⟩

/-! ### What is known of a deploy -/

namespace DeployPc

/-- The session's name is in the gate, the manifest has not been read. -/
def early : DeployPc → Bool
  | .fetch | .clean _ | .makeStaging _ | .extract _ | .readManifest => true
  | _ => false

/-- The manifest's name is in the gate. -/
def named : DeployPc → Bool
  | .lookup | .fetch | .clean _ | .makeStaging _ | .extract _ | .readManifest | .returned _ => false
  | _ => true

/-- The artifact has been looked up. -/
def fetched : DeployPc → Bool
  | .lookup | .fetch | .returned _ => false
  | _ => true

/-- The preconditions have been checked. -/
def checked : DeployPc → Bool
  | .lookup | .fetch | .clean _ | .makeStaging _ | .extract _ | .readManifest | .readActive
  | .readPolicy | .returned _ => false
  | _ => true

def backup : DeployPc → Option Path
  | .swapIn backup | .restoreBackup backup _ | .dropBackup backup => some backup
  | _ => none

/-- The release that is rolled back to. -/
def rollback : DeployPc → Option String
  | .rollbackActive _ p | .rollbackPolicy _ p | .rollbackLoad _ p | .rollbackStart _ p
  | .rollbackForce _ p | .rollbackRetry _ p => some p
  | _ => none

def restoring : DeployPc → Bool
  | .restoreBackup _ _ => true
  | _ => false

/-- What is known at `pc` is still known at `next`. -/
structure Follows (pc next : DeployPc) : Prop where
  early : next.early = true → pc.early = true
  named : next.named = true → pc.named = true
  fetched : next.fetched = true → pc.fetched = true
  checked : next.checked = true → pc.checked = true
  backup : ∀ b, next.backup = some b → pc.backup = some b
  rollback : ∀ p, next.rollback = some p → pc.rollback = some p
  restoring : next.restoring = true → pc.restoring = true

end DeployPc

theorem stagedManifest_eq_ok {staging : Path} {digest : String} {m : Manifest}
    (h : stagedManifest cfg disk staging digest text = .ok m) :
    ∃ bytes, cfg.parseManifest bytes = .ok m ∧ validateServiceName m.name = .ok () ∧
      cfg.sha256 bytes = digest := by
  unfold stagedManifest at h
  split at h
  · rename_i bytes _
    refine ⟨bytes, ?_⟩
    rcases hparse : cfg.parseManifest bytes with e | m'
    · simp [Config.parse, hparse, Except.mapError, bind, Except.bind] at h
    · simp only [Config.parse, hparse, Except.mapError, bind, Except.bind] at h
      rcases hmeta : cfg.validateManifestMetadata m' bytes digest with e | u
      · simp [hmeta] at h
      · simp only [hmeta, pure, Except.pure, Except.ok.injEq] at h
        subst h
        unfold Config.validateManifestMetadata at hmeta
        split at hmeta
        · cases hmeta
        · rcases hname : validateServiceName m'.name with e | u'
          · simp [hname, bind, Except.bind] at hmeta
          · simp only [hname, bind, Except.bind] at hmeta
            split at hmeta
            · cases hmeta
            · rename_i hdigest
              exact ⟨rfl, rfl, not_not.mp hdigest⟩
  · cases h

/-- What is known of a deploy by its program counter: the artifact it works on,
the name it has in the gate, the checks that it has passed. -/
structure Deploy.Known (cfg : Config) (d : Deploy) : Prop where
  session : d.pc.early = true ∨ d.pc.fetched = true → ∃ a,
    cfg.committed d.payload.deployId = some a ∧ d.sessionName = a.serviceName ∧
    (d.pc.fetched = true → d.release = cfg.releaseId a.artifactDigest ∧
      d.manifestDigest = a.manifestDigest)
  early : d.pc.early = true → d.guard = some d.sessionName
  named : d.pc.named = true → d.guard = some d.name ∧ validateServiceName d.name = .ok ()
  checked : d.pc.checked = true → validateDeployPreconditions d.payload d.previous = .ok ()
  backup : ∀ b, d.pc.backup = some b → ∃ uuid, b = d.backupDir uuid
  rollback : ∀ p, d.pc.rollback = some p → d.previous = some p
  restoring : d.pc.restoring = true → 1 ≤ d.faults

namespace Deploy.Known

theorem goto (h : d.Known cfg) {pc : DeployPc} (hf : d.pc.Follows pc) :
    ({ d with pc := pc } : Deploy).Known cfg where
  session hpc := by
    obtain ⟨a, ha, hname, hrel⟩ := h.session (hpc.imp hf.early hf.fetched)
    exact ⟨a, ha, hname, fun hfetched => hrel (hf.fetched hfetched)⟩
  early hpc := h.early (hf.early hpc)
  named hpc := h.named (hf.named hpc)
  checked hpc := h.checked (hf.checked hpc)
  backup b hb := h.backup b (hf.backup b hb)
  rollback p hp := h.rollback p (hf.rollback p hp)
  restoring hpc := h.restoring (hf.restoring hpc)

/-- Nothing is claimed of a deploy that has returned. -/
theorem of_returned {result : Except ImagodError Summary} (h : d.pc = .returned result) :
    d.Known cfg := by
  constructor <;> rw [h] <;> simp [DeployPc.early, DeployPc.named, DeployPc.fetched,
    DeployPc.checked, DeployPc.backup, DeployPc.rollback, DeployPc.restoring]

theorem new (payload : Command.DeployCommandPayload) :
    ({ payload := payload } : Deploy).Known cfg := by
  constructor <;> simp [DeployPc.early, DeployPc.named, DeployPc.fetched,
    DeployPc.checked, DeployPc.backup, DeployPc.rollback, DeployPc.restoring]

/-- What a deploy has fetched stays known, wherever it goes. -/
theorem session_kept (h : d.Known cfg) (hf : d.pc.fetched = true) (P : Prop) : ∃ a,
    cfg.committed d.payload.deployId = some a ∧ d.sessionName = a.serviceName ∧
    (P → d.release = cfg.releaseId a.artifactDigest ∧ d.manifestDigest = a.manifestDigest) := by
  obtain ⟨a, ha, hname, hrel⟩ := h.session (.inr hf)
  exact ⟨a, ha, hname, fun _ => hrel hf⟩

theorem moves (h : d.Known cfg) (hm : d.Moves cfg sh i running d') : d'.Known cfg := by
  cases hm with
  | fail | startFailed | rolledBack | writePolicy => exact of_returned rfl
  | lookup hpc ha =>
    exact ⟨fun _ => ⟨_, ha, rfl, nofun⟩, fun _ => rfl, nofun, nofun, nofun, nofun, nofun⟩
  | fetch hpc ha =>
    refine ⟨fun _ => ⟨_, ha, ?_, fun _ => ⟨rfl, rfl⟩⟩, fun _ => ?_, nofun, nofun, nofun, nofun,
      nofun⟩
    · obtain ⟨b, hb, hname, -⟩ := h.session (.inl (by rw [hpc]; rfl))
      cases ha.symm.trans hb
      exact hname
    · exact h.early (by rw [hpc]; rfl)
  | sameName hpc hm hname =>
    obtain ⟨-, -, hvalid, -⟩ := stagedManifest_eq_ok hm
    refine ⟨fun _ => h.session_kept (by rw [hpc]; rfl) _, nofun, fun _ => ⟨?_, hvalid⟩, nofun,
      nofun, nofun, nofun⟩
    rw [← hname]
    exact h.early (by rw [hpc]; rfl)
  | otherName hpc hm =>
    obtain ⟨-, -, hvalid, -⟩ := stagedManifest_eq_ok hm
    exact ⟨fun _ => h.session_kept (by rw [hpc]; rfl) _, nofun, fun _ => ⟨rfl, hvalid⟩, nofun,
      nofun, nofun, nofun⟩
  | readActive hpc =>
    exact ⟨fun _ => h.session_kept (by rw [hpc]; rfl) _, nofun,
      fun _ => h.named (by rw [hpc]; rfl), nofun, nofun, nofun, nofun⟩
  | readPolicy hpc hpre =>
    exact ⟨fun _ => h.session_kept (by rw [hpc]; rfl) _, nofun,
      fun _ => h.named (by rw [hpc]; rfl), fun _ => hpre, nofun, nofun, nofun⟩
  | toBackup hpc =>
    refine ⟨fun _ => h.session_kept (by rw [hpc]; rfl) _, nofun,
      fun _ => h.named (by rw [hpc]; rfl), fun _ => h.checked (by rw [hpc]; rfl), ?_, nofun, nofun⟩
    rintro b ⟨⟩
    exact ⟨i.uuid, rfl⟩
  | rollBack hpc _ hprevious =>
    have hnamed : d.pc.named = true := by rcases hpc with hpc | hpc <;> rw [hpc] <;> rfl
    have hfetched : d.pc.fetched = true := by rcases hpc with hpc | hpc <;> rw [hpc] <;> rfl
    have hchecked : d.pc.checked = true := by rcases hpc with hpc | hpc <;> rw [hpc] <;> rfl
    refine ⟨fun _ => h.session_kept hfetched _, nofun, fun _ => h.named hnamed,
      fun _ => h.checked hchecked, nofun, ?_, nofun⟩
    rintro p ⟨⟩
    exact hprevious
  | _ =>
    apply h.goto
    rw [‹d.pc = _›]
    constructor <;> simp [DeployPc.early, DeployPc.named, DeployPc.fetched,
      DeployPc.checked, DeployPc.backup, DeployPc.rollback, DeployPc.restoring]

theorem steps (h : d.Known cfg) (hs : d.Steps cfg sh i op running d') : d'.Known cfg := by
  cases hs with
  | moves _ hm => exact h.moves (Deploy.moves_of_next hm)
  | fails => exact of_returned rfl
  | swapFails hpc =>
    exact ⟨fun _ => h.session_kept (by rw [hpc]; rfl) _, nofun,
      fun _ => h.named (by rw [hpc]; rfl), fun _ => h.checked (by rw [hpc]; rfl),
      fun b hb => h.backup b (by rw [hpc]; exact hb), nofun, fun _ => Nat.le_add_left 1 _⟩

end Deploy.Known

/-- A deploy that has returned makes no step. -/
theorem Deploy.Steps.live (h : d.Steps cfg sh i op running d')
    (result : Except ImagodError Summary) : d.pc ≠ .returned result := by
  cases h with
  | moves _ h =>
    intro hpc
    simp only [Deploy.next, hpc] at h
    cases h
  | swapFails hpc =>
    rw [hpc]
    exact DeployPc.noConfusion
  | fails _ _ hlive => exact hlive result

theorem Deploy.Steps.payload (h : d.Steps cfg sh i op running d') : d'.payload = d.payload := by
  cases h with
  | moves _ h => cases Deploy.moves_of_next h <;> rfl
  | swapFails | fails => rfl

/-- A deploy has its service's name from the manifest that it read. -/
theorem Deploy.Steps.name_cases (h : d.Steps cfg sh i op running d')
    (hnamed : d'.pc.named = true) :
    d'.sessionName = d.sessionName ∧
    ((d.pc.named = true ∧ d'.name = d.name) ∨
      (d.pc = .readManifest ∧ ∃ m,
        stagedManifest cfg sh.disk d.staging d.manifestDigest i.text = .ok m ∧
          d'.name = m.name)) := by
  cases h with
  | moves _ h =>
    cases Deploy.moves_of_next h with
    | fail | startFailed | rolledBack | writePolicy | lookup | fetch | clean | makeStaging
    | extracted | extract => cases hnamed
    | sameName hpc hm | otherName hpc hm => exact ⟨rfl, .inr ⟨hpc, _, hm, rfl⟩⟩
    | rollBack hpc =>
      have hold : d.pc.named = true := by rcases hpc with hpc | hpc <;> rw [hpc] <;> rfl
      exact ⟨rfl, .inl ⟨hold, rfl⟩⟩
    | _ => exact ⟨rfl, .inl ⟨by rw [‹d.pc = _›]; rfl, rfl⟩⟩
  | swapFails hpc => exact ⟨rfl, .inl ⟨by rw [hpc]; rfl, rfl⟩⟩
  | fails => cases hnamed

/-- The task at `k`, if it is a deploy. -/
def World.deployAt (w : World) (k : Nat) : Option Deploy :=
  (w.tasks[k]?).bind fun
    | .deploy d => some d
    | .call _ => none

theorem deployAt_eq_some (h : w.deployAt k = some d) : w.tasks[k]? = some (.deploy d) := by
  obtain ⟨t, hk, ht⟩ := Option.bind_eq_some_iff.mp h
  cases t with
  | deploy e => rw [hk, Option.some.inj ht]
  | call c => cases ht

/-- Every deploy of the world has the property. -/
def World.Deploys (w : World) (P : Deploy → Prop) : Prop :=
  ∀ (k : Nat) (d : Deploy), w.tasks[k]? = some (.deploy d) → P d

theorem deploys_init (P : Deploy → Prop) : World.init.Deploys P := by
  intro k d hk
  cases hk

/-- A deploy after a step is new, has moved, or was there before. -/
theorem deploy_cases (hstep : step cfg w a = some w') (hk : w'.tasks[k]? = some (.deploy d')) :
    (∃ payload, d' = { payload := payload }) ∨
    (∃ d i op running, w.tasks[k]? = some (.deploy d) ∧ d.Steps cfg w.shared i op running d' ∧
      a = .act k i ∧ w' = w.after k (.deploy d) op running (.deploy d')) ∨
    (w.tasks[k]? = some (.deploy d') ∧ ∀ i, a ≠ .act k i) := by
  cases steps_of_step hstep with
  | submit command =>
    rcases getElem?_concat_cases hk with hk | ⟨-, hd⟩
    · exact .inr (.inr ⟨hk, fun _ => Action.noConfusion⟩)
    · cases command <;> cases hd
      exact .inl ⟨_, rfl⟩
  | @deploy j i e e' op running hj hd =>
    rcases getElem?_set_cases hk with ⟨rfl, heq⟩ | ⟨hne, hk⟩
    · cases heq
      exact .inr (.inl ⟨e, i, op, running, hj, hd, rfl, rfl⟩)
    · refine .inr (.inr ⟨hk, fun i' ha => hne ?_⟩)
      injection ha with hjk
      exact hjk.symm
  | @call j i c c' op running hj hc =>
    rcases getElem?_set_cases hk with ⟨-, heq⟩ | ⟨hne, hk⟩
    · cases heq
    · refine .inr (.inr ⟨hk, fun i' ha => hne ?_⟩)
      injection ha with hjk
      exact hjk.symm
  | exit name => exact .inr (.inr ⟨hk, fun _ => Action.noConfusion⟩)

/-- What a step keeps of the deploys: it is shown for a new one, for the one
that moves, and for those that do not. -/
theorem deploys_step {P Q : Deploy → Prop} (h : w.Deploys P)
    (hnew : ∀ payload, Q { payload := payload })
    (hmove : ∀ k d i op running d', w.tasks[k]? = some (.deploy d) →
      d.Steps cfg w.shared i op running d' → a = .act k i →
      w' = w.after k (.deploy d) op running (.deploy d') → Q d')
    (hkeep : ∀ k d, w.tasks[k]? = some (.deploy d) → P d → (∀ i, a ≠ .act k i) → Q d)
    (hstep : step cfg w a = some w') : w'.Deploys Q := by
  intro k d' hk
  rcases deploy_cases hstep hk with ⟨payload, rfl⟩ | ⟨d, i, op, running, hk, hs, ha, hw'⟩ | ⟨hk, ha⟩
  · exact hnew payload
  · exact hmove k d i op running d' hk hs ha hw'
  · exact hkeep k d' hk (h k d' hk) ha

theorem known_step (h : w.Deploys (Deploy.Known cfg)) (hstep : step cfg w a = some w') :
    w'.Deploys (Deploy.Known cfg) := by
  refine deploys_step h (fun _ => .new _) ?_ (fun _ _ _ h _ => h) hstep
  intro k d i op running d' hk hs _ _
  exact (h k d hk).steps hs

theorem known_of_run {as : List Action} (hrun : run (step cfg) World.init as = some w) :
    w.Deploys (Deploy.Known cfg) :=
  run_invariant (fun _ _ _ h hstep => known_step h hstep) hrun (deploys_init _)

/-- **A deploy has its service for itself.**  In every run, from its manifest to its
return no other deploy, run or stop holds the name of the service in the gate. -/
theorem deploy_holds_service {as : List Action} (hrun : run (step cfg) World.init as = some w)
    (hk : w.tasks[k]? = some (.deploy d)) (hnamed : d.pc.named = true) :
    d.name ∈ w.shared.gate ∧ ∀ (j : Nat) (t : Task), w.tasks[j]? = some t →
      (t.guard = some d.name ↔ j = k) := by
  have hgate := run_invariant (fun _ _ _ h hstep => GateInv.step h hstep) hrun gateInv_init
  have hguard : d.guard = some d.name := ((known_of_run hrun k d hk).named hnamed).1
  refine ⟨hgate.listed hk hguard, fun j t hj => ⟨fun ht => hgate.exclusive hj hk ht hguard, ?_⟩⟩
  rintro rfl
  exact Option.mem_unique hk hj ▸ hguard

/-- The first of two deploys has read its manifest. -/
theorem deploy_holds_service_first : ∃ w d,
    Reaches (step (sampleConfig sampleSessions)) World.init w ∧ w.tasks[0]? = some (.deploy d) ∧
      d.name ∈ w.shared.gate ∧ ∀ t, w.tasks[1]? = some t → t.guard ≠ some d.name := by
  have hsample : ((run (step (sampleConfig sampleSessions)) World.init
      ([.submit (.deploy (samplePayload "one")), .submit (.deploy (samplePayload "two"))] ++
        smoothly 0 7)).bind (·.deployAt 0)).map (·.pc.named) = some true := by
    decide +kernel
  obtain ⟨d, hd, hnamed⟩ := Option.map_eq_some_iff.mp hsample
  obtain ⟨w, hrun, hk⟩ := Option.bind_eq_some_iff.mp hd
  obtain ⟨hmem, hother⟩ := deploy_holds_service hrun (deployAt_eq_some hk) hnamed
  exact ⟨w, d, ⟨_, hrun⟩, deployAt_eq_some hk, hmem,
    fun t ht heq => absurd ((hother 1 t ht).mp heq) (by decide)⟩

end Imago.Orchestrator
