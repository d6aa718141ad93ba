/-
Imago/RunningRelease.lean

The directory that the running service was launched from, over sequences of
commands in which any file-system call may fail.

`cleanup_old_releases` keeps the new release and the one that `active_release`
names.  The running release is neither of them when the marker was not written
after the service was replaced, and then it is deleted under the runner
(`running_release_deleted`).  The same happens when the running release itself
is deployed again, since a swap removes the directory it replaces.

Where this is excluded at the time a deploy comes to its promotion
(`RunningIsActive`), nothing at or below the directory of the running release
is changed until the runner has been stopped.

A write may be torn here, so the marker holds a digest or the first part of one
(`MarkerHex`).  An empty marker stands for the root of the service; nothing is
launched from there, because there is no manifest (`Launched.bare`).
-/
import Imago.ActiveRelease
import Imago.SequentialCommands

namespace Imago.Orchestrator

open Imago.PathTree

variable {cfg : Config} {sh : Shared} {i : Input} {d d' : Deploy} {op : DiskOp}
  {running : Running} {w w' : World} {k : Nat} {a : Action} {name : String}

/-! ### Runners -/

variable {disk : Disk} {runner : Runner}

/-- A runner after a supervisor call was there before, or has been launched by it. -/
theorem RunnerMoves.runner_cases {release n : String} {running' : Running}
    (h : RunnerMoves disk running name release running') (hr : running'[n]? = some runner) :
    running[n]? = some runner ∨
      (n = name ∧ ∃ serial, runner = ⟨release, serial⟩ ∧
        disk (join (serviceRoot name) release) = some (.dir serial)) := by
  cases h with
  | same => exact .inl hr
  | stopped => exact .inl (lookup_of_erase hr).2
  | started _ hthere =>
    rcases lookup_of_insert hr with ⟨heq, rfl⟩ | hr
    · exact .inr ⟨heq, _, rfl, hthere⟩
    · exact .inl hr

namespace DeployPc

/-- The marker has been read, the releases have not been touched. -/
def hasLooked : DeployPc → Bool
  | .readPolicy | .makeRoot | .inspect => true
  | _ => false

/-- From the promotion to the cleanup. -/
def atReleases : DeployPc → Bool
  | .promote | .toBackup | .swapIn _ | .restoreBackup _ _ | .dropBackup _ | .listReleases
  | .cleanup => true
  | _ => false

theorem atReleases_of_movesRelease {pc : DeployPc} (h : pc.movesRelease = true) :
    pc.atReleases = true := by
  cases pc <;> first | rfl | cases h

/-- The release that the rollback is about to start. -/
def restarts : DeployPc → Option String
  | .rollbackStart _ previous | .rollbackForce _ previous | .rollbackRetry _ previous =>
    some previous
  | _ => none

end DeployPc

section

variable (hs : d.Steps cfg sh i op running d')

include hs

/-- Which supervisor calls a deploy makes. -/
theorem Deploy.Steps.runner_cases :
    running = sh.running ∨
      (op = .pass ∧ d.pc.named = true ∧ ∃ release,
        RunnerMoves sh.disk sh.running d.name release running ∧
        ((release = d.release ∧ d.pc.fetched = true) ∨ d.pc.restarts = some release)) := by
  cases hs with
  | swapFails | fails => exact .inl rfl
  | moves _ hnext =>
    cases Deploy.moves_of_next hnext with
    | replaceStop hpc hrun | replaceStart hpc hrun =>
      refine .inr ⟨?_, by rw [hpc]; rfl, _, hrun, .inl ⟨rfl, by rw [hpc]; rfl⟩⟩
      simp only [Deploy.op, hpc]
    | rollBack hpc hrun | startFailed hpc hrun =>
      refine .inr ⟨?_, ?_, _, hrun, .inl ⟨rfl, ?_⟩⟩ <;> rcases hpc with hpc | hpc
      · simp only [Deploy.op, hpc]
      · simp only [Deploy.op, hpc]
      all_goals
        rw [hpc]
        rfl
    | rollbackBusy hpc hrun | rollbackForce hpc hrun =>
      refine .inr ⟨?_, by rw [hpc]; rfl, _, hrun, .inr (by rw [hpc]; rfl)⟩
      simp only [Deploy.op, hpc]
    | rolledBack hpc hrun =>
      refine .inr ⟨?_, ?_, _, hrun, .inr ?_⟩ <;> rcases hpc with hpc | hpc | hpc
      · simp only [Deploy.op, hpc]
      · simp only [Deploy.op, hpc]
      · simp only [Deploy.op, hpc]
      all_goals
        rw [hpc]
        rfl
    | _ => exact .inl rfl

/-! ### Program counters -/

theorem Deploy.Steps.hasLooked_cases
    (h : d'.pc.hasLooked = true) : d.pc = .readActive ∨ d.pc.hasLooked = true := by
  cases hs with
  | moves _ hnext =>
    cases Deploy.moves_of_next hnext with
    | readActive hpc => exact .inl hpc
    | readPolicy hpc | makeRoot hpc => exact .inr (by rw [hpc]; rfl)
    | _ => cases h
  | swapFails | fails => cases h

theorem Deploy.Steps.atReleases_cases
    (h : d'.pc.atReleases = true) :
    running = sh.running ∧ d'.previous = d.previous ∧ d'.release = d.release ∧
      (d.pc = .inspect ∨ d.pc.atReleases = true) := by
  cases hs with
  | moves _ hnext =>
    cases Deploy.moves_of_next hnext with
    | missing hpc | present hpc => exact ⟨rfl, rfl, rfl, .inl hpc⟩
    | promote hpc | toBackup hpc | swapIn hpc | dropBackup hpc | listReleases hpc
    | cleanup hpc => exact ⟨rfl, rfl, rfl, .inr (by rw [hpc]; rfl)⟩
    | _ => cases h
  | swapFails hpc => exact ⟨rfl, rfl, rfl, .inr (by rw [hpc]; rfl)⟩
  | fails => cases h

/-- A rollback starts a release only after its manifest was read. -/
theorem Deploy.Steps.restarts_cases {p : String}
    (h : d'.pc.restarts = some p) :
    (d.pc.named = true ∧ ManifestThere sh.disk d.name p) ∨ d.pc.restarts = some p := by
  cases hs with
  | moves _ hnext =>
    cases Deploy.moves_of_next hnext with
    | rollbackLoad hpc hload =>
      cases h
      exact .inl ⟨by rw [hpc]; rfl, manifestThere_of_load hload⟩
    | rollbackBusy hpc | rollbackForce hpc => exact .inr (by rw [hpc]; exact h)
    | _ => cases h
  | swapFails | fails => cases h

end

/-! ### The marker and the root of the service -/

/-- The marker is missing or holds digits. -/
def MarkerHex (disk : Disk) (name : String) : Prop :=
  disk (activeFile name) = none ∨
    ∃ s, HexText s ∧ disk (activeFile name) = some (.file (.text s))

theorem MarkerHex.not_isDir (h : MarkerHex disk name) : isDir disk (activeFile name) = false := by
  rcases h with h | ⟨s, -, h⟩ <;> simp [isDir, h]

variable {r : String}

theorem MarkerHex.hexText (h : MarkerHex disk name) (hr : activeRelease disk name = some r) :
    HexText r := by
  rcases h with h | ⟨s, hs, h⟩ <;> simp only [activeRelease, h] at hr
  · cases hr
  · rw [hs.trim] at hr
    cases hr
    exact hs

theorem MarkerHex.congr {disk' : Disk} (h : MarkerHex disk name)
    (hsame : disk' (activeFile name) = disk (activeFile name)) : MarkerHex disk' name := by
  rw [MarkerHex, hsame]
  exact h

theorem HexText.take {s : String} (h : HexText s) (n : Nat) :
    HexText (String.ofList (s.toList.take n)) := by
  intro c hc
  rw [String.toList_ofList] at hc
  exact h c (List.mem_of_mem_take hc)

/-- What a step writes to the marker is a digest or the first part of one. -/
theorem Deploy.Steps.markerHex (hs : d.Steps cfg sh i op running d') (hknown : d.Known cfg)
    (hof : OfService name d) (hmarker : MarkerHex sh.disk name)
    (hprevious : d.pc.hasRead = true → ∀ p, d.previous = some p → HexText p) (n : Nat) :
    MarkerHex (op.apply n sh.disk) name := by
  by_cases htouch : op.Touches (activeFile name)
  swap
  · exact hmarker.congr (DiskOp.apply_of_not_touches htouch n sh.disk)
  -- the call is the write of a text of digits
  obtain ⟨s, hhex, hop⟩ : ∃ s, HexText s ∧
      d.op sh.disk i = .write (activeFile name) (.text s) := by
    rcases Deploy.active_of_touches hknown hof hmarker.not_isDir (hs.touches htouch) with
      hpc | ⟨e, previous, hpc⟩
    · refine ⟨d.release, isSha256Hex.hexText (hknown.isSha256Hex_release (by rw [hpc]; rfl)), ?_⟩
      simp only [Deploy.op, hpc, hof (by rw [hpc]; rfl)]
    · refine ⟨previous, hprevious (by rw [hpc]; rfl) _ (hknown.rollback _ (by rw [hpc]; rfl)), ?_⟩
      simp only [Deploy.op, hpc, hof (by rw [hpc]; rfl)]
  have hput : ∀ s, HexText s → MarkerHex (sh.disk.put (activeFile name) (.file (.text s))) name :=
    fun s hs => .inr ⟨s, hs, put_self⟩
  have hleaves : Leaves i (d.op sh.disk i) op → MarkerHex (op.apply n sh.disk) name := by
    rintro (rfl | ⟨f, -, rfl⟩)
    · exact hmarker
    · rw [hop]
      rcases htorn : f.torn with - | m <;> simp only [DiskOp.interrupted, htorn]
      · exact hmarker
      · exact hput _ (hhex.take m)
  cases hs with
  | moves =>
    rw [hop]
    exact hput s hhex
  | swapFails _ hop' | fails hop' => exact hleaves hop'

/-- No deploy puts a manifest into the root of the service. -/
theorem Deploy.Steps.bare (hs : d.Steps cfg sh i op running d') (hknown : d.Known cfg)
    (hof : OfService name d) (h : sh.disk (serviceRoot name ++ ["manifest.json"]) = none)
    (n : Nat) :
    op.apply n sh.disk (serviceRoot name ++ ["manifest.json"]) = none := by
  refine (DiskOp.apply_of_not_touches (fun htouch => ?_) n sh.disk).trans h
  rcases Deploy.mark_of_touches hknown hof (by decide) (by decide) (fun _ => by simp [isDir, h])
    (hs.touches htouch) with ⟨-, hx⟩ | ⟨-, hx⟩ <;> exact absurd hx (by decide)

/-! ### The runner's directory -/

/-- The runner of the service has its directory. -/
structure Launched (name : String) (sh : Shared) : Prop where
  marker : MarkerHex sh.disk name
  bare : sh.disk (serviceRoot name ++ ["manifest.json"]) = none
  runner : ∀ runner, sh.running[name]? = some runner →
    HexText runner.release ∧ runner.release ≠ "" ∧
      sh.disk (serviceRoot name ++ [runner.release]) = some (.dir runner.serial)

/-- The release of a text of digits is below the root. -/
theorem HexText.join (h : HexText r) (hne : r ≠ "") (base : Path) : join base r = base ++ [r] := by
  rw [Orchestrator.join, if_neg]
  rintro (rfl | rfl)
  · exact hne rfl
  · exact absurd (h '.' (by decide)) (by decide)

/-- Nothing can be launched from the root itself. -/
theorem Launched.ne_empty (h : Launched name sh) (hr : ManifestThere sh.disk name r) : r ≠ "" := by
  rintro rfl
  obtain ⟨bytes, hbytes⟩ := hr
  rw [join, if_pos (.inl rfl), h.bare] at hbytes
  cases hbytes

/-- What holds while the deploy is at work. -/
structure Deploy.Apart (name : String) (sh : Shared) (d : Deploy) : Prop where
  hex : d.pc.hasRead = true → ∀ p, d.previous = some p → HexText p
  looked : d.pc.hasLooked = true → d.previous = activeRelease sh.disk name
  apart : d.pc.atReleases = true → ∀ runner, sh.running[name]? = some runner →
    d.previous = some runner.release ∧ d.release ≠ runner.release
  restarts : ∀ p, d.pc.restarts = some p → HexText p ∧ p ≠ ""

/-- Such a deploy does not work on the runner's directory. -/
theorem Deploy.Apart.not_worksOn (h : d.Apart name sh) (hknown : d.Known cfg)
    (hof : OfService name d) (hrunner : sh.running[name]? = some runner)
    (hhex : HexText runner.release) : ¬ d.WorksOn name sh.disk i runner.release := by
  intro hworks
  rcases hworks.plain_cases hknown hof hhex.dash_not_mem with
    ⟨hpc, hx⟩ | ⟨hpc, hremoves⟩ | ⟨-, hx⟩ | ⟨-, hx⟩
  · exact (h.apart (DeployPc.atReleases_of_movesRelease hpc) runner hrunner).2 hx.symm
  · obtain ⟨-, hprevious⟩ := Bool.and_eq_true_iff.mp hremoves
    exact bne_iff_ne.mp hprevious (h.apart (by rw [hpc]; rfl) runner hrunner).1
  all_goals
    rw [hx] at hhex
    exact absurd (hhex '_' (by decide)) (by decide)

theorem Deploy.Apart.below_runner (h : d.Apart name sh) (hl : Launched name sh)
    (hs : d.Steps cfg sh i op running d') (hknown : d.Known cfg) (hof : OfService name d)
    (hrunner : sh.running[name]? = some runner) (n : Nat) :
    (op.apply n sh.disk).below (serviceRoot name ++ [runner.release]) =
      sh.disk.below (serviceRoot name ++ [runner.release]) :=
  hs.below_entry hknown hof (h.not_worksOn hknown hof hrunner (hl.runner runner hrunner).1) n

/-- A runner that was launched has its directory. -/
theorem launched_runner {release : String} {serial : Nat} (hhex : HexText release)
    (hne : release ≠ "") (hthere : disk (join (serviceRoot name) release) = some (.dir serial)) :
    disk (serviceRoot name ++ [release]) = some (.dir serial) := by
  rwa [hhex.join hne] at hthere

variable {sh' : Shared}

theorem Launched.deploy (hl : Launched name sh) (h : d.Apart name sh)
    (hs : d.Steps cfg sh i op running d') (hknown : d.Known cfg) (hof : OfService name d)
    (hdisk : sh'.disk = op.apply sh.serial sh.disk) (hrunning : sh'.running = running) :
    Launched name sh' where
  marker := by
    rw [hdisk]
    exact hs.markerHex hknown hof hl.marker h.hex _
  bare := by
    rw [hdisk]
    exact hs.bare hknown hof hl.bare _
  runner := by
    intro runner hrunner
    rw [hrunning] at hrunner
    rw [hdisk]
    -- a runner that was there before keeps its directory
    have hold : sh.running[name]? = some runner → HexText runner.release ∧ runner.release ≠ "" ∧
        op.apply sh.serial sh.disk (serviceRoot name ++ [runner.release]) =
          some (.dir runner.serial) := by
      intro hrunner
      obtain ⟨hhex, hne, hdir⟩ := hl.runner runner hrunner
      have hkept := congrFun (h.below_runner hl hs hknown hof hrunner sh.serial) []
      rw [below_nil_apply, below_nil_apply, hdir] at hkept
      exact ⟨hhex, hne, hkept⟩
    rcases hs.runner_cases with rfl | ⟨rfl, hnamed, release, hmoves, hrelease⟩
    · exact hold hrunner
    · rcases hmoves.runner_cases hrunner with hrunner | ⟨-, serial, rfl, hthere⟩
      · exact hold hrunner
      · have hhex : HexText release ∧ release ≠ "" := by
          rcases hrelease with ⟨rfl, hfetched⟩ | hrestarts
          · have hsha := hknown.isSha256Hex_release hfetched
            exact ⟨isSha256Hex.hexText hsha, isSha256Hex.ne hsha (by decide)⟩
          · exact h.restarts release hrestarts
        rw [hof hnamed] at hthere
        exact ⟨hhex.1, hhex.2, launched_runner hhex.1 hhex.2 hthere⟩

theorem DeployPc.of_restarts {pc : DeployPc} {p : String} (h : pc.restarts = some p) :
    pc.hasRead = true ∧ pc.rollback = some p := by
  cases pc <;> first | exact ⟨rfl, h⟩ | cases h

theorem DeployPc.hasRead_of_hasLooked {pc : DeployPc} (h : pc.hasLooked = true) :
    pc.hasRead = true := by
  cases pc <;> first | rfl | cases h

/-- The steps of a deploy keep what holds while it is at work.  What has to be
assumed is what the deploy finds when it comes to its promotion. -/
theorem Deploy.Apart.steps (h : d.Apart name sh) (hl : Launched name sh)
    (hs : d.Steps cfg sh i op running d') (hknown : d.Known cfg) (hof : OfService name d)
    (hinspect : d.pc = .inspect → ∀ runner, sh.running[name]? = some runner →
      activeRelease sh.disk name = some runner.release ∧ d.release ≠ runner.release)
    (hdisk : sh'.disk = op.apply sh.serial sh.disk) (hrunning : sh'.running = running) :
    d'.Apart name sh' := by
  have hhex : d'.pc.hasRead = true → ∀ p, d'.previous = some p → HexText p := by
    intro hread p hp
    rcases hs.hasRead_cases hread with ⟨hold, hprevious⟩ | ⟨hpc, hprevious⟩
    · exact h.hex hold p (hprevious ▸ hp)
    · rw [hprevious, hof (by rw [hpc]; rfl)] at hp
      exact hl.marker.hexText hp
  refine ⟨hhex, fun hlooked => ?_, fun hreleases runner hrunner => ?_, fun p hp => ?_⟩
  · -- the marker is as it was read
    have hpc := hs.hasLooked_cases hlooked
    have hsame : sh'.disk (activeFile name) = sh.disk (activeFile name) := by
      rw [hdisk]
      refine DiskOp.apply_of_not_touches (fun ht => ?_) _ _
      rcases Deploy.active_of_touches hknown hof hl.marker.not_isDir (hs.touches ht) with
        hw | ⟨e, p, hw⟩ <;> rw [hw] at hpc <;> rcases hpc with hpc | hpc <;> cases hpc
    rw [activeRelease_congr hsame]
    rcases hs.hasRead_cases (DeployPc.hasRead_of_hasLooked hlooked) with
      ⟨hold, hprevious⟩ | ⟨hpc', hprevious⟩
    · rw [hprevious]
      refine h.looked (hpc.resolve_left fun hpc' => ?_)
      rw [hpc'] at hold
      cases hold
    · rw [hprevious, hof (by rw [hpc']; rfl)]
  · obtain ⟨hrun, hprevious, hrelease, hpc | hold⟩ := hs.atReleases_cases hreleases <;>
      rw [hrunning, hrun] at hrunner <;> rw [hprevious, hrelease]
    · rw [h.looked (by rw [hpc]; rfl)]
      exact hinspect hpc runner hrunner
    · exact h.apart hold runner hrunner
  · obtain ⟨hread, hrollback⟩ := DeployPc.of_restarts hp
    refine ⟨hhex hread p ((hknown.steps hs).rollback p hrollback), ?_⟩
    rcases hs.restarts_cases hp with ⟨hnamed, hthere⟩ | hold
    · rw [hof hnamed] at hthere
      exact hl.ne_empty hthere
    · exact (h.restarts p hold).2

/-! ### `run` and `stop` -/

/-- What holds while a call for the service is at work. -/
structure ServiceCall.Apart (name : String) (c : ServiceCall) : Prop where
  load : c.name = name → ∀ r, c.pc = .load r → HexText r
  start : c.name = name → ∀ r, c.pc = .start r → HexText r ∧ r ≠ ""

variable {c c' : ServiceCall}

theorem Launched.call (hl : Launched name sh) (h : c.Apart name) (hs : c.Steps sh op running c')
    (hdisk : sh'.disk = op.apply sh.serial sh.disk) (hrunning : sh'.running = running) :
    Launched name sh' where
  marker := hl.marker.congr (by
    rw [hdisk]
    exact hs.service_kept _ _)
  bare := by
    rw [hdisk, hs.service_kept]
    exact hl.bare
  runner := by
    intro runner hrunner
    rw [hrunning] at hrunner
    rw [hdisk, hs.service_kept]
    obtain ⟨release, hmoves, hstart⟩ := hs.running
    rcases hmoves.runner_cases hrunner with hold | ⟨rfl, serial, rfl, hthere⟩
    · exact hl.runner runner hold
    · rcases hstart with hpc | rfl | rfl
      · obtain ⟨hhex, hne⟩ := h.start rfl release hpc
        exact ⟨hhex, hne, launched_runner hhex hne hthere⟩
      · exact hl.runner _ hrunner
      · exact absurd rfl (lookup_of_erase hrunner).1

theorem ServiceCall.Apart.steps (h : c.Apart name) (hl : Launched name sh)
    (hs : c.Steps sh op running c') : c'.Apart name := by
  refine ⟨fun hname r hpc => ?_, fun hname r hpc => ?_⟩ <;> rw [hs.name] at hname
  · obtain ⟨text, hread⟩ := hs.load r hpc
    rw [hname] at hread
    exact hl.marker.hexText (readActiveRelease_eq_ok hread).symm
  · obtain ⟨hload, hthere⟩ := hs.start r hpc
    rw [hname] at hthere
    exact ⟨h.load hname r hload, hl.ne_empty hthere⟩

/-! ### Sequences of commands -/

/-- One command after the other; and when a deploy comes to its promotion while
a runner of the service is alive, that is a runner of the release that
`active_release` names, and another release is deployed. -/
def RunningIsActive (name : String) (w : World) (a : Action) : Prop :=
  Sequential w a ∧
    ∀ k i d, a = .act k i → w.tasks[k]? = some (.deploy d) → d.pc = .inspect →
      ∀ runner, w.shared.running[name]? = some runner →
        activeRelease w.shared.disk name = some runner.release ∧ d.release ≠ runner.release

/-- What holds while a task is at work. -/
def ApartAt (name : String) (sh : Shared) : Task → Prop
  | .deploy d => Launched name sh ∧ d.Apart name sh
  | .call c => Launched name sh ∧ c.Apart name

theorem apartAt_new (command : Command.CommandPayload) (h : Launched name sh) :
    ApartAt name sh (Task.new command) := by
  cases command with
  | deploy payload => exact ⟨h, nofun, nofun, nofun, nofun⟩
  | run payload | stop payload => exact ⟨h, fun _ => nofun, fun _ => nofun⟩

/-- A runner that ends by itself. -/
theorem Launched.exit (h : Launched name sh) (n : String) :
    Launched name { sh with running := sh.running.erase n } where
  marker := h.marker
  bare := h.bare
  runner := by
    intro runner hrunner
    exact h.runner runner (lookup_of_erase hrunner).2

theorem Deploy.Apart.exit (h : d.Apart name sh) (n : String) :
    d.Apart name { sh with running := sh.running.erase n } where
  hex := h.hex
  looked := h.looked
  apart := by
    intro hpc runner hrunner
    exact h.apart hpc runner (lookup_of_erase hrunner).2
  restarts := h.restarts

/-- The invariant of one service. -/
structure RunningInv (cfg : Config) (name : String) (w : World) : Prop where
  known : w.Deploys (Deploy.Known cfg)
  ofService : w.Deploys (OfService name)
  alone : Alone (Launched name) (ApartAt name) w

theorem runningInv_init : RunningInv cfg name World.init where
  known := deploys_init _
  ofService := deploys_init _
  alone := by
    refine alone_init ⟨.inl rfl, rfl, fun runner hrunner => ?_⟩
    have hrunner : (∅ : Running)[name]? = some runner := hrunner
    rw [Std.TreeMap.getElem?_emptyc] at hrunner
    cases hrunner

theorem RunningInv.step (hone : OneService cfg name) (h : RunningInv cfg name w)
    (hok : RunningIsActive name w a) (hstep : Orchestrator.step cfg w a = some w') :
    RunningInv cfg name w' where
  known := known_step h.known hstep
  ofService := ofService_step hone h.known h.ofService hstep
  alone := by
    refine h.alone.step hok.1 hstep (fun command => apartAt_new command) ?_ ?_ ?_ ?_
    · rintro k i d d' op running rfl hk hs rfl ⟨hl, hd⟩
      have hknown := h.known k d hk
      have hof := h.ofService k d hk
      exact ⟨hl.deploy hd hs hknown hof rfl rfl,
        hd.steps hl hs hknown hof (hok.2 k i d rfl hk) rfl rfl⟩
    · rintro k i c c' op running rfl hk hs rfl ⟨hl, hc⟩
      exact ⟨hl.call hc hs rfl rfl, hc.steps hl hs⟩
    · rintro n rfl
      cases hstep
      refine ⟨fun hl => hl.exit n, fun t ht => ?_⟩
      cases t with
      | deploy d => exact ⟨ht.1.exit n, ht.2.exit n⟩
      | call c => exact ⟨ht.1.exit n, ht.2⟩
    · intro t _ ht
      cases t <;> exact ht.1

/-- The runner's directory is there in every state: at rest, and with a task at work. -/
theorem Alone.launched (h : Alone (Launched name) (ApartAt name) w) : Launched name w.shared := by
  by_cases hquiet : Quiet w
  · exact h.rest hquiet
  · unfold Quiet at hquiet
    push Not at hquiet
    obtain ⟨t, ht, hdone⟩ := hquiet
    obtain ⟨k, hk⟩ := List.mem_iff_getElem?.mp ht
    have hgood := h.good hk (Bool.eq_false_iff.mpr hdone)
    cases t <;> exact hgood.1

/-- **The directory of the running release is left alone when the marker names
it.**  Take any sequence of commands of one service with any failures of
file-system calls.  If a deploy comes to its promotion only while the runner, if
there is one, is of the release that `active_release` names and not of the
release that is deployed, then in every state that is reached the directory the
runner was launched from is at its path, and no step of a command changes
anything at or below it. -/
theorem running_release_kept (hone : OneService cfg name) {as : List Action}
    (hok : RunMeets (step cfg) (RunningIsActive name) World.init as)
    (hrun : run (step cfg) World.init as = some w) {runner : Runner}
    (hrunner : w.shared.running[name]? = some runner) :
    w.shared.disk (join (serviceRoot name) runner.release) = some (.dir runner.serial) ∧
      ∀ k i w', step cfg w (.act k i) = some w' →
        w'.shared.disk.below (join (serviceRoot name) runner.release) =
          w.shared.disk.below (join (serviceRoot name) runner.release) := by
  have hinv : RunningInv cfg name w :=
    run_invariant_of_meets (fun _ _ _ h hok hstep => h.step hone hok hstep) hok hrun runningInv_init
  have hl := hinv.alone.launched
  obtain ⟨hhex, hne, hdir⟩ := hl.runner runner hrunner
  rw [hhex.join hne]
  refine ⟨hdir, fun k i w' hstep => ?_⟩
  cases steps_of_step hstep with
  | deploy hk hs =>
    have hgood := hinv.alone.good hk (not_done_of_step hk hstep)
    exact hgood.2.below_runner hl hs (hinv.known _ _ hk) (hinv.ofService _ _ hk) hrunner _
  | call hk hs =>
    funext s
    rw [below_apply, below_apply, List.append_assoc]
    exact hs.service_kept _ _

/-! ### Instances -/

/-- `RunningIsActive` as a computation. -/
def runningIsActive (name : String) (w : World) : Action → Bool
  | .submit _ => w.tasks.all Task.done
  | .act k _ => (w.deployAt k).all fun d =>
    match d.pc with
    | .inspect => (w.shared.running[name]?).all fun runner =>
      activeRelease w.shared.disk name = some runner.release && d.release != runner.release
    | _ => true
  | .exit _ => true

theorem runningIsActive_of_test (w : World) (a : Action) (h : runningIsActive name w a = true) :
    RunningIsActive name w a := by
  cases a with
  | submit command =>
    exact ⟨List.all_eq_true.mp h, fun _ _ _ ha => Action.noConfusion ha⟩
  | exit n => exact ⟨trivial, fun _ _ _ ha => Action.noConfusion ha⟩
  | act k i =>
    refine ⟨trivial, ?_⟩
    rintro k' i' d ha hk hpc runner hrunner
    injection ha with hk' hi'
    subst hk'
    have hd : w.deployAt k = some d := by rw [World.deployAt, hk]; rfl
    rw [runningIsActive, hd] at h
    simp only [Option.all_some, hpc, hrunner, Bool.and_eq_true, decide_eq_true_eq,
      bne_iff_ne] at h
    exact h

/-- The second deploy of a service, up to the cleanup. -/
def secondDeploy : List Action :=
  [.submit (.deploy (samplePayload "one"))] ++ smoothly 0 19 ++
    [.submit (.deploy (samplePayload "two"))] ++ smoothly 1 13

theorem secondDeploy_ok :
    meetsBy (step (sampleConfig sampleSessions)) (runningIsActive "s") World.init secondDeploy
      = true := by
  decide +kernel

theorem secondDeploy_runner :
    ((run (step (sampleConfig sampleSessions)) World.init secondDeploy).bind
      (·.shared.running["s"]?)).map (·.release) = some (sampleDigest (.text "a")) := by
  decide +kernel

/-- While the second release is cleaned up for, the first one runs and has its directory. -/
theorem running_release_kept_second : ∃ w runner,
    run (step (sampleConfig sampleSessions)) World.init secondDeploy = some w ∧
    w.shared.running["s"]? = some runner ∧ runner.release = sampleDigest (.text "a") ∧
    w.shared.disk (join (serviceRoot "s") runner.release) = some (.dir runner.serial) := by
  obtain ⟨runner, hrunner, hrelease⟩ := Option.map_eq_some_iff.mp secondDeploy_runner
  obtain ⟨w, hrun, hrunner⟩ := Option.bind_eq_some_iff.mp hrunner
  exact ⟨w, runner, hrun, hrunner, hrelease, (running_release_kept oneService_sampleSessions
    (.of_meetsBy runningIsActive_of_test secondDeploy_ok) hrun hrunner).1⟩

/-- The second release replaces the first one, but the write of the marker
fails; the third deploy goes as far as the cleanup. -/
def staleMarker : List Action :=
  [.submit (.deploy (samplePayload "one"))] ++ smoothly 0 19 ++
    [.submit (.deploy (samplePayload "two"))] ++ smoothly 1 17 ++
    [.act 1 { fault := some { text := "no space left" } }] ++
    [.submit (.deploy (samplePayload "three"))] ++ smoothly 2 13

/-- The next entry of the service's root is the second release. -/
def staleCleanup : List Action :=
  staleMarker ++ [.act 2 { entry := some (sampleDigest (.text "b")) }]

/-- The running release, whether its directory is there, and whether it was there
before the last step. -/
def staleRunner : Option (String × Bool × Bool) :=
  (run (step (sampleConfig sampleSessions)) World.init staleMarker).bind fun w =>
    (run (step (sampleConfig sampleSessions)) World.init staleCleanup).bind fun w' =>
      (w'.shared.running["s"]?).map fun runner =>
        (runner.release, (w'.shared.disk (join (serviceRoot "s") runner.release)).isSome,
          isDir w.shared.disk (join (serviceRoot "s") runner.release))

theorem staleRunner_eq : staleRunner = some (sampleDigest (.text "b"), false, true) := by
  decide +kernel

/-- **The directory of the running release is deleted.**  The second release is
running while the marker names the first, and the third deploy removes what is
neither the first nor the third. -/
theorem running_release_deleted : ∃ w w' runner,
    run (step (sampleConfig sampleSessions)) World.init staleMarker = some w ∧
    run (step (sampleConfig sampleSessions)) World.init staleCleanup = some w' ∧
    w'.shared.running["s"]? = some runner ∧ runner.release = sampleDigest (.text "b") ∧
    isDir w.shared.disk (join (serviceRoot "s") runner.release) = true ∧
    w'.shared.disk (join (serviceRoot "s") runner.release) = none := by
  obtain ⟨w, hrun, h⟩ := Option.bind_eq_some_iff.mp staleRunner_eq
  obtain ⟨w', hrun', h⟩ := Option.bind_eq_some_iff.mp h
  obtain ⟨runner, hrunner, h⟩ := Option.map_eq_some_iff.mp h
  simp only [Prod.mk.injEq] at h
  obtain ⟨hrelease, hgone, hbefore⟩ := h
  refine ⟨w, w', runner, hrun, hrun', hrunner, hrelease, hbefore, ?_⟩
  rwa [Option.isSome_eq_false_iff, Option.isNone_iff_eq_none] at hgone

end Imago.Orchestrator
