/-
Imago/ReleaseIntegrity.lean

The active release of a service is complete after every deploy, whichever one
of the deploy's file-system calls failed.

While a deploy is at work the contents of the active release are in one of two
places (`Deploy.place`): in the release's own directory or, between the two
renames of a swap, in the backup.  Every step keeps them there or moves them
along (`Deploy.Whole.steps`).  The release that is being deployed is complete
from its promotion on (`Deploy.Whole.fresh`), so the marker may name it when it
is written.

The only failure that would leave the active release in the backup is that of
the rename that restores it, and this call is made only after another one has
failed.
-/
import Imago.ActiveRelease
import Imago.SequentialCommands

namespace Imago.Orchestrator

open Imago.PathTree

variable {cfg : Config} {sh : Shared} {i : Input} {d d' : Deploy} {op : DiskOp}
  {running : Running} {w w' : World} {k : Nat} {a : Action} {name : String}

/-- The tree is the complete extraction of an artifact whose release id is `r`. -/
def StagedRelease (cfg : Config) (r : String) (tree : Disk) : Prop :=
  ∃ deployId artifact, cfg.committed deployId = some artifact ∧
    cfg.releaseId artifact.artifactDigest = r ∧ Extraction artifact tree

variable {r : String}

theorem StagedRelease.dir {disk : Disk} {p : Path} (h : StagedRelease cfg r (disk.below p)) :
    ∃ serial, disk p = some (.dir serial) := by
  obtain ⟨-, artifact, -, -, serial, es, hchecked, htree⟩ := h
  refine ⟨serial, ?_⟩
  have hroot : disk.below p [] = some (.dir serial) := by rw [htree, extracted_root hchecked]
  rwa [below_nil_apply] at hroot

/-! ### Where the contents of a release are -/

namespace DeployPc

/-- Between the two renames of a swap the release that is replaced is here. -/
def aside : DeployPc → Option Path
  | .swapIn backup | .restoreBackup backup _ => some backup
  | _ => none

/-- The new release is at its path and has not been made the active one. -/
def promoted : DeployPc → Bool
  | .dropBackup _ | .listReleases | .cleanup | .build | .replaceStop | .replaceStart
  | .writeActive => true
  | _ => false

theorem of_promoted {pc : DeployPc} (h : pc.promoted = true) :
    pc.named = true ∧ pc.fetched = true ∧ pc.movesRelease = false := by
  cases pc <;> first | exact ⟨rfl, rfl, rfl⟩ | cases h

end DeployPc

/-- Where the contents of the release `r` are while `d` is at work. -/
def Deploy.place (name : String) (d : Deploy) (r : String) : Path :=
  match d.pc.aside with
  | some backup => if r = d.release then backup else serviceRoot name ++ [r]
  | none => serviceRoot name ++ [r]

theorem Deploy.place_of_aside {b : Path} (h : d.pc.aside = some b) :
    d.place name d.release = b := by
  simp only [Deploy.place, h, if_true]

theorem Deploy.place_of_none (h : d.pc.aside = none) (r : String) :
    d.place name r = serviceRoot name ++ [r] := by
  simp only [Deploy.place, h]

theorem Deploy.place_of_ne (h : r ≠ d.release) : d.place name r = serviceRoot name ++ [r] := by
  unfold Deploy.place
  split
  · exact if_neg h
  · rfl

/-- What holds of the releases while `d` is at work. -/
structure Deploy.Whole (cfg : Config) (name : String) (disk : Disk) (d : Deploy) : Prop where
  marked : ∀ r, activeRelease disk name = some r →
    StagedRelease cfg r (disk.below (d.place name r))
  fresh : d.pc.promoted = true → StagedRelease cfg d.release (disk.below d.releaseDir)

/-! ### What a step does to a release -/

theorem leaves_rename {p q : Path} (h : Leaves i (.rename p q) op) : op = .pass := by
  rcases h with rfl | ⟨f, -, rfl⟩ <;> rfl

/-- On which releases a deploy works: its own when it renames, and in the
cleanup those that are neither its own nor the one it has read. -/
theorem Deploy.WorksOn.release_cases (h : d.WorksOn name sh.disk i r) (hknown : d.Known cfg)
    (hof : OfService name d) (hr : isSha256Hex r = true) :
    (r = d.release ∧ d.pc.movesRelease = true) ∨
      (d.pc = .cleanup ∧ r ≠ d.release ∧ d.previous ≠ some r) := by
  rcases h.plain_cases hknown hof (isSha256Hex.hexText hr).dash_not_mem with
    ⟨hpc, hx⟩ | ⟨hpc, hremoves⟩ | ⟨-, hx⟩ | ⟨-, hx⟩
  · exact .inl ⟨hx, hpc⟩
  · obtain ⟨hrest, hprevious⟩ := Bool.and_eq_true_iff.mp hremoves
    obtain ⟨-, hrelease⟩ := Bool.and_eq_true_iff.mp hrest
    exact .inr ⟨hpc, bne_iff_ne.mp hrelease, bne_iff_ne.mp hprevious⟩
  · exact (isSha256Hex.ne hr (by decide) hx).elim
  · exact (isSha256Hex.ne hr (by decide) hx).elim

section

variable (hs : d.Steps cfg sh i op running d')

include hs

/-- The contents are put aside by the first rename of a swap, and stay there
when the second one fails. -/
theorem Deploy.Steps.aside_cases {b : Path}
    (h : d'.pc.aside = some b) :
    d'.release = d.release ∧
      ((d.pc = .toBackup ∧ op = .rename d.releaseDir b) ∨ (d.pc.aside = some b ∧ op = .pass)) := by
  cases hs with
  | moves _ hnext =>
    cases Deploy.moves_of_next hnext with
    | toBackup hpc =>
      cases h
      refine ⟨rfl, .inl ⟨hpc, ?_⟩⟩
      simp only [Deploy.op, hpc]
    | _ => cases h
  | swapFails hpc hop =>
    simp only [Deploy.op, hpc] at hop
    refine ⟨rfl, .inr ⟨?_, leaves_rename hop⟩⟩
    rw [hpc]
    exact h
  | fails => cases h

/-- A release is fresh after its promotion, and stays fresh. -/
theorem Deploy.Steps.promoted_cases (h : d'.pc.promoted = true) :
    d'.release = d.release ∧ d'.releaseDir = d.releaseDir ∧
      (Promotes d d' ∨ d.pc.promoted = true) := by
  cases hs with
  | moves _ hnext =>
    cases Deploy.moves_of_next hnext with
    | promote hpc => exact ⟨rfl, rfl, .inl (.inl ⟨hpc, rfl⟩)⟩
    | swapIn hpc => exact ⟨rfl, rfl, .inl (.inr ⟨_, hpc, rfl⟩)⟩
    | dropBackup hpc | listReleases hpc | cleanup hpc | cleaned hpc | build hpc
    | replaceStop hpc | replaceStart hpc => exact ⟨rfl, rfl, .inr (by rw [hpc]; rfl)⟩
    | _ => cases h
  | swapFails | fails => cases h

/-- What happens to the path of the release when nothing is left aside: the new
release is promoted, the old one restored, or the step does not move it. -/
theorem Deploy.Steps.release_cases (h : d'.pc.aside = none) :
    Promotes d d' ∨ (∃ b text, d.pc = .restoreBackup b text) ∨
      (d.pc.aside = none ∧ (d.pc.movesRelease = false ∨ op = .pass)) := by
  cases hs with
  | moves _ hnext =>
    cases hpc : d.pc
    case promote =>
      simp only [Deploy.next, hpc] at hnext
      cases hnext
      exact .inl (.inl ⟨hpc, rfl⟩)
    case toBackup =>
      simp only [Deploy.next, hpc] at hnext
      cases hnext
      cases h
    case swapIn =>
      simp only [Deploy.next, hpc] at hnext
      cases hnext
      exact .inl (.inr ⟨_, hpc, rfl⟩)
    case restoreBackup => exact .inr (.inl ⟨_, _, rfl⟩)
    all_goals exact .inr (.inr ⟨rfl, .inl rfl⟩)
  | swapFails hpc hop => cases h
  | fails hop hswap =>
    cases hpc : d.pc
    case promote | toBackup =>
      simp only [Deploy.op, hpc] at hop
      exact .inr (.inr ⟨rfl, .inr (leaves_rename hop)⟩)
    case swapIn => exact (hswap _ hpc).elim
    case restoreBackup => exact .inr (.inl ⟨_, _, rfl⟩)
    all_goals exact .inr (.inr ⟨rfl, .inl rfl⟩)

/-- What is promoted is the staged release. -/
theorem Deploy.Steps.stagedRelease (hknown : d.Known cfg)
    (hstaged : d.Staged cfg sh.disk) (hp : Promotes d d') (n : Nat) :
    StagedRelease cfg d.release ((op.apply n sh.disk).below d.releaseDir) := by
  have hfetched : d.pc.fetched = true := by
    rcases hp with ⟨hpc, -⟩ | ⟨b, hpc, -⟩ <;> rw [hpc] <;> rfl
  obtain ⟨artifact, ha, -, hrelease⟩ := hknown.session (.inr hfetched)
  refine ⟨d.payload.deployId, artifact, ha, (hrelease hfetched).1.symm, ?_⟩
  rw [hs.promoted hp]
  have hextraction := hstaged artifact ha
  rcases hp with ⟨hpc, -⟩ | ⟨b, hpc, -⟩ <;> rw [hpc] at hextraction <;> exact hextraction

/-- The rename that restores a release fails only after another call has. -/
theorem Deploy.Steps.restored (hknown : d.Known cfg)
    {b : Path} {text : String} (hpc : d.pc = .restoreBackup b text) (hfaults : d'.faults ≤ 1) :
    op = .rename b d.releaseDir := by
  cases hs with
  | moves => simp only [Deploy.op, hpc]
  | swapFails hpc' =>
    rw [hpc] at hpc'
    cases hpc'
  | fails =>
    have hone : 1 ≤ d.faults := hknown.restoring (by rw [hpc]; rfl)
    have htwo : d.faults + 1 ≤ 1 := hfaults
    omega

end

/-! ### A deploy's own steps -/

namespace Deploy.Whole

section

variable (h : d.Whole cfg name sh.disk) (hs : d.Steps cfg sh i op running d')
  (hknown : d.Known cfg) (hof : OfService name d)

include h hs hknown hof

/-- The release that the deploy works on, while the marker names it. -/
theorem release_steps (hstaged : d.Staged cfg sh.disk)
    (hfaults : d'.faults ≤ 1) (hactive : activeRelease sh.disk name = some d.release)
    (hhex : isSha256Hex d.release = true) (n : Nat) :
    StagedRelease cfg d.release ((op.apply n sh.disk).below (d'.place name d.release)) := by
  have hmarked := h.marked d.release hactive
  have hdir : d.pc.named = true → d.releaseDir = serviceRoot name ++ [d.release] := by
    intro hnamed
    rw [Deploy.releaseDir, Deploy.root, hof hnamed]
  rcases haside : d'.pc.aside with - | b
  · rw [Deploy.place_of_none haside]
    rcases hs.release_cases haside with hp | ⟨b, text, hpc⟩ | ⟨hnone, hkeep⟩
    · rw [← hdir (by rcases hp with ⟨hpc, -⟩ | ⟨b, hpc, -⟩ <;> rw [hpc] <;> rfl)]
      exact hs.stagedRelease hknown hstaged hp n
    · -- the backup is moved back
      rw [Deploy.place_of_aside (b := b) (by rw [hpc]; rfl)] at hmarked
      rw [hs.restored hknown hpc hfaults, ← hdir (by rw [hpc]; rfl)]
      show StagedRelease cfg d.release ((sh.disk.move b d.releaseDir).below d.releaseDir)
      rw [below_move_self]
      exact hmarked
    · rw [Deploy.place_of_none hnone] at hmarked
      rcases hkeep with hmoves | rfl
      · rw [hs.below_entry hknown hof fun hworks => ?_]
        · exact hmarked
        · rcases hworks.release_cases hknown hof hhex with ⟨-, htrue⟩ | ⟨-, hne, -⟩
          · rw [hmoves] at htrue
            cases htrue
          · exact hne rfl
      · exact hmarked
  · obtain ⟨hrelease, hcases⟩ := hs.aside_cases haside
    rw [← hrelease, Deploy.place_of_aside haside, hrelease]
    rcases hcases with ⟨hpc, rfl⟩ | ⟨hold, rfl⟩
    · -- the release is moved to the backup
      rw [Deploy.place_of_none (by rw [hpc]; rfl), ← hdir (by rw [hpc]; rfl)] at hmarked
      show StagedRelease cfg d.release ((sh.disk.move d.releaseDir b).below b)
      rw [below_move_self]
      exact hmarked
    · rw [Deploy.place_of_aside hold] at hmarked
      exact hmarked

/-- A release that the marker names. -/
theorem marked_steps (hstaged : d.Staged cfg sh.disk)
    (hread : d.pc.hasRead = true → activeRelease sh.disk name = d.previous)
    (hfaults : d'.faults ≤ 1) (hactive : activeRelease sh.disk name = some r)
    (hhex : isSha256Hex r = true) (n : Nat) :
    StagedRelease cfg r ((op.apply n sh.disk).below (d'.place name r)) := by
  by_cases hr : r = d.release
  · subst hr
    exact h.release_steps hs hknown hof hstaged hfaults hactive hhex n
  · -- another release stays at its path, since the cleanup keeps the one that was read
    have hplace : d'.place name r = serviceRoot name ++ [r] := by
      rcases haside : d'.pc.aside with - | b
      · exact Deploy.place_of_none haside r
      · refine Deploy.place_of_ne ?_
        rw [(hs.aside_cases haside).1]
        exact hr
    rw [hplace, hs.below_entry hknown hof fun hworks => ?_]
    · rw [← Deploy.place_of_ne hr]
      exact h.marked r hactive
    · rcases hworks.release_cases hknown hof hhex with ⟨heq, -⟩ | ⟨hpc, -, hprevious⟩
      · exact hr heq
      · refine hprevious ?_
        rw [← hread (by rw [hpc]; rfl)]
        exact hactive

/-- The new release stays at its path once it is promoted. -/
theorem below_releaseDir (hpromoted : d.pc.promoted = true) (n : Nat) :
    StagedRelease cfg d.release ((op.apply n sh.disk).below d.releaseDir) := by
  obtain ⟨hnamed, hfetched, hmoves⟩ := DeployPc.of_promoted hpromoted
  have hdir : d.releaseDir = serviceRoot name ++ [d.release] := by
    rw [Deploy.releaseDir, Deploy.root, hof hnamed]
  rw [hdir, hs.below_entry hknown hof fun hworks => ?_, ← hdir]
  · exact h.fresh hpromoted
  · rcases hworks.release_cases hknown hof (hknown.isSha256Hex_release hfetched) with
      ⟨-, htrue⟩ | ⟨-, hne, -⟩
    · rw [hmoves] at htrue
      cases htrue
    · exact hne rfl

theorem steps (hstaged : d.Staged cfg sh.disk)
    (hmarker : MarkerOk sh.disk name)
    (hread : d.pc.hasRead = true → activeRelease sh.disk name = d.previous)
    (huntorn : ∀ f, i.fault = some f → f.torn = none) (hfaults : d'.faults ≤ 1) (n : Nat) :
    d'.Whole cfg name (op.apply n sh.disk) where
  marked := by
    intro r hr
    have hmoves := hs.markerMoves hknown hof hmarker huntorn n
    cases hmoves with
    | same hsame =>
      rw [activeRelease_congr hsame] at hr
      exact h.marked_steps hs hknown hof hstaged hread hfaults hr (hmarker.isSha256Hex hr) n
    | rolledBack hpc hd' hdisk =>
      -- the marker names the release that it has named before
      have hold := (hread (by rw [hpc]; rfl)).trans (hknown.rollback _ (by rw [hpc]; rfl))
      have hhex := hmarker.isSha256Hex hold
      rw [hdisk, activeRelease_write hhex] at hr
      cases hr
      exact h.marked_steps hs hknown hof hstaged hread hfaults hold hhex n
    | written hpc hd' hdisk =>
      have hhex := hknown.isSha256Hex_release (by rw [hpc]; rfl)
      rw [hdisk, activeRelease_write hhex] at hr
      cases hr
      have hplace : d'.place name d.release = d.releaseDir := by
        rw [hd', Deploy.releaseDir, Deploy.root, hof (by rw [hpc]; rfl)]
        rfl
      rw [hplace]
      exact h.below_releaseDir hs hknown hof (by rw [hpc]; rfl) n
  fresh := by
    intro hpromoted
    obtain ⟨hrelease, hdir, hp | hold⟩ := hs.promoted_cases hpromoted <;> rw [hrelease, hdir]
    · exact hs.stagedRelease hknown hstaged hp n
    · exact h.below_releaseDir hs hknown hof hold n

end

end Deploy.Whole

/-! ### Sequences of commands -/

/-- One command after the other, no write is torn, and no deploy has a second
file-system call that fails. -/
structure OneFaultEach (cfg : Config) (w : World) (a : Action) : Prop where
  sequential : Sequential w a
  untorn : Untorn w a
  faults : ∀ w', step cfg w a = some w' → w'.Deploys fun d => d.faults ≤ 1

/-- The release that the marker names is complete. -/
def ActiveComplete (cfg : Config) (name : String) (sh : Shared) : Prop :=
  ∀ r, activeRelease sh.disk name = some r →
    StagedRelease cfg r (sh.disk.below (serviceRoot name ++ [r]))

/-- The same while a task is at work. -/
def WholeAt (cfg : Config) (name : String) (sh : Shared) : Task → Prop
  | .deploy d => d.Whole cfg name sh.disk
  | .call _ => ActiveComplete cfg name sh

theorem activeComplete_of_done {t : Task} (hdone : t.done = true) (h : WholeAt cfg name sh t) :
    ActiveComplete cfg name sh := by
  cases t with
  | call c => exact h
  | deploy d =>
    obtain ⟨result, hpc⟩ := Task.done_deploy hdone
    intro r hr
    have hmarked := h.marked r hr
    rwa [Deploy.place_of_none (by rw [hpc]; rfl)] at hmarked

theorem wholeAt_new (command : Command.CommandPayload) (h : ActiveComplete cfg name sh) :
    WholeAt cfg name sh (Task.new command) := by
  cases command with
  | deploy payload => exact ⟨h, nofun⟩
  | run | stop => exact h

theorem ServiceCall.Steps.activeComplete {c c' : ServiceCall} (hs : c.Steps sh op running c')
    (h : ActiveComplete cfg name sh) (n : Nat) {sh' : Shared}
    (hdisk : sh'.disk = op.apply n sh.disk) : ActiveComplete cfg name sh' := by
  intro r hr
  rw [hdisk] at hr ⊢
  rw [activeRelease_congr (hs.service_kept _ n)] at hr
  have hbelow : (op.apply n sh.disk).below (serviceRoot name ++ [r]) =
      sh.disk.below (serviceRoot name ++ [r]) := by
    funext s
    rw [below_apply, below_apply, List.append_assoc]
    exact hs.service_kept _ n
  rw [hbelow]
  exact h r hr

/-- The invariant of such sequences. -/
structure CompleteInv (cfg : Config) (name : String) (w : World) : Prop where
  active : ActiveInv cfg name w
  staged : ∀ deployId, StagedInv cfg deployId w
  alone : Alone (ActiveComplete cfg name) (WholeAt cfg name) w

theorem completeInv_init : CompleteInv cfg name World.init :=
  ⟨activeInv_init, fun _ => deploys_init _, alone_init nofun⟩

theorem CompleteInv.step (hone : OneService cfg name) (h : CompleteInv cfg name w)
    (hok : OneFaultEach cfg w a) (hstep : Orchestrator.step cfg w a = some w') :
    CompleteInv cfg name w' where
  active := h.active.step hone hok.untorn hstep
  staged deployId :=
    stagedInv_step (h.alone.single.stagingApart deployId) h.active.known (h.staged deployId) hstep
  alone := by
    refine h.alone.step hok.sequential hstep (fun command => wholeAt_new command) ?_ ?_ ?_
      fun t hdone => activeComplete_of_done hdone
    · intro k i d d' op running ha hk hs hw' hwhole
      subst ha
      have hfaults := hok.faults w' hstep k d' (by
        rw [hw']
        exact List.getElem?_set_self (List.getElem?_eq_some_iff.mp hk).1)
      subst hw'
      exact hwhole.steps hs (h.active.known k d hk) (h.active.ofService k d hk)
        (h.staged d.payload.deployId k d hk rfl) h.active.marker (h.active.read k d hk) hok.untorn
        hfaults _
    · intro k i c c' op running ha hk hs hw' hcomplete
      subst hw'
      exact hs.activeComplete hcomplete _ rfl
    · intro n ha
      subst ha
      cases hstep
      refine ⟨id, fun t ht => ?_⟩
      cases t <;> exact ht

/-- **The active release is complete after every deploy.**  Take any sequence of
deploys of one service, with runs and stops between them, in which each deploy
has at most one file-system call that fails and no write is torn.  Whenever no
command is at work, the directory of the release that `active_release` names is
there and holds the complete contents of a staged release with that id. -/
theorem active_release_complete (hone : OneService cfg name) {as : List Action}
    (hok : RunMeets (step cfg) (OneFaultEach cfg) World.init as)
    (hrun : run (step cfg) World.init as = some w) (hquiet : Quiet w) {r : String}
    (hr : activeRelease w.shared.disk name = some r) :
    (∃ serial, w.shared.disk (serviceRoot name ++ [r]) = some (.dir serial)) ∧
      StagedRelease cfg r (w.shared.disk.below (serviceRoot name ++ [r])) := by
  have hinv : CompleteInv cfg name w :=
    run_invariant_of_meets
      (fun _ _ _ h hok hstep => h.step hone hok hstep) hok hrun completeInv_init
  have hstaged := hinv.alone.rest hquiet r hr
  exact ⟨hstaged.dir, hstaged⟩

/-! ### An instance -/

/-- `Quiet` as a computation. -/
def World.quiet (w : World) : Bool := w.tasks.all Task.done

theorem quiet_of_all (h : w.quiet = true) : Quiet w := List.all_eq_true.mp h

/-- `OneFaultEach` as a computation. -/
def oneFaultEach (cfg : Config) (w : World) (a : Action) : Bool :=
  (match a with
    | .submit _ => w.quiet
    | .act _ i => i.fault.all fun f => f.torn.isNone
    | .exit _ => true) &&
  (step cfg w a).all fun w' => w'.tasks.all fun
    | .deploy d => d.faults ≤ 1
    | .call _ => true

theorem oneFaultEach_of_test (w : World) (a : Action) (h : oneFaultEach cfg w a = true) :
    OneFaultEach cfg w a := by
  obtain ⟨haction, hfaults⟩ := Bool.and_eq_true_iff.mp h
  refine ⟨?_, ?_, fun w' hw' k d hk => ?_⟩
  · cases a with
    | submit => exact quiet_of_all haction
    | act | exit => trivial
  · cases a with
    | act k i =>
      intro f hf
      simpa [hf] using haction
    | submit | exit => trivial
  · rw [hw'] at hfaults
    have hd := List.all_eq_true.mp hfaults _ (List.mem_of_getElem? hk)
    exact of_decide_eq_true hd

/-- A release is deployed, and deployed again; the second rename of the swap
fails and the backup is moved back. -/
def swapFailsActions : List Action :=
  [.submit (.deploy (samplePayload "one"))] ++ smoothly 0 19 ++
    [.submit (.deploy (samplePayload "one"))] ++ smoothly 1 12 ++
    [.act 1 { fault := some { text := "no space left" } }] ++ smoothly 1 1

theorem swapFailsActions_ok :
    meetsBy (step (sampleConfig sampleSessions)) (oneFaultEach (sampleConfig sampleSessions))
      World.init swapFailsActions = true := by
  decide +kernel

theorem swapFailsActions_active :
    (run (step (sampleConfig sampleSessions)) World.init swapFailsActions).map
      (fun w => (w.quiet, activeRelease w.shared.disk "s")) =
        some (true, some (sampleDigest (.text "a"))) := by
  decide +kernel

/-- The release is complete although the deploy that was to replace it failed. -/
theorem active_release_complete_swap : ∃ w,
    run (step (sampleConfig sampleSessions)) World.init swapFailsActions = some w ∧
    activeRelease w.shared.disk "s" = some (sampleDigest (.text "a")) ∧
    StagedRelease (sampleConfig sampleSessions) (sampleDigest (.text "a"))
      (w.shared.disk.below (serviceRoot "s" ++ [sampleDigest (.text "a")])) := by
  obtain ⟨w, hrun, h⟩ := Option.map_eq_some_iff.mp swapFailsActions_active
  simp only [Prod.mk.injEq] at h
  refine ⟨w, hrun, h.2, (active_release_complete oneService_sampleSessions
    (.of_meetsBy oneFaultEach_of_test swapFailsActions_ok) hrun (quiet_of_all h.1) h.2).2⟩

end Imago.Orchestrator
