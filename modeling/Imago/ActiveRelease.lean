/-
Imago/ActiveRelease.lean

The marker file `active_release` of a service under concurrent commands.

Of all the calls of a deploy only two reach the marker: the write of the new
release and, in a rollback, the write of the old one (`active_of_touches`).
Both are made with the service's name in the command gate, and so is the read
that the deploy's precondition is checked against.  Between its read and its
write a deploy therefore finds the marker as it read it (`ActiveInv.read`): the
check of `expected_current_release` and the write act as one compare-and-swap.

The release ids are digests.  This is used in three places: a digest has no
white space to trim, it is not the name of a file of the service's root, and it
has no dash, which the name of a backup has.
-/
import Imago.OrchestratorSteps
import Mathlib.Data.List.DropRight

namespace Imago.Orchestrator

open Imago.PathTree

/-! ### Digests -/

/-- A text of hexadecimal digits; a digest, or a part of one. -/
def HexText (s : String) : Prop :=
  ∀ c ∈ s.toList, (48 ≤ c.toNat ∧ c.toNat ≤ 57) ∨ (97 ≤ c.toNat ∧ c.toNat ≤ 102)

variable {s : String}

theorem isSha256Hex.hexText (h : isSha256Hex s = true) : HexText s := by
  intro c hc
  have hall := List.all_eq_true.mp (Bool.and_eq_true_iff.mp h).2 c hc
  simp only [Bool.or_eq_true, Bool.and_eq_true, decide_eq_true_eq] at hall
  rcases hall with ⟨h₁, h₂⟩ | ⟨h₁, h₂⟩
  · exact .inl ⟨h₁, h₂⟩
  · exact .inr ⟨h₁, h₂⟩

theorem HexText.trim (h : HexText s) : trim s = s := by
  have hchars : ∀ c ∈ s.toList, isWhitespace c = false := by
    intro c hc
    have hrange := h c hc
    exact isWhitespace_of_visible (by omega) (by omega)
  rw [Imago.trim, trimChars_eq_self hchars, String.ofList_toList]

/-- A dash is no digit. -/
theorem HexText.dash_not_mem (h : HexText s) : '-' ∉ s.toList := by
  intro hdash
  have hrange := h _ hdash
  revert hrange
  decide

theorem trim_of_isSha256Hex (h : isSha256Hex s = true) : trim s = s :=
  (isSha256Hex.hexText h).trim

variable {x : String}

/-- A digest is not the name of a file in the root of a service. -/
theorem isSha256Hex.ne (h : isSha256Hex s = true) (hx : isSha256Hex x = false) : s ≠ x := by
  rintro rfl
  rw [hx] at h
  cases h

theorem Config.isSha256Hex_releaseId (cfg : Config) (artifactDigest : String) :
    isSha256Hex (cfg.releaseId artifactDigest) = true := cfg.sha256_hex _

/-! ### One service -/

/-- All artifacts are of the service `name`: their manifests have that name. -/
def OneService (cfg : Config) (name : String) : Prop :=
  ∀ deployId artifact bytes m, cfg.committed deployId = some artifact →
    cfg.sha256 bytes = artifact.manifestDigest → cfg.parseManifest bytes = .ok m → m.name = name

variable {cfg : Config} {sh : Shared} {i : Input} {d d' : Deploy} {op : DiskOp}
  {running : Running} {w w' : World} {k : Nat} {a : Action} {name : String}

/-- The deploys that have read their manifest are of the service. -/
def OfService (name : String) (d : Deploy) : Prop := d.pc.named = true → d.name = name

theorem Deploy.Steps.ofService (hs : d.Steps cfg sh i op running d') (hknown : d.Known cfg)
    (hone : OneService cfg name) (h : OfService name d) : OfService name d' := by
  intro hnamed
  obtain ⟨-, ⟨hold, hname⟩ | ⟨hpc, m, hm, hname⟩⟩ := hs.name_cases hnamed
  · rw [hname, h hold]
  · obtain ⟨bytes, hparse, -, hdigest⟩ := stagedManifest_eq_ok hm
    obtain ⟨artifact, ha, -, hfetched⟩ := hknown.session (.inl (by rw [hpc]; rfl))
    rw [(hfetched (by rw [hpc]; rfl)).2] at hdigest
    rw [hname]
    exact hone _ artifact bytes m ha hdigest hparse

theorem ofService_step (hone : OneService cfg name) (hknown : w.Deploys (Deploy.Known cfg))
    (h : w.Deploys (OfService name)) (hstep : step cfg w a = some w') :
    w'.Deploys (OfService name) := by
  refine deploys_step h (fun _ => nofun) ?_ (fun _ _ _ h _ => h) hstep
  intro k d i op running d' hk hs _ _
  exact hs.ofService (hknown k d hk) hone (h k d hk)

/-- Two deploys that have the name of the service in the gate are one. -/
theorem GateInv.eq_of_named (hgate : GateInv w) (hknown : w.Deploys (Deploy.Known cfg))
    (hof : w.Deploys (OfService name)) {j : Nat} {e : Deploy}
    (hj : w.tasks[j]? = some (.deploy e)) (hk : w.tasks[k]? = some (.deploy d))
    (he : e.pc.named = true) (hd : d.pc.named = true) : j = k := by
  have hge := ((hknown j e hj).named he).1
  have hgd := ((hknown k d hk).named hd).1
  rw [hof j e hj he] at hge
  rw [hof k d hk hd] at hgd
  exact hgate.exclusive hj hk hge hgd

/-! ### The marker -/

/-- The release that the marker names. -/
def activeRelease (disk : Disk) (name : String) : Option String :=
  match disk (activeFile name) with
  | some (.file (.text s)) => some (trim s)
  | _ => none

variable {disk : Disk}

theorem readActiveRelease_eq_ok {text : String} {value : Option String}
    (h : readActiveRelease disk name text = .ok value) : value = activeRelease disk name := by
  unfold readActiveRelease at h
  unfold activeRelease
  split at h <;> cases h <;> simp_all

/-- The marker is missing or holds a digest. -/
def MarkerOk (disk : Disk) (name : String) : Prop :=
  disk (activeFile name) = none ∨
    ∃ r, isSha256Hex r = true ∧ disk (activeFile name) = some (.file (.text r))

theorem MarkerOk.not_isDir (h : MarkerOk disk name) : isDir disk (activeFile name) = false := by
  rcases h with h | ⟨r, -, h⟩ <;> simp [isDir, h]

variable {r : String}

theorem MarkerOk.isSha256Hex (h : MarkerOk disk name) (hr : activeRelease disk name = some r) :
    isSha256Hex r = true := by
  rcases h with h | ⟨r', hhex, h⟩ <;> simp only [activeRelease, h] at hr
  · cases hr
  · rw [trim_of_isSha256Hex hhex] at hr
    cases hr
    exact hhex

theorem activeRelease_write (h : Orchestrator.isSha256Hex r = true) :
    activeRelease (disk.put (activeFile name) (.file (.text r))) name = some r := by
  simp only [activeRelease, put_self, trim_of_isSha256Hex h]

theorem Deploy.Known.isSha256Hex_release (hknown : d.Known cfg) (hpc : d.pc.fetched = true) :
    isSha256Hex d.release = true := by
  obtain ⟨artifact, -, -, hrelease⟩ := hknown.session (.inr hpc)
  rw [(hrelease hpc).1]
  exact cfg.isSha256Hex_releaseId _

/-! ### What a deploy touches under the root of its service -/

/-- The call of `d` works on the entry `x` of the service's root. -/
inductive Deploy.WorksOn (name : String) (disk : Disk) (i : Input) (d : Deploy) (x : String) : Prop
  | promote (hpc : d.pc = .promote ∨ ∃ backup, d.pc = .swapIn backup) (hx : x = d.release)
  | toBackup (hpc : d.pc = .toBackup)
      (hx : x = d.release ∨ x = d.release ++ ".swap-backup-" ++ i.uuid)
  | restore {backup : Path} {text : String} (hpc : d.pc = .restoreBackup backup text)
      (hx : serviceRoot name ++ [x] = backup ∨ x = d.release)
  | drop {backup : Path} (hpc : d.pc = .dropBackup backup) (hx : serviceRoot name ++ [x] = backup)
  | cleanup (hpc : d.pc = .cleanup) (hentry : i.entry = some x) (hremoves : d.removes disk x = true)
  | marker (hpc : d.pc = .writeActive ∨ ∃ e previous, d.pc = .rollbackActive e previous)
      (hx : x = "active_release")
  | policy (hpc : d.pc = .writePolicy ∨ ∃ e previous, d.pc = .rollbackPolicy e previous)
      (hx : x = "restart_policy")

/-- The call of `d` writes the mark `x`. -/
def Deploy.Marks (d : Deploy) (x : String) : Prop :=
  ((d.pc = .writeActive ∨ ∃ e previous, d.pc = .rollbackActive e previous) ∧
    x = "active_release") ∨
  ((d.pc = .writePolicy ∨ ∃ e previous, d.pc = .rollbackPolicy e previous) ∧ x = "restart_policy")

theorem eq_of_prefix_entry {root s : Path} {y : String} (h : root ++ [y] <+: root ++ x :: s) :
    y = x :=
  (List.cons_prefix_cons.mp ((List.prefix_append_right_inj root).mp h)).1

theorem eq_of_entry_eq {root s : Path} {y : String} (h : root ++ x :: s = root ++ [y]) : x = y :=
  (List.cons.inj (List.append_cancel_left h)).1

theorem eq_of_touches_writeRestartPolicy {policy : String} {s : Path}
    (h : (Deploy.writeRestartPolicy name policy).Touches (serviceRoot name ++ x :: s)) :
    x = "restart_policy" := by
  unfold Deploy.writeRestartPolicy at h
  split at h
  · exact eq_of_entry_eq h
  · exact h.elim

/-- The name of a backup is not the name of another entry of the root. -/
theorem backup_ne (hx : '-' ∉ x.toList) (release uuid : String) :
    x ≠ release ++ ".swap-backup-" ++ uuid := by
  rintro rfl
  exact hx (by simp)

/-- The call is a rename from or to the path of the release. -/
def DeployPc.movesRelease : DeployPc → Bool
  | .promote | .toBackup | .swapIn _ | .restoreBackup _ _ => true
  | _ => false

theorem DeployPc.fetched_of_movesRelease {pc : DeployPc} (h : pc.movesRelease = true) :
    pc.fetched = true := by
  cases pc <;> first | rfl | cases h

section Entries

variable (hknown : d.Known cfg) (hof : OfService name d)

include hknown hof

/-- A call that touches something at or below an entry of the root works on it. -/
theorem Deploy.worksOn_of_touches {s : Path}
    (h : (d.op disk i).Touches (serviceRoot name ++ x :: s)) : d.WorksOn name disk i x := by
  obtain ⟨q, hq⟩ := serviceRoot_append name (x :: s)
  have hstaging : ∀ r, ¬ stagingDir d.payload.deployId ++ r <+: serviceRoot name ++ x :: s ∧
      ¬ serviceRoot name ++ x :: s <+: stagingDir d.payload.deployId ++ r := by
    intro r
    rw [hq]
    exact apart_of_head_ne (by decide) _ _
  have hcache : ∀ components, ¬ (DiskOp.cache components).Touches (serviceRoot name ++ x :: s) := by
    rintro components (h | h) <;> rw [hq] at h <;>
      exact absurd (List.cons_prefix_cons.mp h).1 (by decide)
  have hbackup : ∀ b, d.pc.backup = some b → d.pc.named = true →
      b <+: serviceRoot name ++ x :: s → serviceRoot name ++ [x] = b := by
    intro b hb hpc h
    obtain ⟨uuid, rfl⟩ := hknown.backup b hb
    rw [backupDir, root, hof hpc] at h ⊢
    rw [eq_of_prefix_entry h]
  have hroot : d.pc.named = true → d.root = serviceRoot name := fun hpc => by rw [root, hof hpc]
  cases hpc : d.pc <;> simp only [hpc] at hbackup hroot <;> simp only [op, hpc] at h
  case clean => exact ((hstaging []).1 h).elim
  case makeStaging => exact ((hstaging []).2 h).elim
  case extract rest =>
    rcases rest with - | ⟨e, rest⟩
    · exact h.elim
    · rcases hcheck : e.check with err | entry <;> simp only [hcheck] at h
      · exact h.elim
      · exact ((hstaging _).2 h).elim
  case makeRoot =>
    rw [hroot rfl] at h
    have hlen := List.IsPrefix.length_le h
    rw [List.length_append, List.length_cons] at hlen
    omega
  case promote =>
    rw [releaseDir, hroot rfl] at h
    exact .promote (.inl hpc) (eq_of_prefix_entry (h.resolve_left (hstaging []).1)).symm
  case swapIn =>
    rw [releaseDir, hroot rfl] at h
    exact .promote (.inr ⟨_, hpc⟩) (eq_of_prefix_entry (h.resolve_left (hstaging []).1)).symm
  case toBackup =>
    rw [releaseDir, backupDir, hroot rfl] at h
    exact .toBackup hpc (h.imp (fun h => (eq_of_prefix_entry h).symm)
      fun h => (eq_of_prefix_entry h).symm)
  case restoreBackup =>
    rw [releaseDir, hroot rfl] at h
    exact .restore hpc (h.imp (hbackup _ rfl rfl) fun h => (eq_of_prefix_entry h).symm)
  case dropBackup => exact .drop hpc (hbackup _ rfl rfl h)
  case cleanup =>
    rcases hentry : i.entry with - | entry <;> simp only [hentry] at h
    · exact h.elim
    · split at h
      · rename_i hremoves
        rw [hroot rfl] at h
        obtain rfl := eq_of_prefix_entry h
        exact .cleanup hpc hentry hremoves
      · exact h.elim
  case build | rollbackLoad => exact (hcache _ h).elim
  case rollbackActive =>
    rw [hof (by rw [hpc]; rfl)] at h
    exact .marker (.inr ⟨_, _, hpc⟩) (eq_of_entry_eq h)
  case writeActive =>
    rw [hof (by rw [hpc]; rfl)] at h
    exact .marker (.inl hpc) (eq_of_entry_eq h)
  case rollbackPolicy =>
    rw [hof (by rw [hpc]; rfl)] at h
    rcases hpolicy : d.previousPolicy with - | policy <;> simp only [hpolicy] at h
    · exact .policy (.inr ⟨_, _, hpc⟩) (eq_of_prefix_entry h).symm
    · exact .policy (.inr ⟨_, _, hpc⟩) (eq_of_touches_writeRestartPolicy h)
  case writePolicy =>
    rw [hof (by rw [hpc]; rfl)] at h
    exact .policy (.inl hpc) (eq_of_touches_writeRestartPolicy h)
  all_goals exact h.elim

/-- An entry that the step does not work on stays as it is. -/
theorem Deploy.Steps.below_entry (hs : d.Steps cfg sh i op running d')
    (h : ¬ d.WorksOn name sh.disk i x) (n : Nat) :
    (op.apply n sh.disk).below (serviceRoot name ++ [x]) =
      sh.disk.below (serviceRoot name ++ [x]) := by
  refine DiskOp.below_apply_of_not_touches (fun s htouch => h ?_) n sh.disk
  rw [List.append_assoc] at htouch
  exact Deploy.worksOn_of_touches hknown hof (hs.touches htouch)

/-- A backup that a deploy has at hand is not another entry either. -/
theorem Deploy.Known.ne_backup {b : Path} (hb : d.pc.backup = some b) (hnamed : d.pc.named = true)
    (hx : '-' ∉ x.toList) : serviceRoot name ++ [x] ≠ b := by
  obtain ⟨uuid, rfl⟩ := hknown.backup b hb
  rw [Deploy.backupDir, Deploy.root, hof hnamed]
  intro heq
  exact backup_ne hx d.release uuid (eq_of_entry_eq heq)

/-- What works on an entry that is named like no backup. -/
theorem Deploy.WorksOn.plain_cases (h : d.WorksOn name disk i x) (hx : '-' ∉ x.toList) :
    (d.pc.movesRelease = true ∧ x = d.release) ∨
    (d.pc = .cleanup ∧ d.removes disk x = true) ∨ d.Marks x := by
  cases h with
  | promote hpc heq => rcases hpc with hpc | ⟨b, hpc⟩ <;> exact .inl ⟨by rw [hpc]; rfl, heq⟩
  | toBackup hpc heq =>
    exact .inl ⟨by rw [hpc]; rfl, heq.resolve_right (backup_ne hx _ _)⟩
  | restore hpc heq =>
    have hne := hknown.ne_backup hof (by rw [hpc]; rfl) (by rw [hpc]; rfl) hx
    exact .inl ⟨by rw [hpc]; rfl, heq.resolve_left hne⟩
  | drop hpc heq =>
    exact absurd heq (hknown.ne_backup hof (by rw [hpc]; rfl) (by rw [hpc]; rfl) hx)
  | cleanup hpc _ hremoves => exact .inr (.inl ⟨hpc, hremoves⟩)
  | marker hpc heq => exact .inr (.inr (.inl ⟨hpc, heq⟩))
  | policy hpc heq => exact .inr (.inr (.inr ⟨hpc, heq⟩))

/-- A call that reaches a file in the root of the service which no release is
named like is one of the four calls that write the marker or the policy. -/
theorem Deploy.mark_of_touches (hhex : isSha256Hex x = false) (hdash : '-' ∉ x.toList)
    (hfile : d.pc = .cleanup → isDir disk (serviceRoot name ++ [x]) = false)
    (h : (d.op disk i).Touches (serviceRoot name ++ [x])) : d.Marks x := by
  rcases (Deploy.worksOn_of_touches hknown hof h).plain_cases hknown hof hdash with
    ⟨hpc, rfl⟩ | ⟨hpc, hremoves⟩ | hmark
  · rw [hknown.isSha256Hex_release (DeployPc.fetched_of_movesRelease hpc)] at hhex
    cases hhex
  · -- this is a file, and only directories are removed
    have hdir := (Bool.and_eq_true_iff.mp (Bool.and_eq_true_iff.mp hremoves).1).1
    rw [root, hof (by rw [hpc]; rfl), hfile hpc] at hdir
    cases hdir
  · exact hmark

/-- Only two calls of a deploy reach the marker. -/
theorem Deploy.active_of_touches (hmarker : isDir disk (activeFile name) = false)
    (h : (d.op disk i).Touches (activeFile name)) :
    d.pc = .writeActive ∨ ∃ e previous, d.pc = .rollbackActive e previous := by
  rcases Deploy.mark_of_touches hknown hof (by decide) (by decide) (fun _ => hmarker) h with
    ⟨hpc, -⟩ | ⟨-, hx⟩
  · exact hpc
  · exact absurd hx (by decide)

end Entries

/-- The write of a whole file either happens or leaves the file as it was. -/
def Untorn : World → Action → Prop
  | _, .act _ i => ∀ f, i.fault = some f → f.torn = none
  | _, _ => True

/-- What a step of a deploy does to the marker. -/
inductive MarkerMoves (name : String) (disk disk' : Disk) (d d' : Deploy) : Prop
  | same (h : disk' (activeFile name) = disk (activeFile name))
  | written (hpc : d.pc = .writeActive) (hd' : d' = { d with pc := .writePolicy })
      (h : disk' = disk.put (activeFile name) (.file (.text d.release)))
  | rolledBack {e : ImagodError} {previous : String} (hpc : d.pc = .rollbackActive e previous)
      (hd' : d' = { d with pc := .rollbackPolicy e previous })
      (h : disk' = disk.put (activeFile name) (.file (.text previous)))

theorem Deploy.Steps.markerMoves (hs : d.Steps cfg sh i op running d') (hknown : d.Known cfg)
    (hof : OfService name d) (hmarker : MarkerOk sh.disk name)
    (huntorn : ∀ f, i.fault = some f → f.torn = none) (n : Nat) :
    MarkerMoves name sh.disk (op.apply n sh.disk) d d' := by
  by_cases htouch : op.Touches (activeFile name)
  swap
  · exact .same (DiskOp.apply_of_not_touches htouch n sh.disk)
  have hpc := Deploy.active_of_touches hknown hof hmarker.not_isDir (hs.touches htouch)
  -- a failed write that is not torn does nothing
  have hpass : Leaves i (d.op sh.disk i) op → op = .pass := by
    rintro (rfl | ⟨f, hf, rfl⟩)
    · rfl
    · rcases hpc with hpc | ⟨e, previous, hpc⟩ <;>
        simp only [Deploy.op, hpc, DiskOp.interrupted, huntorn f hf]
  cases hs with
  | moves _ h =>
    have hname : d.name = name := by
      rcases hpc with hpc | ⟨e, previous, hpc⟩ <;> exact hof (by rw [hpc]; rfl)
    rcases hpc with hpc | ⟨e, previous, hpc⟩ <;> simp only [Deploy.next, hpc] at h <;> cases h
    · refine .written hpc rfl ?_
      simp only [Deploy.op, hpc, DiskOp.apply, hname]
    · refine .rolledBack hpc rfl ?_
      simp only [Deploy.op, hpc, DiskOp.apply, hname]
  | swapFails _ hop | fails hop =>
    rw [hpass hop]
    exact .same rfl

/-- `run` and `stop` change nothing under the root of a service. -/
theorem ServiceCall.Steps.service_kept {c c' : ServiceCall} (h : c.Steps sh op running c')
    (q : Path) (n : Nat) :
    (op.apply n sh.disk) (serviceRoot name ++ q) = sh.disk (serviceRoot name ++ q) := by
  refine DiskOp.apply_of_not_touches (fun ht => ?_) n sh.disk
  obtain ⟨q', hq'⟩ := serviceRoot_append name q
  rw [hq'] at ht
  rcases h.op with rfl | ⟨components, rfl⟩
  · exact ht
  · rcases ht with ht | ht <;> exact absurd (List.cons_prefix_cons.mp ht).1 (by decide)

theorem activeRelease_congr {disk' : Disk} (h : disk' (activeFile name) = disk (activeFile name)) :
    activeRelease disk' name = activeRelease disk name := by
  rw [activeRelease, h, activeRelease]

theorem MarkerOk.congr {disk' : Disk} (h : MarkerOk disk name)
    (hsame : disk' (activeFile name) = disk (activeFile name)) : MarkerOk disk' name := by
  rw [MarkerOk, hsame]
  exact h

theorem markerOk_put (h : isSha256Hex r = true) :
    MarkerOk (disk.put (activeFile name) (.file (.text r))) name :=
  .inr ⟨r, h, put_self⟩

/-! ### Between the read and the write -/

/-- The deploy has read the marker and has not written a new release to it. -/
def DeployPc.hasRead : DeployPc → Bool
  | .lookup | .fetch | .clean _ | .makeStaging _ | .extract _ | .readManifest | .readActive
  | .writePolicy | .returned _ => false
  | _ => true

theorem DeployPc.named_of_hasRead {pc : DeployPc} (h : pc.hasRead = true) : pc.named = true := by
  cases pc <;> first | rfl | cases h

/-- A deploy that has read the marker had read it before, or reads it now. -/
theorem Deploy.Steps.hasRead_cases (hs : d.Steps cfg sh i op running d')
    (hread : d'.pc.hasRead = true) :
    (d.pc.hasRead = true ∧ d'.previous = d.previous) ∨
      (d.pc = .readActive ∧ d'.previous = activeRelease sh.disk d.name) := by
  cases hs with
  | moves _ h =>
    cases Deploy.moves_of_next h with
    | fail | startFailed | rolledBack | writePolicy | lookup | fetch | clean | makeStaging
    | extracted | extract | sameName | otherName | writeActive => cases hread
    | readActive hpc hvalue => exact .inr ⟨hpc, readActiveRelease_eq_ok hvalue⟩
    | rollBack hpc =>
      have hold : d.pc.hasRead = true := by rcases hpc with hpc | hpc <;> rw [hpc] <;> rfl
      exact .inl ⟨hold, rfl⟩
    | _ => exact .inl ⟨by rw [‹d.pc = _›]; rfl, rfl⟩
  | swapFails hpc => exact .inl ⟨by rw [hpc]; rfl, rfl⟩
  | fails => cases hread

/-- The marker, and what the deploys know of it. -/
structure ActiveInv (cfg : Config) (name : String) (w : World) : Prop where
  gate : GateInv w
  known : w.Deploys (Deploy.Known cfg)
  ofService : w.Deploys (OfService name)
  marker : MarkerOk w.shared.disk name
  read : w.Deploys fun d => d.pc.hasRead = true →
    activeRelease w.shared.disk name = d.previous

theorem activeInv_init : ActiveInv cfg name World.init :=
  ⟨gateInv_init, deploys_init _, deploys_init _, .inl rfl, deploys_init _⟩

/-- What a step that does not tear a write does to the marker. -/
theorem ActiveInv.moves (h : ActiveInv cfg name w) (huntorn : Untorn w a)
    (hstep : step cfg w a = some w') :
    w'.shared.disk (activeFile name) = w.shared.disk (activeFile name) ∨
    ∃ k i d d', a = .act k i ∧ w.tasks[k]? = some (.deploy d) ∧
      w'.tasks = w.tasks.set k (.deploy d') ∧
      MarkerMoves name w.shared.disk w'.shared.disk d d' := by
  cases steps_of_step hstep with
  | submit command | exit => exact .inl rfl
  | deploy hk hd =>
    exact .inr ⟨_, _, _, _, rfl, hk, rfl, hd.markerMoves (h.known _ _ hk) (h.ofService _ _ hk)
      h.marker huntorn _⟩
  | call hk hc => exact .inl (hc.service_kept _ _)

/-- A rollback writes the release that the marker names already. -/
theorem ActiveInv.rollback (h : ActiveInv cfg name w) (hk : w.tasks[k]? = some (.deploy d))
    {e : ImagodError} {previous : String} (hpc : d.pc = .rollbackActive e previous) :
    activeRelease w.shared.disk name = some previous ∧ isSha256Hex previous = true := by
  have hprevious : d.previous = some previous := (h.known k d hk).rollback _ (by rw [hpc]; rfl)
  have hactive : activeRelease w.shared.disk name = some previous :=
    (h.read k d hk (by rw [hpc]; rfl)).trans hprevious
  exact ⟨hactive, h.marker.isSha256Hex hactive⟩

/-- The step leaves the marker as it is read, or it is a deploy's write. -/
theorem ActiveInv.activeRelease_cases (h : ActiveInv cfg name w) (huntorn : Untorn w a)
    (hstep : step cfg w a = some w') :
    (MarkerOk w'.shared.disk name ∧
      activeRelease w'.shared.disk name = activeRelease w.shared.disk name) ∨
    ∃ k i d, a = .act k i ∧ w.tasks[k]? = some (.deploy d) ∧ d.pc = .writeActive ∧
      w'.tasks = w.tasks.set k (.deploy { d with pc := .writePolicy }) ∧
      MarkerOk w'.shared.disk name ∧ activeRelease w'.shared.disk name = some d.release := by
  rcases h.moves huntorn hstep with hsame | ⟨k, i, d, d', rfl, hk, htasks, hmoves⟩
  · exact .inl ⟨h.marker.congr hsame, activeRelease_congr hsame⟩
  · cases hmoves with
    | same hsame => exact .inl ⟨h.marker.congr hsame, activeRelease_congr hsame⟩
    | written hpc hd' hdisk =>
      have hhex := (h.known k d hk).isSha256Hex_release (by rw [hpc]; rfl)
      refine .inr ⟨k, i, d, rfl, hk, hpc, hd' ▸ htasks, ?_, ?_⟩ <;> rw [hdisk]
      · exact markerOk_put hhex
      · exact activeRelease_write hhex
    | rolledBack hpc hd' hdisk =>
      obtain ⟨hactive, hhex⟩ := h.rollback hk hpc
      refine .inl ⟨?_, ?_⟩ <;> rw [hdisk]
      · exact markerOk_put hhex
      · rw [activeRelease_write hhex, hactive]

theorem ActiveInv.step (hone : OneService cfg name) (h : ActiveInv cfg name w)
    (huntorn : Untorn w a) (hstep : Orchestrator.step cfg w a = some w') :
    ActiveInv cfg name w' := by
  have hcases := h.activeRelease_cases huntorn hstep
  refine ⟨h.gate.step hstep, known_step h.known hstep,
    ofService_step hone h.known h.ofService hstep,
    hcases.elim (fun hsame => hsame.1) fun ⟨_, _, _, _, _, _, _, hok, _⟩ => hok, ?_⟩
  refine deploys_step h.read (fun _ => nofun) ?_ ?_ hstep
  · -- the deploy that moves has not written a new release, or it has not read any more
    intro k d i op running d' hk hs ha hw' hread
    have hsame : activeRelease w'.shared.disk name = activeRelease w.shared.disk name := by
      rcases hcases with ⟨-, hsame⟩ | ⟨j, i', e, ha', hj, hpc, htasks, -, -⟩
      · exact hsame
      · cases ha.symm.trans ha'
        cases hk.symm.trans hj
        have htasks' : w.tasks.set k (.deploy d') =
            w.tasks.set k (.deploy { d with pc := .writePolicy }) := by
          rw [← htasks, hw']
          rfl
        have hlt := (List.getElem?_eq_some_iff.mp hk).1
        have hget := congrArg (·[k]?) htasks'
        simp only [List.getElem?_set_self hlt] at hget
        cases hget
        cases hread
    rw [hsame]
    rcases hs.hasRead_cases hread with ⟨hold, hprevious⟩ | ⟨hpc, hprevious⟩
    · rw [hprevious]
      exact h.read k d hk hold
    · rw [hprevious, h.ofService k d hk (by rw [hpc]; rfl)]
  · -- nobody else can write while this one has the name in the gate
    intro k d hk hprevious hother hread
    rcases hcases with ⟨-, hsame⟩ | ⟨j, i, e, rfl, hj, hpc, -, -, -⟩
    · rw [hsame]
      exact hprevious hread
    · have hjk := h.gate.eq_of_named h.known h.ofService hj hk (by rw [hpc]; rfl)
        (DeployPc.named_of_hasRead hread)
      subst hjk
      exact (hother i rfl).elim

variable {as : List Action}

theorem activeInv_of_run (hone : OneService cfg name)
    (hok : RunMeets (step cfg) Untorn World.init as)
    (hrun : run (step cfg) World.init as = some w) : ActiveInv cfg name w :=
  run_invariant_of_meets (fun _ _ _ h huntorn hstep => h.step hone huntorn hstep) hok hrun
    activeInv_init

/-! ### Compare and swap -/

/-- The step from `w` to `w'` is the write of the deploy `d`, and it replaces
exactly the value that the deploy expected. -/
structure Swaps (name : String) (w w' : World) (d : Deploy) : Prop where
  pc : d.pc = .writeActive
  replaced : activeRelease w.shared.disk name = d.previous
  expected : d.payload.expectedCurrentRelease = "any" ∨
    (d.payload.expectedCurrentRelease = "none" ∧ d.previous = none) ∨
    (d.payload.expectedCurrentRelease ≠ "none" ∧
      d.previous = some d.payload.expectedCurrentRelease)
  result : activeRelease w'.shared.disk name = some d.release

theorem expected_of_preconditions {payload : Command.DeployCommandPayload}
    {previous : Option String} (h : validateDeployPreconditions payload previous = .ok ()) :
    payload.expectedCurrentRelease = "any" ∨
      payload.expectedCurrentRelease = previous.getD "none" := by
  unfold validateDeployPreconditions at h
  split at h
  · cases h
  split at h
  · rename_i hany
    exact .inl hany
  dsimp only at h
  split at h
  · rename_i hexpected
    exact .inr hexpected
  · cases h

/-- A deploy at its write swaps. -/
theorem ActiveInv.swaps (h : ActiveInv cfg name w) (hk : w.tasks[k]? = some (.deploy d))
    (hpc : d.pc = .writeActive) (hresult : activeRelease w'.shared.disk name = some d.release) :
    Swaps name w w' d := by
  have hread := h.read k d hk (by rw [hpc]; rfl)
  refine ⟨hpc, hread, ?_, hresult⟩
  rcases expected_of_preconditions ((h.known k d hk).checked (by rw [hpc]; rfl)) with hany | hvalue
  · exact .inl hany
  · rcases hprevious : d.previous with - | r <;> rw [hprevious] at hvalue hread
    · exact .inr (.inl ⟨hvalue, rfl⟩)
    · -- a release is a digest, so it is not the word for no release
      have hhex := h.marker.isSha256Hex hread
      refine .inr (.inr ⟨?_, congrArg some hvalue.symm⟩)
      rw [show d.payload.expectedCurrentRelease = r from hvalue]
      exact isSha256Hex.ne hhex (by decide)

/-- The run `as` has a step in which the task at `k` swaps the release of `d` in. -/
def Swapped (cfg : Config) (name : String) (as : List Action) (k : Nat) (d : Deploy) : Prop :=
  ∃ bs i cs w₁ w₂ e, as = bs ++ .act k i :: cs ∧ run (step cfg) World.init bs = some w₁ ∧
    step cfg w₁ (.act k i) = some w₂ ∧ w₁.tasks[k]? = some (.deploy e) ∧
    e.payload = d.payload ∧ e.release = d.release ∧ Swaps name w₁ w₂ e

theorem Swapped.concat (h : Swapped cfg name as k d) (a : Action) :
    Swapped cfg name (as ++ [a]) k d := by
  obtain ⟨bs, i, cs, w₁, w₂, e, rfl, h⟩ := h
  exact ⟨bs, i, cs ++ [a], w₁, w₂, e, by rw [List.append_assoc, List.cons_append], h⟩

theorem Swapped.congr {d' : Deploy} (h : Swapped cfg name as k d)
    (hpayload : d'.payload = d.payload) (hrelease : d'.release = d.release) :
    Swapped cfg name as k d' := by
  obtain ⟨bs, i, cs, w₁, w₂, e, has, hrun, hstep, hk, he, he', hswaps⟩ := h
  exact ⟨bs, i, cs, w₁, w₂, e, has, hrun, hstep, hk, he.trans hpayload.symm,
    he'.trans hrelease.symm, hswaps⟩

/-- The deploy has written the marker. -/
def Deploy.HasWritten (d : Deploy) : Prop :=
  d.pc = .writePolicy ∨ ∃ summary, d.pc = .returned (.ok summary) ∧ summary.releaseHash = d.release

/-- A deploy that has written did so before, or does it in this step. -/
theorem Deploy.Steps.hasWritten_cases (hs : d.Steps cfg sh i op running d')
    (h : d'.pc = .writePolicy ∨ ∃ summary, d'.pc = .returned (.ok summary)) :
    d'.release = d.release ∧ d'.HasWritten ∧ (d.pc = .writeActive ∨ d.pc = .writePolicy) := by
  cases hs with
  | moves _ hnext =>
    cases Deploy.moves_of_next hnext with
    | writeActive hpc => exact ⟨rfl, .inl rfl, .inl hpc⟩
    | writePolicy hpc => exact ⟨rfl, .inr ⟨_, rfl, rfl⟩, .inr hpc⟩
    | _ => rcases h with h | ⟨s, h⟩ <;> cases h
  | swapFails | fails => rcases h with h | ⟨s, h⟩ <;> cases h

/-- The step that goes on from the write has written. -/
theorem Deploy.Steps.written (hs : d.Steps cfg sh i op running d') (hpc : d.pc = .writeActive)
    (hpc' : d'.pc = .writePolicy ∨ ∃ summary, d'.pc = .returned (.ok summary)) (n : Nat) :
    op.apply n sh.disk = sh.disk.put (activeFile d.name) (.file (.text d.release)) := by
  cases hs with
  | moves => simp only [Deploy.op, hpc, DiskOp.apply]
  | swapFails | fails => rcases hpc' with h | ⟨s, h⟩ <;> cases h

theorem swapped_of_run (hone : OneService cfg name) (hok : RunMeets (step cfg) Untorn World.init as)
    (hrun : run (step cfg) World.init as = some w) :
    ∀ k d, w.tasks[k]? = some (.deploy d) →
      (d.pc = .writePolicy ∨ ∃ summary, d.pc = .returned (.ok summary)) →
      d.HasWritten ∧ Swapped cfg name as k d := by
  revert hok
  refine run_history (Q := fun as w => RunMeets (step cfg) Untorn World.init as →
    ∀ k d, w.tasks[k]? = some (.deploy d) →
      (d.pc = .writePolicy ∨ ∃ summary, d.pc = .returned (.ok summary)) →
      d.HasWritten ∧ Swapped cfg name as k d) (fun _ k d hk => by cases hk) ?_ hrun
  intro as w a w' hrun ih hstep hconcat k d' hk hpc'
  obtain ⟨hok, -⟩ := (runMeets_concat hrun).mp hconcat
  rcases deploy_cases hstep hk with ⟨payload, rfl⟩ | ⟨d, i, op, running, hk, hs, rfl, hw'⟩ | ⟨hk, -⟩
  · rcases hpc' with h | ⟨s, h⟩ <;> cases h
  · obtain ⟨hrelease, hwritten, hpc | hpc⟩ := hs.hasWritten_cases hpc'
    · -- this is the write
      have hinv := activeInv_of_run hone hok hrun
      have hresult : activeRelease w'.shared.disk name = some d.release := by
        rw [hw']
        show activeRelease (op.apply w.shared.serial w.shared.disk) name = _
        rw [hs.written hpc hpc', hinv.ofService k d hk (by rw [hpc]; rfl)]
        exact activeRelease_write ((hinv.known k d hk).isSha256Hex_release (by rw [hpc]; rfl))
      exact ⟨hwritten, as, i, [], w, w', d, rfl, hrun, hstep, hk, hs.payload.symm, hrelease.symm,
        hinv.swaps hk hpc hresult⟩
    · obtain ⟨-, hswapped⟩ := ih hok k d hk (.inl hpc)
      exact ⟨hwritten, (hswapped.congr hs.payload hrelease).concat _⟩
  · obtain ⟨hwritten, hswapped⟩ := ih hok k d' hk hpc'
    exact ⟨hwritten, hswapped.concat _⟩

/-- **`expected_current_release` is a compare-and-swap on the active release.**
In every run of commands of one service in which no write is torn:

* while a deploy is between its read of the marker and its write, the marker
  names what the deploy has read;
* a step that changes the active release is the write of a deploy, which
  replaces the value that this deploy read and expected;
* a deploy that has succeeded has made such a write, of the release it reports. -/
theorem deploys_compare_and_swap (hone : OneService cfg name) {as : List Action}
    (hok : RunMeets (step cfg) Untorn World.init as)
    (hrun : run (step cfg) World.init as = some w) :
    (∀ (k : Nat) (d : Deploy), w.tasks[k]? = some (.deploy d) → d.pc.hasRead = true →
      activeRelease w.shared.disk name = d.previous) ∧
    (∀ a w', Untorn w a → step cfg w a = some w' →
      activeRelease w'.shared.disk name ≠ activeRelease w.shared.disk name →
      ∃ k i d, a = .act k i ∧ w.tasks[k]? = some (.deploy d) ∧ Swaps name w w' d) ∧
    ∀ (k : Nat) (d : Deploy) summary, w.tasks[k]? = some (.deploy d) →
      d.pc = .returned (.ok summary) →
      summary.releaseHash = d.release ∧ Swapped cfg name as k d := by
  have hinv := activeInv_of_run hone hok hrun
  refine ⟨hinv.read, fun a w' huntorn hstep hne => ?_, fun k d summary hk hpc => ?_⟩
  · rcases hinv.activeRelease_cases huntorn hstep with
      ⟨-, hsame⟩ | ⟨k, i, d, rfl, hk, hpc, -, -, hresult⟩
    · exact (hne hsame).elim
    · exact ⟨k, i, d, rfl, hk, hinv.swaps hk hpc hresult⟩
  · obtain ⟨hwritten, hswapped⟩ := swapped_of_run hone hok hrun k d hk (.inr ⟨summary, hpc⟩)
    refine ⟨?_, hswapped⟩
    rcases hwritten with h | ⟨s, h, hs⟩
    · rw [hpc] at h
      cases h
    · rw [hpc] at h
      cases h
      exact hs

/-! ### An instance -/

theorem oneService_sampleSessions : OneService (sampleConfig sampleSessions) "s" :=
  fun _ _ _ _ ha hdigest hparse => (sampleSessions_name ha hdigest hparse).1

theorem untorn_of_no_fault {a : Action} (h : ∀ k i, a = .act k i → i.fault = none) (w : World) :
    Untorn w a := by
  cases a with
  | act k i =>
    intro f hf
    rw [h k i rfl] at hf
    cases hf
  | submit | exit => trivial

/-- The first release is deployed where none is, the second in its place. -/
def swapActions : List Action :=
  [.submit (.deploy { samplePayload "one" with expectedCurrentRelease := "none" })] ++
    smoothly 0 19 ++
    [.submit (.deploy { samplePayload "two" with
      expectedCurrentRelease := sampleDigest (.text "a") })] ++ smoothly 1 19

theorem swapActions_untorn :
    RunMeets (step (sampleConfig sampleSessions)) Untorn World.init swapActions := by
  refine RunMeets.of_forall (fun a ha w => untorn_of_no_fault ?_ w) _
  intro k i hact
  subst hact
  simp only [swapActions, smoothly, List.mem_append, List.mem_cons, List.not_mem_nil, or_false,
    List.mem_replicate, reduceCtorEq, false_or, Action.act.injEq] at ha
  rcases ha with ⟨-, -, rfl⟩ | ⟨-, -, rfl⟩ <;> rfl

theorem swapActions_succeeds :
    ((run (step (sampleConfig sampleSessions)) World.init swapActions).bind (·.deployAt 1)).bind
      (fun d => match d.pc with
        | .returned (.ok summary) => some summary.releaseHash
        | _ => none) = some (sampleDigest (.text "b")) := by
  decide +kernel

/-- The second deploy has replaced the release that it expected. -/
theorem deploys_compare_and_swap_two : ∃ w d summary,
    run (step (sampleConfig sampleSessions)) World.init swapActions = some w ∧
    w.tasks[1]? = some (.deploy d) ∧ d.pc = .returned (.ok summary) ∧
    Swapped (sampleConfig sampleSessions) "s" swapActions 1 d := by
  obtain ⟨d, hd, h⟩ := Option.bind_eq_some_iff.mp swapActions_succeeds
  obtain ⟨w, hrun, hk⟩ := Option.bind_eq_some_iff.mp hd
  have hall := deploys_compare_and_swap oneService_sampleSessions swapActions_untorn hrun
  split at h
  · rename_i summary hpc
    exact ⟨w, d, summary, hrun, deployAt_eq_some hk, hpc,
      (hall.2.2 1 d summary (deployAt_eq_some hk) hpc).2⟩
  · cases h

end Imago.Orchestrator
