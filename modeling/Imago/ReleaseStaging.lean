/-
Imago/ReleaseStaging.lean

The staging directory of a deploy id, from the extraction to the promotion.

`Deploy.Staged` says what is in the directory at each point of a deploy: after
the extraction exactly what the archive unpacks to.  A deploy's own steps keep
it (`Deploy.Staged.steps`), and so does every step that does not touch the
directory.  Only deploys of the same id touch it (`sameId_of_touches`), so what
remains is to keep those apart.

The directory is named by the deploy id, the command gate by the service.  Two
deploys of one id start out under the same name, that of the upload session,
and stay apart as long as neither gives the name up.  When the manifest names
another service, `rebind_deploy_service_command_guard` does that between the
extraction and the promotion.
-/
import Imago.OrchestratorSteps
import Mathlib.Data.List.Forall2

namespace Imago.Orchestrator

open Imago.PathTree

variable {cfg : Config} {sh : Shared} {i : Input} {d d' : Deploy} {op : DiskOp}
  {running : Running} {w w' : World} {k : Nat} {deployId : String}

/-! ### Unpacking -/

theorem normalizeArchiveEntryPath_ne_nil {raw : String} {path : Path}
    (h : normalizeArchiveEntryPath raw = .ok path) : path ≠ [] := by
  unfold normalizeArchiveEntryPath at h
  split at h
  · cases h
  split at h
  · cases h
  split at h
  · cases h
  split at h
  · cases h
  · cases h
  · rename_i hne _
    cases h
    rintro rfl
    exact hne rfl

variable {entry : ArchiveEntry}

theorem TarEntry.path_ne_nil {e : TarEntry} (h : e.check = .ok entry) : entry.path ≠ [] := by
  unfold TarEntry.check at h
  split at h
  · cases h
  all_goals
    rcases hpath : normalizeArchiveEntryPath e.path with err | path <;> rw [hpath] at h <;> cases h
    exact normalizeArchiveEntryPath_ne_nil hpath

/-- Unpacking into a directory that is there is unpacking into its subtree. -/
theorem below_unpack {t : Disk} {p : Path} (h : (t p).isSome) :
    (unpack t p entry).below p = unpack (t.below p) [] entry := by
  rcases hc : entry.content with - | content <;> simp only [unpack, hc, List.nil_append]
  · exact below_fill_append h
  · rw [below_put_append, below_fill_append h]

theorem unpack_root {t : Disk} (h : entry.path ≠ []) : unpack t [] entry [] = t [] := by
  have hfill : ∀ q : Path, t.fill q (.dir 0) [] = t [] := fun q => if_neg fun hr => hr.2.1 rfl
  rcases hc : entry.content with - | content <;> simp only [unpack, hc, List.nil_append]
  · exact hfill _
  · rw [put_of_ne h.symm]
    exact hfill _

theorem extracted_concat (serial : Nat) (es : List ArchiveEntry) (entry : ArchiveEntry) :
    extracted serial (es ++ [entry]) = unpack (extracted serial es) [] entry := by
  rw [extracted, List.foldl_append]
  rfl

/-- The entries of an archive and what they were checked to. -/
abbrev Checked : List TarEntry → List ArchiveEntry → Prop :=
  List.Forall₂ fun e entry => e.check = .ok entry

theorem extracted_root {serial : Nat} {raws : List TarEntry} {es : List ArchiveEntry}
    (h : Checked raws es) : extracted serial es [] = some (.dir serial) := by
  have hpaths : ∀ entry ∈ es, entry.path ≠ [] := by
    induction h with
    | nil => exact nofun
    | cons hcheck _ ih => exact List.forall_mem_cons.mpr ⟨TarEntry.path_ne_nil hcheck, ih⟩
  clear h
  induction es using List.reverseRecOn with
  | nil => rfl
  | append_singleton es entry ih =>
    rw [extracted_concat, unpack_root (hpaths entry (by simp))]
    exact ih fun e he => hpaths e (by simp [he])

/-- The tree is what the whole archive unpacks to. -/
def Extraction (artifact : CommittedArtifact) (tree : Disk) : Prop :=
  ∃ serial es, Checked artifact.entries es ∧ tree = extracted serial es

/-! ### What is in the staging directory -/

/-- The deploy has made the directory its own and not yet promoted it. -/
def DeployPc.holdsStaging : DeployPc → Bool
  | .makeStaging _ | .extract _ | .readManifest | .readActive | .readPolicy | .makeRoot
  | .inspect | .promote | .toBackup | .swapIn _ => true
  | _ => false

/-- What is known of the staging directory of a deploy of `artifact`. -/
def StagedAs (artifact : CommittedArtifact) (tree : Disk) : DeployPc → Prop
  | .clean entries => entries = artifact.entries
  | .makeStaging entries => entries = artifact.entries ∧ tree = fun _ => none
  | .extract rest => ∃ done serial es, artifact.entries = done ++ rest ∧ Checked done es ∧
      tree = extracted serial es
  | .readManifest | .readActive | .readPolicy | .makeRoot | .inspect | .promote | .toBackup
  | .swapIn _ => Extraction artifact tree
  | _ => True

def Deploy.Staged (cfg : Config) (disk : Disk) (d : Deploy) : Prop :=
  ∀ artifact, cfg.committed d.payload.deployId = some artifact →
    StagedAs artifact (disk.below d.staging) d.pc

/-- A path of the storage outside `staging` is apart from the directory. -/
theorem not_touches_staging {x : String} (hx : x ≠ "staging") (q r : Path) :
    ¬ x :: q <+: stagingDir deployId ++ r ∧ ¬ stagingDir deployId ++ r <+: x :: q := by
  refine ⟨fun h => hx ?_, fun h => hx ?_⟩
  · exact (List.cons_prefix_cons.mp h).1
  · exact (List.cons_prefix_cons.mp h).1.symm

/-- Work under the root of a service does not touch the directory. -/
theorem not_touches_of_service {name : String} (q r : Path) :
    ¬ serviceRoot name ++ q <+: stagingDir deployId ++ r ∧
      ¬ stagingDir deployId ++ r <+: serviceRoot name ++ q := by
  obtain ⟨q', hq'⟩ := serviceRoot_append name q
  rw [hq']
  exact not_touches_staging (by decide) q' r

theorem sameId_of_meets {deployId' : String} {q r : Path}
    (h : stagingDir deployId ++ r <+: stagingDir deployId' ++ q ∨
      stagingDir deployId' ++ q <+: stagingDir deployId ++ r) : deployId' = deployId := by
  rcases h with h | h <;>
    have h := (List.cons_prefix_cons.mp (List.cons_prefix_cons.mp h).2).1
  · exact h.symm
  · exact h

theorem not_touches_cache {components : List (String × Content)} (r : Path) :
    ¬ (DiskOp.cache components).Touches (stagingDir deployId ++ r) := by
  have h := @not_touches_staging deployId "plugins" (by decide) ["components"] r
  rintro (hq | hq)
  · exact h.2 hq
  · exact h.1 hq

theorem not_touches_writeRestartPolicy {name policy : String} (r : Path) :
    ¬ (Deploy.writeRestartPolicy name policy).Touches (stagingDir deployId ++ r) := by
  unfold Deploy.writeRestartPolicy
  split
  · intro h
    exact (@not_touches_of_service deployId name ["restart_policy"] r).2 (h ▸ List.prefix_refl _)
  · exact id

/-- The deploy is at a call that works on its staging directory. -/
def DeployPc.usesStaging : DeployPc → Bool
  | .clean _ | .makeStaging _ | .extract _ | .promote | .swapIn _ => true
  | _ => false

variable {disk : Disk}

/-- Only a deploy of the id touches the id's staging directory, and only at
some of its calls. -/
theorem Deploy.sameId_of_touches (hknown : d.Known cfg) {r : Path}
    (h : (d.op disk i).Touches (stagingDir deployId ++ r)) :
    d.payload.deployId = deployId ∧ d.pc.usesStaging = true := by
  have hservice := fun name q => @not_touches_of_service deployId name q r
  have hbackup : ∀ b, d.pc.backup = some b → ¬ b <+: stagingDir deployId ++ r := by
    intro b hb
    obtain ⟨uuid, rfl⟩ := hknown.backup b hb
    exact (hservice d.name _).1
  cases hpc : d.pc <;> simp only [hpc] at hbackup <;> simp only [op, hpc] at h
  case clean => exact ⟨@sameId_of_meets deployId _ [] r (.inr h), rfl⟩
  case makeStaging => exact ⟨@sameId_of_meets deployId _ [] r (.inl h), rfl⟩
  case extract rest =>
    rcases rest with - | ⟨e, rest⟩
    · exact h.elim
    · rcases hcheck : e.check with err | entry <;> simp only [hcheck] at h
      · exact h.elim
      · exact ⟨sameId_of_meets (.inl h), rfl⟩
  case makeRoot =>
    have hroot := (hservice d.name []).2
    rw [List.append_nil] at hroot
    exact (hroot h).elim
  case promote | swapIn =>
    rcases h with h | h
    · exact ⟨@sameId_of_meets deployId _ [] r (.inr h), rfl⟩
    · exact ((hservice d.name _).1 h).elim
  case toBackup => exact (h.elim (hservice d.name _).1 (hservice d.name _).1).elim
  case restoreBackup => exact (h.elim (hbackup _ rfl) (hservice d.name _).1).elim
  case dropBackup => exact (hbackup _ rfl h).elim
  case cleanup =>
    rcases hentry : i.entry with - | entry <;> simp only [hentry] at h
    · exact h.elim
    · split at h
      · exact ((hservice d.name _).1 h).elim
      · exact h.elim
  case build | rollbackLoad => exact (not_touches_cache r h).elim
  case rollbackActive | writeActive =>
    exact ((hservice d.name ["active_release"]).2 (h ▸ List.prefix_refl _)).elim
  case rollbackPolicy =>
    rcases hpolicy : d.previousPolicy with - | policy <;> simp only [hpolicy] at h
    · exact ((hservice d.name ["restart_policy"]).1 h).elim
    · exact (not_touches_writeRestartPolicy r h).elim
  case writePolicy => exact (not_touches_writeRestartPolicy r h).elim
  all_goals exact h.elim

/-- A step of another task leaves the directory of an id alone, unless it is a
deploy of that id at one of these calls. -/
theorem Deploy.Steps.below_staging (h : d.Steps cfg sh i op running d') (hknown : d.Known cfg)
    (hother : d.payload.deployId = deployId → d.pc.usesStaging = false) (n : Nat) :
    (op.apply n sh.disk).below (stagingDir deployId) = sh.disk.below (stagingDir deployId) := by
  refine DiskOp.below_apply_of_not_touches (fun r hr => ?_) n sh.disk
  obtain ⟨hid, huses⟩ := Deploy.sameId_of_touches hknown (h.touches hr)
  rw [hother hid] at huses
  cases huses

theorem ServiceCall.Steps.below_staging {c c' : ServiceCall} (h : c.Steps sh op running c')
    (n : Nat) :
    (op.apply n sh.disk).below (stagingDir deployId) = sh.disk.below (stagingDir deployId) := by
  refine DiskOp.below_apply_of_not_touches (fun r hr => ?_) n sh.disk
  rcases h.op with rfl | ⟨components, rfl⟩
  · exact hr
  · exact not_touches_cache r hr

/-! ### A deploy's own steps -/

variable {pc : DeployPc}

theorem StagedAs.of_not_holding {artifact : CommittedArtifact} {tree : Disk}
    (hclean : ∀ entries, pc ≠ .clean entries) (h : pc.holdsStaging = false) :
    StagedAs artifact tree pc := by
  cases pc with
  | clean entries => exact (hclean entries rfl).elim
  | makeStaging | extract | readManifest | readActive | readPolicy | makeRoot | inspect | promote
  | toBackup | swapIn => cases h
  | _ => trivial

theorem Deploy.Staged.of_returned {result : Except ImagodError Command.Summary}
    (h : d.pc = .returned result) : d.Staged cfg disk := by
  intro artifact _
  rw [h]
  trivial

theorem below_makeStaging {t : Disk} {p : Path} {serial : Nat} (hp : p ≠ [])
    (h : t.below p = fun _ => none) : (t.fill p (.dir serial)).below p = emptyDir serial := by
  funext r
  have hr : t (p ++ r) = none := congrFun h r
  rcases r with - | ⟨x, r⟩
  · rw [List.append_nil] at hr
    rw [below_nil_apply, fill_self hp, hr]
    rfl
  · rw [below_apply, fill_of_not_prefix, hr]
    · rfl
    · intro hprefix
      have hlen := hprefix.length_le
      rw [List.length_append, List.length_cons] at hlen
      omega

/-- A step between two points at which the directory holds the extraction. -/
theorem Deploy.Staged.goto (h : d.Staged cfg sh.disk) (hknown : d.Known cfg) {e : Deploy}
    (hid : e.payload = d.payload) (huses : d.pc.usesStaging = false)
    (hpc : ∀ artifact tree, StagedAs artifact tree d.pc → StagedAs artifact tree e.pc) (n : Nat) :
    e.Staged cfg ((d.op sh.disk i).apply n sh.disk) := by
  intro artifact ha
  have hbelow : ((d.op sh.disk i).apply n sh.disk).below d.staging = sh.disk.below d.staging := by
    refine DiskOp.below_apply_of_not_touches (fun r hr => ?_) n sh.disk
    rw [(Deploy.sameId_of_touches hknown hr).2] at huses
    cases huses
  have hstaging : e.staging = d.staging := by rw [Deploy.staging, hid, Deploy.staging]
  rw [hstaging, hbelow]
  exact hpc artifact _ (h artifact (by rw [← hid]; exact ha))

theorem Deploy.Staged.moves (h : d.Staged cfg sh.disk) (hknown : d.Known cfg)
    (hm : d.Moves cfg sh i running d') (n : Nat) :
    d'.Staged cfg ((d.op sh.disk i).apply n sh.disk) := by
  cases hm with
  | fail | rolledBack | writePolicy => exact .of_returned rfl
  | fetch hpc ha =>
    intro artifact ha'
    show _ = artifact.entries
    cases ha.symm.trans ha'
    rfl
  | clean hpc =>
    intro artifact ha
    have hentries := h artifact ha
    rw [hpc] at hentries
    refine ⟨hentries, ?_⟩
    show ((d.op sh.disk i).apply n sh.disk).below d.staging = _
    simp only [Deploy.op, hpc, DiskOp.apply, PathTree.remove, below_graft_self]
  | makeStaging hpc =>
    intro artifact ha
    have hstaged := h artifact ha
    rw [hpc] at hstaged
    obtain ⟨rfl, hempty⟩ := hstaged
    refine ⟨[], n, [], rfl, .nil, ?_⟩
    show ((d.op sh.disk i).apply n sh.disk).below d.staging = _
    simp only [Deploy.op, hpc, DiskOp.apply]
    exact below_makeStaging (by simp [Deploy.staging, stagingDir]) hempty
  | extract hpc hcheck =>
    intro artifact ha
    have hstaged := h artifact ha
    rw [hpc] at hstaged
    obtain ⟨done, serial, es, hentries, hchecked, htree⟩ := hstaged
    -- the entry is unpacked into the tree that the earlier ones have given
    have hroot : (sh.disk d.staging).isSome := by
      have hnode : sh.disk.below d.staging [] = some (.dir serial) := by
        rw [htree, extracted_root hchecked]
      rw [below_nil_apply] at hnode
      rw [hnode]
      rfl
    refine ⟨done ++ [_], serial, es ++ [_], by rw [hentries, List.append_assoc]; rfl,
      List.rel_append hchecked (.cons hcheck .nil), ?_⟩
    show ((d.op sh.disk i).apply n sh.disk).below d.staging = _
    simp only [Deploy.op, hpc, hcheck, DiskOp.apply]
    rw [below_unpack hroot, htree, extracted_concat]
  | extracted hpc =>
    intro artifact ha
    have hstaged := h artifact ha
    rw [hpc] at hstaged
    obtain ⟨done, serial, es, hentries, hchecked, htree⟩ := hstaged
    rw [List.append_nil] at hentries
    refine ⟨serial, es, hentries ▸ hchecked, ?_⟩
    show ((d.op sh.disk i).apply n sh.disk).below d.staging = _
    simp only [Deploy.op, hpc, DiskOp.apply]
    exact htree
  | sameName hpc | otherName hpc | readActive hpc | readPolicy hpc | makeRoot hpc | missing hpc
  | present hpc | toBackup hpc =>
    apply h.goto hknown
    · rfl
    · rw [hpc]
      rfl
    · rw [hpc]
      exact fun _ _ hstaged => hstaged
  | _ => exact fun _ _ => trivial

theorem Deploy.Staged.steps (h : d.Staged cfg sh.disk) (hknown : d.Known cfg)
    (hs : d.Steps cfg sh i op running d') (n : Nat) : d'.Staged cfg (op.apply n sh.disk) := by
  cases hs with
  | moves _ hm => exact h.moves hknown (Deploy.moves_of_next hm) n
  | swapFails => exact fun _ _ => trivial
  | fails => exact .of_returned rfl

theorem Deploy.Staged.frame {disk' : Disk} (h : d.Staged cfg disk)
    (hsame : d.pc.holdsStaging = true → disk'.below d.staging = disk.below d.staging) :
    d.Staged cfg disk' := by
  intro artifact ha
  have hstaged := h artifact ha
  rcases hheld : d.pc.holdsStaging
  · by_cases hclean : ∃ entries, d.pc = .clean entries
    · obtain ⟨entries, hpc⟩ := hclean
      rw [hpc] at hstaged ⊢
      exact hstaged
    · exact .of_not_holding (fun entries hpc => hclean ⟨entries, hpc⟩) hheld
  · rwa [hsame hheld]

/-! ### Deploys that stay apart -/

/-- While one deploy of the id holds the staging directory, no other is at a
call that works on it. -/
def StagingApart (deployId : String) (w : World) : Prop :=
  ∀ (j k : Nat) (d e : Deploy), w.tasks[j]? = some (.deploy d) → w.tasks[k]? = some (.deploy e) →
    d.payload.deployId = deployId → e.payload.deployId = deployId →
    d.pc.holdsStaging = true → e.pc.usesStaging = true → j = k

/-- What is known of the staging directories of a world. -/
def StagedInv (cfg : Config) (deployId : String) (w : World) : Prop :=
  w.Deploys fun d => d.payload.deployId = deployId → d.Staged cfg w.shared.disk

variable {a : Action}

/-- The step of another task leaves the directory alone. -/
theorem StagingApart.below_staging (hapart : StagingApart deployId w)
    (hknown : w.Deploys (Deploy.Known cfg)) (hk : w.tasks[k]? = some (.deploy d))
    (hid : d.payload.deployId = deployId) (hheld : d.pc.holdsStaging = true) {j : Nat}
    (hjk : j ≠ k) (hstep : step cfg w (.act j i) = some w') :
    w'.shared.disk.below (stagingDir deployId) = w.shared.disk.below (stagingDir deployId) := by
  cases steps_of_step hstep with
  | deploy hj hd =>
    refine hd.below_staging (hknown _ _ hj) (fun hid' => ?_) _
    by_contra huses
    exact hjk (hapart k j d _ hk hj hid hid' hheld (Bool.not_eq_false _ ▸ huses)).symm
  | call hj hc => exact hc.below_staging _

theorem stagedInv_step (hapart : StagingApart deployId w) (hknown : w.Deploys (Deploy.Known cfg))
    (h : StagedInv cfg deployId w) (hstep : step cfg w a = some w') :
    StagedInv cfg deployId w' := by
  intro k d hk hid
  cases a with
  | submit command =>
    cases hstep
    rcases getElem?_concat_cases hk with hk | ⟨-, hd⟩
    · exact h k d hk hid
    · cases command <;> cases hd
      exact fun _ _ => trivial
  | exit name =>
    cases hstep
    exact h k d hk hid
  | act j i =>
    by_cases hjk : j = k
    · subst hjk
      cases steps_of_step hstep with
      | deploy hj hd =>
        rcases getElem?_set_cases hk with ⟨-, heq⟩ | ⟨hne, -⟩
        · cases heq
          refine (h j _ hj ?_).steps (hknown _ _ hj) hd _
          rw [← hd.payload]
          exact hid
        · exact (hne rfl).elim
      | call hj hc =>
        rcases getElem?_set_cases hk with ⟨-, heq⟩ | ⟨hne, -⟩
        · cases heq
        · exact (hne rfl).elim
    · have hk' : w.tasks[k]? = some (.deploy d) := by
        cases steps_of_step hstep with
        | deploy hj hd | call hj hc =>
          exact ((getElem?_set_cases hk).resolve_left fun h => hjk h.1.symm).2
      refine (h k d hk' hid).frame fun hheld => ?_
      rw [Deploy.staging, hid]
      exact hapart.below_staging hknown hk' hid hheld hjk hstep

/-! ### One name from the extraction to the promotion -/

/-- The manifest that the artifact was committed with names the service that
its upload session was opened for. -/
def NamesAgree (cfg : Config) (deployId : String) : Prop :=
  ∀ artifact bytes m, cfg.committed deployId = some artifact →
    cfg.sha256 bytes = artifact.manifestDigest → cfg.parseManifest bytes = .ok m →
    m.name = artifact.serviceName

/-- The deploys of the id have the session's name for their service. -/
def SessionKept (deployId : String) (w : World) : Prop :=
  w.Deploys fun d => d.payload.deployId = deployId → d.pc.named = true → d.name = d.sessionName

theorem Deploy.Steps.sessionKept (hs : d.Steps cfg sh i op running d') (hknown : d.Known cfg)
    (hagree : NamesAgree cfg d.payload.deployId)
    (h : d.pc.named = true → d.name = d.sessionName) (hnamed : d'.pc.named = true) :
    d'.name = d'.sessionName := by
  obtain ⟨hsession, ⟨hold, hname⟩ | ⟨hpc, m, hm, hname⟩⟩ := hs.name_cases hnamed
  · rw [hname, hsession, h hold]
  · obtain ⟨bytes, hparse, -, hdigest⟩ := stagedManifest_eq_ok hm
    obtain ⟨artifact, ha, hservice, hfetched⟩ := hknown.session (.inl (by rw [hpc]; rfl))
    rw [(hfetched (by rw [hpc]; rfl)).2] at hdigest
    rw [hname, hsession, hservice]
    exact hagree artifact bytes m ha hdigest hparse

theorem sessionKept_step (hagree : NamesAgree cfg deployId) (hknown : w.Deploys (Deploy.Known cfg))
    (h : SessionKept deployId w) (hstep : step cfg w a = some w') : SessionKept deployId w' := by
  refine deploys_step h (fun _ _ => nofun) ?_ (fun _ _ _ h _ => h) hstep
  intro k d i op running d' hk hs _ _ hid hnamed
  have hid' := hs.payload ▸ hid
  exact hs.sessionKept (hknown k d hk) (hid' ▸ hagree) (h k d hk hid') hnamed

theorem DeployPc.active_of_holdsStaging (h : pc.holdsStaging = true) :
    pc.early = true ∨ pc.named = true := by
  cases pc <;> first | exact .inl rfl | exact .inr rfl | cases h

theorem DeployPc.active_of_usesStaging (h : pc.usesStaging = true) :
    pc.early = true ∨ pc.named = true := by
  cases pc <;> first | exact .inl rfl | exact .inr rfl | cases h

/-- A deploy of the id has the session's name in the gate all the time. -/
theorem Deploy.Known.guard_eq (hknown : d.Known cfg)
    (hkept : d.pc.named = true → d.name = d.sessionName)
    (hactive : d.pc.early = true ∨ d.pc.named = true) : d.guard = some d.sessionName := by
  rcases hactive with hearly | hnamed
  · exact hknown.early hearly
  · rw [(hknown.named hnamed).1, hkept hnamed]

theorem stagingApart_of_kept (hgate : GateInv w) (hknown : w.Deploys (Deploy.Known cfg))
    (hkept : SessionKept deployId w) : StagingApart deployId w := by
  intro j k d e hj hk hd he hheld huses
  have hdactive := DeployPc.active_of_holdsStaging hheld
  have heactive := DeployPc.active_of_usesStaging huses
  have hfetched : ∀ pc : DeployPc, pc.early = true ∨ pc.named = true →
      pc.early = true ∨ pc.fetched = true := by
    intro pc hpc
    cases pc <;> first | exact .inr rfl | exact .inl rfl | exact hpc
  -- both sessions are that of the id, so the two have the same name in the gate
  obtain ⟨a₁, ha₁, hs₁, -⟩ := (hknown j d hj).session (hfetched _ hdactive)
  obtain ⟨a₂, ha₂, hs₂, -⟩ := (hknown k e hk).session (hfetched _ heactive)
  have hsame : d.sessionName = e.sessionName := by
    rw [hd] at ha₁
    rw [he] at ha₂
    cases ha₁.symm.trans ha₂
    rw [hs₁, hs₂]
  have hgd := (hknown j d hj).guard_eq (hkept j d hj hd) hdactive
  have hge := (hknown k e hk).guard_eq (hkept k e hk he) heactive
  exact hgate.exclusive hj hk (hgd.trans (congrArg some hsame)) hge

/-- Everything that is known about the staging directory of an id whose names
agree. -/
structure StagingInv (cfg : Config) (deployId : String) (w : World) : Prop where
  gate : GateInv w
  known : w.Deploys (Deploy.Known cfg)
  kept : SessionKept deployId w
  staged : StagedInv cfg deployId w

theorem StagingInv.apart (h : StagingInv cfg deployId w) : StagingApart deployId w :=
  stagingApart_of_kept h.gate h.known h.kept

theorem stagingInv_of_run (hagree : NamesAgree cfg deployId) {as : List Action}
    (hrun : run (step cfg) World.init as = some w) : StagingInv cfg deployId w := by
  refine run_invariant (fun w a w' h hstep => ?_) hrun
    ⟨gateInv_init, deploys_init _, deploys_init _, deploys_init _⟩
  exact ⟨h.gate.step hstep, known_step h.known hstep, sessionKept_step hagree h.known h.kept hstep,
    stagedInv_step h.apart h.known h.staged hstep⟩

/-- The deploy has promoted its staging directory in this step. -/
def Promotes (d d' : Deploy) : Prop :=
  (d.pc = .promote ∧ d'.pc = .listReleases) ∨
    ∃ backup, d.pc = .swapIn backup ∧ d'.pc = .dropBackup backup

/-- A promotion moves what was staged to the path of the release. -/
theorem Deploy.Steps.promoted (h : d.Steps cfg sh i op running d') (hp : Promotes d d') (n : Nat) :
    (op.apply n sh.disk).below d.releaseDir = sh.disk.below d.staging := by
  have hop : op = .rename d.staging d.releaseDir := by
    cases h with
    | moves =>
      rcases hp with ⟨hpc, -⟩ | ⟨backup, hpc, -⟩ <;> simp only [Deploy.op, hpc]
    | swapFails hpc | fails =>
      rcases hp with ⟨-, hpc'⟩ | ⟨backup, -, hpc'⟩ <;> cases hpc'
  rw [hop]
  exact below_move_self

/-- **Deploys of one id do not meet in the staging directory when the manifest
names the session's service.**  While one of them holds the directory no other
task changes anything in it, and what it promotes is a complete extraction of
the artifact. -/
theorem staging_exclusive {as : List Action} (hagree : NamesAgree cfg deployId)
    (hrun : run (step cfg) World.init as = some w) (hk : w.tasks[k]? = some (.deploy d))
    (hid : d.payload.deployId = deployId) :
    (d.pc.holdsStaging = true → ∀ j i w', j ≠ k → step cfg w (.act j i) = some w' →
      w'.shared.disk.below (stagingDir deployId) = w.shared.disk.below (stagingDir deployId)) ∧
    ∀ i w' d' artifact, cfg.committed deployId = some artifact →
      step cfg w (.act k i) = some w' → w'.tasks[k]? = some (.deploy d') → Promotes d d' →
      Extraction artifact (w'.shared.disk.below d.releaseDir) := by
  have hinv := stagingInv_of_run hagree hrun
  refine ⟨fun hheld j i w' hjk hstep => ?_, fun i w' d' artifact ha hstep hk' hp => ?_⟩
  · exact hinv.apart.below_staging hinv.known hk hid hheld hjk hstep
  · have hstaged := hinv.staged k d hk hid artifact (by rw [hid]; exact ha)
    cases steps_of_step hstep with
    | deploy hj hd =>
      cases hk.symm.trans hj
      rcases getElem?_set_cases hk' with ⟨-, heq⟩ | ⟨hne, -⟩
      · cases heq
        show Extraction artifact ((DiskOp.apply _ _ _).below d.releaseDir)
        rw [hd.promoted hp]
        rcases hp with ⟨hpc, -⟩ | ⟨backup, hpc, -⟩ <;> rw [hpc] at hstaged <;> exact hstaged
      · exact (hne rfl).elim
    | call hj _ => cases hk.symm.trans hj

/-! ### Instances -/

theorem namesAgree_sampleSessions (deployId : String) :
    NamesAgree (sampleConfig sampleSessions) deployId := by
  intro artifact bytes m ha hdigest hparse
  obtain ⟨hm, hartifact⟩ := sampleSessions_name ha hdigest hparse
  rw [hm, hartifact]

/-- Two deploys of the id; the first one has read its manifest. -/
def twoDeploys : List Action :=
  [.submit (.deploy (samplePayload "one")), .submit (.deploy (samplePayload "one"))] ++ smoothly 0 7

theorem twoDeploys_holds :
    ((run (step (sampleConfig sampleSessions)) World.init twoDeploys).bind (·.deployAt 0)).map
      (fun d => (d.payload.deployId, d.pc.holdsStaging)) = some ("one", true) := by
  decide +kernel

/-- The first deploy holds the directory, and the second cannot change it. -/
theorem staging_exclusive_two : ∃ w d,
    run (step (sampleConfig sampleSessions)) World.init twoDeploys = some w ∧
    w.tasks[0]? = some (.deploy d) ∧
    ∀ i w', step (sampleConfig sampleSessions) w (.act 1 i) = some w' →
      w'.shared.disk.below (stagingDir "one") = w.shared.disk.below (stagingDir "one") := by
  obtain ⟨d, hd, h⟩ := Option.map_eq_some_iff.mp twoDeploys_holds
  obtain ⟨w, hrun, hk⟩ := Option.bind_eq_some_iff.mp hd
  simp only [Prod.mk.injEq] at h
  have hk := deployAt_eq_some hk
  have hexcl := staging_exclusive (namesAgree_sampleSessions "one") hrun hk h.1
  exact ⟨w, d, hrun, hk, fun i w' => hexcl.1 h.2 1 i w' (by decide)⟩

/-- One session of the service `t`, whose manifest has the name `s`. -/
def otherSession (deployId : String) : Option CommittedArtifact :=
  if deployId = "one" then some (sampleArtifact "t" "a" "s") else none

/-- The second deploy looks its session up, cleans the directory and makes it
again; then the first one goes on and promotes it. -/
def cleanedUnderneath : List Action := twoDeploys ++ smoothly 1 4 ++ smoothly 0 5

/-- The manifest in the staging directory when the first deploy has read it,
and in the release that it promotes. -/
def underneath : Option (Bool × Bool × Bool) :=
  (run (step (sampleConfig otherSession)) World.init twoDeploys).bind fun w =>
    (run (step (sampleConfig otherSession)) World.init cleanedUnderneath).bind fun w' =>
      (w'.deployAt 0).map fun d =>
        ((w.shared.disk (stagingDir "one" ++ ["manifest.json"])).isSome,
          isDir w'.shared.disk d.releaseDir,
          (w'.shared.disk (d.releaseDir ++ ["manifest.json"])).isSome)

theorem underneath_eq : underneath = some (true, true, false) := by
  decide +kernel

/-- **A release without files is promoted.**  The session is of service `t`, the
manifest names `s`: after the first deploy has read its manifest and changed
over to the name `s`, a second deploy of the same id gets the name `t`, cleans
the staging directory and makes it again; the first one promotes it empty. -/
theorem empty_release_promoted : ∃ w w' d,
    run (step (sampleConfig otherSession)) World.init twoDeploys = some w ∧
    w.shared.disk (stagingDir "one" ++ ["manifest.json"]) ≠ none ∧
    run (step (sampleConfig otherSession)) World.init cleanedUnderneath = some w' ∧
    w'.tasks[0]? = some (.deploy d) ∧ isDir w'.shared.disk d.releaseDir = true ∧
    w'.shared.disk (d.releaseDir ++ ["manifest.json"]) = none := by
  obtain ⟨w, hrun, h⟩ := Option.bind_eq_some_iff.mp underneath_eq
  obtain ⟨w', hrun', h⟩ := Option.bind_eq_some_iff.mp h
  obtain ⟨d, hd, h⟩ := Option.map_eq_some_iff.mp h
  simp only [Prod.mk.injEq] at h
  obtain ⟨hbefore, hdir, hafter⟩ := h
  refine ⟨w, w', d, hrun, Option.isSome_iff_ne_none.mp hbefore, hrun', deployAt_eq_some hd, hdir,
    ?_⟩
  rwa [Option.isSome_eq_false_iff, Option.isNone_iff_eq_none] at hafter

end Imago.Orchestrator
