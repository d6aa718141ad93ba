/-
Imago/DeployFailure.lean

What a deploy that returns an error has changed.

`deploy` replaces the runner first and writes `active_release` and
`restart_policy` after that, one after the other and each in place.  When the
runner cannot be replaced, `rollback_previous_release` writes the old values
back and starts the release that was active before.

The two files are compared by what is read from them (`SameMarks`), which is
what a restart of the daemon goes by.  They are read as before all the way to
the last step of a deploy (`Intact`), with one exception: between its two writes
the new release is already active.  So an error that comes from anywhere but the
four writes of the two files changes neither of them, and `FailsClean` says when
an error of one of these writes does not.  The write of the policy is the
exception: when it fails the new release stays active
(`failed_deploy_activates`).
-/
import Imago.ActiveRelease

namespace Imago.Orchestrator

open Imago.PathTree

variable {cfg : Config} {sh : Shared} {i : Input} {d d' : Deploy} {op : DiskOp}
  {running : Running} {w w' : World} {a : Action} {name text : String} {disk disk' before : Disk}

/-! ### What is read back -/

/-- The two files are read on `disk'` as they are on `disk`. -/
structure SameMarks (cfg : Config) (name : String) (disk disk' : Disk) : Prop where
  active : ∀ text, readActiveRelease disk' name text = readActiveRelease disk name text
  policy : ∀ text, readRestartPolicy cfg disk' name text = readRestartPolicy cfg disk name text

/-- The policy that the policy file holds. -/
def restartPolicy (disk : Disk) (name : String) : Option String :=
  match disk (restartPolicyFile name) with
  | some (.file (.text s)) => some (trim s)
  | _ => none

variable {p : Path} {value : Option String}

/-- What the file at `p` says, up to the blanks around it. -/
inductive Holds (disk : Disk) (p : Path) : Option String → Prop
  | nothing (h : disk p = none) : Holds disk p none
  | text {s : String} (h : disk p = some (.file (.text s))) : Holds disk p (some (trim s))

theorem Holds.not_isDir (h : Holds disk p value) : isDir disk p = false := by
  rcases h with h | h <;> simp [isDir, h]

/-- A value that was read is trimmed, so it is read again when it is written. -/
theorem Holds.trim_eq {r : String} (h : Holds disk p (some r)) : trim r = r := by
  cases h
  exact trim_trim _

theorem holds_put {s : String} :
    Holds (disk.put p (.file (.text s))) p value ↔ value = some (trim s) := by
  constructor
  · rintro (h | h) <;> rw [put_self] at h <;> cases h
    rfl
  · rintro rfl
    exact .text put_self

theorem readActiveRelease_eq_ok_iff :
    readActiveRelease disk name text = .ok value ↔ Holds disk (activeFile name) value := by
  constructor
  · intro h
    unfold readActiveRelease at h
    split at h <;> cases h
    · exact .nothing ‹_›
    · exact .text ‹_›
  · rintro (h | h) <;> rw [readActiveRelease, h]

theorem readRestartPolicy_eq_ok_iff :
    readRestartPolicy cfg disk name text = .ok value ↔
      Holds disk (restartPolicyFile name) value ∧
        ∀ policy ∈ value, isSupportedRestartPolicy policy = true := by
  constructor
  · intro h
    unfold readRestartPolicy at h
    split at h
    · cases h
      exact ⟨.nothing ‹_›, nofun⟩
    · split at h <;> cases h
      rename_i hfile hsupported
      refine ⟨.text hfile, ?_⟩
      rintro _ ⟨⟩
      exact hsupported
    · cases h
  · rintro ⟨h | h, hsupported⟩ <;> rw [readRestartPolicy, h]
    exact if_pos (hsupported _ rfl)

theorem readRestartPolicy_eq_ok (h : readRestartPolicy cfg disk name text = .ok value) :
    value = restartPolicy disk name := by
  obtain ⟨hfile | hfile, -⟩ := readRestartPolicy_eq_ok_iff.mp h <;> rw [restartPolicy, hfile]

theorem readActiveRelease_congr (h : disk' (activeFile name) = disk (activeFile name))
    (text : String) : readActiveRelease disk' name text = readActiveRelease disk name text := by
  rw [readActiveRelease, h, readActiveRelease]

theorem readRestartPolicy_congr (h : disk' (restartPolicyFile name) = disk (restartPolicyFile name))
    (text : String) :
    readRestartPolicy cfg disk' name text = readRestartPolicy cfg disk name text := by
  rw [readRestartPolicy, h, readRestartPolicy]

theorem readActiveRelease_put (s : String) :
    readActiveRelease (disk.put (activeFile name) (.file (.text s))) name text
      = .ok (some (trim s)) :=
  readActiveRelease_eq_ok_iff.mpr (holds_put.mpr rfl)

theorem readActiveRelease_of_active {r : String} (h : activeRelease disk name = some r) :
    readActiveRelease disk name text = .ok (some r) := by
  unfold activeRelease at h
  split at h
  · rename_i hfile
    cases h
    rw [readActiveRelease, hfile]
  · cases h

/-! ### On the way -/

namespace DeployPc

/-- The next call is none of the four that write one of the two files. -/
def quiet : DeployPc → Bool
  | .writeActive | .rollbackActive _ _ | .writePolicy | .rollbackPolicy _ _ => false
  | _ => true

theorem mark_cases (pc : DeployPc) :
    pc = .writeActive ∨ (∃ e previous, pc = .rollbackActive e previous) ∨
      (∃ e previous, pc = .rollbackPolicy e previous) ∨ pc = .writePolicy ∨ pc.quiet = true := by
  cases pc with
  | writeActive => exact .inl rfl
  | rollbackActive e previous => exact .inr (.inl ⟨e, previous, rfl⟩)
  | rollbackPolicy e previous => exact .inr (.inr (.inl ⟨e, previous, rfl⟩))
  | writePolicy => exact .inr (.inr (.inr (.inl rfl)))
  | _ => exact .inr (.inr (.inr (.inr rfl)))

end DeployPc

/-- What a deploy that has not returned knows of the two files and what it has
made of them; `before` is the tree at its beginning. -/
structure Intact (cfg : Config) (name : String) (before disk : Disk) (d : Deploy) : Prop where
  active : d.pc ≠ .writePolicy → ∀ text,
    readActiveRelease disk name text = readActiveRelease before name text
  written : d.pc = .writePolicy → ∀ text, readActiveRelease disk name text = .ok (some d.release)
  policy : ∀ text, readRestartPolicy cfg disk name text = readRestartPolicy cfg before name text
  previous : d.pc.hasRead = true ∨ d.pc = .writePolicy → ∀ text,
    readActiveRelease before name text = .ok d.previous
  previousPolicy : d.pc.checked = true → ∀ text,
    readRestartPolicy cfg before name text = .ok d.previousPolicy

theorem Intact.new (payload : Command.DeployCommandPayload) :
    Intact cfg name before before { payload := payload } where
  active _ _ := rfl
  written := nofun
  policy _ := rfl
  previous := by rintro (h | h) <;> cases h
  previousPolicy := nofun

/-- The two files are not touched by a step that does not write one of them. -/
theorem Intact.kept (h : Intact cfg name before sh.disk d) (hknown : d.Known cfg)
    (hof : OfService name d) (hs : d.Steps cfg sh i op running d') (n : Nat) :
    ((d.pc = .writeActive ∨ ∃ e previous, d.pc = .rollbackActive e previous) ∨
      (op.apply n sh.disk) (activeFile name) = sh.disk (activeFile name)) ∧
    ((d.pc = .writePolicy ∨ ∃ e previous, d.pc = .rollbackPolicy e previous) ∨
      (op.apply n sh.disk) (restartPolicyFile name) = sh.disk (restartPolicyFile name)) := by
  refine ⟨or_iff_not_imp_left.mpr fun hpc => ?_, or_iff_not_imp_left.mpr fun hpc => ?_⟩ <;>
    refine DiskOp.apply_of_not_touches (fun htouch => hpc ?_) n sh.disk
  · have hfile : d.pc = .cleanup → isDir sh.disk (activeFile name) = false := by
      intro hcleanup
      have hread := h.previous (.inl (by rw [hcleanup]; rfl)) ""
      rw [← h.active (by rw [hcleanup]; exact DeployPc.noConfusion) ""] at hread
      exact (readActiveRelease_eq_ok_iff.mp hread).not_isDir
    rcases Deploy.mark_of_touches hknown hof (by decide) (by decide) hfile (hs.touches htouch) with
      ⟨hmark, -⟩ | ⟨-, hx⟩
    · exact hmark
    · exact absurd hx (by decide)
  · have hfile : d.pc = .cleanup → isDir sh.disk (restartPolicyFile name) = false := by
      intro hcleanup
      have hread := h.previousPolicy (by rw [hcleanup]; rfl) ""
      rw [← h.policy ""] at hread
      exact (readRestartPolicy_eq_ok_iff.mp hread).1.not_isDir
    rcases Deploy.mark_of_touches hknown hof (by decide) (by decide) hfile (hs.touches htouch) with
      ⟨-, hx⟩ | ⟨hmark, -⟩
    · exact absurd hx (by decide)
    · exact hmark

/-- A deploy keeps its service's name as long as it is on its way. -/
theorem Deploy.Steps.ofService_back (hs : d.Steps cfg sh i op running d')
    (hlive : ∀ result, d'.pc ≠ .returned result) (h : OfService name d') : OfService name d := by
  intro hnamed
  cases hs with
  | fails => exact (hlive _ rfl).elim
  | swapFails => exact h rfl
  | moves _ hnext =>
    cases Deploy.moves_of_next hnext with
    | fail | startFailed | rolledBack | writePolicy => exact (hlive _ rfl).elim
    | lookup hpc | fetch hpc | clean hpc | makeStaging hpc | extracted hpc | extract hpc
    | sameName hpc | otherName hpc =>
      rw [hpc] at hnamed
      cases hnamed
    | _ => exact h rfl

/-- The release and the policy that a deploy goes on with are the ones that it has read. -/
theorem Deploy.active_of_next (hpc : d.pc = .readActive)
    (h : d.next cfg sh i = some (running, d')) (hlive : ∀ result, d'.pc ≠ .returned result) :
    readActiveRelease sh.disk d.name i.text = .ok d'.previous := by
  simp only [Deploy.next, hpc] at h
  split at h <;> cases h
  · exact (hlive _ rfl).elim
  · rename_i hread
    exact hread

theorem Deploy.policy_of_next (hpc : d.pc = .readPolicy)
    (h : d.next cfg sh i = some (running, d')) (hlive : ∀ result, d'.pc ≠ .returned result) :
    readRestartPolicy cfg sh.disk d.name i.text = .ok d'.previousPolicy := by
  simp only [Deploy.next, hpc] at h
  split at h
  · cases h
    exact (hlive _ rfl).elim
  · rename_i policy hread
    split at h <;> cases h
    · exact (hlive _ rfl).elim
    · exact hread

section

variable (hs : d.Steps cfg sh i op running d')

include hs

/-- A deploy that has passed the checks had passed them before, or has just read
the policy. -/
theorem Deploy.Steps.checked_cases (hchecked : d'.pc.checked = true) :
    (d.pc.checked = true ∧ d'.previousPolicy = d.previousPolicy) ∨
      (d.pc = .readPolicy ∧
        readRestartPolicy cfg sh.disk d.name i.text = .ok d'.previousPolicy) := by
  have hlive : ∀ result, d'.pc ≠ .returned result := by
    intro result hpc
    rw [hpc] at hchecked
    cases hchecked
  cases hs with
  | fails => cases hchecked
  | swapFails hpc => exact .inl ⟨by rw [hpc]; rfl, rfl⟩
  | moves _ hnext =>
    have hread := fun hpc => Deploy.policy_of_next hpc hnext hlive
    cases Deploy.moves_of_next hnext with
    | fail | startFailed | rolledBack | writePolicy | lookup | fetch | clean | makeStaging
    | extracted | extract | sameName | otherName | readActive => cases hchecked
    | readPolicy hpc => exact .inr ⟨hpc, hread hpc⟩
    | rollBack hpc =>
      have hold : d.pc.checked = true := by rcases hpc with hpc | hpc <;> rw [hpc] <;> rfl
      exact .inl ⟨hold, rfl⟩
    | _ => exact .inl ⟨by rw [‹d.pc = _›]; rfl, rfl⟩

/-- A deploy goes on only after a call that was made, a swap apart. -/
theorem Deploy.Steps.whole_of_live (hlive : ∀ result, d'.pc ≠ .returned result)
    (hswap : ∀ backup, d.pc ≠ .swapIn backup) :
    op = d.op sh.disk i ∧ d.next cfg sh i = some (running, d') := by
  cases hs with
  | moves _ hnext => exact ⟨rfl, hnext⟩
  | swapFails hpc => exact (hswap _ hpc).elim
  | fails => exact (hlive _ rfl).elim

/-- The write of the policy is the last step. -/
theorem Deploy.Steps.not_writePolicy (hlive : ∀ result, d'.pc ≠ .returned result) :
    d.pc ≠ .writePolicy := by
  intro hpc
  obtain ⟨-, hnext⟩ := hs.whole_of_live hlive (by rw [hpc]; exact nofun)
  simp only [Deploy.next, hpc] at hnext
  split at hnext <;> cases hnext <;> exact hlive _ rfl

/-- Only the write of the marker is followed by the write of the policy. -/
theorem Deploy.Steps.eq_of_writePolicy (hpc' : d'.pc = .writePolicy) :
    d.pc = .writeActive ∧ d' = { d with pc := .writePolicy } := by
  have hlive : ∀ result, d'.pc ≠ .returned result := by
    intro result
    rw [hpc']
    exact DeployPc.noConfusion
  have hpc := (hs.hasWritten_cases (.inl hpc')).2.2.resolve_right (hs.not_writePolicy hlive)
  obtain ⟨-, hnext⟩ := hs.whole_of_live hlive (by rw [hpc]; exact nofun)
  simp only [Deploy.next, hpc] at hnext
  cases hnext
  exact ⟨hpc, rfl⟩

end

variable {e : ImagodError}

section

variable (h : Intact cfg name before sh.disk d) (hknown : d.Known cfg) (hof : OfService name d)
include h hknown hof

/-- A rollback writes the marker that is there. -/
theorem Intact.rollbackActive {previous : String} (hpc : d.pc = .rollbackActive e previous) :
    (∀ text, readActiveRelease before name text = .ok (some previous)) ∧ trim previous = previous ∧
      d.name = name := by
  have hread : ∀ text, readActiveRelease before name text = .ok (some previous) := by
    intro text
    rw [h.previous (.inl (by rw [hpc]; rfl)) text, hknown.rollback previous (by rw [hpc]; rfl)]
  exact ⟨hread, (readActiveRelease_eq_ok_iff.mp (hread "")).trim_eq, hof (by rw [hpc]; rfl)⟩

section

variable (hs : d.Steps cfg sh i op running d') (hlive : ∀ result, d'.pc ≠ .returned result)

include hs hlive

/-- The marker after a step of a deploy that goes on. -/
theorem Intact.steps_active (hpc' : d'.pc ≠ .writePolicy) (n : Nat)
    (text : String) :
    readActiveRelease (op.apply n sh.disk) name text = readActiveRelease before name text := by
  rcases (h.kept hknown hof hs n).1 with (hpc | ⟨e, previous, hpc⟩) | hsame
  · obtain ⟨-, hnext⟩ := hs.whole_of_live hlive (by rw [hpc]; exact nofun)
    simp only [Deploy.next, hpc] at hnext
    cases hnext
    exact (hpc' rfl).elim
  · obtain ⟨rfl, -⟩ := hs.whole_of_live hlive (by rw [hpc]; exact fun _ => DeployPc.noConfusion)
    obtain ⟨hread, htrim, hname⟩ := h.rollbackActive hknown hof hpc
    simp only [Deploy.op, hpc, DiskOp.apply, hname]
    rw [readActiveRelease_put, hread, htrim]
  · rw [readActiveRelease_congr hsame]
    exact h.active (hs.not_writePolicy hlive) text

/-- The policy after a step of a deploy that goes on. -/
theorem Intact.steps_policy (n : Nat) (text : String) :
    readRestartPolicy cfg (op.apply n sh.disk) name text
      = readRestartPolicy cfg before name text := by
  rcases (h.kept hknown hof hs n).2 with (hpc | ⟨e, previous, hpc⟩) | hsame
  · exact (hs.not_writePolicy hlive hpc).elim
  · obtain ⟨rfl, -⟩ := hs.whole_of_live hlive (by rw [hpc]; exact fun _ => DeployPc.noConfusion)
    have hread := h.previousPolicy (by rw [hpc]; rfl) text
    have hname : d.name = name := hof (by rw [hpc]; rfl)
    rcases hpolicy : d.previousPolicy with - | policy <;> rw [hpolicy] at hread <;>
      simp only [Deploy.op, hpc, hpolicy, hname]
    · -- there was no policy, and there is none again
      rw [hread]
      exact readRestartPolicy_eq_ok_iff.mpr
        ⟨.nothing ( remove_of_prefix (List.prefix_refl _)), fun _ hnone => (by cases hnone)⟩
    · obtain ⟨hholds, hsupported⟩ := readRestartPolicy_eq_ok_iff.mp hread
      rw [hread, Deploy.writeRestartPolicy, if_pos (hsupported policy rfl)]
      exact readRestartPolicy_eq_ok_iff.mpr ⟨holds_put.mpr (by rw [hholds.trim_eq]), hsupported⟩
  · rw [readRestartPolicy_congr hsame]
    exact h.policy text

/-- What a step makes of a deploy that goes on. -/
theorem Intact.steps (n : Nat) :
    Intact cfg name before (op.apply n sh.disk) d' where
  active hpc' text := h.steps_active hknown hof hs hlive hpc' n text
  written hpc' text := by
    obtain ⟨hpc, hd'⟩ := hs.eq_of_writePolicy hpc'
    rw [hs.written hpc (.inl hpc') n, hof (by rw [hpc]; rfl), readActiveRelease_put, hd',
      trim_of_isSha256Hex (hknown.isSha256Hex_release (by rw [hpc]; rfl))]
  policy text := h.steps_policy hknown hof hs hlive n text
  previous hpc' text := by
    rcases hpc' with hread | hpc'
    · rcases hs.hasRead_cases hread with ⟨hold, hsame⟩ | ⟨hpc, -⟩
      · rw [hsame]
        exact h.previous (.inl hold) text
      · -- the marker is read now
        obtain ⟨-, hnext⟩ := hs.whole_of_live hlive (by rw [hpc]; exact nofun)
        have hnow := Deploy.active_of_next hpc hnext hlive
        rw [← h.active (by rw [hpc]; exact DeployPc.noConfusion) text, ← hof (by rw [hpc]; rfl)]
        exact readActiveRelease_eq_ok_iff.mpr (readActiveRelease_eq_ok_iff.mp hnow)
    · obtain ⟨hpc, hd'⟩ := hs.eq_of_writePolicy hpc'
      rw [hd']
      exact h.previous (.inl (by rw [hpc]; rfl)) text
  previousPolicy hchecked text := by
    rcases hs.checked_cases hchecked with ⟨hold, hsame⟩ | ⟨hpc, hread⟩
    · rw [hsame]
      exact h.previousPolicy hold text
    · rw [← h.policy text, ← hof (by rw [hpc]; rfl)]
      exact readRestartPolicy_eq_ok_iff.mpr (readRestartPolicy_eq_ok_iff.mp hread)

end

end

/-! ### The last step -/

/-- How far a write that fails has got; `none` if the file was not opened. -/
def Input.torn (i : Input) : Option Nat := i.fault.bind Fault.torn

/-- What the failed write of `text` leaves is read as `value`.  A write that has
opened the file leaves a first part of its text. -/
def LeavesValue (i : Input) (text : String) (value : Option String) : Prop :=
  ∀ n, i.torn = some n → value = some (trim (String.ofList (text.toList.take n)))

/-- The call that fails is not a write of one of the two files, or it leaves the
old value; and the policy is not the one whose write fails unless the release
was active already. -/
def FailsClean (before : Disk) (name : String) (d : Deploy) (i : Input) : Prop :=
  match d.pc with
  | .writeActive => LeavesValue i d.release (activeRelease before name)
  | .rollbackActive _ previous => LeavesValue i previous (activeRelease before name)
  | .rollbackPolicy _ _ =>
    ∀ policy, restartPolicy before name = some policy → LeavesValue i policy (some policy)
  | .writePolicy =>
    activeRelease before name = some d.release ∧
      LeavesValue i d.payload.restartPolicy (restartPolicy before name)
  | _ => True

theorem failsClean_of_quiet (h : d.pc.quiet = true) : FailsClean before name d i := by
  unfold FailsClean
  split
  case h_5 => trivial
  all_goals
    rename_i hpc
    rw [hpc] at h
    cases h

/-- `op` is what the call `whole` has done that failed. -/
def FailedCall (i : Input) (whole op : DiskOp) : Prop :=
  (∃ f, i.fault = some f ∧ op = whole.interrupted f) ∨ (i.fault = none ∧ op = .pass)

/-- The steps of a deploy, with the call that was made or has failed. -/
theorem Deploy.advance_cases
    (h : (Task.deploy d).advance cfg sh i = some (op, running, .deploy d')) :
    d.Steps cfg sh i op running d' ∧
      ((op = d.op sh.disk i ∧ d.next cfg sh i = some (running, d')) ∨
        ((∃ text, d.failed cfg i text = some d') ∧ FailedCall i (d.op sh.disk i) op)) := by
  unfold Task.advance at h
  split at h
  · rename_i f hfault
    obtain ⟨t, ht, hend⟩ := Option.map_eq_some_iff.mp h
    obtain ⟨d₁, hd₁, rfl⟩ := Option.map_eq_some_iff.mp ht
    cases hend
    exact ⟨Deploy.steps_of_failed (.inr ⟨f, hfault, rfl⟩) hd₁,
      .inr ⟨⟨f.text, hd₁⟩, .inl ⟨f, hfault, rfl⟩⟩⟩
  · rename_i hfault
    split at h
    · rename_i hpossible
      obtain ⟨r, hr, hend⟩ := Option.map_eq_some_iff.mp h
      obtain ⟨r₁, hr₁, rfl⟩ := Option.map_eq_some_iff.mp hr
      cases hend
      exact ⟨.moves hpossible hr₁, .inl ⟨rfl, hr₁⟩⟩
    · obtain ⟨t, ht, hend⟩ := Option.map_eq_some_iff.mp h
      obtain ⟨d₁, hd₁, rfl⟩ := Option.map_eq_some_iff.mp ht
      cases hend
      exact ⟨Deploy.steps_of_failed (.inl rfl) hd₁, .inr ⟨⟨i.text, hd₁⟩, .inr ⟨hfault, rfl⟩⟩⟩

/-- What is left of a write that has failed. -/
def Input.leftOf (i : Input) (p : Path) (text : String) (disk : Disk) : Disk :=
  match i.torn with
  | some n => disk.put p (.file (.text (String.ofList (text.toList.take n))))
  | none => disk

theorem leftOf_of_ne {p q : Path} (h : q ≠ p) (s : String) : i.leftOf p s disk q = disk q := by
  rw [Input.leftOf]
  rcases i.torn with - | n
  · rfl
  · exact put_of_ne h

theorem FailedCall.apply_write {p : Path} {text : String}
    (h : FailedCall i (.write p (.text text)) op) (n : Nat) :
    op.apply n disk = i.leftOf p text disk := by
  rcases h with ⟨f, hf, rfl⟩ | ⟨hf, rfl⟩ <;> rw [Input.leftOf, Input.torn, hf]
  · rw [DiskOp.interrupted, Option.bind_some]
    rcases f.torn with - | k <;> rfl
  · rfl

/-- What the failed write has left is the old value. -/
theorem holds_leftOf (h : Holds disk p value) (s : String) :
    Holds (i.leftOf p s disk) p value ↔ LeavesValue i s value := by
  rw [Input.leftOf, LeavesValue]
  rcases i.torn with - | n
  · exact ⟨fun _ => nofun, fun _ => h⟩
  · show Holds (disk.put _ _) p value ↔ _
    rw [holds_put]
    constructor
    · rintro hvalue _ ⟨⟩
      exact hvalue
    · intro hleaves
      exact hleaves n rfl

/-- The two files are apart. -/
theorem restartPolicyFile_ne (name : String) : restartPolicyFile name ≠ activeFile name := by
  intro h
  exact absurd (eq_of_entry_eq h) (by decide)

/-- A write of the marker that fails. -/
theorem Intact.sameMarks_of_active (h : Intact cfg name before sh.disk d)
    (hpc : d.pc.hasRead = true) {s : String}
    (hop : FailedCall i (.write (activeFile name) (.text s)) op) (n : Nat) :
    SameMarks cfg name before (op.apply n sh.disk) ↔
      LeavesValue i s (activeRelease before name) := by
  have hne : d.pc ≠ .writePolicy := by
    intro hw
    rw [hw] at hpc
    cases hpc
  have hbefore := h.previous (.inl hpc)
  have hdisk : ∀ text, readActiveRelease sh.disk name text = .ok d.previous :=
    fun text => (h.active hne text).trans (hbefore text)
  rw [hop.apply_write, ← readActiveRelease_eq_ok (hbefore "")]
  rw [← holds_leftOf (readActiveRelease_eq_ok_iff.mp (hdisk "")) s]
  constructor
  · intro hsame
    exact readActiveRelease_eq_ok_iff.mp ((hsame.active "").trans (hbefore ""))
  · intro hleaves
    refine ⟨fun text => ?_, fun text => ?_⟩
    · rw [hbefore]
      exact readActiveRelease_eq_ok_iff.mpr hleaves
    · rw [← h.policy text]
      exact readRestartPolicy_congr (leftOf_of_ne (restartPolicyFile_ne name) s) text

/-- A write of the policy that fails. -/
theorem Intact.sameMarks_of_policy (h : Intact cfg name before sh.disk d)
    (hpc : d.pc.checked = true) {s : String}
    (hop : FailedCall i (.write (restartPolicyFile name) (.text s)) op) (n : Nat) :
    SameMarks cfg name before (op.apply n sh.disk) ↔
      (∀ text, readActiveRelease sh.disk name text = readActiveRelease before name text) ∧
        LeavesValue i s (restartPolicy before name) := by
  have hbefore := h.previousPolicy hpc
  have hdisk : ∀ text, readRestartPolicy cfg sh.disk name text = .ok d.previousPolicy :=
    fun text => (h.policy text).trans (hbefore text)
  have hactive : ∀ text, readActiveRelease (i.leftOf (restartPolicyFile name) s sh.disk) name text
      = readActiveRelease sh.disk name text :=
    readActiveRelease_congr (leftOf_of_ne (restartPolicyFile_ne name).symm s)
  obtain ⟨hholds, hsupported⟩ := readRestartPolicy_eq_ok_iff.mp (hdisk "")
  rw [hop.apply_write, ← readRestartPolicy_eq_ok (hbefore ""), ← holds_leftOf hholds s]
  constructor
  · intro hsame
    refine ⟨fun text => (hactive text).symm.trans (hsame.active text), ?_⟩
    exact (readRestartPolicy_eq_ok_iff.mp ((hsame.policy "").trans (hbefore ""))).1
  · rintro ⟨hkept, hleaves⟩
    refine ⟨fun text => (hactive text).trans (hkept text), fun text => ?_⟩
    rw [hbefore]
    exact readRestartPolicy_eq_ok_iff.mpr ⟨hleaves, hsupported⟩

theorem supported_of_checked (hknown : d.Known cfg) (hpc : d.pc.checked = true) :
    isSupportedRestartPolicy d.payload.restartPolicy = true := by
  have hpre := hknown.checked hpc
  unfold validateDeployPreconditions at hpre
  split at hpre
  · cases hpre
  · rename_i hsupported
    simpa using hsupported

/-- **A step that ends a deploy with an error keeps the two files exactly when
it fails clean.** -/
theorem Intact.sameMarks_iff (h : Intact cfg name before sh.disk d) (hknown : d.Known cfg)
    (hof : OfService name d)
    (hadvance : (Task.deploy d).advance cfg sh i = some (op, running, .deploy d'))
    (he : d'.pc = .returned (.error e)) (n : Nat) :
    SameMarks cfg name before (op.apply n sh.disk) ↔ FailsClean before name d i := by
  obtain ⟨hs, hcases⟩ := Deploy.advance_cases hadvance
  rcases d.pc.mark_cases with hpc | ⟨e₁, previous, hpc⟩ | ⟨e₁, previous, hpc⟩ | hpc | hquiet
  iterate 2
    rcases hcases with ⟨-, hnext⟩ | ⟨-, hop⟩
    · simp only [Deploy.next, hpc] at hnext
      cases hnext
      cases he
    · simp only [FailsClean, hpc]
      simp only [Deploy.op, hpc, hof (by rw [hpc]; rfl)] at hop
      exact h.sameMarks_of_active (by rw [hpc]; rfl) hop n
  · have hkept := h.active (by rw [hpc]; exact DeployPc.noConfusion)
    have hbefore := h.previousPolicy (by rw [hpc]; rfl)
    simp only [FailsClean, hpc, ← readRestartPolicy_eq_ok (hbefore "")]
    rcases hpolicy : d.previousPolicy with - | policy
    · -- the policy file is to be removed, and that leaves nothing half done
      have hpass : op = .pass := by
        rcases hcases with ⟨-, hnext⟩ | ⟨-, ⟨f, -, rfl⟩ | ⟨-, rfl⟩⟩
        · simp only [Deploy.next, hpc, hpolicy] at hnext
          cases hnext
          cases he
        · simp only [Deploy.op, hpc, hpolicy, DiskOp.interrupted]
        · rfl
      rw [hpass]
      exact ⟨fun _ _ h => (by cases h), fun _ => ⟨hkept, h.policy⟩⟩
    · have hsupported := (readRestartPolicy_eq_ok_iff.mp (hbefore "")).2 policy hpolicy
      rcases hcases with ⟨-, hnext⟩ | ⟨-, hop⟩
      · simp only [Deploy.next, hpc, hpolicy, if_pos hsupported] at hnext
        cases hnext
        cases he
      · simp only [Deploy.op, hpc, hpolicy, Deploy.writeRestartPolicy, if_pos hsupported,
          hof (by rw [hpc]; rfl)] at hop
        rw [h.sameMarks_of_policy (by rw [hpc]; rfl) hop n,
          ← readRestartPolicy_eq_ok (hbefore ""), hpolicy]
        constructor
        · rintro ⟨-, hleaves⟩ _ ⟨⟩
          exact hleaves
        · intro hleaves
          exact ⟨hkept, hleaves policy rfl⟩
  · have hsupported := supported_of_checked hknown (by rw [hpc]; rfl)
    rcases hcases with ⟨-, hnext⟩ | ⟨-, hop⟩
    · simp only [Deploy.next, hpc, if_pos hsupported] at hnext
      cases hnext
      cases he
    · simp only [FailsClean, hpc]
      simp only [Deploy.op, hpc, Deploy.writeRestartPolicy, if_pos hsupported,
        hof (by rw [hpc]; rfl)] at hop
      have hbefore := h.previous (.inr hpc)
      -- the new release is active by now
      rw [h.sameMarks_of_policy (by rw [hpc]; rfl) hop n, ← readActiveRelease_eq_ok (hbefore "")]
      refine and_congr_left' ⟨fun hkept => ?_, fun hsame text => ?_⟩
      · have hnow := (h.written hpc "").symm.trans ((hkept "").trans (hbefore ""))
        exact (Except.ok.inj hnow).symm
      · rw [h.written hpc, hbefore, hsame]
  · have hkept := h.kept hknown hof hs n
    have hne : d.pc ≠ .writePolicy := by
      intro hw
      rw [hw] at hquiet
      cases hquiet
    have hactive := hkept.1.resolve_left
      (by rintro (hw | ⟨e, p, hw⟩) <;> rw [hw] at hquiet <;> cases hquiet)
    have hpolicy := hkept.2.resolve_left
      (by rintro (hw | ⟨e, p, hw⟩) <;> rw [hw] at hquiet <;> cases hquiet)
    refine ⟨fun _ => failsClean_of_quiet hquiet, fun _ => ⟨fun text => ?_, fun text => ?_⟩⟩
    · rw [readActiveRelease_congr hactive, h.active hne]
    · rw [readRestartPolicy_congr hpolicy, h.policy]

/-! ### The reported rollback -/

/-- The error with which `d` returns says that the previous release was restored. -/
def RollbackReported (d : Deploy) (e : ImagodError) : Prop :=
  ∃ startError previous,
    (d.pc = .rollbackStart startError previous ∧
      e = appendRollbackSuccessMessage startError .restoredPreviousRelease) ∨
    (d.pc = .rollbackRetry startError previous ∧
      e = appendRollbackSuccessMessage startError .recoveredByForceStop)

theorem composeRollbackFailureError_message (startError rollbackError : ImagodError) :
    (composeRollbackFailureError startError rollbackError).message =
      startError.message ++ "; rollback failed: " ++ rollbackError.message := by
  rw [composeRollbackFailureError, Std.TreeMap.foldl_eq_foldl_toList]
  -- the details do not change the message
  generalize rollbackError.details.toList = details
  suffices h : ∀ acc : ImagodError, (details.foldl (fun e (p : String × String) =>
      if startError.details.contains p.1 then e.withDetail ("rollback." ++ p.1) p.2
      else e.withDetail p.1 p.2) acc).message = acc.message from h _
  intro acc
  induction details generalizing acc with
  | nil => rfl
  | cons p details ih =>
    rw [List.foldl_cons, ih]
    split <;> rfl

/-- A rollback that failed is not reported as one that was done. -/
theorem compose_ne_append (startError rollbackError : ImagodError) {outcome : RollbackOutcome}
    (houtcome : outcome ≠ .skippedNoPreviousRelease) :
    composeRollbackFailureError startError rollbackError ≠
      appendRollbackSuccessMessage startError outcome := by
  intro h
  have hmessage := congrArg (fun e => e.message.toList) h
  simp only [composeRollbackFailureError_message, String.toList_append,
    List.append_assoc] at hmessage
  cases outcome with
  | skippedNoPreviousRelease => exact houtcome rfl
  | restoredPreviousRelease | recoveredByForceStop =>
    simp only [appendRollbackSuccessMessage, String.toList_append] at hmessage
    -- the texts differ in the character after `rollback`
    have htail := congrArg (List.take 11) (List.append_cancel_left hmessage)
    rw [List.take_append_of_le_length (by decide)] at htail
    revert htail
    decide

/-- A start that succeeds has put the release's runner in. -/
theorem running_of_start {release : String} {outcome : Option ImagodError} {u : Unit}
    (h : startService sh.running sh.disk name release outcome = some (running, .ok u)) :
    ∃ serial, running[name]? = some ⟨release, serial⟩ ∧
      sh.disk (join (serviceRoot name) release) = some (.dir serial) := by
  unfold startService at h
  split at h
  · cases h
  · split at h
    · cases h
    · rename_i serial hdir
      cases h
      exact ⟨serial, Std.TreeMap.getElem?_insert_self, hdir⟩
    · cases h

/-- The runner after a rollback that was reported as done. -/
theorem Deploy.runner_of_reported (hnext : d.next cfg sh i = some (running, d'))
    (he : d'.pc = .returned (.error e)) (h : RollbackReported d e) :
    ∃ previous serial, d.pc.rollback = some previous ∧ running[d.name]? = some ⟨previous, serial⟩ ∧
      sh.disk (join (serviceRoot d.name) previous) = some (.dir serial) := by
  obtain ⟨startError, previous, ⟨hpc, rfl⟩ | ⟨hpc, rfl⟩⟩ := h
  · simp only [Deploy.next, hpc] at hnext
    obtain ⟨⟨running', result⟩, hstart, hend⟩ := Option.map_eq_some_iff.mp hnext
    rcases result with err | u
    · -- the start has failed, and the error says so
      dsimp only at hend
      split at hend <;> cases hend
      · cases he
      · injection he with he
        injection he with he
        exact absurd he (compose_ne_append _ _ RollbackOutcome.noConfusion)
    · cases hend
      obtain ⟨serial, hrunner, hdir⟩ := running_of_start hstart
      exact ⟨previous, serial, by rw [hpc]; rfl, hrunner, hdir⟩
  · simp only [Deploy.next, hpc] at hnext
    obtain ⟨⟨running', result⟩, hstart, hend⟩ := Option.map_eq_some_iff.mp hnext
    rcases result with err | u <;> cases hend
    · injection he with he
      injection he with he
      exact absurd he (compose_ne_append _ _ RollbackOutcome.noConfusion)
    · obtain ⟨serial, hrunner, hdir⟩ := running_of_start hstart
      exact ⟨previous, serial, by rw [hpc]; rfl, hrunner, hdir⟩

/-! ### A deploy that returns an error -/

/-- After an error with which `d` returned, the two files are read as before, and
a rollback that was reported has the previous release running. -/
structure Undone (cfg : Config) (name previous : String) (before : Disk) (d : Deploy)
    (e : ImagodError) (after : Shared) : Prop where
  marks : SameMarks cfg name before after.disk
  runner : d.payload.autoRollback = true → RollbackReported d e →
    ∃ serial, after.running[name]? = some ⟨previous, serial⟩ ∧
      after.disk (join (serviceRoot name) previous) = some (.dir serial)

/-- A deploy by itself: what holds of it until it returns. -/
def OnItsWay (cfg : Config) (before : Disk) (w : World) : Prop :=
  ∃ d, w.tasks = [.deploy d] ∧ d.Known cfg ∧
    ((∀ result, d.pc ≠ .returned result) → ∀ name, OfService name d →
      Intact cfg name before w.shared.disk d)

/-- No other command is submitted. -/
def NoSubmit (_ : World) (a : Action) : Prop := ∀ command, a ≠ .submit command

theorem OnItsWay.step (h : OnItsWay cfg before w) (ha : NoSubmit w a)
    (hstep : step cfg w a = some w') : OnItsWay cfg before w' := by
  obtain ⟨d, htasks, hknown, hintact⟩ := h
  cases steps_of_step hstep with
  | submit command => exact (ha command rfl).elim
  | exit n => exact ⟨d, htasks, hknown, hintact⟩
  | call hk =>
    rw [htasks] at hk
    cases List.mem_singleton.mp (List.mem_of_getElem? hk)
  | deploy hk hs =>
    rename_i k i d₁ d' op running
    obtain ⟨rfl, rfl⟩ : k = 0 ∧ d₁ = d := by
      rw [htasks] at hk
      obtain ⟨hlt, -⟩ := List.getElem?_eq_some_iff.mp hk
      obtain rfl : k = 0 := by simpa using hlt
      cases hk
      exact ⟨rfl, rfl⟩
    refine ⟨d', ?_, hknown.steps hs, fun hlive' name hof => ?_⟩
    · show w.tasks.set 0 _ = _
      rw [htasks]
      rfl
    · have hback := hs.ofService_back hlive' hof
      exact (hintact hs.live name hback).steps hknown hback hs hlive' _

theorem onItsWay_of_run {before : Shared} {payload : Command.DeployCommandPayload}
    {as : List Action} (hsubmit : ∀ command, Action.submit command ∉ as)
    (hrun : run (step cfg) ⟨before, [.deploy { payload := payload }]⟩ as = some w) :
    OnItsWay cfg before.disk w := by
  have hok : RunMeets (step cfg) NoSubmit ⟨before, [.deploy { payload := payload }]⟩ as := by
    refine .of_forall ?_ _
    rintro a ha - command rfl
    exact hsubmit command ha
  refine run_invariant_of_meets (fun _ _ _ h ha hstep => h.step ha hstep) hok hrun ?_
  exact ⟨_, rfl, Deploy.Known.new payload, fun _ name _ => Intact.new payload⟩

/-- A rollback that was reported has the release that was active running. -/
theorem Intact.runner_of_reported (h : Intact cfg name before sh.disk d) (hknown : d.Known cfg)
    (hof : OfService name d)
    (hadvance : (Task.deploy d).advance cfg sh i = some (op, running, .deploy d'))
    (he : d'.pc = .returned (.error e)) (hreported : RollbackReported d e) {previous : String}
    (hprevious : activeRelease before name = some previous) (n : Nat) :
    ∃ serial, running[name]? = some ⟨previous, serial⟩ ∧
      (op.apply n sh.disk) (join (serviceRoot name) previous) = some (.dir serial) := by
  have hpc : (∃ e₁ p, d.pc = .rollbackStart e₁ p) ∨ ∃ e₁ p, d.pc = .rollbackRetry e₁ p := by
    obtain ⟨e₁, p, ⟨hpc, -⟩ | ⟨hpc, -⟩⟩ := hreported
    · exact .inl ⟨e₁, p, hpc⟩
    · exact .inr ⟨e₁, p, hpc⟩
  have hname : d.name = name := by
    rcases hpc with ⟨e₁, p, hpc⟩ | ⟨e₁, p, hpc⟩ <;> exact hof (by rw [hpc]; rfl)
  have hread : d.pc.hasRead = true := by
    rcases hpc with ⟨e₁, p, hpc⟩ | ⟨e₁, p, hpc⟩ <;> rw [hpc] <;> rfl
  rcases (Deploy.advance_cases hadvance).2 with ⟨hop, hnext⟩ | ⟨⟨text, hfailed⟩, -⟩
  · obtain ⟨p, serial, hp, hrunner, hdir⟩ := Deploy.runner_of_reported hnext he hreported
    have hsame : previous = p := by
      have hvalue := readActiveRelease_eq_ok (h.previous (.inl hread) "")
      rw [hknown.rollback p hp, hprevious] at hvalue
      exact (Option.some.inj hvalue).symm
    subst hsame
    rw [hname] at hrunner hdir
    refine ⟨serial, hrunner, ?_⟩
    -- a start makes no call of its own
    have hpass : op = .pass := by
      rcases hpc with ⟨e₁, p, hpc⟩ | ⟨e₁, p, hpc⟩ <;> rw [hop, Deploy.op, hpc]
    rw [hpass]
    exact hdir
  · rcases hpc with ⟨e₁, p, hpc⟩ | ⟨e₁, p, hpc⟩ <;>
      simp only [Deploy.failed, Deploy.callError, hpc] at hfailed <;> cases hfailed

/-- **A deploy that returns an error changes neither `active_release` nor
`restart_policy`, unless it is a write of one of them that fails.**  Take any
deploy of a service with a previous release, whatever fails on the way.  When it
returns an error, both files are read as they were before the deploy, and a
rollback that was requested and reported has a runner of the previous release
running, exactly if its last call fails clean: a write of the marker or of the
old policy that fails leaves the value that was there, and a failed write of the
new policy does so while the release was active before. -/
theorem failed_deploy_undone_iff {before : Shared} {payload : Command.DeployCommandPayload}
    {previous : String} (hprevious : activeRelease before.disk name = some previous)
    {as : List Action} (hsubmit : ∀ command, Action.submit command ∉ as)
    (hrun : run (step cfg) ⟨before, [.deploy { payload := payload }]⟩ as = some w)
    (hd : w.tasks[0]? = some (.deploy d)) (hof : OfService name d)
    (hstep : step cfg w (.act 0 i) = some w') (hd' : w'.tasks[0]? = some (.deploy d'))
    {e : ImagodError} (he : d'.pc = .returned (.error e)) :
    Undone cfg name previous before.disk d e w'.shared ↔ FailsClean before.disk name d i := by
  obtain ⟨d₁, htasks, hknown, hintact⟩ := onItsWay_of_run hsubmit hrun
  obtain rfl : d₁ = d := by
    rw [htasks] at hd
    cases hd
    rfl
  obtain ⟨t, ht, hstep⟩ := Option.bind_eq_some_iff.mp hstep
  obtain ⟨⟨op, running, t'⟩, hadvance, rfl⟩ := Option.map_eq_some_iff.mp hstep
  cases hd.symm.trans ht
  obtain rfl : t' = .deploy d' := by
    have hset : (w.tasks.set 0 t')[0]? = some (.deploy d') := hd'
    rw [htasks] at hset
    cases hset
    rfl
  have h := hintact (Deploy.advance_cases hadvance).1.live name hof
  rw [← h.sameMarks_iff hknown hof hadvance he w.shared.serial]
  refine ⟨fun hundone => hundone.marks, fun hmarks => ⟨hmarks, fun _ hreported => ?_⟩⟩
  exact h.runner_of_reported hknown hof hadvance he hreported hprevious w.shared.serial

/-! ### Instances -/

/-- The error that the deploy has returned. -/
def Deploy.error (d : Deploy) : Option ImagodError :=
  match d.pc with
  | .returned (.error e) => some e
  | _ => none

theorem Deploy.pc_of_error (h : d.error = some e) : d.pc = .returned (.error e) := by
  unfold Deploy.error at h
  split at h
  · rename_i hpc
    cases h
    exact hpc
  · cases h

/-- The second deploy of the service `s`, with the actions `as` and then a last
step: the tree before it, the last two worlds and the deploy in each of them,
and the error. -/
def secondFails (as : List Action) (last : Input) :
    Option (Shared × World × World × Deploy × Deploy × ImagodError) :=
  (run (step (sampleConfig sampleSessions)) World.init
    ([.submit (.deploy (samplePayload "one"))] ++ smoothly 0 19)).bind fun first =>
  (run (step (sampleConfig sampleSessions))
    ⟨first.shared, [.deploy { payload := samplePayload "two" }]⟩ as).bind fun w =>
  (step (sampleConfig sampleSessions) w (.act 0 last)).bind fun w' =>
  (w.deployAt 0).bind fun d => (w'.deployAt 0).bind fun d' =>
  d'.error.map fun e => (first.shared, w, w', d, d', e)

/-- What `secondFails` says of a failed deploy. -/
structure SecondFails (as : List Action) (last : Input) (before : Shared) (w w' : World)
    (d d' : Deploy) (e : ImagodError) : Prop where
  run : run (step (sampleConfig sampleSessions))
    ⟨before, [.deploy { payload := samplePayload "two" }]⟩ as = some w
  step : step (sampleConfig sampleSessions) w (.act 0 last) = some w'
  deploy : w.tasks[0]? = some (.deploy d)
  returned : w'.tasks[0]? = some (.deploy d')
  error : d'.pc = .returned (.error e)

theorem secondFails_eq_some {as : List Action} {last : Input} {before : Shared}
    (h : secondFails as last = some (before, w, w', d, d', e)) :
    SecondFails as last before w w' d d' e := by
  obtain ⟨first, -, h⟩ := Option.bind_eq_some_iff.mp h
  obtain ⟨w₁, hrun, h⟩ := Option.bind_eq_some_iff.mp h
  obtain ⟨w₂, hstep, h⟩ := Option.bind_eq_some_iff.mp h
  obtain ⟨d₁, hd, h⟩ := Option.bind_eq_some_iff.mp h
  obtain ⟨d₂, hd', h⟩ := Option.bind_eq_some_iff.mp h
  obtain ⟨e₁, he, h⟩ := Option.map_eq_some_iff.mp h
  cases h
  exact ⟨hrun, hstep, deployAt_eq_some hd, deployAt_eq_some hd', Deploy.pc_of_error he⟩

/-- The new runner does not start, and the deploy is at the start of the old one. -/
def startFails : List Action :=
  smoothly 0 16 ++ [.act 0 { start := some (.new .internal stageOrchestrate "no runner") }] ++
    smoothly 0 3

theorem startFails_eq :
    (secondFails startFails {}).map (fun (before, _, _, d, _, e) =>
      (activeRelease before.disk "s", d.name, d.pc.quiet, e.message)) =
    some (some (sampleDigest (.text "a")), "s", true,
      "no runner; rollback: restored previous release") := by
  decide +kernel

/-- The rollback of a deploy whose runner did not start. -/
theorem failed_deploy_undone_start : ∃ before w w' d d' e,
    SecondFails startFails {} before w w' d d' e ∧
    e.message = "no runner; rollback: restored previous release" ∧
    Undone (sampleConfig sampleSessions) "s" (sampleDigest (.text "a")) before.disk d e
      w'.shared := by
  obtain ⟨⟨before, w, w', d, d', e⟩, hfails, h⟩ := Option.map_eq_some_iff.mp startFails_eq
  simp only [Prod.mk.injEq] at h
  obtain ⟨hactive, hname, hquiet, hmessage⟩ := h
  have hsecond := secondFails_eq_some hfails
  refine ⟨before, w, w', d, d', e, hsecond, hmessage, ?_⟩
  refine (failed_deploy_undone_iff hactive ?_ hsecond.run hsecond.deploy (fun _ => hname)
    hsecond.step hsecond.returned hsecond.error).mpr (failsClean_of_quiet hquiet)
  simp [startFails, smoothly]

/-- The write of the policy fails. -/
def noSpace : Input := { fault := some { text := "no space left" } }

theorem noSpace_eq :
    (secondFails (smoothly 0 18) noSpace).map (fun (before, _, w', _, _, e) =>
      (activeRelease before.disk "s", activeRelease w'.shared.disk "s", e.message)) =
    some (some (sampleDigest (.text "a")), some (sampleDigest (.text "b")),
      "restart policy update failed: no space left") := by
  decide +kernel

/-- **A deploy that returns an error has activated its release.**  Only the last
call of the deploy fails, the write of the policy; the marker, which was written
just before, names the new release. -/
theorem failed_deploy_activates : ∃ before w w' d d' e,
    SecondFails (smoothly 0 18) noSpace before w w' d d' e ∧
    activeRelease before.disk "s" = some (sampleDigest (.text "a")) ∧
    activeRelease w'.shared.disk "s" = some (sampleDigest (.text "b")) ∧
    ¬ Undone (sampleConfig sampleSessions) "s" (sampleDigest (.text "a")) before.disk d e
      w'.shared := by
  obtain ⟨⟨before, w, w', d, d', e⟩, hfails, h⟩ := Option.map_eq_some_iff.mp noSpace_eq
  simp only [Prod.mk.injEq] at h
  obtain ⟨hbefore, hafter, -⟩ := h
  refine ⟨before, w, w', d, d', e, secondFails_eq_some hfails, hbefore, hafter, fun hundone => ?_⟩
  have hsame := hundone.marks.active ""
  rw [readActiveRelease_of_active hbefore, readActiveRelease_of_active hafter] at hsame
  revert hsame
  simp only [Except.ok.injEq, Option.some.injEq]
  decide

end Imago.Orchestrator
