/-
Imago/SequentialCommands.lean

Commands one after the other.

A sequence of commands is a run in which a command is submitted only when all
earlier ones have returned (`Sequential`); runners may still end by themselves
at any time.  At most one task is then under way (`Single`), so an invariant
need not speak of other tasks: it consists of what holds at rest and of what is
known while one task is at work (`Alone`).  `Alone.step` is the rule: a new
task starts from what holds at rest, its steps keep what is known of it, and
when it returns the state is at rest again.
-/
import Imago.ReleaseStaging

namespace Imago.Orchestrator

variable {cfg : Config} {w w' : World} {a : Action}

namespace Task

/-- The command has returned. -/
def done : Task → Bool
  | .deploy d => match d.pc with
      | .returned _ => true
      | _ => false
  | .call c => match c.pc with
      | .returned _ => true
      | _ => false

theorem done_deploy {d : Deploy} (h : (Task.deploy d).done = true) :
    ∃ result, d.pc = .returned result := by
  simp only [done] at h
  split at h
  · rename_i result hpc
    exact ⟨result, hpc⟩
  · cases h

theorem done_call {c : ServiceCall} (h : (Task.call c).done = true) :
    ∃ result, c.pc = .returned result := by
  simp only [done] at h
  split at h
  · rename_i result hpc
    exact ⟨result, hpc⟩
  · cases h

end Task

/-- All commands have returned. -/
def Quiet (w : World) : Prop := ∀ t ∈ w.tasks, t.done = true

/-- A command is submitted only when the earlier ones have returned. -/
def Sequential : World → Action → Prop
  | w, .submit _ => Quiet w
  | _, _ => True

/-- At most one task is under way. -/
def Single (w : World) : Prop :=
  ∀ (j k : Nat) (s t : Task), w.tasks[j]? = some s → w.tasks[k]? = some t →
    s.done = false → t.done = false → j = k

/-- A task that makes a step has not returned. -/
theorem not_done_of_step {k : Nat} {i : Input} {t : Task} (hk : w.tasks[k]? = some t)
    (hstep : step cfg w (.act k i) = some w') : t.done = false := by
  rw [Bool.eq_false_iff]
  intro hdone
  cases steps_of_step hstep with
  | deploy hj hd =>
    cases hj.symm.trans hk
    obtain ⟨result, hpc⟩ := Task.done_deploy hdone
    exact hd.live result hpc
  | call hj hc =>
    cases hj.symm.trans hk
    obtain ⟨result, hpc⟩ := Task.done_call hdone
    exact hc.live result hpc

theorem Single.step (h : Single w) (hseq : Sequential w a)
    (hstep : Orchestrator.step cfg w a = some w') : Single w' := by
  -- after a step of the task at `k` the others are as they were
  have hafter : ∀ {k : Nat} {t t' : Task}, w.tasks[k]? = some t → t.done = false →
      w'.tasks = w.tasks.set k t' → Single w' := by
    intro k t t' hk ht htasks j l s u hj hl hs hu
    rw [htasks] at hj hl
    have hindex : ∀ {m : Nat} {v : Task}, (w.tasks.set k t')[m]? = some v → v.done = false →
        m = k := by
      intro m v hm hv
      rcases getElem?_set_cases hm with ⟨rfl, -⟩ | ⟨-, hm⟩
      · rfl
      · exact h m k v t hm hk hv ht
    rw [hindex hj hs, hindex hl hu]
  cases a with
  | submit command =>
    cases hstep
    have hlast : ∀ {m : Nat} {v : Task}, (w.tasks ++ [Task.new command])[m]? = some v →
        v.done = false → m = w.tasks.length := by
      intro m v hm hv
      rcases getElem?_concat_cases hm with hm | ⟨rfl, -⟩
      · rw [hseq v (List.mem_of_getElem? hm)] at hv
        cases hv
      · rfl
    intro j l s u hj hl hs hu
    rw [hlast hj hs, hlast hl hu]
  | exit name =>
    cases hstep
    exact h
  | act k i =>
    have hlive := fun t hk => @not_done_of_step cfg w w' k i t hk hstep
    cases steps_of_step hstep with
    | deploy hk _ | call hk _ => exact hafter hk (hlive _ hk) rfl

/-- Two deploys do not meet in a staging directory. -/
theorem Single.stagingApart (h : Single w) (deployId : String) : StagingApart deployId w := by
  intro j k d e hj hk _ _ hheld huses
  refine h j k _ _ hj hk ?_ ?_ <;> rw [Bool.eq_false_iff] <;> intro hdone <;>
    obtain ⟨result, hpc⟩ := Task.done_deploy hdone
  · rw [hpc] at hheld
    cases hheld
  · rw [hpc] at huses
    cases huses

/-! ### Invariants of sequences of commands -/

section Alone

variable {Rest : Shared → Prop} {Good : Shared → Task → Prop}

/-- `Rest` holds between two commands, and `Good` of the one that is at work. -/
structure Alone (Rest : Shared → Prop) (Good : Shared → Task → Prop) (w : World) : Prop where
  single : Single w
  rest : Quiet w → Rest w.shared
  good : ∀ {k : Nat} {t : Task}, w.tasks[k]? = some t → t.done = false → Good w.shared t

theorem alone_init (h : Rest World.init.shared) : Alone Rest Good World.init where
  single := by
    intro j k s t hj
    cases hj
  rest := fun _ => h
  good := by
    intro k t hk
    cases hk

/-- The task at `k` has made a step, and the others have returned. -/
theorem Alone.after (h : Alone Rest Good w) (hsingle : Single w') {k : Nat} {t t' : Task}
    (hk : w.tasks[k]? = some t) (ht : t.done = false) (htasks : w'.tasks = w.tasks.set k t')
    (hgood : Good w.shared t → Good w'.shared t')
    (hdone : t'.done = true → Good w'.shared t' → Rest w'.shared) : Alone Rest Good w' := by
  have hgood' := hgood (h.good hk ht)
  have hlt := (List.getElem?_eq_some_iff.mp hk).1
  have hk' : w'.tasks[k]? = some t' := by rw [htasks, List.getElem?_set_self hlt]
  refine ⟨hsingle, fun hquiet => hdone (hquiet t' (List.mem_of_getElem? hk')) hgood', ?_⟩
  intro j s hj hs
  rw [htasks] at hj
  rcases getElem?_set_cases hj with ⟨-, rfl⟩ | ⟨hjk, hj⟩
  · exact hgood'
  · exact (hjk (h.single j k s t hj hk hs ht)).elim

/-- **The rule for sequences of commands.** -/
theorem Alone.step (h : Alone Rest Good w) (hseq : Sequential w a)
    (hstep : Orchestrator.step cfg w a = some w')
    (hnew : ∀ command, Rest w.shared → Good w.shared (Task.new command))
    (hdeploy : ∀ {k : Nat} {i : Input} {d d' : Deploy} {op : DiskOp} {running : Running},
      a = .act k i → w.tasks[k]? = some (.deploy d) → d.Steps cfg w.shared i op running d' →
      w' = w.after k (.deploy d) op running (.deploy d') →
      Good w.shared (.deploy d) → Good w'.shared (.deploy d'))
    (hcall : ∀ {k : Nat} {i : Input} {c c' : ServiceCall} {op : DiskOp} {running : Running},
      a = .act k i → w.tasks[k]? = some (.call c) → c.Steps w.shared op running c' →
      w' = w.after k (.call c) op running (.call c') →
      Good w.shared (.call c) → Good w'.shared (.call c'))
    (hexit : ∀ name, a = .exit name →
      (Rest w.shared → Rest w'.shared) ∧ ∀ t, Good w.shared t → Good w'.shared t)
    (hdone : ∀ t, t.done = true → Good w'.shared t → Rest w'.shared) : Alone Rest Good w' := by
  have hsingle := h.single.step hseq hstep
  cases a with
  | submit command =>
    cases hstep
    refine ⟨hsingle, fun hquiet => h.rest fun t ht => hquiet t (List.mem_append_left _ ht), ?_⟩
    intro k t hk ht
    rcases getElem?_concat_cases hk with hk | ⟨-, rfl⟩
    · exact h.good hk ht
    · exact hnew command (h.rest hseq)
  | exit name =>
    obtain ⟨hrest, hgood⟩ := hexit name rfl
    cases hstep
    exact ⟨hsingle, fun hquiet => hrest (h.rest hquiet), fun hk ht => hgood _ (h.good hk ht)⟩
  | act k i =>
    have hlive := fun t hk => @not_done_of_step cfg w w' k i t hk hstep
    cases steps_of_step hstep with
    | deploy hk hd => exact h.after hsingle hk (hlive _ hk) rfl (hdeploy rfl hk hd rfl) (hdone _)
    | call hk hc => exact h.after hsingle hk (hlive _ hk) rfl (hcall rfl hk hc rfl) (hdone _)

end Alone

end Imago.Orchestrator
