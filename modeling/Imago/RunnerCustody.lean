/-
Imago/RunnerCustody.lean

Where the live runner processes are.  A child's handle is in the running map,
or with the task that took it out (a stop, the cleanup of a failed start), or
with the start that has spawned it and not inserted it yet.  `custody` is this
bookkeeping in the terms of `Custody`, and `Safe` says what the supervisor
needs of it: every live process is in exactly one place, and a service has at
most one of them.

`start` does not look at `stopping_services`: it may find the running map
empty while a stop still has the old runner in its hands.  The old runner then
lives beside the new one, and if the stop fails and puts it back, the start's
insertion drops a live child.  `Orderly` excludes exactly this, and the two
ways to let go of a live child (a kill that fails at the end of a call, a
dropped task).  `runners_accounted` shows that nothing else can go wrong, and
that each of the three does.
-/
import Imago.Custody
import Imago.Supervisor

namespace Imago.Supervisor

open Std (TreeMap)
open Function (update update_of_ne update_self)

/-! ### Places -/

/-- Where the handle of a child can be. -/
inductive Place
  | running (name : String)
  | task (i : Nat)
  deriving DecidableEq

def held (running : TreeMap String RunningService) (tasks : List Task) : Place → Option Nat
  | .running name => (running[name]?).map (·.child)
  | .task i => (tasks[i]?).bind (·.pc.child)

/-- The place of each handle in the state `w`. -/
def World.custody (w : World) : Place → Option Nat := held w.shared.running w.tasks

/-- The process `c` belongs to the service `name`. -/
def Shared.ServiceOf (m : Shared) (c : Nat) (name : String) : Prop :=
  ∃ alive, m.processes[c]? = some ⟨name, alive⟩

/-- The process `c` belongs to the service `name` and is alive. -/
def Shared.LiveFor (m : Shared) (name : String) (c : Nat) : Prop :=
  m.processes[c]? = some ⟨name, true⟩

/-- What the supervisor needs: no live runner is lost or held twice, and no
service has two. -/
structure World.Safe (w : World) : Prop where
  accounted : ∀ c, w.shared.alive c = true → ∃! p, w.custody p = some c
  single : ∀ {name c d}, w.shared.LiveFor name c → w.shared.LiveFor name d → c = d

/-- A stop in progress has a live runner of this service in its hands. -/
def World.StopHolds (w : World) (name : String) : Prop :=
  ∃ u ∈ w.tasks, u.name = name ∧ ∃ c, u.pc.stopping = some c ∧ w.shared.alive c = true

/-- The steps that keep the bookkeeping in order: no start passes its check of
the running map while a stop has a live runner of that service; the kill at
the end of a call does not fail on a live child; no task is dropped that has
the handle of one. -/
def Orderly (w : World) : Action → Prop
  | .proceed i input => ∀ t, w.tasks[i]? = some t →
      (t.pc = .checkRunning → w.shared.running[t.name]? = none → ¬ w.StopHolds t.name)
      ∧ ∀ c, t.pc.givenUp = some c → w.shared.alive c = true → input.killed = .ok ()
  | .drop i => ∀ t, w.tasks[i]? = some t → ∀ c, t.pc.child = some c → w.shared.alive c = false
  | _ => True

section Held

variable {running : TreeMap String RunningService} {tasks : List Task}

/-- The running map changes at one name. -/
theorem held_running {running' : TreeMap String RunningService} {name : String}
    (h : ∀ n, name ≠ n → running'[n]? = running[n]?) :
    held running' tasks = update (held running tasks) (.running name)
      ((running'[name]?).map (·.child)) := by
  funext p
  cases p with
  | running n =>
    by_cases hn : n = name
    · rw [hn, update_self]
      rfl
    · rw [update_of_ne (by simpa using hn)]
      simp only [held, h n (Ne.symm hn)]
  | task i => rw [update_of_ne (by simp)]; rfl

theorem held_insert (name : String) (service : RunningService) :
    held (running.insert name service) tasks
      = update (held running tasks) (.running name) (some service.child) := by
  rw [held_running fun n hn => getElem?_insert_ne hn, TreeMap.getElem?_insert_self]
  rfl

theorem held_erase (name : String) :
    held (running.erase name) tasks
      = update (held running tasks) (.running name) none := by
  rw [held_running fun n hn => getElem?_erase_ne hn, TreeMap.getElem?_erase_self]
  rfl

theorem held_set {i : Nat} {t : Task} (hi : tasks[i]? = some t) (u : Task) :
    held running (tasks.set i u)
      = update (held running tasks) (.task i) u.pc.child := by
  funext p
  cases p with
  | running n => rw [update_of_ne (by simp)]; rfl
  | task j =>
    by_cases hj : j = i
    · rw [hj, update_self]
      simp [held, List.getElem?_set_self', hi]
    · rw [update_of_ne (by simpa using hj)]
      simp [held, List.getElem?_set_ne (Ne.symm hj)]

theorem held_append {new : List Task} (hnew : ∀ t ∈ new, t.Fresh) :
    held running (tasks ++ new) = held running tasks := by
  funext p
  cases p with
  | running n => rfl
  | task i =>
    rcases Nat.lt_or_ge i tasks.length with hlt | hge
    · simp [held, List.getElem?_append_left hlt]
    · -- a call that has just arrived has no handle
      show ((tasks ++ new)[i]?).bind _ = (tasks[i]?).bind _
      rw [List.getElem?_eq_none hge, List.getElem?_append_right hge]
      rcases hi : new[i - tasks.length]? with - | t
      · rfl
      · rcases hnew t (List.mem_of_getElem? hi) with hpc | hpc <;> simp [hpc, Pc.child]

end Held

/-! ### Processes -/

section Processes

variable {m : Shared} {c d : Nat} {name : String}

theorem alive_iff_liveFor : m.alive c = true ↔ ∃ name, m.LiveFor name c := by
  rcases hp : m.processes[c]? with - | ⟨service, alive⟩ <;>
    simp [Shared.alive, Shared.LiveFor, hp]

theorem Shared.LiveFor.alive (h : m.LiveFor name c) : m.alive c = true :=
  alive_iff_liveFor.mpr ⟨name, h⟩

/-- A process belongs to one service. -/
theorem Shared.LiveFor.name_eq {name' : String} (h : m.LiveFor name c)
    (h' : m.ServiceOf c name') : name' = name := by
  obtain ⟨alive, hp⟩ := h'
  exact congrArg Process.service (Option.mem_unique hp h)

theorem Shared.ServiceOf.liveFor (h : m.ServiceOf c name) (ha : m.alive c = true) :
    m.LiveFor name c := by
  obtain ⟨name', hl⟩ := alive_iff_liveFor.mp ha
  rw [hl.name_eq h]
  exact hl

theorem exit_processes (m : Shared) (c d : Nat) :
    (m.exit c).processes[d]?
      = (m.processes[d]?).map fun p => if c = d then { p with alive := false } else p := by
  show (m.processes.modify c _)[d]? = _
  rw [List.getElem?_modify]
  split <;> simp_all

theorem exit_liveFor (h : (m.exit c).LiveFor name d) : m.LiveFor name d ∧ d ≠ c := by
  rw [Shared.LiveFor, exit_processes] at h
  obtain ⟨p, hp, heq⟩ := Option.map_eq_some_iff.mp h
  split at heq
  · cases heq
  · next hne =>
    subst heq
    exact ⟨hp, fun hdc => hne hdc.symm⟩

theorem exit_serviceOf (h : m.ServiceOf d name) : (m.exit c).ServiceOf d name := by
  obtain ⟨alive, hp⟩ := h
  simp only [Shared.ServiceOf, exit_processes, hp, Option.map_some]
  split
  · exact ⟨false, rfl⟩
  · exact ⟨alive, rfl⟩

theorem exit_alive (h : (m.exit c).alive d = true) : m.alive d = true ∧ d ≠ c := by
  obtain ⟨name, hl⟩ := alive_iff_liveFor.mp h
  exact ⟨(exit_liveFor hl).1.alive, (exit_liveFor hl).2⟩

end Processes

/-! ### The invariant -/

/-- The bookkeeping of the handles.  A start that has found the running map
empty (`creating`) has, until it inserts its runner, the only live process of
its service. -/
structure Inv (w : World) : Prop where
  keeps : Custody (fun c => w.shared.alive c = true) w.custody
  running : ∀ {name : String} {service : RunningService},
    w.shared.running[name]? = some service → w.shared.ServiceOf service.child name
  task : ∀ {i : Nat} {t : Task} {c : Nat},
    w.tasks[i]? = some t → t.pc.child = some c → w.shared.ServiceOf c t.name
  single : ∀ {name : String} {c d : Nat},
    w.shared.LiveFor name c → w.shared.LiveFor name d → c = d
  creating : ∀ {i : Nat} {t : Task} {c : Nat}, w.tasks[i]? = some t → t.pc.creating = true →
    w.shared.LiveFor t.name c → t.pc.child = some c

theorem inv_init : Inv World.init where
  keeps := ⟨fun {p} _ _ h => by cases p <;> simp [World.custody, held, World.init] at h,
    fun h => by simp [Shared.alive, World.init] at h⟩
  running h := by simp [World.init] at h
  task hi := by cases hi
  single h := by simp [Shared.LiveFor, World.init] at h
  creating hi := by cases hi

variable {w w' : World} {i : Nat} {t : Task} {c : Nat}

theorem Inv.safe (h : Inv w) : w.Safe :=
  ⟨fun _ hc => h.keeps.existsUnique hc, h.single⟩

/-- The invariant after a change that makes no process live: the handles are
in order again, and each handle is of the service of its place. -/
theorem Inv.of_old (h : Inv w)
    (hkeeps : Custody (fun c => w'.shared.alive c = true) w'.custody)
    (hlive : ∀ {name : String} {c : Nat}, w'.shared.LiveFor name c → w.shared.LiveFor name c)
    (hservice : ∀ {name : String} {c : Nat}, w.shared.ServiceOf c name → w'.shared.ServiceOf c name)
    (hrunning : ∀ {name : String} {service : RunningService},
      w'.shared.running[name]? = some service → w.shared.ServiceOf service.child name)
    (htask : ∀ {i : Nat} {t : Task}, w'.tasks[i]? = some t →
      (∀ c, t.pc.child = some c → w.shared.ServiceOf c t.name)
      ∧ ∀ c, t.pc.creating = true → w.shared.LiveFor t.name c → t.pc.child = some c) :
    Inv w' where
  keeps := hkeeps
  running hs := hservice (hrunning hs)
  task hi hc := hservice ((htask hi).1 _ hc)
  single hc hd := h.single (hlive hc) (hlive hd)
  creating hi hpc hc := (htask hi).2 _ hpc (hlive hc)

/-- Tasks that have not changed are as the invariant says. -/
theorem Inv.same (h : Inv w) (hi : w.tasks[i]? = some t) :
    (∀ c, t.pc.child = some c → w.shared.ServiceOf c t.name)
      ∧ ∀ c, t.pc.creating = true → w.shared.LiveFor t.name c → t.pc.child = some c :=
  ⟨fun _ hc => h.task hi hc, fun _ hpc hc => h.creating hi hpc hc⟩

/-- The state in which task `i` has moved on to `pc`. -/
def World.setPc (w : World) (i : Nat) (t : Task) (pc : Pc) : World :=
  { w with tasks := w.tasks.set i { t with pc := pc } }

variable {pc : Pc}

/-- The task moves on; its handle is kept, or it is let go and the child is dead. -/
theorem Inv.setPc (h : Inv w) (hi : w.tasks[i]? = some t) (hchild : pc.child = t.pc.child
      ∨ pc.child = none ∧ ∀ c, t.pc.child = some c → w.shared.alive c = false)
    (hcreating : ∀ c, pc.creating = true → w.shared.LiveFor t.name c → pc.child = some c) :
    Inv (w.setPc i t pc) := by
  have hcustody : (w.setPc i t pc).custody = update w.custody (.task i) pc.child :=
    held_set hi _
  have htask : w.custody (.task i) = t.pc.child := by
    show (w.tasks[i]?).bind _ = _
    rw [hi]
    rfl
  have hkeeps : Custody (fun c => w.shared.alive c = true) (w.setPc i t pc).custody := by
    rw [hcustody]
    rcases hchild with hsame | ⟨hnone, hdead⟩
    · rw [hsame, ← htask, Function.update_eq_self]
      exact h.keeps
    · rw [hnone]
      refine h.keeps.clear fun c hc => ?_
      rw [hdead c (htask ▸ hc)]
      exact Bool.false_ne_true
  refine h.of_old hkeeps id id h.running fun {j u} hj => ?_
  rcases getElem?_set_cases hj with ⟨-, rfl⟩ | ⟨-, hj⟩
  · refine ⟨fun c hc => ?_, hcreating⟩
    rcases hchild with hsame | ⟨hnone, -⟩
    · show w.shared.ServiceOf c t.name
      exact h.task hi (hsame ▸ hc)
    · cases hnone.symm.trans hc
  · exact h.same hj

/-- A process ends. -/
theorem Inv.exit (h : Inv w) (c : Nat) : Inv { w with shared := w.shared.exit c } :=
  h.of_old (h.keeps.forget fun _ hx => (exit_alive hx).1) (fun hl => (exit_liveFor hl).1)
    exit_serviceOf h.running h.same

/-- `try_wait` is asked about one entry of the running map. -/
theorem Inv.reapService (h : Inv w) (name : String) (fails : Bool) :
    Inv { w with shared := w.shared.reapFinishedService name fails } := by
  unfold Shared.reapFinishedService
  split
  · next service hs =>
    split
    · next hexited =>
      -- the entry that is removed is of a dead child
      have hdead := alive_eq_false_of_exited hexited
      have hentry : w.custody (.running name) = some service.child := by
        show (w.shared.running[name]?).map _ = _
        rw [hs]
        rfl
      refine h.of_old ?_ id id (fun hn => h.running (lookup_of_erase hn).2) h.same
      show Custody _ (held (w.shared.running.erase name) w.tasks)
      rw [held_erase]
      refine h.keeps.clear fun c hc => ?_
      cases hentry.symm.trans hc
      rw [hdead]
      exact Bool.false_ne_true
    · exact h
  · exact h

theorem Inv.reapFinished (h : Inv w) (failing : List String) :
    Inv { w with shared := w.shared.reapFinished failing } := by
  unfold Shared.reapFinished
  generalize w.shared.running.keys = names
  -- the loop: one entry after the other
  have hloop : ∀ m : Shared, Inv ⟨m, w.tasks⟩ →
      Inv ⟨names.foldl (fun m name => m.reapFinishedService name (name ∈ failing)) m, w.tasks⟩ := by
    induction names with
    | nil => exact fun m hm => hm
    | cons name names ih => exact fun m hm => ih _ (hm.reapService name _)
  exact hloop w.shared h

variable {service : RunningService}

/-- An entry of the running map changes, but not its child. -/
theorem Inv.setEntry (h : Inv w) {name : String} {service' : RunningService}
    (hs : w.shared.running[name]? = some service) (hchild : service'.child = service.child) :
    Inv { w with shared := { w.shared with
      running := w.shared.running.insert name service' } } := by
  have hentry : w.custody (.running name) = some service'.child := by
    show (w.shared.running[name]?).map _ = _
    rw [hs, hchild]
    rfl
  refine h.of_old ?_ id id (fun hn => ?_) h.same
  · show Custody _ (held (w.shared.running.insert name service') w.tasks)
    rw [held_insert, ← hentry]
    exact (Function.update_eq_self (Place.running name) w.custody).symm ▸ h.keeps
  · rcases lookup_of_insert hn with ⟨rfl, rfl⟩ | hn
    · rw [hchild]
      exact h.running hs
    · exact h.running hn

/-- A handle goes from the running map to a task. -/
theorem Inv.takeOut (h : Inv w) (hi : w.tasks[i]? = some t)
    (hs : w.shared.running[t.name]? = some service) (hpc : t.pc.Follows pc (some service.child))
    (hchild : t.pc.child = none) :
    Inv { w with
      shared := { w.shared with running := w.shared.running.erase t.name }
      tasks := w.tasks.set i { t with pc := pc } } := by
  have hentry : w.custody (.running t.name) = some service.child := by
    show (w.shared.running[t.name]?).map _ = _
    rw [hs]
    rfl
  have htask : w.custody (.task i) = none := by
    show (w.tasks[i]?).bind _ = _
    rw [hi]
    exact hchild
  refine h.of_old ?_ id id (fun hn => h.running (lookup_of_erase hn).2) fun {j u} hj => ?_
  · show Custody _ (held (w.shared.running.erase t.name) (w.tasks.set i { t with pc := pc }))
    rw [held_set hi, held_erase]
    show Custody _ (update _ _ pc.child)
    rw [hpc.child]
    refine h.keeps.move hentry fun c hc => ?_
    cases htask.symm.trans hc
  · rcases getElem?_set_cases hj with ⟨-, rfl⟩ | ⟨-, hj⟩
    · refine ⟨fun c hc => ?_, fun c hcreating => ?_⟩
      · cases hpc.child.symm.trans hc
        exact h.running hs
      · cases hpc.creating.symm.trans hcreating
    · exact h.same hj

/-- A handle goes from a task to the running map, over nothing or over the
entry of a dead child. -/
theorem Inv.putIn (h : Inv w) (hi : w.tasks[i]? = some t) (hchild : t.pc.child = some service.child)
    (hold : ∀ old, w.shared.running[t.name]? = some old → w.shared.alive old.child = false)
    (hnone : pc.child = none) (hcreating : pc.creating = false) :
    Inv { w with
      shared := { w.shared with running := w.shared.running.insert t.name service }
      tasks := w.tasks.set i { t with pc := pc } } := by
  have htask : w.custody (.task i) = some service.child := by
    show (w.tasks[i]?).bind _ = _
    rw [hi]
    exact hchild
  refine h.of_old ?_ id id (fun hn => ?_) fun {j u} hj => ?_
  · show Custody _ (held (w.shared.running.insert t.name service)
      (w.tasks.set i { t with pc := pc }))
    rw [held_insert, held_set hi]
    show Custody _ (update (update _ _ pc.child) _ _)
    rw [hnone]
    refine h.keeps.move htask fun c hc => ?_
    obtain ⟨old, hs, rfl⟩ := Option.map_eq_some_iff.mp hc
    rw [hold old hs]
    exact Bool.false_ne_true
  · rcases lookup_of_insert hn with ⟨rfl, rfl⟩ | hn
    · exact h.task hi hchild
    · exact h.running hn
  · rcases getElem?_set_cases hj with ⟨-, rfl⟩ | ⟨-, hj⟩
    · refine ⟨fun c hc => ?_, fun c hpc => ?_⟩
      · cases hnone.symm.trans hc
      · cases hcreating.symm.trans hpc
    · exact h.same hj

theorem Pc.reserved_of_creating (h : pc.creating = true) : pc.reserved = true := by
  cases pc <;> first | rfl | cases h

/-- A start spawns its runner: there is no other live one of its service. -/
theorem Inv.spawn (h : Inv w) (hres : Reservations w) (hi : w.tasks[i]? = some t)
    (hpc : t.pc = .launch) (runnerId : Uuid) :
    Inv { w with
      shared := { w.shared with processes := w.shared.processes ++ [⟨t.name, true⟩] }
      tasks := w.tasks.set i { t with pc := .insert runnerId w.shared.processes.length } } := by
  -- the new process is the last of the table; the others are as before
  have hlive : ∀ {name : String} {c : Nat},
      (w.shared.processes ++ [⟨t.name, true⟩])[c]? = some (Process.mk name true) →
      w.shared.LiveFor name c ∨ c = w.shared.processes.length ∧ name = t.name := by
    intro name c hc
    rcases getElem?_concat_cases hc with hold | ⟨hlast, heq⟩
    · exact .inl hold
    · exact .inr ⟨hlast, (Process.mk.inj heq).1⟩
  have hservice : ∀ {name : String} {c : Nat}, w.shared.ServiceOf c name →
      ∃ alive, (w.shared.processes ++ [⟨t.name, true⟩])[c]? = some (Process.mk name alive) :=
    fun ⟨alive, hc⟩ => ⟨alive, getElem?_concat_of_some hc⟩
  -- the start has found no live process of its service
  have hnone : ∀ {c : Nat}, ¬ w.shared.LiveFor t.name c := by
    intro c hc
    have := h.creating hi (by rw [hpc]; rfl) hc
    rw [hpc] at this
    cases this
  have hbound : ∀ {name : String} {c : Nat}, w.shared.ServiceOf c name →
      c < w.shared.processes.length :=
    fun ⟨_, hc⟩ => (List.getElem?_eq_some_iff.mp hc).1
  have hfresh : ∀ p, w.custody p ≠ some w.shared.processes.length := by
    intro p hp
    cases p with
    | running name =>
      obtain ⟨service, hs, heq⟩ := Option.map_eq_some_iff.mp hp
      exact absurd (hbound (h.running hs)) (by omega)
    | task j =>
      obtain ⟨u, hj, hu⟩ := Option.bind_eq_some_iff.mp hp
      exact absurd (hbound (h.task hj hu)) (by omega)
  have htask : w.custody (.task i) = none := by
    show (w.tasks[i]?).bind _ = _
    rw [hi]
    show t.pc.child = none
    rw [hpc]
    rfl
  refine ⟨?_, fun hs => hservice (h.running hs), fun {j u c} hj hc => ?_,
    fun {name c d} hc hd => ?_, fun {j u c} hj hu hc => ?_⟩
  · show Custody _ (held w.shared.running (w.tasks.set i _))
    rw [held_set hi]
    refine (h.keeps.place hfresh htask).forget fun c hc => ?_
    obtain ⟨name, hl⟩ := alive_iff_liveFor.mp hc
    rcases hlive hl with hl | ⟨rfl, -⟩
    · exact .inl hl.alive
    · exact .inr rfl
  · rcases getElem?_set_cases hj with ⟨-, rfl⟩ | ⟨-, hj⟩
    · cases hc
      exact ⟨true, List.getElem?_concat_length⟩
    · exact hservice (h.task hj hc)
  · rcases hlive hc with hc | ⟨rfl, rfl⟩ <;> rcases hlive hd with hd | ⟨rfl, hname⟩
    · exact h.single hc hd
    · exact absurd (hname ▸ hc) hnone
    · exact absurd hd hnone
    · rfl
  · rcases getElem?_set_cases hj with ⟨-, rfl⟩ | ⟨hne, hj⟩
    · rcases hlive hc with hc | ⟨rfl, -⟩
      · exact absurd hc hnone
      · rfl
    · rcases hlive hc with hc | ⟨-, hname⟩
      · exact h.creating hj hu hc
      · -- no other start of this name is between its check and its insertion
        have hlaunch : t.pc.reserved = true := by rw [hpc]; rfl
        exact absurd (hres.exclusive hj hi (Pc.reserved_of_creating hu) hlaunch hname) hne

/-! ### Steps -/

/-- A start that finds no entry in the running map finds no live process of its
service either, unless a stop has one. -/
theorem Inv.no_live_of_check (h : Inv w) (hres : Reservations w) (hi : w.tasks[i]? = some t)
    (hpc : t.pc = .checkRunning) (hnone : w.shared.running[t.name]? = none)
    (hstop : ¬ w.StopHolds t.name) : ¬ w.shared.LiveFor t.name c := by
  intro hc
  obtain ⟨p, hp⟩ := h.keeps.covered hc.alive
  cases p with
  | running name =>
    obtain ⟨service, hs, rfl⟩ := Option.map_eq_some_iff.mp hp
    rw [hc.name_eq (h.running hs), hnone] at hs
    cases hs
  | task j =>
    obtain ⟨u, hj, hu⟩ := Option.bind_eq_some_iff.mp hp
    have hsame : u.name = t.name := hc.name_eq (h.task hj hu)
    rcases Pc.stopping_or_reserved hu with hstopping | hreserved
    · exact hstop ⟨u, List.mem_of_getElem? hj, hsame, c, hstopping, hc.alive⟩
    · -- a reserved task of this name is the start itself, which has no handle
      have hcheck : t.pc.reserved = true := by rw [hpc]; rfl
      obtain rfl := hres.exclusive hj hi hreserved hcheck hsame
      cases hi.symm.trans hj
      rw [hpc] at hu
      cases hu

/-- The entry that a start replaces is not of a live child. -/
theorem Inv.insert_over_dead (h : Inv w) (hi : w.tasks[i]? = some t) {runnerId : Uuid}
    (hpc : t.pc = .insert runnerId c) {old : RunningService}
    (hs : w.shared.running[t.name]? = some old) : w.shared.alive old.child = false := by
  by_contra halive
  have hl := (h.running hs).liveFor (by simpa using halive)
  have hc := h.creating hi (by rw [hpc]; rfl) hl
  -- otherwise its handle would be in the map and with the start
  have hmap : w.custody (.running t.name) = some old.child := by
    show (w.shared.running[t.name]?).map _ = _
    rw [hs]
    rfl
  have htask : w.custody (.task i) = some old.child := by
    show (w.tasks[i]?).bind _ = _
    rw [hi]
    exact hc
  cases h.keeps.unique hmap htask

variable {m : Shared} {input : Input}

theorem Inv.proceed (h : Inv w) (hres : Reservations w) (hi : w.tasks[i]? = some t)
    (hmove : Moves w.shared t input m pc) (hok : Orderly w (.proceed i input)) :
    Inv { w with shared := m, tasks := w.tasks.set i { t with pc := pc } } := by
  obtain ⟨hcheck, hkill⟩ := hok t hi
  -- only the check of the running map and the spawn lead to a `creating` place
  have hquiet : ∀ {m : Shared} {held : Option Nat}, t.pc.Follows pc held →
      ∀ c, pc.creating = true → m.LiveFor t.name c → pc.child = some c :=
    fun hpc _ hcreating => by cases hpc.creating.symm.trans hcreating
  have hlet : ∀ {m : Shared} {c : Nat}, Inv ⟨m, w.tasks⟩ → t.pc.child = some c →
      m.alive c = false → t.pc.Follows pc none → Inv ⟨m, w.tasks.set i { t with pc := pc }⟩ := by
    intro m c hm hc hdead hpc
    refine hm.setPc hi (.inr ⟨hpc.child, fun d hd => ?_⟩) (hquiet hpc)
    cases hc.symm.trans hd
    exact hdead
  cases hmove with
  | quiet hpc =>
    have hinv := h.setPc hi (.inl hpc.child) (hquiet hpc)
    exact ⟨hinv.keeps, hinv.running, hinv.task, hinv.single, hinv.creating⟩
  | reap hchild hpc =>
    exact (h.reapService t.name _).setPc hi (.inl (hpc.child.trans hchild.symm)) (hquiet hpc)
  | reserve hpc _ =>
    have hchild : Pc.reapAgain.child = t.pc.child := by rw [hpc]; rfl
    have hinv := h.setPc hi (.inl hchild) nofun
    exact ⟨hinv.keeps, hinv.running, hinv.task, hinv.single, hinv.creating⟩
  | free hpc hnone =>
    have hchild : Pc.launch.child = t.pc.child := by rw [hpc]; rfl
    refine h.setPc hi (.inl hchild) fun c _ hc => ?_
    exact absurd hc (h.no_live_of_check hres hi hpc hnone (hcheck hpc hnone))
  | spawn hpc =>
    have hinv := h.spawn hres hi hpc input.runnerId
    exact ⟨hinv.keeps, hinv.running, hinv.task, hinv.single, hinv.creating⟩
  | insert hpc =>
    exact h.putIn hi (by rw [hpc]; rfl) (fun old hs => h.insert_over_dead hi hpc hs) rfl rfl
  | @takeStdin service _ hs hpc =>
    have hsame : { service with stdin := false }.child = service.child := rfl
    exact (h.setEntry hs hsame).setPc hi (.inl hpc.child) (hquiet hpc)
  | takeOut hs hchild hpc => exact h.takeOut hi hs hpc hchild
  | putBack hs hchild hpc =>
    refine h.putIn hi hchild (fun old hold => ?_) hpc.child hpc.creating
    cases hs.symm.trans hold
  | ended hdead hchild hpc => exact hlet h hchild hdead hpc
  | killed hchild hpc =>
    refine hlet (h.exit _) hchild ?_ hpc
    by_contra halive
    exact (exit_alive (by simpa using halive)).2 rfl
  | abandoned hgiven hfailed hpc =>
    refine hlet h (Pc.givenUp_eq_child hgiven) ?_ hpc
    by_contra halive
    cases hfailed.symm.trans (hkill _ hgiven (by simpa using halive))
  | @release result _ hchild =>
    have hsame : (Pc.returned result).child = t.pc.child := hchild.symm
    have hinv := h.setPc hi (.inl hsame) nofun
    exact ⟨hinv.keeps, hinv.running, hinv.task, hinv.single, hinv.creating⟩

theorem Inv.outside (h : Inv w) (hout : Outside w.shared m) : Inv { w with shared := m } := by
  cases hout with
  | reapFinished failing => exact h.reapFinished failing
  | markReady name =>
    unfold Shared.markReady
    split
    · next service hs =>
      have hsame : { service with isReady := true }.child = service.child := rfl
      exact h.setEntry hs hsame
    · exact h
  | signalReady runnerId =>
    unfold Shared.signalReady
    split
    · exact ⟨h.keeps, h.running, h.task, h.single, h.creating⟩
    · exact h
  | exit child => exact h.exit child

variable {a : Action}

theorem Inv.step (h : Inv w) (hres : Reservations w) (hok : Orderly w a)
    (hstep : step w a = some w') : Inv w' := by
  cases steps_of_step hstep with
  | arrive new hnew =>
    refine h.of_old ?_ id id h.running fun {j u} hj => ?_
    · show Custody _ (held w.shared.running (w.tasks ++ new))
      rw [held_append hnew]
      exact h.keeps
    · rcases getElem?_append_cases hj with hj | ⟨-, hmem⟩
      · exact h.same hj
      · rcases hnew u hmem with hpc | hpc <;> simp [hpc, Pc.child, Pc.creating]
  | outside hout => exact h.outside hout
  | proceed hi hmove => exact h.proceed hres hi hmove hok
  | drop hi =>
    refine h.setPc hi (.inr ⟨rfl, fun c hc => hok _ hi c hc⟩) fun c hcreating => ?_
    cases hcreating

theorem inv_of_run {as : List Action} (hok : RunMeets step Orderly World.init as)
    (hrun : run step World.init as = some w) : Inv w ∧ Reservations w := by
  have hkept : ∀ (w : World) (a : Action) (w' : World), Inv w ∧ Reservations w → Orderly w a →
      step w a = some w' → Inv w' ∧ Reservations w' :=
    fun _ _ _ ⟨h, hres⟩ hok hs => ⟨h.step hres hok hs, hres.step hs⟩
  exact run_invariant_of_meets hkept hok hrun ⟨inv_init, reservations_init⟩

/-! ### The steps that are not orderly -/

/-- A live child whose only handle is let go is lost. -/
theorem Inv.not_safe_of_lost (h : Inv w) (hi : w.tasks[i]? = some t) (hc : t.pc.child = some c)
    (halive : w.shared.alive c = true) (hnone : pc.child = none) : ¬ (w.setPc i t pc).Safe := by
  intro hsafe
  obtain ⟨p, hp, -⟩ := hsafe.accounted c halive
  have hcustody : (w.setPc i t pc).custody = update w.custody (.task i) pc.child :=
    held_set hi _
  have htask : w.custody (.task i) = some c := by
    show (w.tasks[i]?).bind _ = _
    rw [hi]
    exact hc
  rw [hcustody, hnone] at hp
  by_cases hpi : p = .task i
  · rw [hpi, update_self] at hp
    cases hp
  · rw [update_of_ne hpi] at hp
    exact hpi (h.keeps.unique hp htask)

/-- A start that has passed its check beside a live runner ends up with a second one. -/
theorem second_runner (hi : w.tasks[i]? = some t) (hpc : t.pc = .launch)
    (hlive : w.shared.LiveFor t.name c) :
    ∃ w', run step w [.proceed i (.smooth 0)] = some w' ∧ ¬ w'.Safe := by
  have hstep : step w (.proceed i (.smooth 0)) = some
      ⟨{ w.shared with
          pendingReady := w.shared.pendingReady.insert 0
          processes := w.shared.processes ++ [⟨t.name, true⟩] },
        w.tasks.set i { t with pc := .insert 0 w.shared.processes.length }⟩ := by
    simp [step, hi, advance, hpc, Input.smooth]
  refine ⟨_, by rw [run_cons, hstep]; rfl, fun hsafe => ?_⟩
  have hlt : c < w.shared.processes.length := (List.getElem?_eq_some_iff.mp hlive).1
  have hold : (w.shared.processes ++ [⟨t.name, true⟩])[c]? = some (Process.mk t.name true) :=
    getElem?_concat_of_some hlive
  have hnew : (w.shared.processes ++ [⟨t.name, true⟩])[w.shared.processes.length]?
      = some (Process.mk t.name true) := List.getElem?_concat_length
  exact absurd (hsafe.single hold hnew) (by omega)

/-- The kill at the end of a call fails: the task goes on without the handle. -/
theorem advance_of_givenUp {m' : Shared} (h : advance m t input = some (m', pc))
    (hc : t.pc.givenUp = some c) (hkill : input.killed ≠ .ok ()) : m' = m ∧ pc.child = none := by
  rcases hk : input.killed with e | ⟨⟩
  · obtain ⟨name, replacing, pc₀⟩ := t
    cases pc₀ <;> try cases hc
    · simp only [advance, hk] at h
      cases h
      exact ⟨rfl, rfl⟩
    · simp only [advance, hk] at h
      cases h
      exact ⟨rfl, (follows_afterStop rfl _).child⟩
  · exact absurd hk hkill

/-- Each step that is not orderly leads out of the safe states. -/
theorem not_safe_of_not_orderly (h : Inv w) (hstep : step w a = some w') (hbad : ¬ Orderly w a) :
    ∃ bs w'', run step w' bs = some w'' ∧ ¬ w''.Safe := by
  cases a with
  | start | stop | replace | stopAll | reapFinished | markReady | signalReady | exit =>
    exact absurd trivial hbad
  | drop i =>
    obtain ⟨t, hi, rfl⟩ := Option.map_eq_some_iff.mp hstep
    refine ⟨[], _, rfl, ?_⟩
    simp only [Orderly, not_forall] at hbad
    obtain ⟨u, hu, c, hc, halive⟩ := hbad
    cases hi.symm.trans hu
    exact h.not_safe_of_lost hi hc (by simpa using halive) rfl
  | proceed i input =>
    obtain ⟨t, hi, hstep⟩ := Option.bind_eq_some_iff.mp hstep
    obtain ⟨⟨m, pc⟩, hadv, rfl⟩ := Option.map_eq_some_iff.mp hstep
    simp only [Orderly, not_forall] at hbad
    obtain ⟨u, hu, hbad⟩ := hbad
    cases hi.symm.trans hu
    rcases not_and_or.mp hbad with hcheck | hkill
    · simp only [not_forall, not_not] at hcheck
      obtain ⟨hpc, hnone, u, hmem, hname, c, hstopping, halive⟩ := hcheck
      -- the start is let in although the stop `u` has the live child `c`
      simp only [advance, hpc, hnone] at hadv
      cases hadv
      obtain ⟨j, hj⟩ := List.getElem?_of_mem hmem
      have hlive : w.shared.LiveFor t.name c :=
        hname ▸ (h.task hj (Pc.stopping_eq_child hstopping)).liveFor halive
      have hlt : i < w.tasks.length := (List.getElem?_eq_some_iff.mp hi).1
      have hi' : (w.setPc i t .launch).tasks[i]? = some { t with pc := .launch } :=
        List.getElem?_set_self hlt
      exact ⟨_, second_runner hi' rfl hlive⟩
    · simp only [not_forall] at hkill
      obtain ⟨c, hc, halive, hkill⟩ := hkill
      obtain ⟨rfl, hnone⟩ := advance_of_givenUp hadv hc hkill
      exact ⟨[], _, rfl, h.not_safe_of_lost hi (Pc.givenUp_eq_child hc) halive hnone⟩

/-! ### No live entry is overwritten -/

theorem lookup_of_reapFinishedService {name n : String} {fails : Bool}
    (h : (m.reapFinishedService name fails).running[n]? = some service) :
    m.running[n]? = some service := by
  unfold Shared.reapFinishedService at h
  split at h
  · split at h
    · exact (lookup_of_erase h).2
    · exact h
  · exact h

theorem lookup_of_reapFinished {failing : List String} {n : String}
    (h : (m.reapFinished failing).running[n]? = some service) : m.running[n]? = some service := by
  unfold Shared.reapFinished at h
  generalize m.running.keys = names at h
  induction names generalizing m with
  | nil => exact h
  | cons name names ih => exact lookup_of_reapFinishedService (ih h)

variable {name : String} {old new : RunningService}

theorem Outside.child_eq {m' : Shared} (h : Outside m m') (hold : m.running[name]? = some old)
    (hnew : m'.running[name]? = some new) : new.child = old.child := by
  have hsame : ∀ {s}, m.running[name]? = some s → s.child = old.child :=
    fun hs => by cases hold.symm.trans hs; rfl
  cases h with
  | reapFinished failing => exact hsame (lookup_of_reapFinished hnew)
  | markReady n =>
    unfold Shared.markReady at hnew
    split at hnew
    · next service hs =>
      rcases lookup_of_insert hnew with ⟨rfl, rfl⟩ | hnew
      · show service.child = old.child
        exact hsame hs
      · exact hsame hnew
    · exact hsame hnew
  | signalReady runnerId =>
    unfold Shared.signalReady at hnew
    split at hnew <;> exact hsame hnew
  | exit child => exact hsame hnew

/-- An entry of a live child is not replaced by another one. -/
theorem Inv.child_eq (h : Inv w) (hstep : Supervisor.step w a = some w')
    (hold : w.shared.running[name]? = some old) (hnew : w'.shared.running[name]? = some new)
    (halive : w.shared.alive old.child = true) : new.child = old.child := by
  have hsame : ∀ {s}, w.shared.running[name]? = some s → s.child = old.child :=
    fun hs => by cases hold.symm.trans hs; rfl
  cases steps_of_step hstep with
  | arrive _ _ | drop _ => exact hsame hnew
  | outside hout => exact hout.child_eq hold hnew
  | proceed hi hmove =>
    cases hmove with
    | quiet | reserve | free | spawn | ended | killed | abandoned | release => exact hsame hnew
    | reap => exact hsame (lookup_of_reapFinishedService hnew)
    | insert hpc =>
      rcases lookup_of_insert hnew with ⟨rfl, rfl⟩ | hnew
      · cases (h.insert_over_dead hi hpc hold).symm.trans halive
      · exact hsame hnew
    | @takeStdin service _ hs =>
      rcases lookup_of_insert hnew with ⟨rfl, rfl⟩ | hnew
      · show service.child = old.child
        exact hsame hs
      · exact hsame hnew
    | takeOut => exact hsame (lookup_of_erase hnew).2
    | putBack hs =>
      rcases lookup_of_insert hnew with ⟨rfl, rfl⟩ | hnew
      · cases hs.symm.trans hold
      · exact hsame hnew

/-- **Every live runner is accounted for.**  In every run whose steps are
orderly, each live runner process is in exactly one place, each service has at
most one, and no step puts another runner over the entry of a live one.  A
step that is not orderly leads to a state in which this is lost. -/
theorem runners_accounted {as : List Action} (hok : RunMeets step Orderly World.init as)
    (hrun : run step World.init as = some w) :
    w.Safe
    ∧ (∀ (a : Action) (w' : World) (name : String) (old new : RunningService),
        step w a = some w' → w.shared.running[name]? = some old →
        w'.shared.running[name]? = some new → w.shared.alive old.child = true →
        new.child = old.child)
    ∧ ∀ (a : Action) (w' : World), step w a = some w' → ¬ Orderly w a →
        ∃ bs w'', run step w' bs = some w'' ∧ ¬ w''.Safe := by
  obtain ⟨h, -⟩ := inv_of_run hok hrun
  exact ⟨h.safe, fun _ _ _ _ _ hs hold hnew halive => h.child_eq hs hold hnew halive,
    fun _ _ hs hbad => not_safe_of_not_orderly h hs hbad⟩

/-- A step in which everything goes well. -/
def go (i : Nat) : Action := .proceed i (.smooth 7)

/-- A step in which the runner cannot be ended. -/
def failStop (i : Nat) : Action :=
  .proceed i
    { Input.smooth 7 with killed := .error (.new .internal stageStop "runner wait failed") }

/-- A service starts and becomes ready, and a stop takes its runner out. -/
def takenOut : List Action :=
  [.start "svc", go 0, go 0, go 0, go 0, go 0, go 0, go 0, go 0, .markReady "svc", .signalReady 7,
    go 0, go 0, go 0, .stop "svc", go 1, go 1]

/-- A second start looks at the running map and finds it empty; the stop fails
and puts the runner back before the start spawns and inserts its own. -/
def overwriteRun : List Action :=
  takenOut ++ [.start "svc", go 2, go 2, go 2, go 2, failStop 1, go 1, go 1, go 2]

/-- After this run the start's insertion drops the handle of the live process
`0`; two live runners of the service are left and nobody can stop the first. -/
theorem live_runner_overwritten :
    ∃ w w', run step World.init overwriteRun = some w
      ∧ step w (.proceed 2 (.smooth 7)) = some w'
      ∧ (w.shared.running["svc"]?).map (·.child) = some 0
      ∧ w'.shared.processes = [⟨"svc", true⟩, ⟨"svc", true⟩]
      ∧ w'.shared.running.toList.map (fun entry => (entry.1, entry.2.child)) = [("svc", 1)]
      ∧ w'.tasks.map (·.pc.child) = [none, none, none]
      ∧ ¬ w'.Safe := by
  refine ⟨_, _, rfl, rfl, rfl, rfl, rfl, rfl, fun hsafe => ?_⟩
  cases @World.Safe.single _ hsafe "svc" 0 1 rfl rfl

theorem Orderly.of_pc (hi : w.tasks[i]? = some t) (hcheck : t.pc ≠ .checkRunning)
    (hgiven : t.pc.givenUp = none) : Orderly w (.proceed i input) := by
  intro u hu
  cases hi.symm.trans hu
  exact ⟨fun hpc => absurd hpc hcheck, fun c hc => by cases hgiven.symm.trans hc⟩

/-- The stop cannot end the runner and puts it back. -/
def restoreRun : List Action := takenOut ++ [failStop 1, go 1, go 1]

theorem runners_accounted_restore :
    ∃ w, run step World.init restoreRun = some w ∧ w.shared.alive 0 = true ∧ w.Safe := by
  have hok : RunMeets step Orderly World.init restoreRun := by
    refine .cons trivial rfl ?_
    iterate 3 refine .cons (Orderly.of_pc rfl Pc.noConfusion rfl) rfl ?_
    -- the check of the running map: there is no stop yet
    refine .cons (fun t ht => ?_) rfl ?_
    · cases ht
      refine ⟨fun _ _ => ?_, nofun⟩
      rintro ⟨u, hu, -, c, hc, -⟩
      cases List.mem_singleton.mp hu
      cases hc
    iterate 4 refine .cons (Orderly.of_pc rfl Pc.noConfusion rfl) rfl ?_
    iterate 2 refine .cons trivial rfl ?_
    iterate 3 refine .cons (Orderly.of_pc rfl Pc.noConfusion rfl) rfl ?_
    refine .cons trivial rfl ?_
    iterate 5 refine .cons (Orderly.of_pc rfl Pc.noConfusion rfl) rfl ?_
    trivial
  have hall := fun w (hrun : run step World.init restoreRun = some w) => runners_accounted hok hrun
  exact ⟨_, rfl, rfl, (hall _ rfl).1⟩

end Imago.Supervisor
