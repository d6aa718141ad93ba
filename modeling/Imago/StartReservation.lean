/-
Imago/StartReservation.lean

How long a start keeps its name in `starting_services`.  Every return path of
`start_internal` ends with `release_start`, so a start that runs to its end
leaves nothing behind.  The release is an ordinary call, though, not a guard:
a start whose future is dropped after `reserve_start` never makes it.

`starting_iff_start_running`: as long as no start is dropped between its
reservation and its release, a name is in the set exactly while a start of
that service is under way.  The one other case is final: the name of a start
that is dropped in between stays in the set in every later state, and every
later start of the service is refused (`Stuck`).
-/
import Imago.Supervisor

namespace Imago.Supervisor

open Std (TreeSet)

/-- A start is dropped between its reservation and its release. -/
def DropsReserved (w : World) : Action → Prop
  | .drop i => ∃ t : Task, w.tasks[i]? = some t ∧ t.pc.reserved = true
  | _ => False

/-- A start of the service is under way, between its reservation and its release. -/
def World.Starting (w : World) (name : String) : Prop :=
  ∃ (i : Nat) (t : Task), w.tasks[i]? = some t ∧ t.name = name ∧ t.pc.reserved = true

/-- The name is reserved and nobody is left to release it. -/
structure Stuck (name : String) (w : World) : Prop where
  listed : name ∈ w.shared.startingServices
  nobody : ¬ w.Starting name

variable {w w' : World} {a : Action} {name : String}

/-! ### A reservation belongs to a start -/

theorem mem_of_insert {names : TreeSet String} {new : String} (h : name ∈ names.insert new) :
    name = new ∨ name ∈ names := by
  rcases TreeSet.mem_insert.mp h with heq | h
  · exact .inl (Std.LawfulEqCmp.compare_eq_iff_eq.mp heq).symm
  · exact .inr h

theorem mem_of_erase {names : TreeSet String} {gone : String} (h : name ∈ names.erase gone) :
    name ≠ gone ∧ name ∈ names := by
  obtain ⟨hne, h⟩ := TreeSet.mem_erase.mp h
  exact ⟨fun heq => hne (by rw [heq]; exact Std.ReflCmp.compare_self), h⟩

/-- Another task than the one that moves keeps the name as it was. -/
theorem World.Starting.of_set {i : Nat} {t u : Task} {m : Shared} (hi : w.tasks[i]? = some t)
    (h : w.Starting name)
    (hu : t.name = name → t.pc.reserved = true → u.name = name ∧ u.pc.reserved = true) :
    World.Starting ⟨m, w.tasks.set i u⟩ name := by
  obtain ⟨j, v, hj, hname, hres⟩ := h
  by_cases hji : j = i
  · subst hji
    cases hi.symm.trans hj
    have hlt : j < w.tasks.length := (List.getElem?_eq_some_iff.mp hi).1
    exact ⟨j, u, List.getElem?_set_self hlt, hu hname hres⟩
  · have hj' : (w.tasks.set i u)[j]? = some v := by rwa [List.getElem?_set_ne (Ne.symm hji)]
    exact ⟨j, v, hj', hname, hres⟩

/-- The step keeps: whatever name is reserved, a start of it is under way. -/
theorem starting_step (h : ∀ name ∈ w.shared.startingServices, w.Starting name)
    (hok : ¬ DropsReserved w a) (hstep : step w a = some w') :
    ∀ name ∈ w'.shared.startingServices, w'.Starting name := by
  intro name hname
  cases steps_of_step hstep with
  | arrive new _ =>
    obtain ⟨i, t, hi, ht⟩ := h name hname
    obtain ⟨hlt, -⟩ := List.getElem?_eq_some_iff.mp hi
    exact ⟨i, t, (List.getElem?_append_left hlt).trans hi, ht⟩
  | outside hout =>
    have hname' : name ∈ w.shared.startingServices := hout.startingServices ▸ hname
    exact h name hname'
  | @proceed i input t m pc hi hmove =>
    have hname : name ∈ m.startingServices := hname
    rcases hmove.reservation with ⟨hset, hres⟩ | ⟨-, hres, hfree, hset⟩ | ⟨-, -, hset⟩
    · rw [hset] at hname
      exact (h name hname).of_set hi fun hn ht => ⟨hn, hres.trans ht⟩
    · rw [hset] at hname
      rcases mem_of_insert hname with rfl | hold
      · -- the name that has just been reserved, by the task that moves
        have hlt : i < w.tasks.length := (List.getElem?_eq_some_iff.mp hi).1
        exact ⟨i, { t with pc := pc }, List.getElem?_set_self hlt, rfl, hres⟩
      · exact (h name hold).of_set hi fun hn _ => ⟨hn, hres⟩
    · rw [hset] at hname
      obtain ⟨hne, hold⟩ := mem_of_erase hname
      exact (h name hold).of_set hi fun hn _ => absurd hn.symm hne
  | drop hi =>
    exact (h name hname).of_set hi fun _ hres => absurd ⟨_, hi, hres⟩ hok

/-! ### A reservation without a start -/

theorem stuck_of_drop (hres : Reservations w) {i : Nat} {t : Task} (hi : w.tasks[i]? = some t)
    (ht : t.pc.reserved = true) (hstep : step w (.drop i) = some w') : Stuck t.name w' := by
  obtain ⟨t', hi', rfl⟩ := Option.map_eq_some_iff.mp hstep
  cases hi.symm.trans hi'
  refine ⟨hres.listed hi ht, ?_⟩
  rintro ⟨j, u, hj, hname, hu⟩
  rcases getElem?_set_cases hj with ⟨-, rfl⟩ | ⟨hne, hj⟩
  · cases hu
  · exact hne (hres.exclusive hj hi hu ht hname)

/-- Nothing that can happen later frees the name. -/
theorem Stuck.step (h : Stuck name w) (hstep : step w a = some w') : Stuck name w' := by
  have hold : ∀ {i : Nat} {t : Task}, w.tasks[i]? = some t → t.name = name →
      t.pc.reserved = true → False := fun hi hn ht => h.nobody ⟨_, _, hi, hn, ht⟩
  cases steps_of_step hstep with
  | arrive new hnew =>
    refine ⟨h.listed, ?_⟩
    rintro ⟨i, t, hi, hn, ht⟩
    rcases getElem?_append_cases hi with hi | ⟨-, hmem⟩
    · exact hold hi hn ht
    · cases (hnew t hmem).reserved.symm.trans ht
  | outside hout => exact ⟨hout.startingServices.symm ▸ h.listed, h.nobody⟩
  | @proceed i input t m pc hi hmove =>
    have hothers : ∀ {j : Nat} {u : Task}, (w.tasks.set i { t with pc := pc })[j]? = some u →
        u.name = name → u.pc.reserved = true → t.name = name ∧ pc.reserved = true := by
      intro j u hj hn hu
      rcases getElem?_set_cases hj with ⟨-, rfl⟩ | ⟨-, hj⟩
      · exact ⟨hn, hu⟩
      · exact absurd hu fun hu => hold hj hn hu
    rcases hmove.reservation with ⟨hset, hres⟩ | ⟨-, -, hfree, hset⟩ | ⟨hres, hres', hset⟩
    · refine ⟨hset.symm ▸ h.listed, ?_⟩
      rintro ⟨j, u, hj, hn, hu⟩
      obtain ⟨hn, hpc⟩ := hothers hj hn hu
      exact hold hi hn (hres.symm.trans hpc)
    · -- a start can only reserve another name
      refine ⟨hset.symm ▸ TreeSet.mem_insert.mpr (.inr h.listed), ?_⟩
      rintro ⟨j, u, hj, hn, hu⟩
      obtain ⟨hn, -⟩ := hothers hj hn hu
      exact hfree (hn ▸ h.listed)
    · -- a start can only release the name it has reserved
      have hne : compare t.name name ≠ .eq := fun heq =>
        hold hi (Std.LawfulEqCmp.compare_eq_iff_eq.mp heq) hres
      refine ⟨hset.symm ▸ TreeSet.mem_erase.mpr ⟨hne, h.listed⟩, ?_⟩
      rintro ⟨j, u, hj, hn, hu⟩
      cases hres'.symm.trans (hothers hj hn hu).2
  | drop hi =>
    refine ⟨h.listed, ?_⟩
    rintro ⟨j, u, hj, hn, hu⟩
    rcases getElem?_set_cases hj with ⟨-, rfl⟩ | ⟨-, hj⟩
    · cases hu
    · exact hold hj hn hu

/-- A start that comes to a stuck name is refused. -/
theorem Stuck.refuses (h : Stuck name w) {t : Task} (hname : t.name = name) (hpc : t.pc = .reserve)
    (input : Input) :
    advance w.shared t input
      = some (w.shared, .returned (.error (startBusyError name))) := by
  simp only [advance, hpc, hname, if_pos h.listed]

/-! ### The result -/

/-- **A name is reserved exactly while a start of it is under way**, in every
run in which no start is dropped between its reservation and its release; so a
start is refused for its reservation only because of another start that is
still there.  A start that is dropped in between leaves its name reserved for
good, and every later start of the service is refused. -/
theorem starting_iff_start_running {as : List Action}
    (hok : RunMeets step (fun w a => ¬ DropsReserved w a) World.init as)
    (hrun : run step World.init as = some w) :
    (∀ name, name ∈ w.shared.startingServices ↔ w.Starting name)
    ∧ (∀ (t : Task) (input : Input) (m : Shared), t.pc = .reserve →
        advance w.shared t input = some (m, .returned (.error (startBusyError t.name))) →
        w.Starting t.name)
    ∧ ∀ (i : Nat) (t : Task) (w' : World), w.tasks[i]? = some t → t.pc.reserved = true →
        step w (.drop i) = some w' → ∀ (bs : List Action) (w'' : World),
        run step w' bs = some w'' → t.name ∈ w''.shared.startingServices
          ∧ ¬ w''.Starting t.name
          ∧ ∀ (u : Task) (input : Input), u.name = t.name → u.pc = .reserve →
              advance w''.shared u input
                = some (w''.shared, .returned (.error (startBusyError t.name))) := by
  have hres : Reservations w := reservations_of_run hrun
  have hinit : ∀ name ∈ World.init.shared.startingServices, World.init.Starting name :=
    fun name h => by simp [World.init] at h
  have hkept : ∀ (w : World) (a : Action) (w' : World),
      (∀ name ∈ w.shared.startingServices, w.Starting name) → ¬ DropsReserved w a →
      step w a = some w' → ∀ name ∈ w'.shared.startingServices, w'.Starting name :=
    fun _ _ _ h hok hs => starting_step h hok hs
  have howner := run_invariant_of_meets hkept hok hrun hinit
  refine ⟨fun name => ⟨howner name, ?_⟩, fun t input m hpc hadv => ?_,
    fun i t w' hi ht hdrop bs w'' hrun' => ?_⟩
  · rintro ⟨i, t, hi, rfl, ht⟩
    exact hres.listed hi ht
  · -- the only refusal at this point is for a name in the set
    by_contra hnobody
    have hfree : t.name ∉ w.shared.startingServices := fun hin => hnobody (howner _ hin)
    simp only [advance, hpc, if_neg hfree] at hadv
    cases hadv
  · have hstuck : Stuck t.name w'' :=
      run_invariant (fun _ _ _ h hs => Stuck.step h hs) hrun' (stuck_of_drop hres hi ht hdrop)
    exact ⟨hstuck.listed, hstuck.nobody, fun u input hn hpc => hstuck.refuses hn hpc input⟩

/-- A start goes through; a second one, of another service, is under way. -/
def twoStarts : List Action :=
  let go (i : Nat) : Action := .proceed i (.smooth 7)
  [.start "svc", go 0, go 0, go 0, go 0, go 0, go 0, go 0, go 0, .signalReady 7, go 0, go 0, go 0,
    .start "web", go 1, go 1]

theorem starting_iff_start_running_two :
    ∃ w, run step World.init twoStarts = some w
      ∧ "web" ∈ w.shared.startingServices ∧ w.Starting "web"
      ∧ "svc" ∉ w.shared.startingServices ∧ ¬ w.Starting "svc" := by
  have hok : RunMeets step (fun w a => ¬ DropsReserved w a) World.init twoStarts := by
    refine RunMeets.of_forall (fun a ha w => ?_) _
    simp only [twoStarts, List.mem_cons, List.not_mem_nil, or_false] at ha
    rcases ha with rfl | rfl | rfl | rfl | rfl | rfl | rfl | rfl | rfl | rfl | rfl | rfl | rfl
      | rfl | rfl | rfl <;> exact id
  have hall := fun w (hrun : run step World.init twoStarts = some w) =>
    (starting_iff_start_running hok hrun).1
  have hin : "web" ∈ ((run step World.init twoStarts).get rfl).shared.startingServices := by decide
  have hout : "svc" ∉ ((run step World.init twoStarts).get rfl).shared.startingServices := by decide
  exact ⟨_, rfl, hin, (hall _ rfl _).mp hin, hout, fun h => hout ((hall _ rfl _).mpr h)⟩

/-- **A dropped start blocks its service**: the first start is dropped right
after its reservation; the second one finds no runner, no process and no other
start, and is refused as if the service were running. -/
theorem dropped_start_blocks :
    ∃ w w', run step World.init [.start "svc", .proceed 0 (.smooth 7), .proceed 0 (.smooth 7),
        .drop 0, .start "svc", .proceed 1 (.smooth 7)] = some w
      ∧ w.shared.processes = [] ∧ w.shared.running.toList = []
      ∧ w.tasks.map (·.pc.reserved) = [false, false]
      ∧ step w (.proceed 1 (.smooth 7)) = some w'
      ∧ (w'.tasks[1]?).map (·.pc) = some (.returned (.error (startBusyError "svc"))) :=
  ⟨_, _, rfl, rfl, rfl, rfl, rfl, rfl⟩

end Imago.Supervisor
