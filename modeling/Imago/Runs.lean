/-
Imago/Runs.lean

Runs of a partial step function.  A system is a function
`step : σ → α → Option σ`: in state `s` the action `a` either is not possible
(`none`) or leads to one next state.  Every choice that the system does not
make itself (which task moves, what the clock reads, whether a write fails)
is part of the action, so a *list of actions* names one interleaving and
`run step s as` computes its result.

Two induction rules carry the safety proofs of the project:

* `run_invariant`: what every step keeps, every run keeps;
* `run_invariant_of_meets`: the same when only the steps that meet a side
  condition `ok` keep it, for the runs all of whose steps meet `ok`.

`Reaches.monotone` is the two-state form: a relation between the first and the
last state of a run that every step extends.

What holds at the end of a run because of something that was true *on the way*
is stated with `Visits` and proved with `run_history`, where the property may
speak of the run so far.
-/
import Mathlib.Data.List.Induction
import Mathlib.Logic.Relation

namespace Imago

variable {σ α : Type*}

/-- Take the actions of a list one after the other; `none` as soon as one of
them is not possible. -/
def run (step : σ → α → Option σ) : σ → List α → Option σ
  | s, [] => some s
  | s, a :: as => (step s a).bind fun s' => run step s' as

/-- Every action of the list meets `ok` in the state in which it is taken. -/
def RunMeets (step : σ → α → Option σ) (ok : σ → α → Prop) : σ → List α → Prop
  | _, [] => True
  | s, a :: as => ok s a ∧ ∀ s', step s a = some s' → RunMeets step ok s' as

/-- `s'` is reached from `s` by some list of actions. -/
def Reaches (step : σ → α → Option σ) (s s' : σ) : Prop :=
  ∃ as, run step s as = some s'

variable {step : σ → α → Option σ}

@[simp] theorem run_nil (s : σ) : run step s [] = some s := rfl

theorem run_cons (s : σ) (a : α) (as : List α) :
    run step s (a :: as) = (step s a).bind fun s' => run step s' as := rfl

variable {Inv P : σ → Prop} {ok : σ → α → Prop} {as : List α} {s s' : σ} {a : α}

theorem run_cons_eq_some {s'' : σ} :
    run step s (a :: as) = some s''
      ↔ ∃ s', step s a = some s' ∧ run step s' as = some s'' := by
  rw [run_cons, Option.bind_eq_some_iff]

theorem run_append (s : σ) (as bs : List α) :
    run step s (as ++ bs) = (run step s as).bind fun s' => run step s' bs := by
  induction as generalizing s with
  | nil => rfl
  | cons a as ih =>
    rw [List.cons_append, run_cons, run_cons, Option.bind_assoc]
    exact congrArg _ (funext fun s' => ih s')

/-! ### Reachability -/

theorem Reaches.refl (s : σ) : Reaches step s s := ⟨[], rfl⟩

theorem Reaches.tail {s'' : σ} (h : Reaches step s s') (hstep : step s' a = some s'') :
    Reaches step s s'' := by
  obtain ⟨as, has⟩ := h
  refine ⟨as ++ [a], ?_⟩
  rw [run_append, has, Option.bind_some, run_cons, hstep, Option.bind_some, run_nil]

theorem Reaches.trans {s'' : σ} (h : Reaches step s s') (h' : Reaches step s' s'') :
    Reaches step s s'' := by
  obtain ⟨as, has⟩ := h
  obtain ⟨bs, hbs⟩ := h'
  exact ⟨as ++ bs, by rw [run_append, has, Option.bind_some, hbs]⟩

/-! ### Induction rules -/

/-- What every step keeps, every run keeps. -/
theorem run_invariant (hstep : ∀ s a s', Inv s → step s a = some s' → Inv s')
    {s s' : σ} {as : List α} (h : run step s as = some s') (hs : Inv s) : Inv s' := by
  induction as generalizing s with
  | nil =>
    cases h
    exact hs
  | cons a as ih =>
    obtain ⟨s₁, h₁, h₂⟩ := run_cons_eq_some.mp h
    exact ih h₂ (hstep s a s₁ hs h₁)

theorem Reaches.invariant (hstep : ∀ s a s', Inv s → step s a = some s' → Inv s') {s s' : σ}
    (h : Reaches step s s') (hs : Inv s) : Inv s' := by
  obtain ⟨as, has⟩ := h
  exact run_invariant hstep has hs

/-- What every step that meets `ok` keeps, every run of such steps keeps. -/
theorem run_invariant_of_meets (hstep : ∀ s a s', Inv s → ok s a → step s a = some s' → Inv s')
    {s s' : σ} {as : List α} (hok : RunMeets step ok s as) (h : run step s as = some s')
    (hs : Inv s) : Inv s' := by
  induction as generalizing s with
  | nil =>
    cases h
    exact hs
  | cons a as ih =>
    obtain ⟨s₁, h₁, h₂⟩ := run_cons_eq_some.mp h
    exact ih (hok.2 s₁ h₁) h₂ (hstep s a s₁ hs hok.1 h₁)

theorem RunMeets.cons (hok : ok s a) (hs : step s a = some s') (h : RunMeets step ok s' as) :
    RunMeets step ok s (a :: as) := by
  refine ⟨hok, fun s'' hs'' => ?_⟩
  cases hs.symm.trans hs''
  exact h

/-- A side condition that the listed actions meet in every state. -/
theorem RunMeets.of_forall (h : ∀ a ∈ as, ∀ s, ok s a) (s : σ) : RunMeets step ok s as := by
  induction as generalizing s with
  | nil => trivial
  | cons a as ih =>
    exact ⟨h a (.head _) s,
      fun s' _ => ih (fun b hb => h b (.tail _ hb)) s'⟩

/-- `RunMeets` as a computation, for a side condition that can be tested. -/
def meetsBy (step : σ → α → Option σ) (test : σ → α → Bool) : σ → List α → Bool
  | _, [] => true
  | s, a :: as => test s a && (step s a).all fun s' => meetsBy step test s' as

theorem RunMeets.of_meetsBy {test : σ → α → Bool} (htest : ∀ s a, test s a = true → ok s a)
    (h : meetsBy step test s as = true) : RunMeets step ok s as := by
  induction as generalizing s with
  | nil => trivial
  | cons a as ih =>
    obtain ⟨ha, has⟩ := Bool.and_eq_true_iff.mp h
    refine ⟨htest s a ha, fun s' hs' => ih ?_⟩
    rw [hs'] at has
    exact has

/-- A reflexive and transitive relation that every step (from a state with
the invariant) respects relates the two ends of every run. -/
theorem Reaches.monotone {R : σ → σ → Prop} (hinv : ∀ s a s', Inv s → step s a = some s' → Inv s')
    (hrefl : ∀ s, R s s) (htrans : ∀ s s' s'', R s s' → R s' s'' → R s s'')
    (hstep : ∀ s a s', Inv s → step s a = some s' → R s s') (h : Reaches step s s') (hs : Inv s) :
    R s s' := by
  obtain ⟨as, has⟩ := h
  induction as generalizing s with
  | nil =>
    obtain rfl := Option.some.inj has
    exact hrefl s
  | cons a as ih =>
    obtain ⟨s₁, h₁, h₂⟩ := run_cons_eq_some.mp has
    exact htrans s s₁ s' (hstep s a s₁ hs h₁) (ih (hinv s a s₁ hs h₁) h₂)

/-! ### Runs with their history -/

/-- Some state of the run of `as` from `s`, the first and the last included,
satisfies `P`. -/
def Visits (step : σ → α → Option σ) (s : σ) (as : List α) (P : σ → Prop) : Prop :=
  ∃ bs cs s', as = bs ++ cs ∧ run step s bs = some s' ∧ P s'

theorem Visits.now (h : run step s as = some s') (hP : P s') : Visits step s as P :=
  ⟨as, [], s', (List.append_nil as).symm, h, hP⟩

/-- What was visited stays visited. -/
theorem Visits.append (h : Visits step s as P) (ds : List α) : Visits step s (as ++ ds) P := by
  obtain ⟨bs, cs, s', rfl, hrun, hP⟩ := h
  exact ⟨bs, cs ++ ds, s', List.append_assoc bs cs ds, hrun, hP⟩

theorem Visits.mono {Q : σ → Prop} (h : Visits step s as P) (hPQ : ∀ s', P s' → Q s') :
    Visits step s as Q := by
  obtain ⟨bs, cs, s', has, hrun, hP⟩ := h
  exact ⟨bs, cs, s', has, hrun, hPQ s' hP⟩

theorem run_concat {s'' : σ} :
    run step s (as ++ [a]) = some s''
      ↔ ∃ s', run step s as = some s' ∧ step s' a = some s'' := by
  rw [run_append, Option.bind_eq_some_iff]
  refine exists_congr fun s' => and_congr_right fun _ => ?_
  rw [run_cons, Option.bind_eq_some_iff]
  simp

/-- A property of a run and the state it ends in holds if the empty run has it
and one more action keeps it. -/
theorem run_history {Q : List α → σ → Prop} (hnil : Q [] s)
    (hstep : ∀ as s₁ a s₂, run step s as = some s₁ → Q as s₁ → step s₁ a = some s₂ →
      Q (as ++ [a]) s₂) (h : run step s as = some s') : Q as s' := by
  induction as using List.reverseRecOn generalizing s' with
  | nil =>
    cases h
    exact hnil
  | append_singleton as a ih =>
    obtain ⟨s₁, h₁, h₂⟩ := run_concat.mp h
    exact hstep as s₁ a s' h₁ (ih h₁) h₂

/-- A run meets a condition if its two parts do. -/
theorem runMeets_append {bs : List α} (h : run step s as = some s') :
    RunMeets step ok s (as ++ bs) ↔ RunMeets step ok s as ∧ RunMeets step ok s' bs := by
  induction as generalizing s with
  | nil =>
    cases h
    exact ⟨fun hok => ⟨trivial, hok⟩, fun hok => hok.2⟩
  | cons a as ih =>
    obtain ⟨s₁, h₁, h₂⟩ := run_cons_eq_some.mp h
    constructor
    · intro hok
      obtain ⟨has, hbs⟩ := (ih h₂).mp (hok.2 s₁ h₁)
      exact ⟨.cons hok.1 h₁ has, hbs⟩
    · rintro ⟨hok, hbs⟩
      exact .cons hok.1 h₁ ((ih h₂).mpr ⟨hok.2 s₁ h₁, hbs⟩)

/-- One more action meets the condition if it does so in the state reached. -/
theorem runMeets_concat (h : run step s as = some s') :
    RunMeets step ok s (as ++ [a]) ↔ RunMeets step ok s as ∧ ok s' a := by
  rw [runMeets_append h]
  exact and_congr_right fun _ => ⟨fun hok => hok.1, fun hok => ⟨hok, fun _ _ => trivial⟩⟩

/-! ### Tasks in a list

A state often holds a list of tasks, of which a step changes one or adds one. -/

variable {xs : List α} {i : Nat}

theorem getElem?_set_cases {j : Nat} {x y : α} (h : (xs.set i x)[j]? = some y) :
    (j = i ∧ y = x) ∨ (j ≠ i ∧ xs[j]? = some y) := by
  by_cases hij : i = j
  · subst hij
    rw [List.getElem?_set_self'] at h
    obtain ⟨z, -, rfl⟩ := Option.map_eq_some_iff.mp h
    exact .inl ⟨rfl, rfl⟩
  · rw [List.getElem?_set_ne hij] at h
    exact .inr ⟨fun h' => hij h'.symm, h⟩

theorem getElem?_concat_cases {x y : α} (h : (xs ++ [x])[i]? = some y) :
    xs[i]? = some y ∨ (i = xs.length ∧ y = x) := by
  rcases Nat.lt_or_ge i xs.length with hlt | hge
  · rw [List.getElem?_append_left hlt] at h
    exact .inl h
  · rw [List.getElem?_append_right hge, List.getElem?_singleton] at h
    split at h
    · exact .inr ⟨by omega, (Option.some.inj h).symm⟩
    · cases h

/-- What holds of every task holds when one of them is replaced by a task it holds of. -/
theorem forall_set {P : Nat → α → Prop} {x : α} (h : ∀ j y, xs[j]? = some y → P j y)
    (hx : P i x) : ∀ j y, (xs.set i x)[j]? = some y → P j y := by
  intro j y hj
  rcases getElem?_set_cases hj with ⟨rfl, rfl⟩ | ⟨-, hj⟩
  · exact hx
  · exact h j y hj

theorem forall_concat {P : Nat → α → Prop} {x : α} (h : ∀ j y, xs[j]? = some y → P j y)
    (hx : P xs.length x) : ∀ j y, (xs ++ [x])[j]? = some y → P j y := by
  intro j y hj
  rcases getElem?_concat_cases hj with hj | ⟨rfl, rfl⟩
  · exact h j y hj
  · exact hx

theorem getElem?_append_cases {ys : List α} {y : α} (h : (xs ++ ys)[i]? = some y) :
    xs[i]? = some y ∨ (xs.length ≤ i ∧ y ∈ ys) := by
  rcases Nat.lt_or_ge i xs.length with hlt | hge
  · rw [List.getElem?_append_left hlt] at h
    exact .inl h
  · rw [List.getElem?_append_right hge] at h
    exact .inr ⟨hge, List.mem_of_getElem? h⟩

theorem getElem?_concat_of_some {x y : α} (h : xs[i]? = some y) : (xs ++ [x])[i]? = some y := by
  obtain ⟨hlt, -⟩ := List.getElem?_eq_some_iff.mp h
  rwa [List.getElem?_append_left hlt]

end Imago
