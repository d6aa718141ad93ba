/-
Imago/UndisturbedCalls.lean

Calls of the store that run alone.  `Served cfg w call now later w' answer`
says that from `w` on only `call` takes steps, that none of its file
operations fails, and that it has returned `answer` in `w'`.

What such a call can do next is listed once, by `Proceeds`.  Each of these
steps brings the call closer to its end (`Proceeds.closer`), so that a
property of its points which lets it go on also lets it finish
(`exists_served`).  The specifications of `prepare`, `push` and `commit`
follow: the answer, and the session and the file that the call leaves behind.
-/
import Imago.ArtifactCleanup
import Imago.ArtifactIntegrity

namespace Imago

variable {cfg : StoreConfig} {w w' : World} {call : Call} {now later : Nat} {answer : Answer}

/-! ### Calls that run alone -/

/-- The file operation does what it is asked to.  The removal of a stale file
may fail; its call does not notice. -/
def IoAction.Succeeds : IoAction → Prop
  | .create .created | .openFile none | .endWrite none | .read _ | .remove _ => True
  | _ => False

/-- A step of call `i` without a failure.  A second clock reading is `later`. -/
def Action.Smooth (i later : Nat) : Action → Prop
  | .enter j _ _ => j = i
  | .reenter j now => j = i ∧ now = later
  | .write j _ => j = i
  | .io j a => j = i ∧ a.Succeeds
  | _ => False

/-- The call is made in `w`, runs alone and without a failure, and has returned
`answer` in `w'`. -/
def Served (cfg : StoreConfig) (w : World) (call : Call) (now later : Nat) (w' : World)
    (answer : Answer) : Prop :=
  ∃ as, (∀ a ∈ as, a.Smooth w.tasks.length later) ∧
    run (step cfg) w (.call call now :: as) = some w' ∧
    ∃ t, w'.tasks[w.tasks.length]? = some t ∧ t.pc = .done answer

/-- What call `i`, at the point of `t`, may do next. -/
inductive Proceeds (cfg : StoreConfig) (later : Nat) (w : World) (i : Nat) (t : Task) :
    World → Prop
  | enter {d k : String} {o : Outcome} (hpc : t.pc = .start) (hfresh : w.Fresh cfg d k)
      (ho : firstSection cfg w t d k = o) :
      Proceeds cfg later w i t { w.update o.store i { t with plan := o.plan, pc := o.pc } with
        drawn := d :: k :: w.drawn }
  | reenter {o : Outcome} (ho : secondSection cfg w t later = some o) :
      Proceeds cfg later w i t (w.update o.store i { t with plan := o.plan, pc := o.pc })
  | create {c : UploadSession} (hpc : t.pc = .creating c) :
      Proceeds cfg later w i t { w.update w.store i { t with pc := .inserting c } with
        fs := preallocate w.fs c.filePath c.artifactSize }
  | openWrite {req : ArtifactPushRequest} {path : String} {h : Nat} (hcall : t.call = .push req)
      (hpc : t.pc = .opening path) (hl : w.fs.lookup path = some h) :
      Proceeds cfg later w i t
        (w.update w.store i { t with pc := .writing h req.header.offset req.chunk })
  | write {req : ArtifactPushRequest} {h offset n : Nat} {rest : List UInt8}
      (hcall : t.call = .push req) (hpc : t.pc = .writing h offset rest)
      (hn : 0 < n ∧ n ≤ rest.length) : Proceeds cfg later w i t (w.landed i t h offset rest n)
  | wrote {req : ArtifactPushRequest} {h offset : Nat} (hcall : t.call = .push req)
      (hpc : t.pc = .writing h offset []) :
      Proceeds cfg later w i t (w.update w.store i { t with pc := .written (.ok ()) })
  | openDigest {req : ArtifactCommitRequest} {path expected : String} {h : Nat}
      (hcall : t.call = .commit req) (hpc : t.pc = .digestOpening path expected)
      (hl : w.fs.lookup path = some h) :
      Proceeds cfg later w i t (w.update w.store i { t with pc := .digesting h [] expected })
  | read {req : ArtifactCommitRequest} {h n : Nat} {hashed : List UInt8} {expected : String}
      (hcall : t.call = .commit req) (hpc : t.pc = .digesting h hashed expected)
      (hn : 0 < n ∧ n ≤ 64 * 1024 ∧ hashed.length + n ≤ (w.fs.file h).length) :
      Proceeds cfg later w i t (w.update w.store i
        { t with
          pc := .digesting h
            (hashed ++ (((w.fs.file h).map Cell.byte).drop hashed.length).take n) expected })
  | digest {req : ArtifactCommitRequest} {h : Nat} {hashed : List UInt8} {expected : String}
      (hcall : t.call = .commit req) (hpc : t.pc = .digesting h hashed expected)
      (heof : (w.fs.file h).length ≤ hashed.length) :
      Proceeds cfg later w i t (w.update w.store i
        { t with pc := .digested (.ok (cfg.sha256Hex hashed)) expected })
  | remove {p : String} {ps : CleanupPlan} {answer : Answer} (ok : Bool)
      (hpc : t.pc = .cleaning (p :: ps) answer) :
      Proceeds cfg later w i t { w.update w.store i { t with pc := .cleaning ps answer } with
        fs := if ok then w.fs.unlink p else w.fs }
  | finish {answer : Answer} (hpc : t.pc = .cleaning [] answer) :
      Proceeds cfg later w i t (w.update w.store i { t with pc := .done answer })

section Steps

variable {i : Nat} {t : Task}

theorem proceeds_of_ioStep {a : IoAction} (ha : a.Succeeds) {r : FileStore Cell × Pc}
    (h : ioStep cfg w.fs t a = some r) :
    Proceeds cfg later w i t { w.update w.store i { t with pc := r.2 } with fs := r.1 } := by
  cases a with simp only [ioStep] at h
  | create outcome =>
    split at h
    · rename_i c hpc
      split at h
      · cases h
        exact .create hpc
      all_goals exact ha.elim
    · cases h
  | openFile error =>
    split at h
    · exact ha.elim
    · rename_i hcall hpc
      obtain ⟨hdl, hl, rfl⟩ := Option.map_eq_some_iff.mp h
      exact .openWrite hcall hpc hl
    · exact ha.elim
    · rename_i hcall hpc
      obtain ⟨hdl, hl, rfl⟩ := Option.map_eq_some_iff.mp h
      exact .openDigest hcall hpc hl
    · cases h
  | endWrite error =>
    split at h
    · exact ha.elim
    · rename_i hcall hpc
      cases h
      exact .wrote hcall hpc
    · cases h
  | read n =>
    split at h
    · rename_i hcall hpc
      split at h
      · split at h
        · rename_i heof
          cases h
          exact .digest hcall hpc (by simpa using heof)
        · cases h
      · split at h
        · rename_i hzero hn
          cases h
          exact .read hcall hpc ⟨Nat.pos_of_ne_zero hzero, hn.1, by simpa using hn.2⟩
        · cases h
    · cases h
  | readError message => exact ha.elim
  | remove ok =>
    split at h
    · rename_i answer hpc
      cases h
      exact .finish hpc
    · rename_i p ps answer hpc
      cases h
      exact .remove ok hpc
    · cases h

/-- A smooth step of a call is one of those listed. -/
theorem proceeds_of_step {a : Action} (ht : w.tasks[i]? = some t) (ha : a.Smooth i later)
    (h : step cfg w a = some w') : Proceeds cfg later w i t w' := by
  cases a with
  | enter j d k =>
    obtain rfl : j = i := ha
    obtain ⟨t₀, ht₀, -, hpc, hfresh, o, ho, rfl⟩ := step_enter h
    obtain rfl := Option.mem_unique ht ht₀
    exact .enter hpc hfresh ho
  | reenter j now =>
    obtain ⟨rfl, rfl⟩ := ha
    obtain ⟨t₀, o, ht₀, -, ho, rfl⟩ := step_reenter h
    obtain rfl := Option.mem_unique ht ht₀
    exact .reenter ho
  | io j a =>
    obtain ⟨rfl, ha⟩ := ha
    simp only [step] at h
    split at h
    · rename_i t₀ hrun
      obtain ⟨r, hr, rfl⟩ := Option.map_eq_some_iff.mp h
      obtain rfl := Option.some.inj (ht.symm.trans (World.tasks_of_running hrun).1)
      exact proceeds_of_ioStep ha hr
    · cases h
  | write j n =>
    obtain rfl : j = i := ha
    simp only [step, ht] at h
    split at h
    · rename_i hcall hpc
      split at h
      · rename_i hn
        cases h
        exact .write hcall hpc hn
      · cases h
    · cases h
  | call | drop | pin | unpin => exact ha.elim

/-- What is listed is what a smooth step does. -/
theorem step_of_proceeds (ht : w.tasks[i]? = some t) (hrun : t.dropped = false)
    (h : Proceeds cfg later w i t w') :
    ∃ a : Action, a.Smooth i later ∧ step cfg w a = some w' := by
  have hrunning : w.running i = some t := by simp [World.running, ht, hrun]
  have hio : ∀ (a : IoAction) (fs : FileStore Cell) (pc : Pc), a.Succeeds →
      ioStep cfg w.fs t a = some (fs, pc) → ∃ a : Action, a.Smooth i later ∧
        step cfg w a = some { w.update w.store i { t with pc := pc } with fs := fs } := by
    intro a fs pc ha hr
    exact ⟨.io i a, ⟨rfl, ha⟩, by simp only [step, hrunning, hr, Option.map_some]⟩
  cases h with
  | @enter d k o hpc hfresh ho =>
    refine ⟨.enter i d k, rfl, ?_⟩
    subst ho
    simp only [step, hrunning, hpc, if_pos hfresh]
  | reenter ho => exact ⟨.reenter i later, ⟨rfl, rfl⟩, by simp only [step, hrunning, ho]; rfl⟩
  | create hpc => exact hio (.create .created) _ _ trivial (by simp only [ioStep, hpc])
  | openWrite hcall hpc hl | openDigest hcall hpc hl =>
    exact hio (.openFile none) w.fs _ trivial (by simp only [ioStep, hcall, hpc, hl]; rfl)
  | @write req hdl offset n rest hcall hpc hn =>
    refine ⟨.write i n, rfl, ?_⟩
    simp only [step, ht]
    split
    · rename_i hcall' hpc'
      cases hpc.symm.trans hpc'
      rw [if_pos hn]; rfl
    · rename_i hother
      exact absurd hpc (hother req hdl offset rest hcall)
  | wrote hcall hpc =>
    exact hio (.endWrite none) w.fs _ trivial (by simp only [ioStep, hcall, hpc])
  | @read req hdl n hashed expected hcall hpc hn =>
    refine hio (.read n) w.fs _ trivial ?_
    simp [ioStep, hcall, hpc, Nat.pos_iff_ne_zero.mp hn.1, hn.2.1, hn.2.2]
  | @digest req hdl hashed expected hcall hpc heof =>
    exact hio (.read 0) w.fs (.digested (.ok (cfg.sha256Hex hashed)) expected) trivial
      (by simp [ioStep, hcall, hpc, heof])
  | remove ok hpc => exact hio (.remove ok) _ _ trivial (by simp only [ioStep, hpc])
  | finish hpc => exact hio (.remove true) w.fs _ trivial (by simp only [ioStep, hpc])

/-! ### Every step leads on -/

/-- How many stages a call still has before it. -/
def Pc.stage : Pc → Nat
  | .start => 5
  | .creating _ | .opening _ | .digestOpening _ _ => 4
  | .inserting _ | .writing _ _ _ | .digesting _ _ _ => 3
  | .written _ | .digested _ _ => 2
  | .cleaning _ _ => 1
  | .done _ => 0

/-- How much is left of the loop that the call is in. -/
def Pc.left (fs : FileStore Cell) : Pc → Nat
  | .writing _ _ rest => rest.length
  | .digesting h hashed _ => (fs.file h).length - hashed.length
  | .cleaning files _ => files.length
  | _ => 0

theorem stage_firstSection {d k : String} {o : Outcome} (ho : firstSection cfg w t d k = o) :
    o.pc.stage < 5 := by
  subst ho
  unfold firstSection
  split
  · rename_i req _
    split
    · simp [Outcome.fail, Pc.stage]
    · obtain ⟨st₁, plan, -, ⟨d, s, -, -, h⟩ | ⟨d, s, -, -, h⟩ | ⟨-, h⟩⟩ :=
        prepareDecide_cases cfg w.pinned w.store t.now req d k <;> rw [h] <;>
        simp [Outcome.finish, Pc.stage]
  · rename_i req _
    split
    · simp [Outcome.fail, Pc.stage]
    · rename_i chunkEnd _
      obtain ⟨st₁, plan, -, ⟨e, -, h⟩ | ⟨s, -, -, h⟩⟩ :=
        pushBegin_cases cfg w.pinned w.store t.now req.header chunkEnd <;> rw [h] <;>
        simp [Outcome.fail, Pc.stage]
  · rename_i req _
    obtain ⟨st₁, plan, -, ⟨e, -, h⟩ | ⟨s, -, -, h⟩⟩ :=
      commitBegin_cases cfg w.pinned w.store t.now req <;> rw [h] <;>
      simp [Outcome.fail, Pc.stage]
  · rename_i d _
    unfold committedArtifact
    obtain ⟨st₁, plan, -, ⟨e, -, h⟩ | ⟨s, -, -, h⟩⟩ :=
      lookupCommitted_cases cfg w.pinned w.store t.now d _ <;> rw [h] <;>
      simp [Outcome.fail, Outcome.finish, Pc.stage]
  · rename_i d _
    unfold serviceNameForDeploy
    obtain ⟨st₁, plan, -, ⟨e, -, h⟩ | ⟨s, -, -, h⟩⟩ :=
      lookupCommitted_cases cfg w.pinned w.store t.now d _ <;> rw [h] <;>
      simp [Outcome.fail, Outcome.finish, Pc.stage]
  · rename_i d _
    obtain ⟨st₁, plan₁, st₂, plan₂, -, -, h⟩ := purgeDeploySession_eq cfg w.pinned w.store t.now d
    rw [h]
    simp [Outcome.finish, Pc.stage]

theorem stage_secondSection {o : Outcome} (ho : secondSection cfg w t later = some o) :
    o.pc.stage < 2 ∧ 2 ≤ t.pc.stage := by
  unfold secondSection at ho
  split at ho
  · rename_i c hcall hpc
    obtain rfl := Option.some.inj ho
    refine ⟨?_, by simp [hpc, Pc.stage]⟩
    obtain ⟨st₁, plan', -, ⟨d, s, -, -, h⟩ | ⟨d, s, -, -, h⟩ | ⟨-, h⟩⟩ :=
      prepareInsert_cases cfg w.pinned w.store later t.plan c <;> rw [h] <;>
        simp [Outcome.finish, Pc.stage]
  · rename_i req result hcall hpc
    obtain rfl := Option.some.inj ho
    refine ⟨?_, by simp [hpc, Pc.stage]⟩
    rcases pushFinish_cases w.store t.now t.plan req.header result with
      ⟨e, -, h⟩ | ⟨s, e, -, -, h⟩ | ⟨s, ack, -, -, h⟩ <;> rw [h] <;>
      simp [Outcome.finish, Outcome.fail, Pc.stage]
  · rename_i req result expected hcall hpc
    obtain rfl := Option.some.inj ho
    refine ⟨?_, by simp [hpc, Pc.stage]⟩
    rcases commitFinish_cases cfg w.pinned w.store t.now t.plan req expected result with
      ⟨e, -, h⟩ | ⟨s, e, -, -, h⟩ | ⟨s, st₁, plan', -, -, -, h⟩ <;> rw [h] <;>
      simp [Outcome.finish, Outcome.fail, Pc.stage]
  · cases ho

/-- **Every step of a call leads on**: to a later stage, or through its loop. -/
theorem Proceeds.closer (ht : w.tasks[i]? = some t) (h : Proceeds cfg later w i t w') :
    ∃ t', w'.tasks[i]? = some t' ∧ (t'.call = t.call ∧ t'.now = t.now ∧ t'.dropped = t.dropped) ∧
      Prod.Lex (· < ·) (· < ·) (t'.pc.stage, t'.pc.left w'.fs) (t.pc.stage, t.pc.left w.fs) := by
  have hself := fun (t' : Task) => World.tasks_update_self ht w.store t'
  cases h with
  | enter hpc hfresh ho =>
    refine ⟨_, hself _, ⟨rfl, rfl, rfl⟩, Prod.Lex.left _ _ ?_⟩
    rw [hpc]
    exact stage_firstSection ho
  | reenter ho =>
    obtain ⟨h₁, h₂⟩ := stage_secondSection ho
    exact ⟨_, hself _, ⟨rfl, rfl, rfl⟩, Prod.Lex.left _ _ (Nat.lt_of_lt_of_le h₁ h₂)⟩
  | create hpc | openWrite hcall hpc hl | wrote hcall hpc | openDigest hcall hpc hl
  | digest hcall hpc heof | finish hpc =>
    refine ⟨_, hself _, ⟨rfl, rfl, rfl⟩, Prod.Lex.left _ _ ?_⟩
    simp [hpc, Pc.stage]
  | write hcall hpc hn =>
    refine ⟨_, hself _, ⟨rfl, rfl, rfl⟩, ?_⟩
    rw [hpc]
    refine Prod.Lex.right _ ?_
    simp only [Pc.left, List.length_drop]
    omega
  | read hcall hpc hn =>
    refine ⟨_, hself _, ⟨rfl, rfl, rfl⟩, ?_⟩
    rw [hpc]
    refine Prod.Lex.right _ ?_
    simp only [Pc.left, List.length_append, List.length_take, List.length_drop, List.length_map]
    show (w.fs.file _).length - _ < _
    omega
  | remove ok hpc =>
    refine ⟨_, hself _, ⟨rfl, rfl, rfl⟩, ?_⟩
    rw [hpc]
    exact Prod.Lex.right _ (by simp [Pc.left])

end Steps

/-! ### Fresh ids -/

/-- No string of the list has `n` characters or more. -/
theorem exists_longer (xs : List String) : ∃ n, ∀ x ∈ xs, x.toList.length < n := by
  induction xs with
  | nil => exact ⟨0, nofun⟩
  | cons x xs ih =>
    obtain ⟨n, hn⟩ := ih
    refine ⟨x.toList.length + 1 + n, fun y hy => ?_⟩
    rcases List.mem_cons.mp hy with rfl | hy
    · omega
    · have := hn y hy
      omega

/-- The generator can always return two new ids. -/
theorem exists_fresh (cfg : StoreConfig) (w : World) : ∃ d k, w.Fresh cfg d k := by
  obtain ⟨n, hn⟩ := exists_longer (w.drawn ++ w.fs.dir.keys)
  let name : Nat → String := fun m => String.ofList (List.replicate m 'f')
  have hlength : ∀ m, (name m).toList.length = m := by simp [name, String.toList_ofList]
  have hnew : ∀ m, n ≤ m → name m ∉ w.drawn := by
    intro m hm hmem
    have := hn _ (List.mem_append_left _ hmem)
    rw [hlength] at this
    omega
  refine ⟨name n, name (n + 1), hnew n (Nat.le_refl n), hnew (n + 1) (by omega), ?_, ?_⟩
  · intro h
    have := congrArg (fun x => x.toList.length) h
    simp only [hlength] at this
    omega
  · -- a path is longer than the id in it
    by_contra hsome
    have hkey : artifactPath cfg.root (name n) ∈ w.fs.dir.keys := by
      rw [Std.TreeMap.mem_keys, Std.TreeMap.mem_iff_isSome_getElem?]
      exact Option.isSome_iff_ne_none.mpr hsome
    have := hn _ (List.mem_append_right _ hkey)
    simp only [artifactPath, String.toList_append, List.length_append, hlength] at this
    omega

/-! ### From step to run -/

/-- The world right after a call was made. -/
def World.spawn (w : World) (call : Call) (now : Nat) : World :=
  { w with tasks := w.tasks ++ [Task.new call now] }

/-- A property of the points of a call after its first section, which leads to
such a point; the later steps go from one to another. -/
structure CallInv (cfg : StoreConfig) (w : World) (call : Call) (now later : Nat)
    (P : World → Pc → Prop) : Prop where
  start : ∀ (d k : String) (o : Outcome), firstSection cfg w (Task.new call now) d k = o →
    ∀ tasks drawn, P { w with store := o.store, tasks := tasks, drawn := drawn } o.pc
  kept : ∀ {w₁ w₂ : World} {t t' : Task}, StoreInv cfg w₁ → w₁.tasks[w.tasks.length]? = some t →
    t.call = call → t.now = now → P w₁ t.pc → Proceeds cfg later w₁ w.tasks.length t w₂ →
    w₂.tasks[w.tasks.length]? = some t' → P w₂ t'.pc

theorem spawn_self (w : World) (call : Call) (now : Nat) :
    (w.spawn call now).tasks[w.tasks.length]? = some (Task.new call now) := by
  simp [World.spawn]

section Run

variable {P : World → Pc → Prop}

/-- The call has just been made, or it is at one of its points. -/
structure OnCourse (cfg : StoreConfig) (w : World) (call : Call) (now : Nat)
    (P : World → Pc → Prop) (w₁ : World) (t : Task) : Prop where
  reachable : Reachable cfg w₁
  task : w₁.tasks[w.tasks.length]? = some t
  call_eq : t.call = call
  now_eq : t.now = now
  runs : t.dropped = false
  point : w₁ = w.spawn call now ∨ P w₁ t.pc

theorem onCourse_spawn (hw : Reachable cfg w) :
    OnCourse cfg w call now P (w.spawn call now) (Task.new call now) :=
  ⟨hw.tail (a := .call call now) rfl, spawn_self w call now, rfl, rfl, rfl, .inl rfl⟩

theorem CallInv.step {w₁ w₂ : World} {t : Task} (hP : CallInv cfg w call now later P)
    (h : OnCourse cfg w call now P w₁ t) (hproceeds : Proceeds cfg later w₁ w.tasks.length t w₂)
    (hw₂ : Reachable cfg w₂) : ∃ t', OnCourse cfg w call now P w₂ t' ∧
      Prod.Lex (· < ·) (· < ·) (t'.pc.stage, t'.pc.left w₂.fs) (t.pc.stage, t.pc.left w₁.fs) := by
  obtain ⟨t', ht', ⟨hcall, hnow, hdrop⟩, hcloser⟩ := hproceeds.closer h.task
  refine ⟨t', ⟨hw₂, ht', hcall.trans h.call_eq, hnow.trans h.now_eq, hdrop.trans h.runs, .inr ?_⟩,
    hcloser⟩
  rcases h.point with rfl | hpoint
  · obtain rfl := Option.mem_unique (spawn_self w call now) h.task
    cases hproceeds with
    | @enter d k o _ _ ho =>
      obtain rfl := Option.mem_unique (World.tasks_update_self h.task w.store _) ht'
      exact hP.start d k o ho _ _
    | reenter ho => cases call <;> cases ho
    | create hpc | openWrite _ hpc | write _ hpc | wrote _ hpc | openDigest _ hpc | read _ hpc
    | digest _ hpc | remove _ hpc | finish hpc => cases hpc
  · exact hP.kept h.reachable.storeInv h.task h.call_eq h.now_eq hpoint hproceeds ht'

/-- What holds of a call along its steps holds when it has returned. -/
theorem CallInv.served (hP : CallInv cfg w call now later P) (hw : Reachable cfg w)
    (h : Served cfg w call now later w' answer) : Reachable cfg w' ∧ P w' (.done answer) := by
  obtain ⟨as, hsmooth, hrun, t, ht, hpc⟩ := h
  obtain ⟨w₁, hcall, hrun⟩ := run_cons_eq_some.mp hrun
  obtain rfl : w.spawn call now = w₁ := Option.some.inj hcall
  have hkept : ∀ w₁ a w₂, (∃ t, OnCourse cfg w call now P w₁ t) → a.Smooth w.tasks.length later →
      Imago.step cfg w₁ a = some w₂ → ∃ t, OnCourse cfg w call now P w₂ t := by
    rintro w₁ a w₂ ⟨t, h⟩ ha hstep
    obtain ⟨t', h', -⟩ := hP.step h (proceeds_of_step h.task ha hstep) (h.reachable.tail hstep)
    exact ⟨t', h'⟩
  obtain ⟨t', h⟩ := run_invariant_of_meets hkept
    (RunMeets.of_forall (fun a ha _ => hsmooth a ha) _) hrun ⟨_, onCourse_spawn hw⟩
  obtain rfl := Option.mem_unique ht h.task
  refine ⟨h.reachable, ?_⟩
  rcases h.point with rfl | hpoint
  · obtain rfl := Option.mem_unique (spawn_self w call now) ht
    cases hpc
  · rwa [hpc] at hpoint

/-- The points between the beginning of a call and its cleanup. -/
def Pc.working : Pc → Bool
  | .start | .cleaning _ _ | .done _ => false
  | _ => true

/-- A call can begin, and it can clean up. -/
theorem exists_proceeds_of_not_working {t : Task} {i : Nat} (hwork : t.pc.working = false)
    (hstage : t.pc.stage ≠ 0) : ∃ w', Proceeds cfg later w i t w' := by
  cases hpc : t.pc <;> rw [hpc] at hwork hstage <;> try cases hwork
  case start =>
    obtain ⟨d, k, hfresh⟩ := exists_fresh cfg w
    exact ⟨_, .enter hpc hfresh rfl⟩
  case cleaning files answer =>
    cases files with
    | nil => exact ⟨_, .finish hpc⟩
    | cons p ps => exact ⟨_, .remove true hpc⟩
  case done => exact absurd rfl hstage

/-- A call whose points let it go on finishes: by induction on what is left. -/
theorem CallInv.exists_served (hP : CallInv cfg w call now later P) (hw : Reachable cfg w)
    (hgo : ∀ {w₁ : World} {t : Task}, StoreInv cfg w₁ → w₁.tasks[w.tasks.length]? = some t →
      t.call = call → P w₁ t.pc → t.pc.working = true →
      ∃ w₂, Proceeds cfg later w₁ w.tasks.length t w₂) :
    ∃ w' answer, Served cfg w call now later w' answer := by
  have hall : ∀ (m : Nat × Nat) (w₁ : World) (t : Task), OnCourse cfg w call now P w₁ t →
      (t.pc.stage, t.pc.left w₁.fs) = m →
      ∃ as w' t' answer, (∀ a ∈ as, Action.Smooth w.tasks.length later a) ∧
        run (Imago.step cfg) w₁ as = some w' ∧ w'.tasks[w.tasks.length]? = some t' ∧
        t'.pc = .done answer := by
    have hwf : WellFounded (Prod.Lex (· < · : Nat → Nat → Prop) (· < · : Nat → Nat → Prop)) :=
      WellFounded.prod_lex Nat.lt_wfRel.wf Nat.lt_wfRel.wf
    intro m
    induction m using hwf.induction with
    | _ m ih =>
      intro w₁ t h hm
      by_cases hstage : t.pc.stage = 0
      · have hdone : ∃ answer, t.pc = .done answer := by
          rcases hpc : t.pc <;> rw [hpc] at hstage <;>
            first | exact ⟨_, rfl⟩ | simp [Pc.stage] at hstage
        obtain ⟨answer, hpc⟩ := hdone
        exact ⟨[], w₁, t, answer, nofun, rfl, h.task, hpc⟩
      · obtain ⟨w₂, hproceeds⟩ : ∃ w₂, Proceeds cfg later w₁ w.tasks.length t w₂ := by
          rcases hwork : t.pc.working with - | -
          · exact exists_proceeds_of_not_working hwork hstage
          · rcases h.point with rfl | hpoint
            · obtain rfl := Option.mem_unique (spawn_self w call now) h.task
              cases hwork
            · exact hgo h.reachable.storeInv h.task h.call_eq hpoint hwork
        obtain ⟨a, ha, hstep⟩ := step_of_proceeds h.task h.runs hproceeds
        obtain ⟨t₂, h₂, hcloser⟩ := hP.step h hproceeds (h.reachable.tail hstep)
        obtain ⟨as, w', t', answer, hsmooth, hrun, ht', hpc'⟩ := ih _ (hm ▸ hcloser) w₂ t₂ h₂ rfl
        refine ⟨a :: as, w', t', answer, ?_, run_cons_eq_some.mpr ⟨w₂, hstep, hrun⟩, ht', hpc'⟩
        intro b hb
        rcases List.mem_cons.mp hb with rfl | hb
        · exact ha
        · exact hsmooth b hb
  obtain ⟨as, w', t, answer, hsmooth, hrun, ht, hpc⟩ := hall _ _ _ (onCourse_spawn hw) rfl
  exact ⟨w', answer, as, hsmooth, run_cons_eq_some.mpr ⟨_, rfl, hrun⟩, t, ht, hpc⟩

end Run

/-! ### The bytes of a file -/

/-- The byte at position `x` of the file under a path. -/
def storedByte (fs : FileStore Cell) (path : String) (x : Nat) : Option UInt8 :=
  (fs.contents path).bind fun cells => cells[x]?.map Cell.byte

theorem storedByte_eq {fs : FileStore Cell} {path : String} {h : Nat}
    (hl : fs.lookup path = some h) (x : Nat) :
    storedByte fs path x = (fs.file h)[x]?.map Cell.byte := by
  rw [storedByte, FileStore.contents_eq hl, Option.bind_some]

variable {t : Task} {i : Nat} {p : String}

/-- A file that a call still has to remove is not that of a live session. -/
theorem IdInv.stale_ne (h : IdInv cfg w) (ht : w.tasks[i]? = some t) (hp : p ∈ t.files) {d : String}
    {s : UploadSession} (hs : w.store.sessions[d]? = some s) : p ≠ s.filePath := by
  obtain ⟨e, rfl, -, hnone⟩ := (h.task ht).retired p hp
  rw [h.path_eq d s hs]
  intro heq
  obtain rfl := artifactPath_injective heq
  rw [hs] at hnone
  cases hnone

/-- The cleanup of a call leaves the files of live sessions alone. -/
theorem IdInv.storedByte_remove (h : IdInv cfg w) (ht : w.tasks[i]? = some t) (hp : p ∈ t.files)
    {d : String} {s : UploadSession} (hs : w.store.sessions[d]? = some s) (ok : Bool) (x : Nat) :
    storedByte (if ok then w.fs.unlink p else w.fs) s.filePath x =
      storedByte w.fs s.filePath x := by
  split
  · rw [storedByte, FileStore.contents, FileStore.lookup_unlink, if_neg (h.stale_ne ht hp hs)]
    rfl
  · rfl

theorem mem_files_of_cleaning {ps : CleanupPlan} (hpc : t.pc = .cleaning (p :: ps) answer) :
    p ∈ t.files :=
  List.mem_append_right _ (by rw [hpc]; exact (.head _))

/-! ### `commit` -/

/-- What a commit answers that reaches the end of the file. -/
def commitAnswer (cfg : StoreConfig) (s : UploadSession) (bytes : List UInt8) : Answer :=
  if cfg.sha256Hex bytes = s.artifactDigest then .ok (.committed ⟨s.artifactDigest, true⟩)
  else .error (.new .badManifest stageCommit "artifact digest mismatch")

section Commit

variable {req : ArtifactCommitRequest} {s : UploadSession} {st₁ : StoreState} {plan : CleanupPlan}
  {cells : List Cell}

/-- The points of a commit of session `s` that runs alone. -/
def CommitAlone (cfg : StoreConfig) (w : World) (req : ArtifactCommitRequest) (s : UploadSession)
    (now : Nat) (bytes : List UInt8) (w₁ : World) : Pc → Prop
  | .digestOpening _ _ | .digesting _ _ _ | .digested (.ok _) _ =>
    w₁.store.sessions[req.deployId]? = some (s.beginCommit now) ∧ w₁.fs = w.fs
  | .cleaning _ answer | .done answer => answer = commitAnswer cfg s bytes
  | _ => False

variable (hclean : collectSessionCleanup cfg w.pinned w.store now none = (st₁, plan))
  (hs : st₁.sessions[req.deployId]? = some s) (hguard : commitGuard req s = .ok ())
  (hcells : w.fs.contents s.filePath = some cells)

include hclean hs hguard hcells

theorem callInv_commitAlone (later : Nat) :
    CallInv cfg w (.commit req) now later (CommitAlone cfg w req s now (cells.map Cell.byte)) where
  start := by
    intro d k o ho tasks drawn
    obtain ⟨st₁', plan', hclean', ⟨e, hfail, -⟩ | ⟨s', hs', -, hbegin⟩⟩ :=
      commitBegin_cases cfg w.pinned w.store now req <;> cases hclean.symm.trans hclean'
    · exact absurd hguard (hfail s hs)
    · obtain rfl := Option.mem_unique hs hs'
      obtain rfl := ho.symm.trans hbegin
      refine ⟨?_, rfl⟩
      show (st₁.put req.deployId (s.beginCommit now)).sessions[req.deployId]? = _
      rw [sessions_put, if_pos rfl]
  kept := by
    intro w₁ w₂ t t' hinv ht hcall hnow hpoint hproceeds ht'
    cases hproceeds with obtain rfl := Option.mem_unique (World.tasks_update_self ht w₁.store _) ht'
    | @reenter o ho =>
      rcases hpc : t.pc with _ | _ | _ | _ | _ | _ | _ | _ | ⟨_ | digest, expected⟩ | _ | _ <;>
        simp only [secondSection, hcall, hpc, reduceCtorEq, Option.some.injEq] at ho hpoint
      · exact hpoint.elim
      obtain ⟨hlive, hfs⟩ := hpoint
      have hin : t.pc.inDigest = true := by rw [hpc]; rfl
      have hdigest := (hinv.file.task _ t ht).digest req _ hcall hin hlive
      rw [hpc] at hdigest
      obtain ⟨hexpected, hall⟩ := hdigest
      obtain ⟨hdl, hl, -⟩ := (hinv.file.session _ _ hlive).file
      have hsha : digest = cfg.sha256Hex (cells.map Cell.byte) := by
        have hfile : w.fs.contents s.filePath = some (w₁.fs.file hdl) := by
          rw [← hfs]; exact FileStore.contents_eq hl
        rw [hall hdl hl, Option.mem_unique hcells hfile]
      have hexp : expected = s.artifactDigest := hexpected
      subst ho
      subst hsha hexp
      simp only [commitFinish, hlive, ne_eq]
      by_cases heq : cfg.sha256Hex (cells.map Cell.byte) = s.artifactDigest
      · simp only [heq, not_true_eq_false, if_false]
        exact (if_pos heq).symm
      · simp only [heq, not_false_eq_true, if_true]
        exact (if_neg heq).symm
    | enter hpc | create hpc => rw [hpc] at hpoint; exact hpoint.elim
    | openWrite hcall' hpc hl | write hcall' hpc hn | wrote hcall' hpc =>
      cases hcall.symm.trans hcall'
    | openDigest hcall' hpc hl | read hcall' hpc hn | digest hcall' hpc heof | remove ok hpc
    | finish hpc =>
      rw [hpc] at hpoint
      exact hpoint

/-- **A commit that runs alone** and passes its guard returns, and it answers
by the digest of the file. -/
theorem commit_served (hw : Reachable cfg w) :
    (∃ w', Served cfg w (.commit req) now later w' (commitAnswer cfg s (cells.map Cell.byte))) ∧
      ∀ w' answer, Served cfg w (.commit req) now later w' answer →
        answer = commitAnswer cfg s (cells.map Cell.byte) := by
  have hP := callInv_commitAlone hclean hs hguard hcells later
  have hanswer : ∀ w' answer, Served cfg w (.commit req) now later w' answer →
      answer = commitAnswer cfg s (cells.map Cell.byte) :=
    fun w' answer hserved => (hP.served hw hserved).2
  refine ⟨?_, hanswer⟩
  obtain ⟨w', answer, hserved⟩ : ∃ w' answer, Served cfg w (.commit req) now later w' answer := by
    refine hP.exists_served hw ?_
    intro w₁ t hinv ht hcall hpoint hwork
    rcases hpc : t.pc with _ | _ | _ | _ | _ | _ | ⟨path, expected⟩ | ⟨hdl, hashed, expected⟩ |
      ⟨_ | digest, expected⟩ | _ | _ <;> rw [hpc] at hpoint hwork <;>
      first | exact hpoint.elim | cases hwork
    · obtain ⟨hdl, hl, -⟩ := (hinv.file.session _ _ hpoint.1).file
      have hopening := (hinv.file.task _ t ht).digest req _ hcall (by rw [hpc]; rfl) hpoint.1
      rw [hpc] at hopening
      obtain ⟨rfl, -⟩ := hopening
      exact ⟨_, .openDigest hcall hpc hl⟩
    · rcases Nat.lt_or_ge hashed.length (w₁.fs.file hdl).length with hlt | hge
      · exact ⟨_, .read (n := 1) hcall hpc ⟨by decide, by decide, hlt⟩⟩
      · exact ⟨_, .digest hcall hpc hge⟩
    · have ho : secondSection cfg w₁ t later = some (commitFinish cfg w₁.pinned w₁.store t.plan
          t.now req expected (.ok digest)) := by simp only [secondSection, hcall, hpc]
      exact ⟨_, .reenter ho⟩
  exact ⟨w', hanswer w' answer hserved ▸ hserved⟩

end Commit

/-! ### `push` -/

/-- From the offset of the chunk up to `stop` the file holds the bytes of the
chunk; everything else is as it was. -/
def Spliced (fs fs' : FileStore Cell) (path : String) (req : ArtifactPushRequest) (stop : Nat) :
    Prop :=
  ∀ x, storedByte fs' path x =
    if req.header.offset ≤ x ∧ x < stop then req.chunk[x - req.header.offset]?
    else storedByte fs path x

section Push

variable {req : ArtifactPushRequest} {s : UploadSession} {st₁ : StoreState} {plan : CleanupPlan}
  {chunkEnd : Nat}

/-- The points of a push to session `s` that runs alone. -/
def PushAlone (w : World) (req : ArtifactPushRequest) (s : UploadSession) (now : Nat)
    (w₁ : World) : Pc → Prop
  | .opening _ => w₁.store.sessions[req.header.deployId]? = some (s.beginWrite now) ∧ w₁.fs = w.fs
  | .writing _ offset _ =>
    w₁.store.sessions[req.header.deployId]? = some (s.beginWrite now) ∧
      Spliced w.fs w₁.fs s.filePath req offset
  | .written (.ok _) =>
    w₁.store.sessions[req.header.deployId]? = some (s.beginWrite now) ∧
      Spliced w.fs w₁.fs s.filePath req (req.header.length + req.header.offset)
  | .cleaning _ (.ok (.pushed _)) | .done (.ok (.pushed _)) =>
    w₁.store.sessions[req.header.deployId]? = some ((s.beginWrite now).receive req.header now) ∧
      Spliced w.fs w₁.fs s.filePath req (req.header.length + req.header.offset)
  | _ => False

/-- More of the chunk has reached the file. -/
theorem Spliced.landed {w₁ : World} (hinv : StoreInv cfg w₁) {fs : FileStore Cell}
    (ht : w₁.tasks[i]? = some t) (hcall : t.call = .push req) {hdl offset n : Nat}
    {rest : List UInt8} (hpc : t.pc = .writing hdl offset rest) (hn : n ≤ rest.length)
    (hs : w₁.store.sessions[req.header.deployId]? = some s)
    (h : Spliced fs w₁.fs s.filePath req offset) :
    Spliced fs (w₁.landed i t hdl offset rest n).fs s.filePath req (offset + n) := by
  obtain ⟨-, hfit, hle, hrest⟩ := hinv.writing ht hcall hpc hs
  have hl : w₁.fs.lookup s.filePath = some hdl := by
    have hpush := ((hinv.file.task i t ht).push req s hcall (by rw [hpc]; rfl) hs).2.2.2
    rw [hpc] at hpush
    exact hpush.1
  have hl' : (w₁.landed i t hdl offset rest n).fs.lookup s.filePath = some hdl := hl
  intro x
  rw [storedByte_eq hl', (hinv.file_landed ht hcall hpc).1,
    getElem?_writeAt (by rw [length_cellsOf_take hn]; omega), length_cellsOf_take hn]
  have hold := h x
  rw [storedByte_eq hl] at hold
  split
  · rename_i hx
    rw [if_pos (by omega), cellsOf, List.getElem?_map, List.getElem?_take, if_pos (by omega), hrest,
      List.getElem?_drop, Option.map_map]
    have hpos : offset - req.header.offset + (x - offset) = x - req.header.offset := by omega
    rw [hpos]
    exact Option.map_id' ..
  · rename_i hx
    rw [hold]
    by_cases hin : req.header.offset ≤ x ∧ x < offset
    · rw [if_pos hin, if_pos (by omega)]
    · rw [if_neg hin, if_neg (by omega)]

variable (hclean : collectSessionCleanup cfg w.pinned w.store now none = (st₁, plan))
  (hcheck : pushCheck cfg req = .ok chunkEnd)
  (hs : st₁.sessions[req.header.deployId]? = some s)
  (hguard : pushGuard cfg req.header chunkEnd s = .ok ())

include hclean hcheck hs hguard

theorem callInv_pushAlone (later : Nat) :
    CallInv cfg w (.push req) now later (PushAlone w req s now) where
  start := by
    intro d k o ho tasks drawn
    simp only [firstSection, Task.new, hcheck] at ho
    obtain ⟨st₁', plan', hclean', ⟨e, hfail, -⟩ | ⟨s', hs', -, hbegin⟩⟩ :=
      pushBegin_cases cfg w.pinned w.store now req.header chunkEnd <;>
      cases hclean.symm.trans hclean'
    · exact absurd hguard (hfail s hs)
    · obtain rfl := Option.mem_unique hs hs'
      obtain rfl := ho.symm.trans hbegin
      refine ⟨?_, rfl⟩
      show (st₁.put _ (s.beginWrite now)).sessions[req.header.deployId]? = _
      rw [sessions_put, if_pos rfl]
  kept := by
    intro w₁ w₂ t t' hinv ht hcall hnow hpoint hproceeds ht'
    cases hproceeds with obtain rfl := Option.mem_unique (World.tasks_update_self ht w₁.store _) ht'
    | @reenter o ho =>
      rcases hpc : t.pc with _ | _ | _ | _ | _ | ⟨_ | u⟩ | _ | _ | _ | _ | _ <;>
        simp only [secondSection, hcall, hpc, reduceCtorEq, Option.some.injEq] at ho hpoint
      · exact hpoint.elim
      obtain ⟨hlive, hspliced⟩ := hpoint
      subst ho
      rcases pushFinish_cases w₁.store t.now t.plan req.header (.ok ()) with
        ⟨e, hnone, -⟩ | ⟨s', e, -, herr, -⟩ | ⟨s', ack, hs', -, hfinish⟩
      · rw [hlive] at hnone
        cases hnone
      · cases herr
      · obtain rfl := Option.mem_unique hlive hs'
        rw [hfinish, hnow]
        refine ⟨?_, hspliced⟩
        show (w₁.store.put _ _).sessions[req.header.deployId]? = _
        rw [sessions_put, if_pos rfl]
    | enter hpc | create hpc => rw [hpc] at hpoint; exact hpoint.elim
    | openWrite hcall' hpc hl =>
      obtain rfl := Call.push.inj (hcall.symm.trans hcall')
      rw [hpc] at hpoint
      refine ⟨hpoint.1, fun x => ?_⟩
      rw [if_neg (by omega)]
      exact congrArg (fun fs => storedByte fs s.filePath x) hpoint.2
    | write hcall' hpc hn =>
      obtain rfl := Call.push.inj (hcall.symm.trans hcall')
      rw [hpc] at hpoint
      exact ⟨hpoint.1,
        Spliced.landed (s := s.beginWrite now) hinv ht hcall hpc hn.2 hpoint.1 hpoint.2⟩
    | wrote hcall' hpc =>
      obtain rfl := Call.push.inj (hcall.symm.trans hcall')
      rw [hpc] at hpoint
      -- nothing is left of the chunk, so the end of it has been reached
      have hpush := ((hinv.file.task _ t ht).push req _ hcall (by rw [hpc]; rfl) hpoint.1).2.2.2
      rw [hpc] at hpush
      obtain ⟨-, -, hsum, -⟩ := hpush
      rw [List.length_nil, Nat.add_zero] at hsum
      exact ⟨hpoint.1, hsum ▸ hpoint.2⟩
    | openDigest hcall' hpc hl | read hcall' hpc hn | digest hcall' hpc heof =>
      cases hcall.symm.trans hcall'
    | @remove p ps answer ok hpc =>
      rw [hpc] at hpoint
      rcases answer with _ | (_ | _ | _ | _ | _ | _) <;> first | exact hpoint.elim | skip
      refine ⟨hpoint.1, fun x => ?_⟩
      exact (hinv.id.storedByte_remove ht (mem_files_of_cleaning hpc) hpoint.1 ok x).trans
        (hpoint.2 x)
    | @finish answer hpc =>
      rw [hpc] at hpoint
      rcases answer with _ | (_ | _ | _ | _ | _ | _) <;> first | exact hpoint.elim | skip
      exact hpoint

/-- **A push that runs alone** and passes its checks returns, is acknowledged,
and leaves the chunk recorded and in the file. -/
theorem push_served (hw : Reachable cfg w) :
    (∃ w' answer, Served cfg w (.push req) now later w' answer) ∧
      ∀ w' answer, Served cfg w (.push req) now later w' answer →
        (∃ ack, answer = .ok (.pushed ack)) ∧ Reachable cfg w' ∧
        w'.store.sessions[req.header.deployId]? = some ((s.beginWrite now).receive req.header now) ∧
        Spliced w.fs w'.fs s.filePath req (req.header.length + req.header.offset) := by
  have hP := callInv_pushAlone hclean hcheck hs hguard later
  refine ⟨?_, ?_⟩
  · refine hP.exists_served hw ?_
    intro w₁ t hinv ht hcall hpoint hwork
    rcases hpc : t.pc with _ | _ | _ | path | ⟨hdl, offset, rest⟩ | ⟨_ | u⟩ | _ | _ | _ | _ | _ <;>
      rw [hpc] at hpoint hwork <;> first | exact hpoint.elim | cases hwork
    · obtain ⟨hdl, hl, -⟩ := (hinv.file.session _ _ hpoint.1).file
      have hopening := ((hinv.file.task _ t ht).push req _ hcall (by rw [hpc]; rfl) hpoint.1).2.2.2
      rw [hpc] at hopening
      obtain rfl : path = s.filePath := hopening
      exact ⟨_, .openWrite hcall hpc hl⟩
    · cases rest with
      | nil => exact ⟨_, .wrote hcall hpc⟩
      | cons b rest => exact ⟨_, .write (n := 1) hcall hpc ⟨by decide, by simp⟩⟩
    · have ho : secondSection cfg w₁ t later
          = some (pushFinish w₁.store t.plan t.now req.header (.ok u)) := by
        simp only [secondSection, hcall, hpc]
      exact ⟨_, .reenter ho⟩
  · intro w' answer hserved
    obtain ⟨hw', hpoint⟩ := hP.served hw hserved
    rcases answer with _ | (_ | ack | _ | _ | _ | _) <;> first | exact hpoint.elim | skip
    exact ⟨⟨ack, rfl⟩, hw', hpoint⟩

end Push

/-! ### Refused calls -/

/-- A call that its first section refuses answers with an error. -/
theorem refused_served
    (hrefuse : ∀ d k, ∃ e, (firstSection cfg w (Task.new call now) d k).pc = .done (.error e))
    (hw : Reachable cfg w) (h : Served cfg w call now later w' answer) :
    ∃ e, answer = .error e := by
  have hP : CallInv cfg w call now later fun _ pc => ∃ e, pc = .done (.error e) := by
    refine ⟨fun d k o ho _ _ => ho ▸ hrefuse d k, ?_⟩
    rintro w₁ w₂ t t' - ht - - ⟨e, hpc⟩ hproceeds -
    -- a call that has returned takes no step
    obtain ⟨t₂, -, -, hlex⟩ := hproceeds.closer ht
    rw [hpc, Prod.lex_def] at hlex
    simp [Pc.stage, Pc.left] at hlex
  obtain ⟨-, e, he⟩ := hP.served hw h
  cases he
  exact ⟨e, rfl⟩

/-- A commit that fails its guard, or finds no session, is refused. -/
theorem commit_refused {req : ArtifactCommitRequest} {st₁ : StoreState} {plan : CleanupPlan}
    (hclean : collectSessionCleanup cfg w.pinned w.store now none = (st₁, plan))
    (hguard : ∀ s, st₁.sessions[req.deployId]? = some s → commitGuard req s ≠ .ok ())
    (hw : Reachable cfg w) (h : Served cfg w (.commit req) now later w' answer) :
    ∃ e, answer = .error e := by
  refine refused_served (fun d k => ?_) hw h
  simp only [firstSection, Task.new]
  obtain ⟨st₁', plan', hclean', ⟨e, -, hfail⟩ | ⟨s, hs, hok, -⟩⟩ :=
    commitBegin_cases cfg w.pinned w.store now req
  · exact ⟨e, by rw [hfail]; rfl⟩
  · cases hclean.symm.trans hclean'
    exact absurd hok (hguard s hs)

/-- A push that fails its guard is refused. -/
theorem push_refused {req : ArtifactPushRequest} {st₁ : StoreState} {plan : CleanupPlan}
    {chunkEnd : Nat} (hclean : collectSessionCleanup cfg w.pinned w.store now none = (st₁, plan))
    (hcheck : pushCheck cfg req = .ok chunkEnd)
    (hguard : ∀ s, st₁.sessions[req.header.deployId]? = some s →
      pushGuard cfg req.header chunkEnd s ≠ .ok ())
    (hw : Reachable cfg w) (h : Served cfg w (.push req) now later w' answer) :
    ∃ e, answer = .error e := by
  refine refused_served (fun d k => ?_) hw h
  simp only [firstSection, Task.new, hcheck]
  obtain ⟨st₁', plan', hclean', ⟨e, -, hfail⟩ | ⟨s, hs, hok, -⟩⟩ :=
    pushBegin_cases cfg w.pinned w.store now req.header chunkEnd
  · exact ⟨e, by rw [hfail]; rfl⟩
  · cases hclean.symm.trans hclean'
    exact absurd hok (hguard s hs)

/-! ### `prepare` -/

section Prepare

variable {req : DeployPrepareRequest} {st₁ : StoreState} {plan : CleanupPlan} {d : String}
  {s : UploadSession}

/-- The points of a `prepare` that finds session `s` and runs alone. -/
def FoundAlone (cfg : StoreConfig) (w : World) (st₁ : StoreState) (d : String) (s : UploadSession)
    (now : Nat) (w₁ : World) : Pc → Prop
  | .cleaning _ answer | .done answer =>
    answer = .ok (.prepared (buildPrepareResponse (s.touch now) cfg.uploadSessionTtlSecs now)) ∧
    w₁.pinned = w.pinned ∧ w₁.store = st₁.put d (s.touch now) ∧
    ∀ x, storedByte w₁.fs s.filePath x = storedByte w.fs s.filePath x
  | _ => False

/-- The points of a `prepare` that creates a session and runs alone. -/
def NewAlone (cfg : StoreConfig) (req : DeployPrepareRequest) (st₁ : StoreState)
    (now later : Nat) (w₁ : World) : Pc → Prop
  | .creating c | .inserting c => w₁.store = st₁ ∧ ∃ d k, c = newSession cfg req now d k
  | .cleaning _ answer | .done answer =>
    ∃ d k, answer = .ok (.prepared (buildPrepareResponse
        ((newSession cfg req now d k).touch later) cfg.uploadSessionTtlSecs later)) ∧
      w₁.store.sessions[d]? = some ((newSession cfg req now d k).touch later)
  | _ => False

variable (hcheck : prepareCheck cfg req = .ok ())
  (hclean : collectSessionCleanup cfg w.pinned w.store now none = (st₁, plan))

include hcheck hclean

theorem callInv_foundAlone (later : Nat)
    (hfind : st₁.findByKey req.idempotencyKey = some (d, s))
    (hfp : s.fingerprint = fingerprint cfg req) :
    CallInv cfg w (.prepare req) now later (FoundAlone cfg w st₁ d s now) where
  start := by
    intro d' k o ho tasks drawn
    simp only [firstSection, Task.new, hcheck] at ho
    obtain ⟨st₁', plan', hclean', hcases⟩ := prepareDecide_cases cfg w.pinned w.store now req d' k
    cases hclean.symm.trans hclean'
    rcases hcases with ⟨e, u, hu, hne, -⟩ | ⟨e, u, hu, -, hout⟩ | ⟨hnone, -⟩
    · cases hfind.symm.trans hu
      exact absurd hfp hne
    · cases hfind.symm.trans hu
      obtain rfl := ho.symm.trans hout
      exact ⟨rfl, rfl, rfl, fun _ => rfl⟩
    · cases hfind.symm.trans hnone
  kept := by
    intro w₁ w₂ t t' hinv ht hcall hnow hpoint hproceeds ht'
    cases hproceeds with obtain rfl := Option.mem_unique (World.tasks_update_self ht w₁.store _) ht'
    | reenter ho =>
      rcases hpc : t.pc <;> rw [hpc] at hpoint <;>
        first | exact hpoint.elim | simp [secondSection, hcall, hpc] at ho
    | enter hpc | create hpc => rw [hpc] at hpoint; exact hpoint.elim
    | openWrite hcall' | write hcall' | wrote hcall' | openDigest hcall' | read hcall'
    | digest hcall' => cases hcall.symm.trans hcall'
    | remove ok hpc =>
      rw [hpc] at hpoint
      obtain ⟨hans, hpinned, hstore, hbytes⟩ := hpoint
      have hlive : w₁.store.sessions[d]? = some (s.touch now) := by
        rw [hstore, sessions_put, if_pos rfl]
      refine ⟨hans, hpinned, hstore, fun x => ?_⟩
      exact (hinv.id.storedByte_remove ht (mem_files_of_cleaning hpc) hlive ok x).trans (hbytes x)
    | finish hpc =>
      rw [hpc] at hpoint
      exact hpoint

/-- **A `prepare` that runs alone and finds a session of its own** renews it
and answers with its progress. -/
theorem prepare_found (hfind : st₁.findByKey req.idempotencyKey = some (d, s))
    (hfp : s.fingerprint = fingerprint cfg req) (hw : Reachable cfg w) :
    (∃ w' answer, Served cfg w (.prepare req) now later w' answer) ∧
      ∀ w' answer, Served cfg w (.prepare req) now later w' answer →
        answer = .ok (.prepared
          (buildPrepareResponse (s.touch now) cfg.uploadSessionTtlSecs now)) ∧
        Reachable cfg w' ∧ w'.pinned = w.pinned ∧ w'.store = st₁.put d (s.touch now) ∧
        ∀ x, storedByte w'.fs s.filePath x = storedByte w.fs s.filePath x := by
  have hP := callInv_foundAlone hcheck hclean later hfind hfp
  refine ⟨?_, ?_⟩
  · refine hP.exists_served hw ?_
    intro w₁ t hinv ht hcall hpoint hwork
    cases hpc : t.pc <;> rw [hpc] at hpoint hwork <;> first | exact hpoint.elim | cases hwork
  · intro w' answer hserved
    obtain ⟨hw', hanswer, hleft⟩ := hP.served hw hserved
    exact ⟨hanswer, hw', hleft⟩

theorem callInv_newAlone (later : Nat) (hidx : IndexInv st₁)
    (hnone : st₁.findByKey req.idempotencyKey = none) :
    CallInv cfg w (.prepare req) now later (NewAlone cfg req st₁ now later) where
  start := by
    intro d' k o ho tasks drawn
    simp only [firstSection, Task.new, hcheck] at ho
    obtain ⟨st₁', plan', hclean', hcases⟩ := prepareDecide_cases cfg w.pinned w.store now req d' k
    cases hclean.symm.trans hclean'
    rcases hcases with ⟨e, u, hu, -, -⟩ | ⟨e, u, hu, -, -⟩ | ⟨-, hout⟩
    · cases hnone.symm.trans hu
    · cases hnone.symm.trans hu
    · obtain rfl := ho.symm.trans hout
      exact ⟨rfl, d', k, rfl⟩
  kept := by
    intro w₁ w₂ t t' hinv ht hcall hnow hpoint hproceeds ht'
    cases hproceeds with obtain rfl := Option.mem_unique (World.tasks_update_self ht w₁.store _) ht'
    | @reenter o ho =>
      rcases hpc : t.pc with _ | _ | c | _ | _ | _ | _ | _ | _ | _ | _ <;>
        simp only [secondSection, hcall, hpc, reduceCtorEq, Option.some.injEq] at ho hpoint
      obtain ⟨rfl, d', k, rfl⟩ := hpoint
      obtain ⟨st₂, plan', hclean₂, hcases⟩ := prepareInsert_cases cfg w₁.pinned w₁.store later
        t.plan (newSession cfg req now d' k)
      -- the cleanup does not bring the key back
      have hfree : st₂.findByKey req.idempotencyKey = none := by
        rcases hfind : st₂.findByKey req.idempotencyKey with - | ⟨e, u⟩
        · rfl
        · obtain ⟨hkey, hu⟩ := findByKey_eq_some.mp hfind
          have hrem := removes_of_eq hclean₂
          obtain ⟨u', hu', hkey'⟩ := (hrem.indexInv hidx).session_of_key _ e hkey
          have hold := hrem.of_some hu'
          have hkeyOld := hidx.key_of_session e u' hold
          rw [hkey'] at hkeyOld
          cases hnone.symm.trans (findByKey_eq_some.mpr ⟨hkeyOld, hold⟩)
      rcases hcases with ⟨e, u, hu, -, -⟩ | ⟨e, u, hu, -, -⟩ | ⟨-, hout⟩
      · cases hfree.symm.trans hu
      · cases hfree.symm.trans hu
      · obtain rfl := ho.symm.trans hout
        refine ⟨d', k, rfl, ?_⟩
        show (st₂.sessions.insert d' ((newSession cfg req now d' k).touch later))[d']? = _
        rw [Std.TreeMap.getElem?_insert_self]
    | enter hpc => rw [hpc] at hpoint; exact hpoint.elim
    | create hpc | remove ok hpc | finish hpc =>
      rw [hpc] at hpoint
      exact hpoint
    | openWrite hcall' | write hcall' | wrote hcall' | openDigest hcall' | read hcall'
    | digest hcall' => cases hcall.symm.trans hcall'

/-- **A `prepare` that runs alone and finds no session** creates one. -/
theorem prepare_new (hidx : IndexInv st₁) (hnone : st₁.findByKey req.idempotencyKey = none)
    (hw : Reachable cfg w) :
    (∃ w' answer, Served cfg w (.prepare req) now later w' answer) ∧
      ∀ w' answer, Served cfg w (.prepare req) now later w' answer → Reachable cfg w' ∧
        ∃ d k, answer = .ok (.prepared (buildPrepareResponse
            ((newSession cfg req now d k).touch later) cfg.uploadSessionTtlSecs later)) ∧
          w'.store.sessions[d]? = some ((newSession cfg req now d k).touch later) := by
  have hP := callInv_newAlone hcheck hclean later hidx hnone
  refine ⟨?_, ?_⟩
  · refine hP.exists_served hw ?_
    intro w₁ t hinv ht hcall hpoint hwork
    cases hpc : t.pc <;> rw [hpc] at hpoint hwork <;>
      first | exact hpoint.elim | cases hwork
    · exact ⟨_, .create hpc⟩
    · rename_i c
      have ho : secondSection cfg w₁ t later
          = some (prepareInsert cfg w₁.pinned w₁.store t.plan later c) := by
        simp only [secondSection, hcall, hpc]
      exact ⟨_, .reenter ho⟩
  · intro w' answer hserved
    exact hP.served hw hserved

end Prepare

end Imago
