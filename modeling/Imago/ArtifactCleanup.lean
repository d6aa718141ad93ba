/-
Imago/ArtifactCleanup.lean

Every operation of the store first drops expired and evicted sessions from
the index and collects their files in a plan; `apply_cleanup_plan` at the end
of the operation removes the files.  A session that is dropped is gone from
the index for good, so a plan that is dropped on the way (a `?` or a `return`
inside the critical section) leaves its files on disk for ever.

`Swept` says which sessions a cleanup drops, without running it
(`sessions_collectSessionCleanup`).  A `Course` is one call from beginning to
end, met by arbitrary states at its two locks and an arbitrary result of its
I/O, by the sections that the steps of the system run.  The main theorem
says for each operation exactly when the files of all dropped sessions reach
`apply_cleanup_plan`.
-/
import Imago.ArtifactIndex

namespace Imago

open Std (TreeMap)

variable {cfg : StoreConfig} {pinned : TreeMap String Nat} {st st₁ st' : StoreState}
  {now : Nat} {keep : Option String} {plan : CleanupPlan}

/-! ### Which sessions a cleanup drops -/

/-- The ids that eviction must leave alone. -/
def protectedIds (pinned : TreeMap String Nat) (keep : Option String) : List String :=
  (keep.filter fun id => !id.isEmpty).toList ++ pinned.keys

/-- The cleanup at the head of a critical section drops the session. -/
def Swept (cfg : StoreConfig) (pinned : TreeMap String Nat) (st : StoreState) (now : Nat)
    (keep : Option String) (d : String) (s : UploadSession) : Prop :=
  s.Expired now cfg.uploadSessionTtlSecs ∨
    s.Stale now cfg.committedSessionTtlSecs (protectedIds pinned keep) d ∨
    st.Evicts now cfg.committedSessionTtlSecs cfg.maxCommittedSessions
      (protectedIds pinned keep) d s

/-- The cleanup finds nothing to drop. -/
def Clean (cfg : StoreConfig) (pinned : TreeMap String Nat) (st : StoreState) (now : Nat)
    (keep : Option String) : Prop :=
  ∀ (d : String) s, st.sessions[d]? = some s → ¬Swept cfg pinned st now keep d s

variable {d : String} {s : UploadSession}

theorem sessions_collectExpiredSessions {ttl : Nat} :
    (collectExpiredSessions st now ttl).1.sessions[d]? = some s ↔
      st.sessions[d]? = some s ∧ ¬s.Expired now ttl := by
  rw [collectExpiredSessions, sessions_collectSessionsForRemoval]
  split
  · rename_i hmem
    obtain ⟨s', hs', hexp⟩ := mem_expiredIds.mp hmem
    refine ⟨fun h => (by cases h), ?_⟩
    rintro ⟨hs, hnot⟩
    obtain rfl := Option.mem_unique hs hs'
    exact absurd hexp hnot
  · rename_i hmem
    refine ⟨fun hs => ⟨hs, fun hexp => hmem (mem_expiredIds.mpr ⟨s, hs, hexp⟩)⟩, And.left⟩

/-- Expiry takes no committed session, so it does not change who is evicted. -/
theorem evicts_collectExpiredSessions {uploadTtl ttl limit : Nat} {prot : List String} :
    (collectExpiredSessions st now uploadTtl).1.Evicts now ttl limit prot d s ↔
      st.Evicts now ttl limit prot d s := by
  have hcommitted : ∀ (e : String) (u : UploadSession), u.committed = true →
      ((collectExpiredSessions st now uploadTtl).1.sessions[e]? = some u ↔
        st.sessions[e]? = some u) := by
    intro e u hu
    rw [sessions_collectExpiredSessions]
    exact ⟨And.left, fun h => ⟨h, fun hexp => absurd (hexp.1.symm.trans hu) (by decide)⟩⟩
  unfold StoreState.Evicts StoreState.places
  rw [StoreState.count_congr fun e u h => hcommitted e u h.1.1.1,
    StoreState.count_congr fun e u (h : u.committed = true ∧ e ∈ prot) => hcommitted e u h.1,
    StoreState.count_congr fun e u (h : u.Competes now ttl prot e) => hcommitted e u h.1.1]

/-- **What a cleanup leaves**: exactly the sessions that are not `Swept`. -/
theorem sessions_collectSessionCleanup :
    (collectSessionCleanup cfg pinned st now keep).1.sessions[d]? = some s ↔
      st.sessions[d]? = some s ∧ ¬Swept cfg pinned st now keep d s := by
  simp only [collectSessionCleanup, collectOrphanCommittedSessions, cleanupOrphanIdempotency]
  rw [sessions_collectSessionsForRemoval]
  change (if d ∈ orphanIds _ now _ _ (protectedIds pinned keep) then none else _) = some s ↔ _
  split
  · rename_i hmem
    obtain ⟨s', hs', hgone⟩ := mem_orphanIds.mp hmem
    refine ⟨fun h => (by cases h), ?_⟩
    rintro ⟨hs, hnot⟩
    obtain rfl := Option.some.inj (hs.symm.trans (sessions_collectExpiredSessions.mp hs').1)
    rw [evicts_collectExpiredSessions] at hgone
    exact absurd (.inr hgone) hnot
  · rename_i hmem
    rw [sessions_collectExpiredSessions]
    refine and_congr_right fun hs => ?_
    constructor
    · rintro hexp (h | h)
      · exact hexp h
      · refine hmem (mem_orphanIds.mpr ⟨s, sessions_collectExpiredSessions.mpr ⟨hs, hexp⟩, ?_⟩)
        rwa [evicts_collectExpiredSessions]
    · exact fun hnot hexp => hnot (.inl hexp)

theorem survives_iff (h : collectSessionCleanup cfg pinned st now keep = (st₁, plan)) :
    st₁.sessions[d]? = some s ↔ st.sessions[d]? = some s ∧ ¬Swept cfg pinned st now keep d s := by
  rw [← sessions_collectSessionCleanup, h]

variable {later : Nat}

/-- A session that is used right after a cleanup is there until its time is
up: the committed sessions that the cleanup left fit into their places. -/
theorem not_swept_of_touch (h : collectSessionCleanup cfg pinned st now keep = (st₁, plan))
    (hs : st₁.sessions[d]? = some s) (hupload : later - now < cfg.uploadSessionTtlSecs)
    (hcommitted : later - now < cfg.committedSessionTtlSecs) :
    ¬Swept cfg pinned (st₁.put d (s.touch now)) later keep d (s.touch now) := by
  rintro (⟨-, -, hage⟩ | ⟨-, hage⟩ | ⟨-, hover⟩)
  · exact Nat.not_lt.mpr hage hupload
  · exact Nat.not_lt.mpr hage hcommitted
  · set prot := protectedIds pinned keep
    set expired := (collectExpiredSessions st now cfg.uploadSessionTtlSecs).1
    have hkept : ∀ (e : String) u, st₁.sessions[e]? = some u → expired.sessions[e]? = some u ∧
        e ∉ orphanIds expired now cfg.committedSessionTtlSecs cfg.maxCommittedSessions prot := by
      intro e u hu
      rw [show st₁ = _ from (congrArg Prod.fst h).symm] at hu
      simp only [collectSessionCleanup, collectOrphanCommittedSessions,
        cleanupOrphanIdempotency] at hu
      rw [sessions_collectSessionsForRemoval] at hu
      split at hu
      · cases hu
      · exact ⟨hu, by assumption⟩
    -- touching a session changes neither who may be evicted nor who is protected
    have hput : ∀ (e : String) u, (st₁.put d (s.touch now)).sessions[e]? = some u →
        ∃ u₀, st₁.sessions[e]? = some u₀ ∧ u₀.committed = u.committed ∧ (u.Idle ↔ u₀.Idle) := by
      intro e u hu
      rw [sessions_put] at hu
      split at hu
      · rename_i hde
        subst hde
        cases hu
        exact ⟨s, hs, rfl, Iff.rfl⟩
      · exact ⟨u, hu, rfl, Iff.rfl⟩
    have hcompete : ((st₁.put d (s.touch now)).count fun e u =>
          u.Competes later cfg.committedSessionTtlSecs prot e)
        ≤ st₁.count fun e u => u.Evictable prot e := by
      refine StoreState.count_le fun e u hu hcomp => ?_
      obtain ⟨u₀, hu₀, hsame, hidle⟩ := hput e u hu
      exact ⟨u₀, hu₀, hsame.trans hcomp.1.1, hidle.mp hcomp.1.2.1, hcomp.1.2.2⟩
    have hprotected : ((st₁.put d (s.touch now)).count fun e u => u.committed = true ∧ e ∈ prot)
        ≤ expired.count fun e u => u.committed = true ∧ e ∈ prot := by
      refine StoreState.count_le fun e u hu hprot => ?_
      obtain ⟨u₀, hu₀, hsame, -⟩ := hput e u hu
      exact ⟨u₀, (hkept e u₀ hu₀).1, hsame.trans hprot.1, hprot.2⟩
    have hfit := count_evictable_le_places hkept
    simp only [StoreState.places] at hover hfit
    omega

/-! ### What a section drops -/

/-- The files of all sessions that are gone in `st'` are in the plan. -/
def Recorded (st st' : StoreState) (plan : CleanupPlan) : Prop :=
  ∀ (d : String) s, st.sessions[d]? = some s → st'.sessions[d]? = none → s.filePath ∈ plan

theorem Removes.recorded (h : Removes st st₁ plan)
    (hlive : ∀ d : String, st'.sessions[d]? = none → st₁.sessions[d]? = none) :
    Recorded st st' plan := by
  intro d s hs hnone
  exact (h.mem_plan _).mpr ⟨d, s, hs, hlive d hnone, rfl⟩

theorem Recorded.mono {plan' : CleanupPlan} (h : Recorded st st' plan)
    (hsub : ∀ p ∈ plan, p ∈ plan') : Recorded st st' plan' :=
  fun d s hs hnone => hsub _ (h d s hs hnone)

/-- A session written back under an id that is live. -/
theorem none_of_put_none (e : String) (h : (st.put d s).sessions[e]? = none) :
    st.sessions[e]? = none := by
  rw [sessions_put] at h
  split at h
  · cases h
  · exact h

theorem put_none_iff {s' : UploadSession} (hs : st.sessions[d]? = some s) (e : String) :
    (st.put d s').sessions[e]? = none ↔ st.sessions[e]? = none := by
  refine ⟨none_of_put_none e, ?_⟩
  intro h
  rw [sessions_put, if_neg, h]
  rintro rfl
  rw [hs] at h; cases h

theorem recorded_put {s' : UploadSession} (hs : st.sessions[d]? = some s) :
    Recorded st (st.put d s') [] := by
  intro e u hu hnone
  rw [(put_none_iff hs e).mp hnone] at hu
  cases hu

/-- An empty plan records everything exactly if the cleanup found nothing. -/
theorem recorded_nil_iff (h : collectSessionCleanup cfg pinned st now keep = (st₁, plan))
    (hlive : ∀ d : String, st'.sessions[d]? = none ↔ st₁.sessions[d]? = none) :
    Recorded st st' [] ↔ Clean cfg pinned st now keep := by
  constructor
  · intro hrec d s hs hswept
    have hnone : st₁.sessions[d]? = none := by
      rcases e : st₁.sessions[d]? with - | s'
      · rfl
      · obtain ⟨hs', hnot⟩ := (survives_iff h).mp e
        obtain rfl := Option.mem_unique hs hs'
        exact absurd hswept hnot
    cases hrec d s hs ((hlive d).mpr hnone)
  · intro hclean d s hs hnone
    have hlives := (survives_iff h).mpr ⟨hs, hclean d s hs⟩
    rw [(hlive d).mp hnone] at hlives
    cases hlives

/-! ### A call from beginning to end -/

/-- What one call meets: the world at its first lock with the UUIDs drawn
there, the result of its I/O (for a commit, the digest of the file), and the
world and the clock at its second lock. -/
structure Surroundings where
  first : World
  deployId : String
  uploadToken : String
  io : Except ImagodError String
  second : World
  later : Nat

/-- The point of a call after its I/O, given the point before. -/
def afterIo (plan : CleanupPlan) (io : Except ImagodError String) : Pc → Pc
  | .creating c =>
    match io with
    | .ok _ => .inserting c
    | .error e => .cleaning plan (.error e)
  | .opening _ => .written (io.map fun _ => ())
  | .digestOpening _ expected => .digested io expected
  | pc => pc

/-- One call: the index before and after each of its critical sections, and
the point at which its answer is decided. -/
structure Course where
  sections : List (StoreState × StoreState)
  pc : Pc

def course (cfg : StoreConfig) (call : Call) (now : Nat) (env : Surroundings) : Course :=
  let t := Task.new call now
  let o := firstSection cfg env.first t env.deployId env.uploadToken
  let t₁ : Task := { t with plan := o.plan, pc := afterIo o.plan env.io o.pc }
  match secondSection cfg env.second t₁ env.later with
  | some o₂ => ⟨[(env.first.store, o.store), (env.second.store, o₂.store)], o₂.pc⟩
  | none => ⟨[(env.first.store, o.store)], t₁.pc⟩

/-- Every session that the call drops from the index has its file among those
handed to `apply_cleanup_plan`. -/
def Course.Scheduled (c : Course) : Prop :=
  ∀ x ∈ c.sections, Recorded x.1 x.2 c.pc.files

theorem Course.scheduled_one {st st' : StoreState} {pc : Pc} :
    Course.Scheduled ⟨[(st, st')], pc⟩ ↔ Recorded st st' pc.files := by
  simp [Course.Scheduled]

theorem Course.scheduled_two {st st' st₁ st₁' : StoreState} {pc : Pc} :
    Course.Scheduled ⟨[(st, st'), (st₁, st₁')], pc⟩ ↔
      Recorded st st' pc.files ∧ Recorded st₁ st₁' pc.files := by
  simp [Course.Scheduled]

/-- When the files of all dropped sessions are scheduled, in terms of what the
call is given: `prepare` and `purge_deploy_session` always; the others if
there is nothing to drop at the first lock, or if nothing stops them. -/
def CleansUp (cfg : StoreConfig) (now : Nat) (env : Surroundings) : Call → Prop
  | .prepare _ | .purgeDeploySession _ => True
  | .push req =>
    ∀ chunkEnd, pushCheck cfg req = .ok chunkEnd →
      Clean cfg env.first.pinned env.first.store now none ∨
        (∃ s, env.first.store.sessions[req.header.deployId]? = some s ∧
          ¬Swept cfg env.first.pinned env.first.store now none req.header.deployId s ∧
          pushGuard cfg req.header chunkEnd s = .ok ()) ∧
        env.second.store.sessions[req.header.deployId]? ≠ none ∧ ∃ x, env.io = .ok x
  | .commit req =>
    Clean cfg env.first.pinned env.first.store now none ∨
      ∃ s, env.first.store.sessions[req.deployId]? = some s ∧
        ¬Swept cfg env.first.pinned env.first.store now none req.deployId s ∧
        commitGuard req s = .ok () ∧ env.second.store.sessions[req.deployId]? ≠ none ∧
        env.io = .ok s.artifactDigest
  | .committedArtifact d | .serviceNameForDeploy d =>
    Clean cfg env.first.pinned env.first.store now (some d) ∨
      ∃ s, env.first.store.sessions[d]? = some s ∧
        ¬Swept cfg env.first.pinned env.first.store now (some d) d s ∧ s.committed = true

/-! ### The operations one by one -/

variable {call : Call} {o : Outcome}

/-- What the first section of the call leaves behind. -/
abbrev firstOutcome (cfg : StoreConfig) (call : Call) (now : Nat) (env : Surroundings) : Outcome :=
  firstSection cfg env.first (Task.new call now) env.deployId env.uploadToken

section Operations

variable (env : Surroundings)

/-- A call whose first section decides its answer. -/
theorem course_of_first
    (ho : firstOutcome cfg call now env = o)
    (hans : o.pc.answer?.isSome) :
    course cfg call now env = ⟨[(env.first.store, o.store)], o.pc⟩ := by
  have hafter : afterIo o.plan env.io o.pc = o.pc := by
    rcases e : o.pc <;> rw [e] at hans <;> first | rfl | cases hans
  have hsecond : ∀ t : Task, t.pc.answer?.isSome →
      secondSection cfg env.second t env.later = none := by
    intro t ht
    unfold secondSection
    split <;> rename_i hpc <;> first | rfl | (rw [hpc] at ht; cases ht)
  simp only [course, ho, hafter]
  rw [hsecond]
  exact hans

/-- A call with two sections. -/
theorem course_of_second {o₂ : Outcome}
    (ho : firstOutcome cfg call now env = o)
    (ho₂ : secondSection cfg env.second
      { Task.new call now with plan := o.plan, pc := afterIo o.plan env.io o.pc } env.later
        = some o₂) :
    course cfg call now env
      = ⟨[(env.first.store, o.store), (env.second.store, o₂.store)], o₂.pc⟩ := by
  simp only [course, ho, ho₂]

/-- A call that is refused in its first section, after the cleanup. -/
theorem scheduled_refused {e : ImagodError}
    (hclean : collectSessionCleanup cfg env.first.pinned env.first.store now keep = (st₁, plan))
    (ho : firstOutcome cfg call now env
      = .fail st₁ plan e) :
    (course cfg call now env).Scheduled ↔ Clean cfg env.first.pinned env.first.store now keep := by
  rw [course_of_first env ho rfl, Course.scheduled_one]
  exact recorded_nil_iff hclean fun _ => Iff.rfl

theorem scheduled_lookup {output : UploadSession → Output}
    (ho : firstOutcome cfg call now env
      = lookupCommitted cfg env.first.pinned env.first.store now d output) :
    (course cfg call now env).Scheduled ↔ CleansUp cfg now env (.committedArtifact d) := by
  obtain ⟨st₁, plan, hclean, ⟨e, hno, h⟩ | ⟨s, hs, hc, h⟩⟩ :=
    lookupCommitted_cases cfg env.first.pinned env.first.store now d output
  · rw [scheduled_refused env hclean (ho.trans h)]
    refine ⟨.inl, ?_⟩
    rintro (hclean' | ⟨s, hs, hnot, hc⟩)
    · exact hclean'
    · exact absurd ((hno s ((survives_iff hclean).mpr ⟨hs, hnot⟩)).symm.trans hc) (by decide)
  · refine ⟨fun _ => ?_, fun _ => ?_⟩
    · obtain ⟨hs', hnot⟩ := (survives_iff hclean).mp hs
      exact .inr ⟨s, hs', hnot, hc⟩
    · rw [course_of_first env (ho.trans h) rfl, Course.scheduled_one]
      exact (removes_of_eq hclean).recorded none_of_put_none

/-- The second section of `prepare` cleans up whatever it decides. -/
theorem prepareInsert_recorded (cfg : StoreConfig) (pinned : TreeMap String Nat) (st : StoreState)
    (now : Nat) (plan : CleanupPlan) (cand : UploadSession) :
    Recorded st (prepareInsert cfg pinned st plan now cand).store
        (prepareInsert cfg pinned st plan now cand).pc.files ∧
      ∀ p ∈ plan, p ∈ (prepareInsert cfg pinned st plan now cand).pc.files := by
  obtain ⟨st₁, plan', hclean, hcases⟩ := prepareInsert_cases cfg pinned st now plan cand
  have hsweep := removes_of_eq hclean
  rcases hcases with ⟨d, s, -, -, h⟩ | ⟨d, s, -, -, h⟩ | ⟨-, h⟩
  · rw [h]
    refine ⟨(hsweep.recorded fun _ h => h).mono ?_, ?_⟩ <;>
      intro p hp <;> simp [Outcome.finish, Pc.files, hp]
  · rw [h]
    refine ⟨(hsweep.recorded none_of_put_none).mono ?_, ?_⟩ <;>
      intro p hp <;> simp [Outcome.finish, Pc.files, hp]
  · rw [h]
    refine ⟨(hsweep.recorded fun e he => ?_).mono ?_, ?_⟩
    · simp only [Outcome.finish, TreeMap.getElem?_insert] at he
      split at he
      · cases he
      · exact he
    · intro p hp; simp [Outcome.finish, Pc.files, hp]
    · intro p hp; simp [Outcome.finish, Pc.files, hp]

theorem scheduled_prepare (req : DeployPrepareRequest) :
    (course cfg (.prepare req) now env).Scheduled := by
  rcases hcheck : prepareCheck cfg req with e | u
  · have ho : firstOutcome cfg (.prepare req) now env
        = .fail env.first.store [] e := by
      simp only [firstOutcome, firstSection, Task.new, hcheck]
    rw [course_of_first env ho rfl, Course.scheduled_one]
    exact (Removes.refl _).recorded fun _ h => h
  have ho : firstOutcome cfg (.prepare req) now env
      = prepareDecide cfg env.first.pinned env.first.store now req env.deployId
        env.uploadToken := by
    simp only [firstOutcome, firstSection, Task.new, hcheck]
  obtain ⟨st₁, plan, hclean, hcases⟩ :=
    prepareDecide_cases cfg env.first.pinned env.first.store now req env.deployId env.uploadToken
  have hsweep := removes_of_eq hclean
  rcases hcases with ⟨d, s, -, -, h⟩ | ⟨d, s, -, -, h⟩ | ⟨-, h⟩
  · rw [course_of_first env (ho.trans h) rfl, Course.scheduled_one]
    exact hsweep.recorded fun _ h => h
  · rw [course_of_first env (ho.trans h) rfl, Course.scheduled_one]
    exact hsweep.recorded none_of_put_none
  · have hfirst : Recorded env.first.store st₁ plan := hsweep.recorded fun _ h => h
    rcases hio : env.io with e | x
    · -- the file could not be created
      simp only [course, ho, h, hio]
      exact Course.scheduled_one.mpr hfirst
    · rw [course_of_second env (ho.trans h) (by rw [hio]; rfl)]
      obtain ⟨hsecond, hplan⟩ := prepareInsert_recorded cfg env.second.pinned env.second.store
        env.later plan (newSession cfg req now env.deployId env.uploadToken)
      exact Course.scheduled_two.mpr ⟨hfirst.mono hplan, hsecond⟩

theorem scheduled_purge (d : String) :
    (course cfg (.purgeDeploySession d) now env).Scheduled := by
  obtain ⟨st₁, plan₁, st₂, plan₂, hclean, hpurge, h⟩ :=
    purgeDeploySession_eq cfg env.first.pinned env.first.store now d
  have ho : firstOutcome cfg (.purgeDeploySession d) now env = .finish st₂ (plan₁ ++ plan₂)
      (.ok .purged) := h
  rw [course_of_first env ho rfl, Course.scheduled_one]
  have h₂ := removes_collectSessionsForRemoval st₁ [d]
  rw [hpurge] at h₂
  exact ((removes_of_eq hclean).trans h₂).recorded fun _ h => h

/-- What a push or a commit has dropped at its first lock is lost if its
second section fails. -/
theorem scheduled_failed {st₂ st₂' : StoreState} {pc : Pc} {s' : UploadSession}
    (hclean : collectSessionCleanup cfg pinned st now keep = (st₁, plan))
    (hs : st₁.sessions[d]? = some s) (hpc : pc.files = []) (hsecond : Recorded st₂ st₂' []) :
    Course.Scheduled ⟨[(st, st₁.put d s'), (st₂, st₂')], pc⟩ ↔ Clean cfg pinned st now keep := by
  rw [Course.scheduled_two, hpc, recorded_nil_iff hclean (put_none_iff hs)]
  exact ⟨And.left, fun h => ⟨h, hsecond⟩⟩

theorem scheduled_push (req : ArtifactPushRequest) {chunkEnd : Nat}
    (hcheck : pushCheck cfg req = .ok chunkEnd) :
    (course cfg (.push req) now env).Scheduled ↔ CleansUp cfg now env (.push req) := by
  have ho : firstOutcome cfg (.push req) now env
      = pushBegin cfg env.first.pinned env.first.store now req.header chunkEnd := by
    simp only [firstOutcome, firstSection, Task.new, hcheck]
  obtain ⟨st₁, plan, hclean, ⟨e, hno, h⟩ | ⟨s, hs, hguard, h⟩⟩ :=
    pushBegin_cases cfg env.first.pinned env.first.store now req.header chunkEnd
  · rw [scheduled_refused env hclean (ho.trans h)]
    refine ⟨fun h _ _ => .inl h, fun h => ?_⟩
    rcases h chunkEnd hcheck with hclean' | ⟨⟨s, hs, hnot, hguard⟩, -⟩
    · exact hclean'
    · exact absurd hguard (hno s ((survives_iff hclean).mpr ⟨hs, hnot⟩))
  · rcases pushFinish_cases env.second.store now plan req.header (env.io.map fun _ => ()) with
      ⟨e, hnone, h₂⟩ | ⟨s₂, e, hs₂, hio, h₂⟩ | ⟨s₂, ack, hs₂, hio, h₂⟩
    · rw [course_of_second env (ho.trans h) (congrArg some h₂)]
      refine (scheduled_failed hclean hs rfl ?_).trans ⟨fun h _ _ => .inl h, fun h => ?_⟩
      · exact (Removes.refl _).recorded fun _ h => h
      · rcases h chunkEnd hcheck with hclean' | ⟨-, hlive, -⟩
        · exact hclean'
        · exact absurd hnone hlive
    · rw [course_of_second env (ho.trans h) (congrArg some h₂)]
      refine (scheduled_failed hclean hs rfl (recorded_put hs₂)).trans
        ⟨fun h _ _ => .inl h, fun h => ?_⟩
      rcases h chunkEnd hcheck with hclean' | ⟨-, -, x, hx⟩
      · exact hclean'
      · rw [hx] at hio; cases hio
    · rw [course_of_second env (ho.trans h) (congrArg some h₂)]
      refine ⟨fun _ chunkEnd' hcheck' => .inr ⟨?_, ?_, ?_⟩, fun _ => ?_⟩
      · obtain ⟨hs', hnot⟩ := (survives_iff hclean).mp hs
        obtain rfl := Except.ok.inj (hcheck.symm.trans hcheck')
        exact ⟨s, hs', hnot, hguard⟩
      · rw [hs₂]; simp
      · rcases hx : env.io with e | x
        · rw [hx] at hio; cases hio
        · exact ⟨x, rfl⟩
      · refine Course.scheduled_two.mpr ⟨(removes_of_eq hclean).recorded none_of_put_none, ?_⟩
        exact (recorded_put hs₂).mono (List.nil_subset _)

theorem scheduled_commit (req : ArtifactCommitRequest) :
    (course cfg (.commit req) now env).Scheduled ↔ CleansUp cfg now env (.commit req) := by
  have ho : firstOutcome cfg (.commit req) now env
      = commitBegin cfg env.first.pinned env.first.store now req := rfl
  obtain ⟨st₁, plan, hclean, ⟨e, hno, h⟩ | ⟨s, hs, hguard, h⟩⟩ :=
    commitBegin_cases cfg env.first.pinned env.first.store now req
  · rw [scheduled_refused env hclean (ho.trans h)]
    refine ⟨.inl, ?_⟩
    rintro (hclean' | ⟨s, hs, hnot, hguard, -⟩)
    · exact hclean'
    · exact absurd hguard (hno s ((survives_iff hclean).mpr ⟨hs, hnot⟩))
  · obtain ⟨hlive, hnot⟩ := (survives_iff hclean).mp hs
    -- the session found at the first lock is the only candidate
    have hsame : ∀ u, env.first.store.sessions[req.deployId]? = some u → u = s := fun u hu =>
      Option.mem_unique hu hlive
    rcases commitFinish_cases cfg env.second.pinned env.second.store now plan req s.artifactDigest
        env.io with ⟨e, hnone, h₂⟩ | ⟨s₂, e, hs₂, hio, h₂⟩ | ⟨s₂, st₂, plan', hs₂, hio, hclean₂, h₂⟩
    · rw [course_of_second env (ho.trans h) (congrArg some h₂)]
      refine (scheduled_failed hclean hs rfl ?_).trans ⟨.inl, ?_⟩
      · exact (Removes.refl _).recorded fun _ h => h
      · rintro (hclean' | ⟨-, -, -, -, hlive₂, -⟩)
        · exact hclean'
        · exact absurd hnone hlive₂
    · rw [course_of_second env (ho.trans h) (congrArg some h₂)]
      refine (scheduled_failed hclean hs rfl (recorded_put hs₂)).trans ⟨.inl, ?_⟩
      rintro (hclean' | ⟨u, hu, -, -, -, hio'⟩)
      · exact hclean'
      · exact absurd (hsame u hu ▸ hio') hio
    · rw [course_of_second env (ho.trans h) (congrArg some h₂)]
      refine ⟨fun _ => .inr ⟨s, hlive, hnot, hguard, by rw [hs₂]; simp, hio⟩, fun _ => ?_⟩
      refine Course.scheduled_two.mpr ⟨?_, ?_⟩
      · refine Recorded.mono ((removes_of_eq hclean).recorded none_of_put_none) fun p hp => ?_
        exact List.mem_append_left _ hp
      · -- the cleanup of the second section ran on the store with the accepted session
        intro d u hu hnone
        refine List.mem_append_right _ ?_
        have hrec := (removes_of_eq hclean₂).recorded (fun _ h => h) d
        by_cases hd : req.deployId = d
        · subst hd
          obtain rfl := Option.mem_unique hs₂ hu
          exact hrec (s₂.accept now) (by rw [sessions_put, if_pos rfl]) hnone
        · exact hrec u (by rw [sessions_put, if_neg hd, hu]) hnone

end Operations

/-! ### The result -/

/-- **When the files of dropped sessions are scheduled.**  For every operation,
every state at its locks and every result of its I/O, each session that the
call drops from the index has its file handed to `apply_cleanup_plan` exactly
under the condition `CleansUp`. -/
theorem cleanup_scheduled_iff (cfg : StoreConfig) (call : Call) (now : Nat) (env : Surroundings) :
    (course cfg call now env).Scheduled ↔ CleansUp cfg now env call := by
  cases call with
  | prepare req => exact iff_of_true (scheduled_prepare env req) trivial
  | purgeDeploySession d => exact iff_of_true (scheduled_purge env d) trivial
  | commit req => exact scheduled_commit env req
  | committedArtifact d =>
    have ho : firstOutcome cfg (.committedArtifact d) now env
        = committedArtifact cfg env.first.pinned env.first.store now d := rfl
    exact scheduled_lookup env ho
  | serviceNameForDeploy d =>
    have ho : firstOutcome cfg (.serviceNameForDeploy d) now env
        = serviceNameForDeploy cfg env.first.pinned env.first.store now d := rfl
    exact scheduled_lookup env ho
  | push req =>
    rcases hcheck : pushCheck cfg req with e | chunkEnd
    · -- refused before the first lock
      have ho : firstOutcome cfg (.push req) now env
          = .fail env.first.store [] e := by
        simp only [firstOutcome, firstSection, Task.new, hcheck]
      refine iff_of_true ?_ fun chunkEnd h => by rw [hcheck] at h; cases h
      rw [course_of_first env ho rfl, Course.scheduled_one]
      exact (Removes.refl _).recorded fun _ h => h
    · exact scheduled_push env req hcheck

/-- An upload has expired when `committed_artifact` is asked for an unknown
id: the call drops the session, fails with `NotFound`, and removes no file;
the artifact stays on disk with no session and no plan that names it. -/
theorem failed_lookup_leaks_file :
    ∃ w w' s t e,
      run (step sampleConfig) (World.init FileStore.empty)
        (samplePrepared ++ [.call (.committedArtifact "d-9") 5000]) = some w ∧
      w.store.sessions["d-1"]? = some s ∧
      step sampleConfig w (.enter 1 "d-2" "k-2") = some w' ∧
      w'.store.sessions["d-1"]? = none ∧
      w'.tasks[1]? = some t ∧ t.pc = .done (.error e) ∧ e.code = .notFound ∧
      s.filePath ∉ t.pc.files ∧ (w'.fs.contents s.filePath).isSome ∧
      ∀ u ∈ w'.tasks, s.filePath ∉ u.pc.files := by
  exact ⟨_, _, _, _, _, rfl, rfl, rfl, rfl, rfl, rfl, rfl, by decide, rfl, by decide⟩

end Imago
