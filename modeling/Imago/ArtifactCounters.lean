/-
Imago/ArtifactCounters.lean

The two counters of an upload session.  `inflight_writes` counts the pushes
between their critical sections and `commit_in_progress` marks a commit
between its own; `commit`, `push` and the expiry of sessions all trust them.

`CountInv` relates them to the calls of the whole run, *dropped ones
included*: a dropped call never reaches its second critical section, so the
session goes on counting it.  That is the general invariant, and the
integrity of committed files rests on it.  What the counters are meant to
say, the number of calls that are still running, follows only as long as no
call is dropped between its two critical sections
(`counters_exact_of_no_mid_drop`); one that is dropped there leaves the
counters wrong at once, and the session can neither be committed nor expire.
-/
import Imago.ArtifactIndex

namespace Imago

variable {cfg : StoreConfig} {w : World}

/-! ### The invariant -/

/-- The counters of every session count the calls between two sections. -/
structure CountInv (w : World) : Prop where
  inflight : ∀ (d : String) s, w.store.sessions[d]? = some s →
    s.inflightWrites = w.tasks.countP (Task.writes d)
  commit : ∀ (d : String) s, w.store.sessions[d]? = some s →
    s.commitInProgress.toNat = w.tasks.countP (Task.digests d)
  exclusive : ∀ (d : String) s, w.store.sessions[d]? = some s →
    s.commitInProgress = true ∨ s.committed = true → s.inflightWrites = 0

theorem CountInv.init (fs : FileStore Cell) : CountInv (World.init fs) where
  inflight := by intro d s hs; simp [World.init, StoreState.empty] at hs
  commit := by intro d s hs; simp [World.init, StoreState.empty] at hs
  exclusive := by intro d s hs; simp [World.init, StoreState.empty] at hs

variable {t : Task} {i : Nat}

/-- Changing one call changes a count by what it adds for that call. -/
theorem countP_update (ht : w.tasks[i]? = some t) (st : StoreState) (t' : Task) (p : Task → Bool) :
    (w.update st i t').tasks.countP p + (p t).toNat = w.tasks.countP p + (p t').toNat := by
  obtain ⟨hi, hget⟩ := List.getElem?_eq_some_iff.mp ht
  have hpos : p t = true → 0 < w.tasks.countP p := by
    intro hp
    exact List.countP_pos_iff.mpr ⟨t, List.mem_of_getElem? ht, hp⟩
  have hset : (w.update st i t').tasks.countP p
      = w.tasks.countP p - (if p t = true then 1 else 0) + if p t' = true then 1 else 0 := by
    rw [← hget]
    exact List.countP_set hi
  have htoNat : ∀ b : Bool, b.toNat = if b = true then 1 else 0 := by decide
  rw [hset, htoNat, htoNat]
  split_ifs with hp hp'
  · have := hpos hp; omega
  · have := hpos hp; omega
  · omega
  · omega

variable {s : UploadSession} {d : String}

section Update

variable {i : Nat} {t t' : Task} {st' : StoreState}

/-- One call moves and the counters of every session move with it. -/
theorem CountInv.update (h : CountInv w) (ht : w.tasks[i]? = some t)
    (hsess : ∀ (d : String) s', st'.sessions[d]? = some s' →
      ∃ s, w.store.sessions[d]? = some s ∧
        s'.inflightWrites + (t.writes d).toNat = s.inflightWrites + (t'.writes d).toNat ∧
        s'.commitInProgress.toNat + (t.digests d).toNat
          = s.commitInProgress.toNat + (t'.digests d).toNat ∧
        (s'.commitInProgress = true ∨ s'.committed = true → s'.inflightWrites = 0)) :
    CountInv (w.update st' i t') where
  inflight := by
    intro d s' hs'
    obtain ⟨s, hs, hwrites, -, -⟩ := hsess d s' hs'
    have hold := h.inflight d s hs
    have hcount := countP_update ht st' t' (Task.writes d)
    omega
  commit := by
    intro d s' hs'
    obtain ⟨s, hs, -, hdigests, -⟩ := hsess d s' hs'
    have hold := h.commit d s hs
    have hcount := countP_update ht st' t' (Task.digests d)
    omega
  exclusive := by
    intro d s' hs'
    obtain ⟨-, -, -, -, hexcl⟩ := hsess d s' hs'
    exact hexcl

/-- The call is counted neither before nor after, or both. -/
theorem CountInv.move (h : CountInv w) (ht : w.tasks[i]? = some t)
    (hsess : ∀ (d : String) s', st'.sessions[d]? = some s' → w.store.sessions[d]? = some s' ∧
      t'.writes d = t.writes d ∧ t'.digests d = t.digests d) :
    CountInv (w.update st' i t') := by
  refine h.update ht fun d s' hs' => ?_
  obtain ⟨hs, hw, hd⟩ := hsess d s' hs'
  exact ⟨s', hs, by rw [hw], by rw [hd], h.exclusive d s' hs⟩

/-- One session changes, together with the call that works on it. -/
theorem CountInv.work (h : CountInv w) (ht : w.tasks[i]? = some t) {s' : UploadSession}
    (hs : w.store.sessions[d]? = some s)
    (hwrites : s'.inflightWrites + (t.writes d).toNat = s.inflightWrites + (t'.writes d).toNat)
    (hdigests : s'.commitInProgress.toNat + (t.digests d).toNat
      = s.commitInProgress.toNat + (t'.digests d).toNat)
    (hexcl : s'.commitInProgress = true ∨ s'.committed = true → s'.inflightWrites = 0)
    (hother : ∀ e, d ≠ e → t'.writes e = t.writes e ∧ t'.digests e = t.digests e) :
    CountInv (w.update (w.store.put d s') i t') := by
  refine h.update ht fun e u hu => ?_
  rw [sessions_put] at hu
  split at hu
  · rename_i hde
    subst hde
    cases hu
    exact ⟨s, hs, hwrites, hdigests, hexcl⟩
  · rename_i hde
    obtain ⟨hw, hd⟩ := hother e hde
    exact ⟨u, hu, by rw [hw], by rw [hd], h.exclusive e u hu⟩

end Update

/-! ### What the counters say about one call -/

theorem writes_push {req : ArtifactPushRequest} (hcall : t.call = .push req) (d : String) :
    t.writes d = ((req.header.deployId == d) && t.pc.inWrite) := by
  rw [Task.writes, hcall]; rfl

theorem digests_push {req : ArtifactPushRequest} (hcall : t.call = .push req) (d : String) :
    t.digests d = false := by
  rw [Task.digests, hcall]; rfl

variable {req : ArtifactCommitRequest}

theorem writes_commit (hcall : t.call = .commit req) (d : String) : t.writes d = false := by
  rw [Task.writes, hcall]; rfl

theorem digests_commit (hcall : t.call = .commit req) (d : String) :
    t.digests d = ((req.deployId == d) && t.pc.inDigest) := by
  rw [Task.digests, hcall]; rfl

/-- A push between its sections is counted. -/
theorem CountInv.inflight_pos (h : CountInv w) (ht : w.tasks[i]? = some t) (hw : t.writes d = true)
    (hs : w.store.sessions[d]? = some s) : 0 < s.inflightWrites := by
  rw [h.inflight d s hs]
  exact List.countP_pos_iff.mpr ⟨t, List.mem_of_getElem? ht, hw⟩

/-- A commit between its sections is marked. -/
theorem CountInv.committing (h : CountInv w) (ht : w.tasks[i]? = some t) (hd : t.digests d = true)
    (hs : w.store.sessions[d]? = some s) : s.commitInProgress = true := by
  have hpos : 0 < s.commitInProgress.toNat := by
    rw [h.commit d s hs]
    exact List.countP_pos_iff.mpr ⟨t, List.mem_of_getElem? ht, hd⟩
  rcases e : s.commitInProgress
  · rw [e] at hpos; exact absurd hpos (Nat.lt_irrefl 0)
  · rfl

/-! ### The invariant holds in every reachable state -/

variable {w' : World}

theorem CountInv.congr (h : CountInv w) (hstore : w'.store = w.store)
    (htasks : w'.tasks = w.tasks) :
    CountInv w' where
  inflight := by rw [hstore, htasks]; exact h.inflight
  commit := by rw [hstore, htasks]; exact h.commit
  exclusive := by rw [hstore]; exact h.exclusive

/-- A call at a point that no session counts. -/
theorem not_counted (hwrite : t.pc.inWrite = false) (hdigest : t.pc.inDigest = false) (d : String) :
    t.writes d = false ∧ t.digests d = false := by
  simp [Task.writes, Task.digests, hwrite, hdigest]

section

variable (h : CountInv w) (ht : w.tasks[i]? = some t)

include h ht

/-- Moves that no session counts. -/
theorem CountInv.move_uncounted {t' : Task}
    (hwrite : t.pc.inWrite = false) (hdigest : t.pc.inDigest = false)
    (hwrite' : t'.pc.inWrite = false) (hdigest' : t'.pc.inDigest = false) :
    CountInv (w.update w.store i t') := by
  refine h.move ht fun d s' hs' => ⟨hs', ?_, ?_⟩
  · rw [(not_counted hwrite hdigest d).1, (not_counted hwrite' hdigest' d).1]
  · rw [(not_counted hwrite hdigest d).2, (not_counted hwrite' hdigest' d).2]

variable {pc' : Pc}

/-- Moves between the sections of one push or one commit. -/
theorem CountInv.move_within
    (hwrite : pc'.inWrite = t.pc.inWrite) (hdigest : pc'.inDigest = t.pc.inDigest) :
    CountInv (w.update w.store i { t with pc := pc' }) := by
  refine h.move ht fun d s' hs' => ⟨hs', ?_, ?_⟩
  · simp only [Task.writes, hwrite]
  · simp only [Task.digests, hdigest]

theorem CountInv.settle {plan' : CleanupPlan}
    (hgone : ∀ d, t.writes d = true ∨ t.digests d = true → w.store.sessions[d]? = none)
    (hset : pc'.answer?.isSome) :
    CountInv (w.update w.store i { t with plan := plan', pc := pc' }) := by
  have hwrite : pc'.inWrite = false := by cases pc' <;> first | rfl | cases hset
  have hdigest : pc'.inDigest = false := by cases pc' <;> first | rfl | cases hset
  refine h.move ht fun d s' hs' => ?_
  have hlive : ¬(t.writes d = true ∨ t.digests d = true) := by
    intro hd
    have hnone := hgone d hd
    have hs'' : w.store.sessions[d]? = some s' := hs'
    rw [hnone] at hs''; cases hs''
  simp only [not_or, Bool.not_eq_true] at hlive
  obtain ⟨h₁, h₂⟩ := not_counted (t := { t with plan := plan', pc := pc' }) hwrite hdigest d
  exact ⟨hs', h₁.trans hlive.1.symm, h₂.trans hlive.2.symm⟩

variable {st' : StoreState}

/-- A new session starts with its counters at zero, and nobody works on it. -/
theorem CountInv.insert (hid : IdInv cfg w) {t' : Task} {c : UploadSession}
    (now : Nat) (hpc : t.pc = .inserting c)
    (hst : ∀ e : String, st'.sessions[e]?
      = if c.deployId = e then some (c.touch now) else w.store.sessions[e]?)
    (hwrite' : t'.pc.inWrite = false) (hdigest' : t'.pc.inDigest = false) :
    CountInv (w.update st' i t') := by
  have hc : t.pc.candidate? = some c := by rw [hpc]; rfl
  obtain ⟨-, req, now', k, -, hnew⟩ := (hid.task ht).candidate c hc
  have hwrite : t.pc.inWrite = false := by rw [hpc]; rfl
  have hdigest : t.pc.inDigest = false := by rw [hpc]; rfl
  -- a call that works on the id would make it an issued one
  have hfree : ∀ u ∈ w.tasks, u.writes c.deployId = false ∧ u.digests c.deployId = false := by
    intro u hu
    obtain ⟨j, hj⟩ := List.getElem?_of_mem hu
    have hnot : ¬(u.writes c.deployId = true ∨ u.digests c.deployId = true) := fun hd =>
      ((hid.task hj).target_issued c.deployId hd).2 i t c ht hc rfl
    simpa using hnot
  have hzero : w.tasks.countP (Task.writes c.deployId) = 0 ∧
      w.tasks.countP (Task.digests c.deployId) = 0 :=
    ⟨List.countP_eq_zero.mpr fun u hu => by simp [(hfree u hu).1],
      List.countP_eq_zero.mpr fun u hu => by simp [(hfree u hu).2]⟩
  have hsame : ∀ e, (w.update st' i t').tasks.countP (Task.writes e)
        = w.tasks.countP (Task.writes e) ∧
      (w.update st' i t').tasks.countP (Task.digests e) = w.tasks.countP (Task.digests e) := by
    intro e
    have h₁ := countP_update ht st' t' (Task.writes e)
    have h₂ := countP_update ht st' t' (Task.digests e)
    rw [(not_counted hwrite hdigest e).1, (not_counted hwrite' hdigest' e).1] at h₁
    rw [(not_counted hwrite hdigest e).2, (not_counted hwrite' hdigest' e).2] at h₂
    exact ⟨by omega, by omega⟩
  refine ⟨?_, ?_, ?_⟩
  · intro e s hs
    rw [World.store_update, hst] at hs
    rw [(hsame e).1]
    split at hs
    · rename_i he
      subst he
      rw [hzero.1, ← Option.some.inj hs, hnew]; rfl
    · exact h.inflight e s hs
  · intro e s hs
    rw [World.store_update, hst] at hs
    rw [(hsame e).2]
    split at hs
    · rename_i he
      subst he
      rw [hzero.2, ← Option.some.inj hs, hnew]; rfl
    · exact h.commit e s hs
  · intro e s hs
    rw [World.store_update, hst] at hs
    split at hs
    · intro _
      rw [← Option.some.inj hs, hnew]; rfl
    · exact h.exclusive e s hs

/-- A push enters or leaves the stretch between its sections. -/
theorem CountInv.push_step {req : ArtifactPushRequest} {s' : UploadSession}
    (hcall : t.call = .push req)
    (hs : w.store.sessions[req.header.deployId]? = some s)
    (hwrites : s'.inflightWrites + t.pc.inWrite.toNat = s.inflightWrites + pc'.inWrite.toNat)
    (hcommit : s'.commitInProgress = s.commitInProgress)
    (hexcl : s'.commitInProgress = true ∨ s'.committed = true → s'.inflightWrites = 0) :
    CountInv (w.update (w.store.put req.header.deployId s') i { t with pc := pc' }) := by
  have hcall' : ({ t with pc := pc' } : Task).call = .push req := hcall
  refine h.work ht hs ?_ ?_ hexcl ?_
  · rw [writes_push hcall, writes_push hcall', beq_self_eq_true, Bool.true_and, Bool.true_and]
    exact hwrites
  · rw [digests_push hcall, digests_push hcall', hcommit]
  · intro e he
    rw [writes_push hcall, writes_push hcall', digests_push hcall, digests_push hcall',
      beq_false_of_ne he]
    exact ⟨rfl, rfl⟩

/-- A commit enters or leaves the stretch between its sections. -/
theorem CountInv.commit_step {s' : UploadSession}
    (hcall : t.call = .commit req) (hs : w.store.sessions[req.deployId]? = some s)
    (hwrites : s'.inflightWrites = s.inflightWrites)
    (hcommit : s'.commitInProgress.toNat + t.pc.inDigest.toNat
      = s.commitInProgress.toNat + pc'.inDigest.toNat)
    (hexcl : s'.commitInProgress = true ∨ s'.committed = true → s'.inflightWrites = 0) :
    CountInv (w.update (w.store.put req.deployId s') i { t with pc := pc' }) := by
  have hcall' : ({ t with pc := pc' } : Task).call = .commit req := hcall
  refine h.work ht hs ?_ ?_ hexcl ?_
  · rw [writes_commit hcall, writes_commit hcall', hwrites]
  · rw [digests_commit hcall, digests_commit hcall', beq_self_eq_true, Bool.true_and,
      Bool.true_and]
    exact hcommit
  · intro e he
    rw [writes_commit hcall, writes_commit hcall', digests_commit hcall, digests_commit hcall',
      beq_false_of_ne he]
    exact ⟨rfl, rfl⟩

/-- A commit at its second section has its session marked and closed to pushes. -/
theorem CountInv.at_digested (hcall : t.call = .commit req) (hpc : t.pc.inDigest = true)
    (hs : w.store.sessions[req.deployId]? = some s) :
    s.commitInProgress = true ∧ s.inflightWrites = 0 := by
  have hmark : s.commitInProgress = true :=
    h.committing ht (by rw [digests_commit hcall, hpc, beq_self_eq_true]; rfl) hs
  exact ⟨hmark, h.exclusive _ s hs (.inl hmark)⟩

end

/-- **Every micro-step keeps the counters right.** -/
theorem CountInv.micro (hid : IdInv cfg w) (h : CountInv w) (hm : Micro cfg w w') :
    CountInv w' := by
  cases hm with
  | spawn c now =>
    have hcount : ∀ p : Task → Bool, p (Task.new c now) = false →
        (w.tasks ++ [Task.new c now]).countP p = w.tasks.countP p := by
      intro p hp
      rw [List.countP_append, List.countP_singleton, hp]; rfl
    refine ⟨?_, ?_, h.exclusive⟩
    · intro d s hs
      rw [hcount _ (not_counted rfl rfl d).1]
      exact h.inflight d s hs
    · intro d s hs
      rw [hcount _ (not_counted rfl rfl d).2]
      exact h.commit d s hs
  | pins p | draw ids | unlink ht hp => exact h.congr rfl rfl
  | drop ht => exact h.move ht fun d s' hs' => ⟨hs', rfl, rfl⟩
  | remove ht hrem hplan => exact h.move ht fun d s' hs' => ⟨hrem.of_some hs', rfl, rfl⟩
  | touch now ht hs =>
    have hexcl := h.exclusive _ _ hs
    exact h.work ht hs rfl rfl hexcl fun e _ => ⟨rfl, rfl⟩
  | settle ht hgone hset => exact h.settle ht hgone hset
  | propose ht hcall hpc =>
    exact (h.move_uncounted ht (by rw [hpc]; rfl) (by rw [hpc]; rfl) rfl rfl).congr rfl rfl
  | insert now ht hpc hfree =>
    exact h.insert ht hid now hpc (fun e => by simp [Std.TreeMap.getElem?_insert]) rfl rfl
  | beginWrite ht hcall hpc hcheck hs hguard =>
    obtain ⟨-, hcommit, hcommitted, -, -⟩ := pushGuard_eq_ok.mp hguard
    refine h.push_step ht hcall hs (by rw [hpc]; rfl) rfl ?_
    rintro (hbusy | hdone)
    · exact absurd (hcommit.symm.trans hbusy) (by decide)
    · exact absurd (hcommitted.symm.trans hdone) (by decide)
  | @endWrite i t req s e ht hcall hpc hs | @receive i t req s ack ht hcall hpc hs =>
    have hpos : 0 < s.inflightWrites :=
      h.inflight_pos ht (by rw [writes_push hcall, hpc, beq_self_eq_true]; rfl) hs
    refine h.push_step ht hcall hs ?_ rfl ?_
    · rw [hpc]
      show s.inflightWrites - 1 + 1 = s.inflightWrites + 0
      omega
    · intro hbusy
      have := h.exclusive _ s hs hbusy
      omega
  | beginCommit ht hcall hpc hs hguard =>
    obtain ⟨-, ⟨hzero, hmark⟩, -⟩ := commitGuard_eq_ok.mp hguard
    refine h.commit_step ht hcall hs rfl ?_ fun _ => hzero
    rw [hpc, hmark]; rfl
  | endCommit ht hcall hpc hs | accept ht hcall hpc hs =>
    obtain ⟨hmark, hzero⟩ := h.at_digested ht hcall (by rw [hpc]; rfl) hs
    refine h.commit_step ht hcall hs rfl ?_ fun _ => hzero
    rw [hpc, hmark]; rfl
  | allocate ht hpc | abandon n e ht hpc | write ht hcall hpc hn =>
    exact (h.move_within ht (by rw [hpc]; rfl) (by rw [hpc]; rfl)).congr rfl rfl
  | openWrite ht hcall hpc hlookup | openDigest ht hcall hpc hlookup =>
    exact h.move_within ht (by rw [hpc]; rfl) (by rw [hpc]; rfl)
  | failWrite e ht hcall hpc =>
    refine h.move ht fun d s' hs' => ⟨hs', ?_, ?_⟩
    · simp only [Task.writes, hpc]; rfl
    · rw [digests_push hcall, digests_push]; exact hcall
  | wrote ht hcall hpc | read n ht hcall hpc hn | digest ht hcall hpc heof =>
    exact h.move_within ht (by rw [hpc]; rfl) (by rw [hpc]; rfl)
  | failDigest e expected ht hcall hpc =>
    refine h.move ht fun d s' hs' => ⟨hs', ?_, ?_⟩
    · rw [writes_commit hcall, writes_commit]; exact hcall
    · simp only [Task.digests, hpc]; rfl

theorem Reachable.countInv (h : Reachable cfg w) : CountInv w := by
  have hboth := h.invariant (fun w (h : IdInv cfg w ∧ CountInv w) => h.1.coherent)
    (fun fs => ⟨IdInv.init cfg fs, CountInv.init fs⟩)
    fun _ _ h hm => ⟨h.1.micro hm, h.2.micro h.1 hm⟩
  exact hboth.2

/-! ### How many calls work on a session -/

/-- No session counts more pushes than the store admits. -/
def InflightLimited (cfg : StoreConfig) (w : World) : Prop :=
  ∀ (d : String) s, w.store.sessions[d]? = some s → s.inflightWrites ≤ cfg.maxInflightChunks

theorem InflightLimited.micro (hid : IdInv cfg w) (h : InflightLimited cfg w)
    (hm : Micro cfg w w') : InflightLimited cfg w' := by
  have hput : ∀ {d : String} {s' : UploadSession}, s'.inflightWrites ≤ cfg.maxInflightChunks →
      ∀ (e : String) u, (w.store.put d s').sessions[e]? = some u →
        u.inflightWrites ≤ cfg.maxInflightChunks := by
    intro d s' hle e u hu
    rw [sessions_put] at hu
    split at hu
    · exact Option.some.inj hu ▸ hle
    · exact h e u hu
  cases hm with
  | remove ht hrem => exact fun e u hu => h e u (hrem.of_some hu)
  | insert now ht hpc =>
    obtain ⟨-, req, now', k, -, hnew⟩ := (hid.task ht).candidate _ (by rw [hpc]; rfl)
    refine hput ?_
    rw [hnew]
    exact Nat.zero_le _
  | beginWrite ht hcall hpc hcheck hs hguard =>
    -- the guard leaves room for one more
    exact hput (pushGuard_eq_ok.mp hguard).2.2.2.2
  | endWrite ht hcall hpc hs | receive ht hcall hpc hs =>
    exact hput (Nat.le_trans (Nat.sub_le ..) (h _ _ hs))
  | touch now ht hs | beginCommit ht hcall hpc hs | endCommit ht hcall hpc hs
  | accept ht hcall hpc hs =>
    have hle := h _ _ hs
    exact hput hle
  | _ => exact h

/-- **How many calls work on a session.**  Whatever the calls do and wherever they
are dropped: at most `max_inflight_chunks` pushes and one commit of a session are
between their critical sections, and no push is there together with a commit or
once the artifact is committed. -/
theorem session_calls_limited (hw : Reachable cfg w) (hs : w.store.sessions[d]? = some s) :
    w.tasks.countP (Task.writes d) ≤ cfg.maxInflightChunks ∧
      w.tasks.countP (Task.digests d) ≤ 1 ∧
      ((∃ t ∈ w.tasks, t.digests d = true) ∨ s.committed = true →
        ∀ t ∈ w.tasks, t.writes d = false) := by
  have hinv := hw.countInv
  have hlimit := hw.invariant (fun w (h : IdInv cfg w ∧ InflightLimited cfg w) => h.1.coherent)
    (fun fs => ⟨IdInv.init cfg fs, fun d s hs => by simp [World.init, StoreState.empty] at hs⟩)
    fun _ _ h hm => ⟨h.1.micro hm, h.2.micro h.1 hm⟩
  refine ⟨?_, ?_, fun hbusy t ht => ?_⟩
  · rw [← hinv.inflight d s hs]
    exact hlimit.2 d s hs
  · rw [← hinv.commit d s hs]
    exact Bool.toNat_le _
  · have hmark : s.commitInProgress = true ∨ s.committed = true := by
      refine hbusy.imp_left ?_
      rintro ⟨u, hu, hd⟩
      obtain ⟨i, hi⟩ := List.getElem?_of_mem hu
      exact hinv.committing hi hd hs
    have hzero := hinv.exclusive d s hs hmark
    rw [hinv.inflight d s hs, List.countP_eq_zero] at hzero
    exact Bool.eq_false_iff.mpr (hzero t ht)

/-- A push between its sections. -/
theorem session_calls_limited_push : ∃ w, Reachable sampleConfig w ∧
    w.tasks.countP (Task.writes "d-1") = 1 ∧ 1 ≤ sampleConfig.maxInflightChunks := by
  have hsample : ∃ w s, Reachable sampleConfig w ∧ w.store.sessions["d-1"]? = some s ∧
      w.tasks.countP (Task.writes "d-1") = 1 :=
    ⟨_, _, ⟨FileStore.empty,
      samplePrepared ++ [.call (.push samplePush) 102, .enter 1 "d-2" "k-2"], rfl⟩, rfl, rfl⟩
  obtain ⟨w, s, hw, hs, hone⟩ := hsample
  exact ⟨w, hw, hone, hone ▸ (session_calls_limited hw hs).1⟩

/-! ### Dropped calls -/

/-- The step aborts a call between its two critical sections. -/
def MidDrop (w : World) (a : Action) : Prop :=
  ∃ i t, a = .drop i ∧ w.tasks[i]? = some t ∧ (t.pc.inWrite = true ∨ t.pc.inDigest = true)

/-- No dropped call is between two critical sections. -/
def DropInv (w : World) : Prop :=
  ∀ (i : Nat) t, w.tasks[i]? = some t → t.dropped = true →
    t.pc.inWrite = false ∧ t.pc.inDigest = false

theorem DropInv.update (h : DropInv w) {t' : Task}
    (hnew : t'.dropped = true → t'.pc.inWrite = false ∧ t'.pc.inDigest = false) :
    DropInv (w.update st' i t') :=
  forall_set h hnew

/-- A running call stays a running call when it moves. -/
theorem DropInv.of_running (h : DropInv w) {t' : Task} (hrun : t'.dropped = false) :
    DropInv (w.update st' i t') :=
  h.update fun hdrop => absurd (hrun.symm.trans hdrop) (by decide)

theorem DropInv.step {a : Action} (h : DropInv w) (hok : ¬MidDrop w a)
    (hstep : step cfg w a = some w') : DropInv w' := by
  cases a with
  | call c now =>
    cases hstep
    exact forall_concat h fun _ => ⟨rfl, rfl⟩
  | enter i d k =>
    obtain ⟨t, -, hrun, -, -, o, -, rfl⟩ := step_enter hstep
    have hnew : DropInv (w.update o.store i { t with plan := o.plan, pc := o.pc }) :=
      h.of_running hrun
    exact hnew
  | reenter i now =>
    obtain ⟨t, o, -, hrun, -, rfl⟩ := step_reenter hstep
    exact h.of_running hrun
  | io i a =>
    simp only [Imago.step] at hstep
    split at hstep
    · rename_i t hrun
      obtain ⟨-, hdrop⟩ := World.tasks_of_running hrun
      obtain ⟨r, -, rfl⟩ := Option.map_eq_some_iff.mp hstep
      have hnew : DropInv (w.update w.store i { t with pc := r.2 }) := h.of_running hdrop
      exact hnew
    · cases hstep
  | write i n =>
    simp only [Imago.step] at hstep
    split at hstep
    · rename_i t ht
      split at hstep
      · rename_i hdl off rest hcall hpc
        split at hstep
        · cases hstep
          have hdrop : t.dropped = false := by
            by_contra hd
            have := (h i t ht (by simpa using hd)).1
            rw [hpc] at this
            cases this
          have hnew : DropInv (w.update w.store i
              { t with pc := .writing hdl (off + n) (rest.drop n) }) := h.of_running hdrop
          exact hnew
        · cases hstep
      · cases hstep
    · cases hstep
  | drop i =>
    obtain ⟨t, hrun, rfl⟩ := Option.map_eq_some_iff.mp hstep
    have ht := (World.tasks_of_running hrun).1
    refine h.update fun _ => ?_
    by_contra hmid
    refine hok ⟨i, t, rfl, ht, ?_⟩
    by_contra hnot
    simp only [not_or, Bool.not_eq_true] at hnot
    exact hmid hnot
  | pin d | unpin d =>
    cases hstep
    exact h

/-! ### What the counters are meant to say -/

/-- The counters of every session describe the calls that are running. -/
def CountersExact (w : World) : Prop :=
  ∀ (d : String) s, w.store.sessions[d]? = some s →
    s.inflightWrites = w.tasks.countP (fun t => !t.dropped && t.writes d) ∧
      (s.commitInProgress = true ↔ ∃ t ∈ w.tasks, t.dropped = false ∧ t.digests d = true)

/-- No push to the session and no commit of it is running. -/
def Quiet (w : World) (d : String) : Prop :=
  ∀ t ∈ w.tasks, t.dropped = false → t.writes d = false ∧ t.digests d = false

instance (w : World) (d : String) : Decidable (Quiet w d) :=
  inferInstanceAs (Decidable (∀ t ∈ w.tasks, t.dropped = false → _ ∧ _))

/-- The session can be committed once it is complete, and it expires once its
time is up. -/
def Reusable (cfg : StoreConfig) (w : World) (d : String) (s : UploadSession) : Prop :=
  (∀ (pinned : Std.TreeMap String Nat) (now : Nat) (req : ArtifactCommitRequest),
    req.deployId = d → req.artifactDigest = s.artifactDigest →
    req.artifactSize = s.artifactSize → req.manifestDigest = s.manifestDigest →
    isComplete s.receivedRanges s.artifactSize = true →
    (collectSessionCleanup cfg pinned w.store now none).1.sessions[d]? = some s →
    (commitBegin cfg pinned w.store now req).pc
      = .digestOpening s.filePath s.artifactDigest) ∧
  ∀ (pinned : Std.TreeMap String Nat) (now : Nat) (keep : Option String),
    s.committed = false → cfg.uploadSessionTtlSecs ≤ now - s.updatedAtEpochSecs →
    (collectSessionCleanup cfg pinned w.store now keep).1.sessions[d]? = none

theorem DropInv.running (h : DropInv w) (ht : t ∈ w.tasks)
    (hd : t.writes d = true ∨ t.digests d = true) : t.dropped = false := by
  obtain ⟨i, hi⟩ := List.getElem?_of_mem ht
  by_contra hdrop
  obtain ⟨hwrite, hdigest⟩ := h i t hi (by simpa using hdrop)
  obtain ⟨h₁, h₂⟩ := not_counted hwrite hdigest d
  rcases hd with hd | hd
  · exact absurd (h₁.symm.trans hd) (by decide)
  · exact absurd (h₂.symm.trans hd) (by decide)

theorem countersExact_of_inv (h : CountInv w) (hdrop : DropInv w) : CountersExact w := by
  intro d s hs
  refine ⟨?_, ?_⟩
  · rw [h.inflight d s hs]
    refine List.countP_congr fun t ht => ?_
    constructor
    · intro hd
      rw [hdrop.running ht (Or.inl hd), hd]; rfl
    · intro hd
      exact (Bool.and_eq_true_iff.mp hd).2
  · have hcount := h.commit d s hs
    constructor
    · intro hmark
      rw [hmark] at hcount
      have hpos : 0 < w.tasks.countP (Task.digests d) := by rw [← hcount]; exact Nat.one_pos
      obtain ⟨t, ht, hd⟩ := List.countP_pos_iff.mp hpos
      exact ⟨t, ht, hdrop.running ht (.inr hd), hd⟩
    · rintro ⟨t, ht, -, hd⟩
      obtain ⟨i, hi⟩ := List.getElem?_of_mem ht
      exact h.committing hi hd hs

theorem CountersExact.idle (h : CountersExact w) (hs : w.store.sessions[d]? = some s)
    (hquiet : Quiet w d) : s.Idle := by
  obtain ⟨hwrites, hcommit⟩ := h d s hs
  refine ⟨?_, ?_⟩
  · rw [hwrites, List.countP_eq_zero]
    intro t ht hd
    obtain ⟨hrun, hd⟩ := Bool.and_eq_true_iff.mp hd
    have hq := (hquiet t ht (by simpa using hrun)).1
    exact absurd (hq.symm.trans hd) (by decide)
  · by_contra hmark
    obtain ⟨t, ht, hrun, hd⟩ := hcommit.mp (by simpa using hmark)
    exact absurd ((hquiet t ht hrun).2.symm.trans hd) (by decide)

theorem reusable_of_idle (hs : w.store.sessions[d]? = some s) (hidle : s.Idle) :
    Reusable cfg w d s := by
  refine ⟨?_, ?_⟩
  · rintro pinned now req rfl h₁ h₂ h₃ hcomplete hlive
    obtain ⟨st₁, plan, hclean, hcases⟩ := commitBegin_cases cfg pinned w.store now req
    rw [hclean] at hlive
    have hguard : commitGuard req s = .ok () :=
      commitGuard_eq_ok.mpr ⟨⟨h₁, h₂, h₃⟩, hidle, hcomplete⟩
    rcases hcases with ⟨e, hfail, -⟩ | ⟨s', hs', -, h⟩
    · exact absurd hguard (hfail s hlive)
    · rw [h]
      obtain rfl := Option.mem_unique hlive hs'
      rfl
  · intro pinned now keep hc hage
    exact collectSessionCleanup_expired hs hc hidle hage

/-- A drop between two sections leaves the counters of a live session wrong. -/
theorem not_countersExact_of_drop (hexact : CountersExact w) (hinv : CountInv w)
    (ht : w.tasks[i]? = some t) (hrun : t.dropped = false)
    (hd : t.writes d = true ∨ t.digests d = true) (hlive : w.store.sessions[d]? ≠ none) :
    ¬CountersExact (w.update w.store i { t with dropped := true }) := by
  intro hafter
  obtain ⟨s, hs⟩ := Option.ne_none_iff_exists'.mp hlive
  obtain ⟨hold, -⟩ := hexact d s hs
  obtain ⟨hnew, hmark⟩ := hafter d s hs
  rcases hd with hd | hd
  · -- the push is still in the counter but no longer runs
    have hcount := countP_update ht w.store { t with dropped := true }
      (fun t => !t.dropped && t.writes d)
    simp only [hrun, hd, Bool.not_false, Bool.not_true, Bool.true_and, Bool.false_and,
      Bool.toNat_true, Bool.toNat_false] at hcount
    omega
  · -- the commit was the only one, and the mark stays
    have hcount := countP_update ht w.store { t with dropped := true }
      (fun t => !t.dropped && t.digests d)
    simp only [hrun, hd, Bool.not_false, Bool.not_true, Bool.true_and, Bool.false_and,
      Bool.toNat_true, Bool.toNat_false] at hcount
    have hle : w.tasks.countP (fun t => !t.dropped && t.digests d)
        ≤ w.tasks.countP (Task.digests d) :=
      List.countP_mono_left fun u _ hu => (Bool.and_eq_true_iff.mp hu).2
    have hone := hinv.commit d s hs
    rw [hinv.committing ht hd hs, Bool.toNat_true] at hone
    obtain ⟨u, hu, hurun, hud⟩ := hmark.mp (hinv.committing ht hd hs)
    have hpos : 0 < (w.update w.store i { t with dropped := true }).tasks.countP
        (fun t => !t.dropped && t.digests d) :=
      List.countP_pos_iff.mpr ⟨u, hu, by rw [hurun, hud]; rfl⟩
    omega

/-- **The counters without mid-drops.**  In every run in which no call is
dropped between its two critical sections, `inflight_writes` is the number of
running pushes of the session and `commit_in_progress` says whether a commit
of it is running; a session that nobody works on can be committed and can
expire.  The condition is needed: the first drop that breaks it, on a live
session, leaves the counters wrong. -/
theorem counters_exact_of_no_mid_drop (cfg : StoreConfig) (fs : FileStore Cell)
    (as : List Action) (w : World)
    (hok : RunMeets (step cfg) (fun w a => ¬MidDrop w a) (World.init fs) as)
    (hrun : run (step cfg) (World.init fs) as = some w) :
    CountersExact w ∧
      (∀ (d : String) s, w.store.sessions[d]? = some s → Quiet w d → Reusable cfg w d s) ∧
      ∀ (i : Nat) (t : Task) (d : String) (w' : World), w.tasks[i]? = some t →
        t.writes d = true ∨ t.digests d = true → w.store.sessions[d]? ≠ none →
        step cfg w (.drop i) = some w' → ¬CountersExact w' := by
  have hreach : Reachable cfg w := ⟨fs, as, hrun⟩
  have hinv := hreach.countInv
  have hdrop : DropInv w := by
    refine run_invariant_of_meets (fun w a w' h hok hstep => h.step hok hstep) hok hrun ?_
    intro i t ht
    simp [World.init] at ht
  have hexact := countersExact_of_inv hinv hdrop
  refine ⟨hexact, ?_, ?_⟩
  · intro d s hs hquiet
    exact reusable_of_idle hs (hexact.idle hs hquiet)
  · intro i t d w' ht hd hlive hstep
    obtain ⟨u, hu, rfl⟩ := Option.map_eq_some_iff.mp hstep
    obtain ⟨hu, hurun⟩ := World.tasks_of_running hu
    obtain rfl : t = u := Option.mem_unique ht hu
    exact not_countersExact_of_drop hexact hinv ht hurun hd hlive

/-- A push in flight is counted, and dropping it makes the count wrong. -/
theorem counters_exact_until_drop :
    ∃ w w',
      run (step sampleConfig) (World.init FileStore.empty)
        (samplePrepared ++ [.call (.push samplePush) 102, .enter 1 "d-2" "k-2"]) = some w ∧
      step sampleConfig w (.drop 1) = some w' ∧ CountersExact w ∧ ¬CountersExact w' := by
  have hok : RunMeets (step sampleConfig) (fun w a => ¬MidDrop w a) (World.init FileStore.empty)
      (samplePrepared ++ [.call (.push samplePush) 102, .enter 1 "d-2" "k-2"]) := by
    refine RunMeets.of_forall ?_ _
    rintro a ha w ⟨i, t, rfl, -⟩
    simp [samplePrepared] at ha
  have hall : ∀ w w' t,
      run (step sampleConfig) (World.init FileStore.empty)
        (samplePrepared ++ [.call (.push samplePush) 102, .enter 1 "d-2" "k-2"]) = some w →
      step sampleConfig w (.drop 1) = some w' → w.tasks[1]? = some t →
      t.writes "d-1" = true → w.store.sessions["d-1"]? ≠ none →
      CountersExact w ∧ ¬CountersExact w' := by
    intro w w' t hrun hstep ht hd hlive
    obtain ⟨hexact, -, hbreak⟩ :=
      counters_exact_of_no_mid_drop sampleConfig FileStore.empty _ w hok hrun
    exact ⟨hexact, hbreak 1 t "d-1" w' ht (.inl hd) hlive hstep⟩
  exact ⟨_, _, rfl, rfl, hall _ _ _ rfl rfl rfl rfl (by intro h; cases h)⟩

/-- A push dropped while its file is still closed: nobody works on the
session any more, but it counts one write.  A commit is refused as busy and
no cleanup, however late, removes the session. -/
theorem dropped_push_wedges_session :
    ∃ w s e,
      run (step sampleConfig) (World.init FileStore.empty)
        (samplePrepared ++ [.call (.push samplePush) 102, .enter 1 "d-2" "k-2", .drop 1])
          = some w ∧
      Quiet w "d-1" ∧ w.store.sessions["d-1"]? = some s ∧ s.inflightWrites = 1 ∧
      (commitBegin sampleConfig ∅ w.store 103 ⟨"d-1", "sha256-4", 4, "sha256-2"⟩).pc
        = .done (.error e) ∧ e.code = .busy ∧
      (collectSessionCleanup sampleConfig ∅ w.store 1000000 none).1.sessions["d-1"]? = some s := by
  exact ⟨_, _, _, rfl, by decide, rfl, rfl, rfl, rfl, rfl⟩

end Imago
