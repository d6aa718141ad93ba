/-
Imago/ArtifactIndex.lean

The identity invariant of the artifact store: who owns which deploy id.

A deploy id is drawn by a `prepare`, belongs to that call's candidate session
while the file is being created, and then is *issued* (`World.Issued`): the
candidate has become a session, or has been given up.  An issued id never
becomes a candidate again.  So a session that has left the index never comes
back, a plan that names its file can never hit a live session, and whatever
a call remembers about an id stays true of the session with that id as long
as there is one.

`IdInv` collects these facts together with the bijection between idempotency
keys and sessions.  It is proved once per micro-step; all but four micro-steps
are instances of `IdInv.update`, which changes one call and at most the
mutable part of sessions.
-/
import Imago.ArtifactSystem

namespace Imago

variable {cfg : StoreConfig} {w : World}

/-! ### Issued and retired ids -/

/-- The id has been drawn and is not, or no longer, that of a candidate. -/
def World.Issued (w : World) (d : String) : Prop :=
  d ∈ w.drawn ∧ ∀ (i : Nat) t c, w.tasks[i]? = some t → t.pc.candidate? = some c → c.deployId ≠ d

/-- The path belongs to an issued id without a session. -/
def World.Retired (cfg : StoreConfig) (w : World) (p : String) : Prop :=
  ∃ d, p = artifactPath cfg.root d ∧ w.Issued d ∧ w.store.sessions[d]? = none

/-- What is known of one call. -/
structure TaskId (cfg : StoreConfig) (w : World) (t : Task) : Prop where
  candidate : ∀ c, t.pc.candidate? = some c → c.deployId ∈ w.drawn ∧
    ∃ req now k, t.call = .prepare req ∧ c = newSession cfg req now c.deployId k
  target_issued : ∀ d, t.writes d = true ∨ t.digests d = true → w.Issued d
  retired : ∀ p ∈ t.files, w.Retired cfg p
  answered : ∀ req r, t.call = .prepare req → t.pc.answer? = some (.ok (.prepared r)) →
    w.Issued r.deployId ∧ ∀ s, w.store.sessions[r.deployId]? = some s →
      s.idempotencyKey = req.idempotencyKey ∧ s.uploadToken = r.uploadToken

/-- Who owns which id. -/
structure IdInv (cfg : StoreConfig) (w : World) : Prop where
  index : IndexInv w.store
  path_eq : ∀ (d : String) s, w.store.sessions[d]? = some s → s.filePath = artifactPath cfg.root d
  issued : ∀ (d : String) s, w.store.sessions[d]? = some s → w.Issued d
  task : ∀ {i : Nat} {t}, w.tasks[i]? = some t → TaskId cfg w t
  candidate_inj : ∀ (i j : Nat) t t' c c', w.tasks[i]? = some t → w.tasks[j]? = some t' →
    t.pc.candidate? = some c → t'.pc.candidate? = some c' → c.deployId = c'.deployId → i = j

theorem IdInv.init (cfg : StoreConfig) (fs : FileStore Cell) : IdInv cfg (World.init fs) where
  index := indexInv_empty
  path_eq := by intro d s hs; simp [World.init, StoreState.empty] at hs
  issued := by intro d s hs; simp [World.init, StoreState.empty] at hs
  task := by intro i t ht; simp [World.init] at ht
  candidate_inj := by intro i j t t' c c' ht; simp [World.init] at ht

theorem IdInv.coherent (h : IdInv cfg w) : Coherent w where
  index := h.index
  candidate_key := by
    intro i t req c ht hcall hc
    obtain ⟨-, req', now, k, hcall', hnew⟩ := (h.task ht).candidate c hc
    rw [hcall] at hcall'
    cases hcall'
    rw [hnew]; rfl

variable {t : Task} {c : UploadSession}

/-- A candidate is in its initial state. -/
theorem IdInv.candidate_path (h : IdInv cfg w) {i : Nat} (ht : w.tasks[i]? = some t)
    (hc : t.pc.candidate? = some c) : c.filePath = artifactPath cfg.root c.deployId := by
  obtain ⟨-, req, now, k, -, hnew⟩ := (h.task ht).candidate c hc
  rw [hnew]; rfl

/-- A candidate is not in the index. -/
theorem IdInv.candidate_not_live (h : IdInv cfg w) {i : Nat} (ht : w.tasks[i]? = some t)
    (hc : t.pc.candidate? = some c) : w.store.sessions[c.deployId]? = none := by
  rcases e : w.store.sessions[c.deployId]? with - | s
  · rfl
  · exact absurd rfl ((h.issued _ s e).2 i t c ht hc)

/-! ### From one world to a later one -/

/-- Ids stay drawn and issued, and no session appears or changes under an id
that has been issued before. -/
structure World.Later (w w' : World) : Prop where
  drawn : ∀ e ∈ w.drawn, e ∈ w'.drawn
  issued : ∀ e, w.Issued e → w'.Issued e
  session : ∀ e, w.Issued e → ∀ s', w'.store.sessions[e]? = some s' →
    ∃ s, w.store.sessions[e]? = some s ∧ s'.identity = s.identity

variable {w' : World}

theorem World.Later.none (hl : w.Later w') {e : String} (he : w.Issued e)
    (hnone : w.store.sessions[e]? = none) : w'.store.sessions[e]? = none := by
  rcases hs : w'.store.sessions[e]? with - | s'
  · rfl
  · obtain ⟨s, hold, -⟩ := hl.session e he s' hs
    cases hnone.symm.trans hold

theorem World.Retired.later {p : String} (h : w.Retired cfg p) (hl : w.Later w') :
    w'.Retired cfg p := by
  obtain ⟨d, rfl, hissued, hnone⟩ := h
  exact ⟨d, rfl, hl.issued d hissued, hl.none hissued hnone⟩

/-- What is known of a call that does not move stays known. -/
theorem TaskId.later (h : TaskId cfg w t) (hl : w.Later w') : TaskId cfg w' t where
  candidate c hc := ⟨hl.drawn _ (h.candidate c hc).1, (h.candidate c hc).2⟩
  target_issued d hd := hl.issued d (h.target_issued d hd)
  retired p hp := (h.retired p hp).later hl
  answered req r hcall hr := by
    obtain ⟨hissued, hold⟩ := h.answered req r hcall hr
    refine ⟨hl.issued _ hissued, fun s' hs' => ?_⟩
    obtain ⟨s, hs, hid⟩ := hl.session _ hissued s' hs'
    obtain ⟨-, hkey, -, -, htok, -⟩ := UploadSession.fields_of_identity hid
    exact ⟨hkey.trans (hold s hs).1, htok.trans (hold s hs).2⟩

/-- The invariant of a later world in which one call has moved. -/
theorem IdInv.moved (h : IdInv cfg w) (hl : w.Later w') {i : Nat} {t' : Task}
    (htasks : ∀ (j : Nat) u, w'.tasks[j]? = some u →
      (j = i ∧ u = t') ∨ (j ≠ i ∧ w.tasks[j]? = some u))
    (hidx : IndexInv w'.store)
    (hsess : ∀ (d : String) s, w'.store.sessions[d]? = some s →
      s.filePath = artifactPath cfg.root d ∧ w'.Issued d)
    (hcand : ∀ c, t'.pc.candidate? = some c → ∀ (j : Nat) u c', j ≠ i → w.tasks[j]? = some u →
      u.pc.candidate? = some c' → c.deployId ≠ c'.deployId)
    (htask : TaskId cfg w' t') : IdInv cfg w' := by
  refine ⟨hidx, fun d s hs => (hsess d s hs).1, fun d s hs => (hsess d s hs).2, ?_, ?_⟩
  · intro j u hu
    rcases htasks j u hu with ⟨-, rfl⟩ | ⟨-, hu⟩
    · exact htask
    · exact (h.task hu).later hl
  · intro j k u u' c c' hu hu' hc hc' heq
    rcases htasks j u hu with ⟨rfl, rfl⟩ | ⟨hj, hu⟩ <;>
      rcases htasks k u' hu' with ⟨rfl, rfl⟩ | ⟨hk, hu'⟩
    · rfl
    · exact absurd heq (hcand c hc k u' c' hk hu' hc')
    · exact absurd heq.symm (hcand c' hc' j u c hj hu hc)
    · exact h.candidate_inj j k u u' c c' hu hu' hc hc' heq

/-! ### Changing one call -/

variable {d : String}

section Update

variable {i : Nat} {t t' : Task} {st' : StoreState}

theorem World.Issued.update (h : w.Issued d) (ht : w.tasks[i]? = some t)
    (hcand : t'.pc.candidate? = none ∨ t'.pc.candidate? = t.pc.candidate?) :
    (w.update st' i t').Issued d := by
  refine ⟨h.1, ?_⟩
  intro j u c hu hc
  rcases getElem?_set_cases hu with ⟨rfl, rfl⟩ | ⟨-, hu⟩
  · rcases hcand with hnone | hsame
    · rw [hnone] at hc; cases hc
    · exact h.2 j t c ht (hsame ▸ hc)
  · exact h.2 j u c hu hc

/-- The candidate of call `i` becomes issued when the call gives it up. -/
theorem IdInv.issued_of_candidate (h : IdInv cfg w) (ht : w.tasks[i]? = some t)
    (hc : t.pc.candidate? = some c) (hnone : t'.pc.candidate? = none) :
    (w.update st' i t').Issued c.deployId := by
  refine ⟨((h.task ht).candidate c hc).1, ?_⟩
  intro j u c' hu hc' heq
  rcases getElem?_set_cases hu with ⟨rfl, rfl⟩ | ⟨hji, hu⟩
  · rw [hnone] at hc'; cases hc'
  · exact hji (h.candidate_inj j i u t c' c hu ht hc' hc heq)

/-- One call moves, sessions are removed or change in their mutable part. -/
theorem IdInv.update (h : IdInv cfg w) (ht : w.tasks[i]? = some t) (hidx : IndexInv st')
    (hsess : ∀ (d : String) s', st'.sessions[d]? = some s' →
      ∃ s, w.store.sessions[d]? = some s ∧ s'.identity = s.identity)
    (hcall : t'.call = t.call)
    (hcand : t'.pc.candidate? = none ∨ t'.pc.candidate? = t.pc.candidate?)
    (htarget : ∀ d, t'.writes d = true ∨ t'.digests d = true →
      (t.writes d = true ∨ t.digests d = true) ∨ ∃ s, w.store.sessions[d]? = some s)
    (hfiles : ∀ p ∈ t'.files, p ∈ t.files ∨
      (∃ c, t.pc.candidate? = some c ∧ p = c.filePath ∧ t'.pc.candidate? = none) ∨
      ∃ (d : String) (s : UploadSession),
        w.store.sessions[d]? = some s ∧ st'.sessions[d]? = none ∧ p = s.filePath)
    (hans : ∀ r, t'.pc.answer? = some (.ok (.prepared r)) →
      t.pc.answer? = some (.ok (.prepared r)) ∨
        ∃ s, w.store.sessions[r.deployId]? = some s ∧ s.uploadToken = r.uploadToken ∧
          ∀ req, t.call = .prepare req → s.idempotencyKey = req.idempotencyKey) :
    IdInv cfg (w.update st' i t') := by
  have hl : w.Later (w.update st' i t') :=
    ⟨fun _ => id, fun e he => he.update ht hcand, fun e _ => hsess e⟩
  refine h.moved hl (fun j u => getElem?_set_cases) hidx ?_ ?_ ⟨?_, ?_, ?_, ?_⟩
  · intro d s' hs'
    obtain ⟨s, hs, hid⟩ := hsess d s' hs'
    rw [(UploadSession.fields_of_identity hid).2.2.2.2.2, h.path_eq d s hs]
    exact ⟨rfl, hl.issued d (h.issued d s hs)⟩
  · intro c hc j u c' hj hu hc' heq
    rcases hcand with hnone | hsame
    · rw [hnone] at hc; cases hc
    · exact hj (h.candidate_inj j i u t c' c hu ht hc' (hsame ▸ hc) heq.symm)
  · intro c hc
    rcases hcand with hnone | hsame
    · rw [hnone] at hc; cases hc
    · rw [hcall]; exact (h.task ht).candidate c (hsame ▸ hc)
  · intro d hd
    rcases htarget d hd with hd | ⟨s, hs⟩
    · exact hl.issued d ((h.task ht).target_issued d hd)
    · exact hl.issued d (h.issued d s hs)
  · intro p hp
    rcases hfiles p hp with hp | ⟨c, hc, rfl, hnone⟩ | ⟨d, s, hs, hnone, rfl⟩
    · exact ((h.task ht).retired p hp).later hl
    · refine ⟨c.deployId, h.candidate_path ht hc, h.issued_of_candidate ht hc hnone, ?_⟩
      rcases e : st'.sessions[c.deployId]? with - | s'
      · exact e
      · obtain ⟨s, hs, -⟩ := hsess _ s' e
        cases (h.candidate_not_live ht hc).symm.trans hs
    · exact ⟨d, h.path_eq d s hs, hl.issued d (h.issued d s hs), hnone⟩
  · intro req r hreq hr
    rw [hcall] at hreq
    rcases hans r hr with hr | ⟨s, hs, htok, hkey⟩
    · exact ((h.task ht).later hl).answered req r hreq hr
    · refine ⟨hl.issued _ (h.issued _ s hs), fun s' hs' => ?_⟩
      obtain ⟨s₀, hs₀, hid⟩ := hsess _ s' hs'
      cases Option.mem_unique hs hs₀
      obtain ⟨-, hkey', -, -, htok', -⟩ := UploadSession.fields_of_identity hid
      exact ⟨hkey'.trans (hkey req hreq), htok'.trans htok⟩

end Update

/-! ### New calls, new candidates, new sessions -/

theorem World.Issued.spawn (h : w.Issued d) (c : Call) (now : Nat) :
    ({ w with tasks := w.tasks ++ [Task.new c now] } : World).Issued d := by
  refine ⟨h.1, ?_⟩
  intro i t cand ht hc
  rcases getElem?_concat_cases ht with ht | ⟨-, rfl⟩
  · exact h.2 i t cand ht hc
  · cases hc

theorem IdInv.spawn (h : IdInv cfg w) (c : Call) (now : Nat) :
    IdInv cfg { w with tasks := w.tasks ++ [Task.new c now] } := by
  have hl : w.Later { w with tasks := w.tasks ++ [Task.new c now] } :=
    ⟨fun _ => id, fun e he => he.spawn c now, fun e _ s hs => ⟨s, hs, rfl⟩⟩
  refine @moved cfg w _ h hl w.tasks.length (Task.new c now) (fun j u hu => ?_) h.index
    (fun d s hs => ⟨h.path_eq d s hs, hl.issued d (h.issued d s hs)⟩) nofun
    ⟨nofun, fun d hd => absurd hd (not_inFlight_start rfl d), nofun, nofun⟩
  rcases getElem?_concat_cases hu with hu | ⟨rfl, rfl⟩
  · exact .inr ⟨Nat.ne_of_lt (List.getElem?_eq_some_iff.mp hu).1, hu⟩
  · exact .inl ⟨rfl, rfl⟩

theorem World.Issued.draw (h : w.Issued d) (ids : List String) :
    ({ w with drawn := ids ++ w.drawn } : World).Issued d :=
  ⟨List.mem_append_right _ h.1, h.2⟩

theorem IdInv.draw (h : IdInv cfg w) (ids : List String) :
    IdInv cfg { w with drawn := ids ++ w.drawn } := by
  have hl : w.Later { w with drawn := ids ++ w.drawn } :=
    ⟨fun e he => List.mem_append_right _ he, fun e he => he.draw ids, fun e _ s hs => ⟨s, hs, rfl⟩⟩
  exact ⟨h.index, h.path_eq, fun d s hs => hl.issued d (h.issued d s hs),
    fun ht => (h.task ht).later hl, h.candidate_inj⟩

variable {req : DeployPrepareRequest}

/-- An id drawn before is not that of a new candidate. -/
theorem World.Issued.propose {e : String} (h : w.Issued e) {i : Nat} {k : String}
    (ht : w.tasks[i]? = some t) (hfresh : w.Fresh cfg d k) :
    ({ w.update w.store i { t with pc := .creating (newSession cfg req t.now d k) } with
      drawn := d :: k :: w.drawn } : World).Issued e := by
  refine ⟨List.mem_cons_of_mem _ (List.mem_cons_of_mem _ h.1), ?_⟩
  intro j u c hu hc heq
  rcases getElem?_set_cases hu with
    ⟨rfl, rfl⟩ | ⟨-, hu⟩
  · cases hc
    have hd : d = e := heq
    exact hfresh.1 (hd ▸ h.1)
  · exact h.2 j u c hu hc heq

section

variable {i : Nat} (h : IdInv cfg w) (ht : w.tasks[i]? = some t)

include h ht

/-- A `prepare` makes a candidate under a fresh id. -/
theorem IdInv.propose {k : String} (hcall : t.call = .prepare req) (hfresh : w.Fresh cfg d k) :
    IdInv cfg { w.update w.store i { t with pc := .creating (newSession cfg req t.now d k) } with
      drawn := d :: k :: w.drawn } := by
  set t' : Task := { t with pc := .creating (newSession cfg req t.now d k) }
  set w' : World := { w.update w.store i t' with drawn := d :: k :: w.drawn }
  have hl : w.Later w' :=
    ⟨fun e he => List.mem_cons_of_mem _ (.tail _ he),
      fun e he => he.propose ht hfresh, fun e _ s hs => ⟨s, hs, rfl⟩⟩
  refine @moved cfg w w' h hl i t' (fun j u hu => ?_) h.index
    (fun e s hs => ⟨h.path_eq e s hs, hl.issued e (h.issued e s hs)⟩) ?_ ⟨?_, ?_, ?_, nofun⟩
  · exact getElem?_set_cases hu
  · rintro c ⟨⟩ j u c' - hu hc' heq
    have hd : d = c'.deployId := heq
    exact hfresh.1 (hd ▸ ((h.task hu).candidate c' hc').1)
  · rintro c ⟨⟩
    exact ⟨List.mem_cons_self, req, t.now, k, hcall, rfl⟩
  · intro e he
    simp [t', Task.writes, Task.digests, Pc.inWrite, Pc.inDigest] at he
  · intro p hp
    refine ((h.task ht).retired p (List.mem_append_left _ ?_)).later hl
    simpa [t', Task.files, Pc.files] using hp

/-- The candidate of call `i` becomes a session. -/
theorem IdInv.insert (now : Nat)
    (hpc : t.pc = .inserting c) (hfree : w.store.findByKey c.idempotencyKey = none) :
    IdInv cfg (w.update
      { sessions := w.store.sessions.insert c.deployId (c.touch now)
        idempotency := w.store.idempotency.insert c.idempotencyKey c.deployId } i
      { t with
        pc := .cleaning t.plan (.ok (.prepared
          (buildPrepareResponse (c.touch now) cfg.uploadSessionTtlSecs now))) }) := by
  set st' : StoreState :=
    { sessions := w.store.sessions.insert c.deployId (c.touch now)
      idempotency := w.store.idempotency.insert c.idempotencyKey c.deployId }
  set r₀ := buildPrepareResponse (c.touch now) cfg.uploadSessionTtlSecs now
  set t' : Task := { t with pc := .cleaning t.plan (.ok (.prepared r₀)) }
  have hc : t.pc.candidate? = some c := by rw [hpc]; rfl
  have hnone := h.candidate_not_live ht hc
  have hsessions : ∀ e : String, st'.sessions[e]?
      = if c.deployId = e then some (c.touch now) else w.store.sessions[e]? := by
    intro e; simp [st', Std.TreeMap.getElem?_insert]
  have hnew : (w.update st' i t').Issued c.deployId := h.issued_of_candidate ht hc rfl
  -- an issued id is not the candidate's, so its session has not changed
  have hl : w.Later (w.update st' i t') := by
    refine ⟨fun _ => id, fun e he => he.update ht (.inl rfl), fun e he s' hs' => ⟨s', ?_, rfl⟩⟩
    rwa [World.store_update, hsessions, if_neg (he.2 i t c ht hc)] at hs'
  refine h.moved hl (fun j u => getElem?_set_cases) (h.index.insert (s := c.touch now) hfree hnone)
    ?_ nofun ⟨nofun, ?_, ?_, ?_⟩
  · intro e s hs
    rw [World.store_update, hsessions] at hs
    split at hs
    · rename_i he
      rw [← Option.some.inj hs, ← he]
      have hpath := h.candidate_path ht hc
      exact ⟨hpath, hnew⟩
    · exact ⟨h.path_eq e s hs, hl.issued e (h.issued e s hs)⟩
  · intro e he
    simp [t', Task.writes, Task.digests, Pc.inWrite, Pc.inDigest] at he
  · intro p hp
    exact ((h.task ht).retired p
      (List.mem_append_left _ ((List.mem_append.mp hp).elim id id))).later hl
  · intro req r hcall hr
    simp only [t', Pc.answer?, Option.some.injEq, Except.ok.injEq, Output.prepared.injEq] at hr
    subst hr
    refine ⟨hnew, fun s hs => ?_⟩
    have hs' : st'.sessions[c.deployId]? = some s := hs
    rw [hsessions, if_pos rfl] at hs'
    rw [← Option.some.inj hs']
    exact ⟨h.coherent.candidate_key i t req c ht hcall hc, rfl⟩

/-! ### The invariant holds in every reachable state -/

/-- A call moves and no session changes. -/
theorem IdInv.move {pc' : Pc} {dropped : Bool}
    (hcand : pc'.candidate? = none ∨ pc'.candidate? = t.pc.candidate?)
    (hwrite : pc'.inWrite = true → t.pc.inWrite = true)
    (hdigest : pc'.inDigest = true → t.pc.inDigest = true) (hfiles : ∀ p ∈ pc'.files, p ∈ t.files)
    (hans : ∀ r, pc'.answer? = some (.ok (.prepared r)) → t.pc.answer? = some (.ok (.prepared r))) :
    IdInv cfg (w.update w.store i { t with pc := pc', dropped := dropped }) := by
  refine h.update ht h.index (fun d s hs => ⟨s, hs, rfl⟩) rfl hcand ?_ ?_ ?_
  · intro d hd
    left
    simp only [Task.writes, Task.digests, Bool.and_eq_true] at hd ⊢
    exact hd.imp (And.imp_right hwrite) (And.imp_right hdigest)
  · intro p hp
    left
    rcases List.mem_append.mp hp with hp | hp
    · exact List.mem_append_left _ hp
    · exact hfiles p hp
  · exact fun r hr => .inl (hans r hr)

variable {s : UploadSession}

/-- A call changes the mutable part of a session and moves. -/
theorem IdInv.work {pc' : Pc} {s' : UploadSession} (hs : w.store.sessions[d]? = some s)
    (hid : s'.identity = s.identity) (hcand : pc'.candidate? = none)
    (htarget : ∀ e, ({ t with pc := pc' } : Task).writes e = true ∨
      ({ t with pc := pc' } : Task).digests e = true → e = d)
    (hfiles : ∀ p ∈ pc'.files, p ∈ t.files) (hans : ∀ r, pc'.answer? ≠ some (.ok (.prepared r))) :
    IdInv cfg (w.update (w.store.put d s') i { t with pc := pc' }) := by
  refine h.update ht (h.index.put hs hid) (identity_of_put hs hid) rfl (.inl hcand) ?_ ?_ ?_
  · intro e he
    rw [htarget e he]
    exact .inr ⟨s, hs⟩
  · intro p hp
    left
    rcases List.mem_append.mp hp with hp | hp
    · exact List.mem_append_left _ hp
    · exact hfiles p hp
  · exact fun r hr => absurd hr (hans r)

theorem IdInv.remove {st' : StoreState} {plan plan' : CleanupPlan} (hrem : Removes w.store st' plan)
    (hplan : ∀ p ∈ plan', p ∈ t.plan ∨ p ∈ plan) :
    IdInv cfg (w.update st' i { t with plan := plan' }) := by
  refine h.update ht (hrem.indexInv h.index) (fun d s hs => ⟨s, hrem.of_some hs, rfl⟩) rfl
    (Or.inr rfl) (fun d hd => Or.inl hd) ?_ (fun r hr => Or.inl hr)
  intro p hp
  rcases List.mem_append.mp hp with hp | hp
  · rcases hplan p hp with hp | hp
    · exact .inl (List.mem_append_left _ hp)
    · obtain ⟨d, s, hs, hnone, rfl⟩ := (hrem.mem_plan p).mp hp
      exact .inr (.inr ⟨d, s, hs, hnone, rfl⟩)
  · exact .inl (List.mem_append_right _ hp)

/-- The files of a settled point are those of its plan. -/
theorem IdInv.settle {plan' : CleanupPlan} {pc' : Pc} (hset : pc'.answer?.isSome)
    (hfiles : ∀ p ∈ plan' ++ pc'.files,
      p ∈ t.files ∨ ∃ c, t.pc.candidate? = some c ∧ p = c.filePath)
    (hans : ∀ r, pc'.answer? = some (.ok (.prepared r)) →
      t.pc.answer? = some (.ok (.prepared r)) ∨
        ∃ s, w.store.sessions[r.deployId]? = some s ∧ s.uploadToken = r.uploadToken ∧
          ∀ req, t.call = .prepare req → s.idempotencyKey = req.idempotencyKey) :
    IdInv cfg (w.update w.store i { t with plan := plan', pc := pc' }) := by
  have hcand : pc'.candidate? = none := by cases pc' <;> first | rfl | cases hset
  have hwrite : pc'.inWrite = false := by cases pc' <;> first | rfl | cases hset
  have hdigest : pc'.inDigest = false := by cases pc' <;> first | rfl | cases hset
  refine h.update ht h.index (fun d s hs => ⟨s, hs, rfl⟩) rfl (.inl hcand) ?_ ?_ hans
  · intro d hd
    simp [Task.writes, Task.digests, hwrite, hdigest] at hd
  · intro p hp
    rcases hfiles p hp with hp | ⟨c, hc, rfl⟩
    · exact .inl hp
    · exact .inr (.inl ⟨c, hc, rfl, hcand⟩)

end

/-- Files and pins have no part in it. -/
theorem IdInv.congr {fs : FileStore Cell} {p : Std.TreeMap String Nat} (h : IdInv cfg w) :
    IdInv cfg { w with fs := fs, pinned := p } :=
  ⟨h.index, h.path_eq, h.issued,
    fun ht => (h.task ht).later ⟨fun _ => id, fun _ => id, fun _ _ s hs => ⟨s, hs, rfl⟩⟩,
    h.candidate_inj⟩

theorem World.Issued.with_fs (h : w.Issued d) (fs : FileStore Cell) :
    ({ w with fs := fs } : World).Issued d := h

variable {w' : World}

/-- **Every micro-step keeps the identity invariant.** -/
theorem IdInv.micro (h : IdInv cfg w) (hm : Micro cfg w w') : IdInv cfg w' := by
  cases hm with
  | spawn c now => exact h.spawn c now
  | drop ht =>
    exact h.move ht (.inr rfl) id id (fun p hp => List.mem_append_right _ hp) fun r hr => hr
  | draw ids => exact h.draw ids
  | remove ht hrem hplan => exact h.remove ht hrem hplan
  | touch now ht hs =>
    exact h.update ht (h.index.put hs rfl) (identity_of_put hs rfl) rfl (.inr rfl)
      (fun d hd => Or.inl hd) (fun p hp => Or.inl hp) (fun r hr => Or.inl hr)
  | settle ht _ hset hfiles hans _ => exact h.settle ht hset hfiles hans
  | propose ht hcall hpc _ hfresh => exact h.propose ht hcall hfresh
  | insert now ht hpc hfree => exact h.insert ht now hpc hfree
  | beginWrite ht hcall hpc hcheck hs hguard | beginCommit ht hcall hpc hs hguard =>
    refine h.work ht hs rfl rfl ?_ (by simp [Pc.files]) (by simp [Pc.answer?])
    intro e he
    simp [Task.writes, Task.digests, hcall, Call.pushesTo, Call.commitsTo] at he
    exact he.1.symm
  | endWrite ht hcall hpc hs | endCommit ht hcall hpc hs =>
    refine h.work ht hs rfl rfl ?_ (by simp [Pc.files]) (by simp [Pc.answer?])
    simp [Task.writes, Task.digests, Pc.inWrite, Pc.inDigest]
  | receive ht hcall hpc hs | accept ht hcall hpc hs =>
    refine h.work ht hs rfl rfl ?_ (fun p hp => List.mem_append_left _ hp) (by simp [Pc.answer?])
    simp [Task.writes, Task.digests, Pc.inWrite, Pc.inDigest]
  | allocate ht hpc =>
    exact (h.move ht (.inr (by rw [hpc]; rfl)) (by simp [Pc.inWrite])
      (by simp [Pc.inDigest]) (by simp [Pc.files]) (by simp [Pc.answer?])).congr
  | abandon n e ht hpc =>
    exact (h.move ht (.inl rfl) (by simp [Pc.inWrite]) (by simp [Pc.inDigest])
      (by intro p hp; exact List.mem_append_left _ hp) (by simp [Pc.answer?])).congr
  | openWrite ht hcall hpc hlookup | wrote ht hcall hpc =>
    exact h.move ht (.inl rfl) (by rw [hpc]; exact id) (by simp [Pc.inDigest])
      (by simp [Pc.files]) (by simp [Pc.answer?])
  | failWrite e ht hcall hpc =>
    exact h.move ht (.inl rfl) (fun _ => hpc) (by simp [Pc.inDigest])
      (by simp [Pc.files]) (by simp [Pc.answer?])
  | write ht hcall hpc hn =>
    exact (h.move ht (.inl rfl) (by rw [hpc]; exact id) (by simp [Pc.inDigest])
      (by simp [Pc.files]) (by simp [Pc.answer?])).congr
  | openDigest ht hcall hpc hlookup | read n ht hcall hpc hn | digest ht hcall hpc heof =>
    exact h.move ht (.inl rfl) (by simp [Pc.inWrite]) (by rw [hpc]; exact id)
      (by simp [Pc.files]) (by simp [Pc.answer?])
  | failDigest e expected ht hcall hpc =>
    exact h.move ht (.inl rfl) (by simp [Pc.inWrite]) (fun _ => hpc)
      (by simp [Pc.files]) (by simp [Pc.answer?])
  | pins p | unlink ht hp => exact h.congr

/-- An issued id stays issued. -/
theorem World.Issued.micro (h : w.Issued d) (hm : Micro cfg w w') : w'.Issued d := by
  cases hm with
  | spawn c now => exact h.spawn c now
  | pins p => exact h
  | draw ids => exact h.draw ids
  | propose ht hcall hpc _ hfresh => exact h.propose ht hfresh
  | drop ht | remove ht | touch now ht => exact h.update ht (Or.inr rfl)
  | @settle i t plan' pc' ht hgone hset =>
    refine h.update ht (.inl ?_)
    show pc'.candidate? = none
    cases pc' <;> first | rfl | cases hset
  | allocate ht hpc => exact (h.update ht (Or.inr (by rw [hpc]; rfl))).with_fs _
  | abandon n e ht | write ht => exact (h.update ht (Or.inl rfl)).with_fs _
  | unlink ht hp => exact h
  | _ => exact h.update ‹w.tasks[_]? = some _› (Or.inl rfl)

variable {a : Action}

theorem IdInv.step (h : IdInv cfg w) (hstep : step cfg w a = some w') : IdInv cfg w' :=
  step_invariant (fun _ h => h.coherent) (fun _ _ h hm => h.micro hm) h hstep

theorem Reachable.idInv (h : Reachable cfg w) : IdInv cfg w :=
  h.invariant (fun _ h => h.coherent) (IdInv.init cfg) fun _ _ h hm => h.micro hm

/-! ### What `prepare` answers -/

/-- The step is a critical section of call `i`. -/
def Action.IsSectionOf (a : Action) (i : Nat) : Prop :=
  (∃ d k, a = .enter i d k) ∨ ∃ now, a = .reenter i now

/-- A critical section of a `prepare` for `key` and `fp` either refuses the
key, or answers with the session that holds it, or finds the key free and
goes on to create a file. -/
inductive PrepareOutcome (st : StoreState) (key fp : String) (o : Outcome) : Prop
  | conflict (hans : o.pc.answer? = some (.error idempotencyConflict))
      (hold : ∀ (e : String) s', o.store.sessions[e]? = some s' →
        ∃ s, st.sessions[e]? = some s)
  | answered (r : DeployPrepareResponse) (s : UploadSession)
      (hans : o.pc.answer? = some (.ok (.prepared r)))
      (hlive : o.store.sessions[r.deployId]? = some s) (htok : s.uploadToken = r.uploadToken)
      (hkey : s.idempotencyKey = key) (hfp : s.fingerprint = fp)
  | undecided (hans : o.pc.answer? = none) (hfree : o.store.findByKey key = none)

variable {st : StoreState}

theorem existing_outcome {st₁ : StoreState} {key fp : String} {now : Nat} {plan : CleanupPlan}
    (hidx : IndexInv st₁) (hfind : st₁.findByKey key = some (d, s)) (hfp : s.fingerprint = fp) :
    PrepareOutcome st key fp (.finish (st₁.put d (s.touch now)) plan (.ok (.prepared
      (buildPrepareResponse (s.touch now) cfg.uploadSessionTtlSecs now)))) := by
  obtain ⟨hd, hs⟩ := findByKey_eq_some.mp hfind
  obtain ⟨s', hs', hkey⟩ := hidx.session_of_key key d hd
  rw [hs] at hs'
  cases hs'
  refine .answered _ (s.touch now) rfl ?_ rfl hkey hfp
  show (st₁.put d (s.touch now)).sessions[s.deployId]? = some (s.touch now)
  rw [sessions_put, if_pos (hidx.deployId_eq d s hs).symm]

theorem prepareDecide_outcome (cfg : StoreConfig) (pinned : Std.TreeMap String Nat)
    (hidx : IndexInv st) (now : Nat) (req : DeployPrepareRequest) (d k : String) :
    PrepareOutcome st req.idempotencyKey (fingerprint cfg req)
      (prepareDecide cfg pinned st now req d k) := by
  obtain ⟨st₁, plan, hclean, hcases⟩ := prepareDecide_cases cfg pinned st now req d k
  have hrem := removes_of_eq hclean
  rcases hcases with ⟨d', s, hfind, hfp, h⟩ | ⟨d', s, hfind, hfp, h⟩ | ⟨hfree, h⟩
  · rw [h]
    exact .conflict rfl fun e s' hs' => ⟨s', hrem.of_some hs'⟩
  · rw [h]
    exact existing_outcome (hrem.indexInv hidx) hfind hfp
  · rw [h]
    exact .undecided rfl hfree

theorem prepareInsert_outcome (cfg : StoreConfig) (pinned : Std.TreeMap String Nat)
    (hidx : IndexInv st) (plan : CleanupPlan) (now : Nat) (cand : UploadSession) :
    PrepareOutcome st cand.idempotencyKey cand.fingerprint
      (prepareInsert cfg pinned st plan now cand) := by
  obtain ⟨st₁, plan', hclean, hcases⟩ := prepareInsert_cases cfg pinned st now plan cand
  have hrem := removes_of_eq hclean
  rcases hcases with ⟨d', s, hfind, hfp, h⟩ | ⟨d', s, hfind, hfp, h⟩ | ⟨-, h⟩
  · rw [h]
    exact .conflict rfl fun e s' hs' => ⟨s', hrem.of_some hs'⟩
  · rw [h]
    exact existing_outcome (hrem.indexInv hidx) hfind hfp
  · rw [h]
    refine .answered _ (cand.touch now) rfl ?_ rfl rfl rfl
    show (st₁.sessions.insert cand.deployId (cand.touch now))[cand.deployId]? = _
    simp

/-- Every critical section of a `prepare` that passed its size checks. -/
theorem IdInv.prepare_section {i : Nat} (h : IdInv cfg w) (hstep : Imago.step cfg w a = some w')
    (hsec : a.IsSectionOf i) (ht : w.tasks[i]? = some t) (hcall : t.call = .prepare req) :
    ∃ t', w'.tasks[i]? = some t' ∧
      ((∃ e, prepareCheck cfg req = .error e ∧ t'.pc.answer? = some (.error e)) ∨
        PrepareOutcome w.store req.idempotencyKey (fingerprint cfg req)
          ⟨w'.store, t'.plan, t'.pc⟩) := by
  rcases hsec with ⟨d, k, rfl⟩ | ⟨now, rfl⟩
  · obtain ⟨u, hu, -, -, -, o, ho, rfl⟩ := step_enter hstep
    obtain rfl : t = u := Option.mem_unique ht hu
    refine ⟨{ t with plan := o.plan, pc := o.pc }, World.tasks_update_self ht o.store _, ?_⟩
    simp only [firstSection, hcall] at ho
    rcases hcheck : prepareCheck cfg req with e | u
    · rw [hcheck] at ho
      subst ho
      exact .inl ⟨e, rfl, rfl⟩
    · have hout := prepareDecide_outcome cfg w.pinned h.index t.now req d k
      simp only [hcheck] at ho
      rw [ho] at hout
      exact .inr hout
  · obtain ⟨u, o, hu, -, ho, rfl⟩ := step_reenter hstep
    obtain rfl : t = u := Option.mem_unique ht hu
    refine ⟨{ t with plan := o.plan, pc := o.pc }, World.tasks_update_self ht o.store _, .inr ?_⟩
    unfold secondSection at ho
    split at ho
    · rename_i req' c hcall' hpc
      have hout := prepareInsert_outcome cfg w.pinned h.index t.plan now c
      rw [Option.some.inj ho] at hout
      have hc : t.pc.candidate? = some c := by rw [hpc]; rfl
      obtain ⟨-, req'', now', k, hcall'', hnew⟩ := (h.task ht).candidate c hc
      rw [hcall] at hcall''
      cases hcall''
      have hkey : c.idempotencyKey = req.idempotencyKey := by rw [hnew]; rfl
      have hfp : c.fingerprint = fingerprint cfg req := by rw [hnew]; rfl
      rw [hkey, hfp] at hout
      exact hout
    · rename_i hcall' _
      rw [hcall] at hcall'; cases hcall'
    · rename_i hcall' _
      rw [hcall] at hcall'; cases hcall'
    · cases ho

/-- Two `prepare` calls for one key: when the second is answered while the
session of the first is live, both name the same session and token. -/
theorem IdInv.same_answer {i j : Nat} {t' u : Task} {req' : DeployPrepareRequest}
    {r r' : DeployPrepareResponse} (h : IdInv cfg w) (hstep : Imago.step cfg w a = some w')
    (hsec : a.IsSectionOf j) (hu : w.tasks[j]? = some u) (hcallu : u.call = .prepare req')
    (ht : w'.tasks[i]? = some t) (hcall : t.call = .prepare req)
    (hans : t.pc.answer? = some (.ok (.prepared r))) (ht' : w'.tasks[j]? = some t')
    (hans' : t'.pc.answer? = some (.ok (.prepared r')))
    (hkey : req.idempotencyKey = req'.idempotencyKey)
    (hlive : w'.store.sessions[r.deployId]? ≠ none) :
    r'.deployId = r.deployId ∧ r'.uploadToken = r.uploadToken := by
  have h' := h.step hstep
  obtain ⟨s, hs⟩ := Option.ne_none_iff_exists'.mp hlive
  obtain ⟨-, hold⟩ := (h'.task ht).answered req r hcall hans
  obtain ⟨hskey, hstok⟩ := hold s hs
  obtain ⟨v, hv, hout⟩ := h.prepare_section hstep hsec hu hcallu
  obtain rfl : v = t' := Option.mem_unique hv ht'
  rcases hout with ⟨e, -, he⟩ | hout
  · rw [he] at hans'
    simp at hans'
  · cases hout with
    | conflict hconf =>
      have hconf : v.pc.answer? = _ := hconf
      rw [hconf] at hans'
      simp at hans'
    | answered r₁ s₁ hans₁ hlive₁ htok₁ hkey₁ =>
      have hans₁ : v.pc.answer? = _ := hans₁
      rw [hans₁] at hans'
      simp only [Option.some.injEq, Except.ok.injEq, Output.prepared.injEq] at hans'
      subst hans'
      have hid := h'.index.key_injective hlive₁ hs
        (hkey₁.trans (hkey.symm.trans hskey.symm))
      have hlive₁ : w'.store.sessions[r₁.deployId]? = some s₁ := hlive₁
      rw [hid, hs] at hlive₁
      cases hlive₁
      exact ⟨hid, htok₁.symm.trans hstok⟩
    | undecided hnone =>
      have hnone : v.pc.answer? = _ := hnone
      rw [hnone] at hans'
      cases hans'

/-- A `prepare` that finds its key held by a live session with another
fingerprint is refused and creates no session. -/
theorem IdInv.conflicting {j : Nat} {u : Task} (h : IdInv cfg w)
    (hstep : Imago.step cfg w a = some w') (hsec : a.IsSectionOf j) (hu : w.tasks[j]? = some u)
    (hcall : u.call = .prepare req) (hcheck : prepareCheck cfg req = .ok ())
    (hs : w'.store.sessions[d]? = some s) (hkey : s.idempotencyKey = req.idempotencyKey)
    (hfp : s.fingerprint ≠ fingerprint cfg req) :
    (∃ t', w'.tasks[j]? = some t' ∧ t'.pc.answer? = some (.error idempotencyConflict)) ∧
      ∀ e : String, w'.store.sessions[e]? ≠ none → w.store.sessions[e]? ≠ none := by
  have h' := h.step hstep
  obtain ⟨v, hv, hout⟩ := h.prepare_section hstep hsec hu hcall
  rcases hout with ⟨e, he, -⟩ | hout
  · rw [hcheck] at he; cases he
  · cases hout with
    | conflict hconf hold =>
      refine ⟨⟨v, hv, hconf⟩, ?_⟩
      intro e he
      obtain ⟨s', hs'⟩ := Option.ne_none_iff_exists'.mp he
      obtain ⟨s₀, hs₀⟩ := hold e s' hs'
      rw [hs₀]; simp
    | answered r₁ s₁ _ hlive₁ _ hkey₁ hfp₁ =>
      -- the key has one holder, and its fingerprint is the request's
      have hid := h'.index.key_injective hlive₁ hs (hkey₁.trans hkey.symm)
      have hlive₁ : w'.store.sessions[r₁.deployId]? = some s₁ := hlive₁
      rw [hid, hs] at hlive₁
      cases hlive₁
      exact absurd hfp₁ hfp
    | undecided _ hfree =>
      have hheld := findByKey_eq_some.mpr ⟨h'.index.key_of_session d s hs, hs⟩
      have hfree : w'.store.findByKey req.idempotencyKey = none := hfree
      rw [hkey, hfree] at hheld
      cases hheld

/-- **Idempotency of `prepare`.**  In every reachable state the idempotency
map and the sessions map are in bijection.  When one `prepare` is answered
while the session that another one with the same key was given is live, both
get the same deploy id and upload token.  A `prepare` within the size limits
that finds its key held by a live session with another fingerprint fails with
`IdempotencyConflict` and creates no session. -/
theorem prepare_idempotent (cfg : StoreConfig) (w : World) (hw : Reachable cfg w) :
    ((∀ (d : String) s, w.store.sessions[d]? = some s →
        s.deployId = d ∧ w.store.idempotency[s.idempotencyKey]? = some s.deployId) ∧
      (∀ (k d : String), w.store.idempotency[k]? = some d →
        ∃ s, w.store.sessions[d]? = some s ∧ s.idempotencyKey = k) ∧
      ∀ (d d' : String) s s', w.store.sessions[d]? = some s → w.store.sessions[d']? = some s' →
        s.idempotencyKey = s'.idempotencyKey → d = d') ∧
    ∀ (a : Action) (w' : World) (j : Nat) (u : Task) (req' : DeployPrepareRequest),
      step cfg w a = some w' → a.IsSectionOf j → w.tasks[j]? = some u →
      u.call = .prepare req' →
        (∀ (i : Nat) t t' req r r', w'.tasks[i]? = some t → t.call = .prepare req →
          t.pc.answer? = some (.ok (.prepared r)) → w'.tasks[j]? = some t' →
          t'.pc.answer? = some (.ok (.prepared r')) →
          req.idempotencyKey = req'.idempotencyKey →
          w'.store.sessions[r.deployId]? ≠ none →
            r'.deployId = r.deployId ∧ r'.uploadToken = r.uploadToken) ∧
        ∀ (d : String) s, prepareCheck cfg req' = .ok () → w'.store.sessions[d]? = some s →
          s.idempotencyKey = req'.idempotencyKey → s.fingerprint ≠ fingerprint cfg req' →
            (∃ t', w'.tasks[j]? = some t' ∧
              t'.pc.answer? = some (.error idempotencyConflict)) ∧
            ∀ e : String, w'.store.sessions[e]? ≠ none → w.store.sessions[e]? ≠ none := by
  have h := hw.idInv
  refine ⟨⟨?_, h.index.session_of_key, ?_⟩, ?_⟩
  · intro d s hs
    have hd := h.index.deployId_eq d s hs
    exact ⟨hd, hd ▸ h.index.key_of_session d s hs⟩
  · intro d d' s s' hs hs' hkey
    exact h.index.key_injective hs hs' hkey
  · intro a w' j u req' hstep hsec hu hcall
    refine ⟨?_, ?_⟩
    · intro i t t' req r r' ht hreq hans ht' hans' hkey hlive
      exact h.same_answer hstep hsec hu hcall ht hreq hans ht' hans' hkey hlive
    · intro d s hcheck hs hkey hfp
      exact h.conflicting hstep hsec hu hcall hcheck hs hkey hfp

/-- A client that repeats its `prepare` gets its session back. -/
theorem prepare_idempotent_retry :
    ∃ w w' u t t' r r',
      run (step sampleConfig) (World.init FileStore.empty)
        (samplePrepared ++ [.call (.prepare (sampleRequest 4)) 102]) = some w ∧
      step sampleConfig w (.enter 1 "d-2" "k-2") = some w' ∧
      w.tasks[1]? = some u ∧ u.call = .prepare (sampleRequest 4) ∧
      w'.tasks[0]? = some t ∧ t.call = .prepare (sampleRequest 4) ∧
      t.pc.answer? = some (.ok (.prepared r)) ∧
      w'.tasks[1]? = some t' ∧ t'.pc.answer? = some (.ok (.prepared r')) ∧
      r.deployId = "d-1" ∧ w'.store.sessions[r.deployId]? ≠ none ∧
      r'.deployId = r.deployId ∧ r'.uploadToken = r.uploadToken := by
  have hsame : ∀ w w' u t t' r r',
      run (step sampleConfig) (World.init FileStore.empty)
        (samplePrepared ++ [.call (.prepare (sampleRequest 4)) 102]) = some w →
      step sampleConfig w (.enter 1 "d-2" "k-2") = some w' →
      w.tasks[1]? = some u → u.call = .prepare (sampleRequest 4) →
      w'.tasks[0]? = some t → t.call = .prepare (sampleRequest 4) →
      t.pc.answer? = some (.ok (.prepared r)) →
      w'.tasks[1]? = some t' → t'.pc.answer? = some (.ok (.prepared r')) →
      w'.store.sessions[r.deployId]? ≠ none →
      r'.deployId = r.deployId ∧ r'.uploadToken = r.uploadToken := by
    intro w w' u t t' r r' hrun hstep hu hcallu ht hcall hans ht' hans' hlive
    have hsection := (prepare_idempotent sampleConfig w ⟨_, _, hrun⟩).2 _ w' 1 u _ hstep
      (Or.inl ⟨_, _, rfl⟩) hu hcallu
    exact hsection.1 0 t t' _ r r' ht hcall hans ht' hans' rfl hlive
  refine ⟨_, _, _, _, _, _, _, rfl, rfl, rfl, rfl, rfl, rfl, rfl, rfl, rfl, rfl, ?_,
    hsame _ _ _ _ _ _ _ rfl rfl rfl rfl rfl rfl rfl rfl rfl ?_⟩
  · intro h; cases h
  · intro h; cases h

/-- A `prepare` over the size limit is refused for its size, although its key
is held by a live session with another fingerprint. -/
theorem prepare_quota_before_conflict :
    ∃ w w' u t' s e,
      run (step sampleConfig) (World.init FileStore.empty)
        (samplePrepared ++ [.call (.prepare (sampleRequest 2048)) 102]) = some w ∧
      step sampleConfig w (.enter 1 "d-2" "k-2") = some w' ∧
      w.tasks[1]? = some u ∧ u.call = .prepare (sampleRequest 2048) ∧
      w'.store.sessions["d-1"]? = some s ∧
      s.idempotencyKey = (sampleRequest 2048).idempotencyKey ∧
      s.fingerprint ≠ fingerprint sampleConfig (sampleRequest 2048) ∧
      w'.tasks[1]? = some t' ∧ t'.pc.answer? = some (.error e) ∧
      e.code = .storageQuota ∧ e.code ≠ idempotencyConflict.code := by
  refine ⟨_, _, _, _, _, _, rfl, rfl, rfl, rfl, rfl, rfl, ?_, rfl, rfl, rfl, ?_⟩
  · decide
  · decide

end Imago
