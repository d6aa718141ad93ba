/-
Imago/ArtifactIntegrity.lean

Integrity of committed artifacts.  Pushes and commits work on the artifact
file without the store's lock, so that a committed file is what its digest
says rests on the counters and on the identity of files together:

* while a session is committed or being committed, no push works on it
  (`CountInv.exclusive`), so nothing writes to its file;
* the file of a live session is never removed or replaced, because every
  path that is unlinked or created belongs to an id without a session.

What a step may do to the files of live sessions is stated once, as `Frame`:
a live session keeps its inode and its length, every cell that changes is
written by a push that presented the session's token, and the file of a
session that is committed or being committed does not change at all.  Every
micro-step is a frame and keeps the invariant `FileInv` (`FileInv.micro`).
-/
import Imago.ArtifactCounters

namespace Imago

variable {cfg : StoreConfig} {w w' : World}

/-! ### The invariant -/

/-- The cell was written by a push to session `d` that presented `token`. -/
def World.WrittenBy (w : World) (d token : String) (c : Cell) : Prop :=
  ∃ (j : Nat) (t : Task) (req : ArtifactPushRequest), c.writer = some j ∧
    w.tasks[j]? = some t ∧ t.call = .push req ∧ req.header.deployId = d ∧
    req.header.uploadToken = token

/-- The cell at position `x` was written by a push to session `d` that
presented `token`, and holds the byte this push carries for `x`. -/
def World.Wrote (w : World) (d token : String) (x : Nat) (c : Cell) : Prop :=
  ∃ (j : Nat) (t : Task) (req : ArtifactPushRequest), c.writer = some j ∧
    w.tasks[j]? = some t ∧ t.call = .push req ∧ req.header.deployId = d ∧
    req.header.uploadToken = token ∧ req.header.offset ≤ x ∧
    req.chunk[x - req.header.offset]? = some c.byte

variable {d : String} {c : Cell}

theorem World.Wrote.writtenBy {token : String} {x : Nat} (h : w.Wrote d token x c) :
    w.WrittenBy d token c := by
  obtain ⟨j, t, req, hj, ht, hcall, hd, htok, -, -⟩ := h
  exact ⟨j, t, req, hj, ht, hcall, hd, htok⟩

/-- The file of a live session. -/
structure SessionOk (cfg : StoreConfig) (w : World) (d : String) (s : UploadSession) : Prop where
  file : ∃ h, w.fs.lookup s.filePath = some h ∧ (w.fs.file h).length = s.artifactSize
  covered : ∀ h x c, w.fs.lookup s.filePath = some h → Covered s.receivedRanges x →
    (w.fs.file h)[x]? = some c → w.Wrote d s.uploadToken x c
  complete : s.commitInProgress = true ∨ s.committed = true →
    isComplete s.receivedRanges s.artifactSize = true
  digest : ∀ h, w.fs.lookup s.filePath = some h → s.committed = true →
    cfg.sha256Hex ((w.fs.file h).map Cell.byte) = s.artifactDigest

/-- What a push between its sections knows about the file of a live session. -/
def PushOk (w : World) (req : ArtifactPushRequest) (s : UploadSession) : Pc → Prop
  | .opening p => p = s.filePath
  | .writing h offset rest =>
    w.fs.lookup s.filePath = some h ∧ req.header.offset ≤ offset ∧
      offset + rest.length = req.header.length + req.header.offset ∧
      rest = req.chunk.drop (offset - req.header.offset) ∧
      ∀ x c, req.header.offset ≤ x → x < offset → (w.fs.file h)[x]? = some c →
        w.Wrote req.header.deployId s.uploadToken x c
  | .written (.ok _) =>
    ∀ h x c, w.fs.lookup s.filePath = some h → req.header.offset ≤ x →
      x < req.header.length + req.header.offset → (w.fs.file h)[x]? = some c →
        w.Wrote req.header.deployId s.uploadToken x c
  | _ => True

/-- What a commit between its sections knows about the file of a live session. -/
def DigestOk (cfg : StoreConfig) (w : World) (s : UploadSession) : Pc → Prop
  | .digestOpening p expected => p = s.filePath ∧ expected = s.artifactDigest
  | .digesting h hashed expected =>
    w.fs.lookup s.filePath = some h ∧ expected = s.artifactDigest ∧
      hashed = ((w.fs.file h).map Cell.byte).take hashed.length
  | .digested (.ok digest) expected =>
    expected = s.artifactDigest ∧ ∀ h, w.fs.lookup s.filePath = some h →
      digest = cfg.sha256Hex ((w.fs.file h).map Cell.byte)
  | _ => True

/-- What a call in flight knows. -/
structure TaskOk (cfg : StoreConfig) (w : World) (t : Task) : Prop where
  opening : ∀ req p, t.call = .push req → t.pc = .opening p →
    p = artifactPath cfg.root req.header.deployId
  handle : ∀ req h offset rest, t.call = .push req → t.pc = .writing h offset rest →
    h < w.fs.inodes.length ∧
      ∀ p, w.fs.lookup p = some h → p = artifactPath cfg.root req.header.deployId
  push : ∀ req s, t.call = .push req → t.pc.inWrite = true →
    w.store.sessions[req.header.deployId]? = some s →
    s.uploadToken = req.header.uploadToken ∧
      req.header.length + req.header.offset ≤ s.artifactSize ∧
      req.chunk.length = req.header.length ∧ PushOk w req s t.pc
  digest : ∀ req s, t.call = .commit req → t.pc.inDigest = true →
    w.store.sessions[req.deployId]? = some s → DigestOk cfg w s t.pc

/-- The file of a candidate: none before it is created, full length after. -/
def CandidateOk (w : World) : Pc → Prop
  | .creating c => w.fs.lookup c.filePath = none
  | .inserting c => ∃ h, w.fs.lookup c.filePath = some h ∧ (w.fs.file h).length = c.artifactSize
  | _ => True

/-- The files are what the index says. -/
structure FileInv (cfg : StoreConfig) (w : World) : Prop where
  session : ∀ (d : String) s, w.store.sessions[d]? = some s → SessionOk cfg w d s
  task : ∀ (i : Nat) t, w.tasks[i]? = some t → TaskOk cfg w t
  candidate : ∀ (i : Nat) t, w.tasks[i]? = some t → CandidateOk w t.pc

theorem FileInv.init (cfg : StoreConfig) (fs : FileStore Cell) : FileInv cfg (World.init fs) where
  session := by intro d s hs; simp [World.init, StoreState.empty] at hs
  task := by intro i t ht; simp [World.init] at ht
  candidate := by intro i t ht; simp [World.init] at ht

/-! ### Frames -/

/-- A session later on: the same identity, and committed if it was. -/
def Continues (s s' : UploadSession) : Prop :=
  s'.identity = s.identity ∧ (s.committed = true → s'.committed = true)

theorem Continues.refl (s : UploadSession) : Continues s s := ⟨rfl, id⟩

/-- What a step does to the files of the sessions that survive it. -/
structure Frame (w w' : World) : Prop where
  calls : ∀ (j : Nat) t, w.tasks[j]? = some t → ∃ t', w'.tasks[j]? = some t' ∧ t'.call = t.call
  inodes : w.fs.inodes.length ≤ w'.fs.inodes.length
  lookup_old : ∀ p h, h < w.fs.inodes.length → w'.fs.lookup p = some h → w.fs.lookup p = some h
  old : ∀ (d : String) s', w.Issued d → w'.store.sessions[d]? = some s' →
    ∃ s, w.store.sessions[d]? = some s ∧ Continues s s'
  lookup : ∀ (d : String) s, w.store.sessions[d]? = some s → w'.store.sessions[d]? ≠ none →
    w'.fs.lookup s.filePath = w.fs.lookup s.filePath
  length : ∀ (d : String) s h, w.store.sessions[d]? = some s → w'.store.sessions[d]? ≠ none →
    w.fs.lookup s.filePath = some h → (w'.fs.file h).length = (w.fs.file h).length
  cells : ∀ (d : String) s h (x : Nat) c, w.store.sessions[d]? = some s →
    w'.store.sessions[d]? ≠ none → w.fs.lookup s.filePath = some h →
    (w'.fs.file h)[x]? = some c →
    (w.fs.file h)[x]? = some c ∨ w'.Wrote d s.uploadToken x c
  frozen : ∀ (d : String) s h, w.store.sessions[d]? = some s → w'.store.sessions[d]? ≠ none →
    s.commitInProgress = true ∨ s.committed = true → w.fs.lookup s.filePath = some h →
    w'.fs.file h = w.fs.file h

theorem World.Wrote.frame (hfr : Frame w w') {token : String} {x : Nat} (h : w.Wrote d token x c) :
    w'.Wrote d token x c := by
  obtain ⟨j, t, req, hj, ht, hcall, hrest⟩ := h
  obtain ⟨t', ht', hcall'⟩ := hfr.calls j t ht
  exact ⟨j, t', req, hj, ht', hcall'.trans hcall, hrest⟩

variable {s' : UploadSession}

theorem Frame.ne_none (hs' : w'.store.sessions[d]? = some s') : w'.store.sessions[d]? ≠ none := by
  rw [hs']; simp

variable {s : UploadSession}

/-- The session is as it was, up to its counters and times. -/
def SameMarks (s s' : UploadSession) : Prop :=
  s'.identity = s.identity ∧ s'.receivedRanges = s.receivedRanges ∧ s'.committed = s.committed ∧
    (s'.commitInProgress = true → s.commitInProgress = true ∨ s.committed = true)

/-- A session whose ranges and marks have not grown. -/
theorem SessionOk.frame (hfr : Frame w w') (h : SessionOk cfg w d s)
    (hs : w.store.sessions[d]? = some s) (hs' : w'.store.sessions[d]? = some s')
    (hsame : SameMarks s s') : SessionOk cfg w' d s' := by
  obtain ⟨hid, hranges, hcommitted, hmark⟩ := hsame
  obtain ⟨-, -, hdigest, hsize, htok, hpath⟩ := UploadSession.fields_of_identity hid
  have hlive := Frame.ne_none hs'
  have hlookup := hfr.lookup d s hs hlive
  refine ⟨?_, ?_, ?_, ?_⟩
  · obtain ⟨hdl, hl, hlen⟩ := h.file
    exact ⟨hdl, by rw [hpath, hlookup, hl], by rw [hfr.length d s hdl hs hlive hl, hlen, hsize]⟩
  · intro hdl x c hl hcov hc
    rw [hpath, hlookup] at hl
    rw [hranges] at hcov
    rw [htok]
    rcases hfr.cells d s hdl x c hs hlive hl hc with hold | hnew
    · exact (h.covered hdl x c hl hcov hold).frame hfr
    · exact hnew
  · intro hmark'
    rw [hranges, hsize]
    refine h.complete ?_
    rcases hmark' with hm | hm
    · exact hmark hm
    · exact .inr (hcommitted ▸ hm)
  · intro hdl hl hm
    rw [hpath, hlookup] at hl
    rw [hcommitted] at hm
    rw [hfr.frozen d s hdl hs hlive (Or.inr hm) hl, hdigest]
    exact h.digest hdl hl hm

variable {req : ArtifactPushRequest} {pc : Pc}

theorem PushOk.frame (hfr : Frame w w') (hs : w.store.sessions[req.header.deployId]? = some s)
    (hs' : w'.store.sessions[req.header.deployId]? = some s') (hid : s'.identity = s.identity)
    (h : PushOk w req s pc) : PushOk w' req s' pc := by
  obtain ⟨-, -, -, -, htok, hpath⟩ := UploadSession.fields_of_identity hid
  have hlive := Frame.ne_none hs'
  have hlookup := hfr.lookup _ s hs hlive
  have hcells : ∀ hdl (x : Nat) c, w.fs.lookup s.filePath = some hdl →
      (w'.fs.file hdl)[x]? = some c →
      ((w.fs.file hdl)[x]? = some c → w.Wrote req.header.deployId s.uploadToken x c) →
      w'.Wrote req.header.deployId s'.uploadToken x c := by
    intro hdl x c hl hc hold
    rw [htok]
    rcases hfr.cells _ s hdl x c hs hlive hl hc with hc | hnew
    · exact (hold hc).frame hfr
    · exact hnew
  unfold PushOk at h ⊢
  split at h
  · rw [hpath]; exact h
  · obtain ⟨hl, hle, hsum, hrest, hwritten⟩ := h
    refine ⟨by rw [hpath, hlookup, hl], hle, hsum, hrest, ?_⟩
    intro x c hx hx' hc
    exact hcells _ x c hl hc (hwritten x c hx hx')
  · intro hdl x c hl hx hx' hc
    rw [hpath, hlookup] at hl
    exact hcells hdl x c hl hc (h hdl x c hl hx hx')
  · trivial

/-- A commit in progress sees its file unchanged. -/
theorem DigestOk.frame (hfr : Frame w w') (hs : w.store.sessions[d]? = some s)
    (hs' : w'.store.sessions[d]? = some s') (hid : s'.identity = s.identity)
    (hmark : s.commitInProgress = true) (h : DigestOk cfg w s pc) : DigestOk cfg w' s' pc := by
  obtain ⟨-, -, hdigest, -, -, hpath⟩ := UploadSession.fields_of_identity hid
  have hlive := Frame.ne_none hs'
  have hlookup := hfr.lookup d s hs hlive
  have hfile := fun hdl => hfr.frozen d s hdl hs hlive (Or.inl hmark)
  unfold DigestOk at h ⊢
  split at h
  · rw [hpath, hdigest]; exact h
  · obtain ⟨hl, hexp, hpre⟩ := h
    exact ⟨by rw [hpath, hlookup, hl], by rw [hdigest, hexp], by rw [hfile _ hl]; exact hpre⟩
  · obtain ⟨hexp, hall⟩ := h
    refine ⟨by rw [hdigest, hexp], ?_⟩
    intro hdl hl
    rw [hpath, hlookup] at hl
    rw [hfile hdl hl]
    exact hall hdl hl
  · trivial

variable {t' : Task}

/-- What is known about a call at a point of its own survives a frame. -/
theorem TaskOk.frame (hfr : Frame w w') {t : Task}
    (htarget : ∀ d, t.writes d = true ∨ t.digests d = true → w.Issued d)
    (hmark : ∀ (d : String) s, t.digests d = true → w.store.sessions[d]? = some s →
      s.commitInProgress = true) (hcall : t'.call = t.call) (hpc : t'.pc = t.pc)
    (h : TaskOk cfg w t) : TaskOk cfg w' t' := by
  refine ⟨?_, ?_, ?_, ?_⟩
  · intro req p hc hp
    exact h.opening req p (hcall ▸ hc) (hpc ▸ hp)
  · intro req hdl offset rest hc hp
    obtain ⟨hlt, hpath⟩ := h.handle req hdl offset rest (hcall ▸ hc) (hpc ▸ hp)
    refine ⟨Nat.lt_of_lt_of_le hlt hfr.inodes, ?_⟩
    intro p hl
    exact hpath p (hfr.lookup_old p hdl hlt hl)
  · intro req s' hc hin hs'
    rw [hcall] at hc
    rw [hpc] at hin ⊢
    have hwrites : t.writes req.header.deployId = true := by
      rw [writes_push hc, hin, beq_self_eq_true]; rfl
    obtain ⟨s, hs, hid, -⟩ := hfr.old _ s' (htarget _ (Or.inl hwrites)) hs'
    obtain ⟨-, -, -, hsize, htok, -⟩ := UploadSession.fields_of_identity hid
    obtain ⟨h₁, h₂, h₃, h₄⟩ := h.push req s hc hin hs
    exact ⟨htok.trans h₁, hsize ▸ h₂, h₃, h₄.frame hfr hs hs' hid⟩
  · intro req s' hc hin hs'
    rw [hcall] at hc
    rw [hpc] at hin ⊢
    have hdigests : t.digests req.deployId = true := by
      rw [digests_commit hc, hin, beq_self_eq_true]; rfl
    obtain ⟨s, hs, hid, -⟩ := hfr.old _ s' (htarget _ (Or.inr hdigests)) hs'
    exact (h.digest req s hc hin hs).frame hfr hs hs' hid (hmark _ s hdigests hs)

theorem TaskOk.of_uncounted {t : Task} (hwrite : t.pc.inWrite = false)
    (hdigest : t.pc.inDigest = false) : TaskOk cfg w t where
  opening := by intro req p _ hp; rw [hp] at hwrite; cases hwrite
  handle := by intro req h offset rest _ hp; rw [hp] at hwrite; cases hwrite
  push := by intro req s _ hin; rw [hwrite] at hin; cases hin
  digest := by intro req s _ hin; rw [hdigest] at hin; cases hin

/-- What is known about a push at its point. -/
theorem TaskOk.of_push {t : Task} (hcall : t.call = .push req)
    (hopening : ∀ p, t.pc = .opening p → p = artifactPath cfg.root req.header.deployId)
    (hhandle : ∀ hdl offset rest, t.pc = .writing hdl offset rest → hdl < w.fs.inodes.length ∧
      ∀ p, w.fs.lookup p = some hdl → p = artifactPath cfg.root req.header.deployId)
    (hpush : ∀ s, w.store.sessions[req.header.deployId]? = some s →
      s.uploadToken = req.header.uploadToken ∧
        req.header.length + req.header.offset ≤ s.artifactSize ∧
        req.chunk.length = req.header.length ∧ PushOk w req s t.pc) : TaskOk cfg w t := by
  refine ⟨fun req' p hc => ?_, fun req' hdl offset rest hc => ?_, fun req' s hc _ => ?_, ?_⟩
  · obtain rfl := Call.push.inj (hcall.symm.trans hc)
    exact hopening p
  · obtain rfl := Call.push.inj (hcall.symm.trans hc)
    exact hhandle hdl offset rest
  · obtain rfl := Call.push.inj (hcall.symm.trans hc)
    exact hpush s
  · intro req' s hc
    cases hcall.symm.trans hc

/-! ### Building the invariant after a step -/

/-- What every micro-step does: the files of live sessions are framed, and the
invariant holds again. -/
structure Keeps (cfg : StoreConfig) (w w' : World) : Prop where
  frame : Frame w w'
  inv : FileInv cfg w'

/-- All that holds in every reachable state. -/
structure StoreInv (cfg : StoreConfig) (w : World) : Prop where
  id : IdInv cfg w
  count : CountInv w
  file : FileInv cfg w

theorem StoreInv.of_frame (h : StoreInv cfg w)
    (hfr : Frame w w')
    (hsess : ∀ (d : String) s', w'.store.sessions[d]? = some s' →
      (∃ s, w.store.sessions[d]? = some s ∧ SameMarks s s') ∨ SessionOk cfg w' d s')
    (htask : ∀ (j : Nat) t', w'.tasks[j]? = some t' →
      (∃ t, w.tasks[j]? = some t ∧ t'.call = t.call ∧ t'.pc = t.pc) ∨ TaskOk cfg w' t')
    (hcand : ∀ (j : Nat) t', w'.tasks[j]? = some t' → CandidateOk w' t'.pc) : Keeps cfg w w' := by
  refine ⟨hfr, ?_, ?_, hcand⟩
  · intro d s' hs'
    rcases hsess d s' hs' with ⟨s, hs, hsame⟩ | hok
    · exact (h.file.session d s hs).frame hfr hs hs' hsame
    · exact hok
  · intro j t' ht'
    rcases htask j t' ht' with ⟨t, ht, hcall, hpc⟩ | hok
    · exact (h.file.task j t ht).frame hfr ((h.id.task ht).target_issued)
        (fun d s hd hs => h.count.committing ht hd hs) hcall hpc
    · exact hok

section SameFiles

variable {i : Nat} {t t' : Task} {st' : StoreState}

/-- A step that does not touch the file system is a frame. -/
theorem Frame.of_same_fs (hfs : w'.fs = w.fs)
    (hcalls : ∀ (j : Nat) t, w.tasks[j]? = some t → ∃ t', w'.tasks[j]? = some t' ∧ t'.call = t.call)
    (hold : ∀ (d : String) s', w.Issued d → w'.store.sessions[d]? = some s' →
      ∃ s, w.store.sessions[d]? = some s ∧ Continues s s') : Frame w w' where
  calls := hcalls
  inodes := by rw [hfs]
  lookup_old := by rw [hfs]; exact fun p h _ hl => hl
  old := hold
  lookup := by rw [hfs]; exact fun d s _ _ => rfl
  length := by rw [hfs]; exact fun d s h _ _ _ => rfl
  cells := by rw [hfs]; exact fun d s h x c _ _ _ hc => Or.inl hc
  frozen := by rw [hfs]; exact fun d s h _ _ _ _ => rfl

theorem calls_update (st : StoreState) (ht : w.tasks[i]? = some t) (hcall : t'.call = t.call)
    (j : Nat) (u : Task) (hu : w.tasks[j]? = some u) :
    ∃ u', (w.update st i t').tasks[j]? = some u' ∧ u'.call = u.call := by
  by_cases hij : i = j
  · subst hij
    obtain rfl := Option.mem_unique ht hu
    exact ⟨t', World.tasks_update_self ht st t', hcall⟩
  · refine ⟨u, ?_, rfl⟩
    simp only [World.update, List.getElem?_set, if_neg hij]
    exact hu

theorem Frame.of_update (ht : w.tasks[i]? = some t) (hcall : t'.call = t.call)
    (hold : ∀ (d : String) s', st'.sessions[d]? = some s' →
      ∃ s, w.store.sessions[d]? = some s ∧ Continues s s') :
    Frame w (w.update st' i t') :=
  Frame.of_same_fs rfl (calls_update st' ht hcall) fun d s' _ hs' => hold d s' hs'

section

variable (h : StoreInv cfg w) (ht : w.tasks[i]? = some t) (hcall : t'.call = t.call)

include h ht hcall

/-- One call moves and no file changes. -/
theorem StoreInv.update (hfr : Frame w (w.update st' i t'))
    (hsess : ∀ (d : String) s', st'.sessions[d]? = some s' →
      (∃ s, w.store.sessions[d]? = some s ∧ SameMarks s s') ∨
        SessionOk cfg (w.update st' i t') d s')
    (htask : t'.pc = t.pc ∨ TaskOk cfg (w.update st' i t') t')
    (hcand : CandidateOk w t'.pc) : Keeps cfg w (w.update st' i t') := by
  refine h.of_frame hfr hsess ?_ ?_
  · exact forall_set (fun j u hu => .inl ⟨u, hu, rfl, rfl⟩)
      (htask.imp_left fun hpc => ⟨t, ht, hcall, hpc⟩)
  · exact forall_set h.file.candidate hcand

/-- One call moves within its I/O, or ends; no session and no file changes. -/
theorem StoreInv.move (hwrite : t'.pc.inWrite = true → t.pc.inWrite = true)
    (hdigest : t'.pc.inDigest = true → t.pc.inDigest = true)
    (hok : TaskOk cfg w t') (hcand : CandidateOk w t'.pc) :
    Keeps cfg w (w.update w.store i t') := by
  have hfr : Frame w (w.update w.store i t') :=
    Frame.of_update ht hcall fun d s' hs' => ⟨s', hs', Continues.refl s'⟩
  have hback : ∀ d, (t'.writes d = true → t.writes d = true) ∧
      (t'.digests d = true → t.digests d = true) := by
    intro d
    simp only [Task.writes, Task.digests, hcall, Bool.and_eq_true]
    exact ⟨And.imp_right hwrite, And.imp_right hdigest⟩
  refine h.update ht hcall hfr
    (fun d s hs => Or.inl ⟨s, hs, rfl, rfl, rfl, Or.inl⟩) (Or.inr ?_) hcand
  refine hok.frame hfr ?_ ?_ rfl rfl
  · intro d hd
    exact (h.id.task ht).target_issued d (hd.imp (hback d).1 (hback d).2)
  · intro d s hd hs
    exact h.count.committing ht ((hback d).2 hd) hs

/-- A call works on a session; no file changes. -/
theorem StoreInv.work (hs : w.store.sessions[d]? = some s) (hsame : Continues s s')
    (hsess : SameMarks s s' ∨
      (Frame w (w.update (w.store.put d s') i t') →
        SessionOk cfg (w.update (w.store.put d s') i t') d s'))
    (htask : t'.pc = t.pc ∨ TaskOk cfg (w.update (w.store.put d s') i t') t')
    (hcand : CandidateOk w t'.pc) : Keeps cfg w (w.update (w.store.put d s') i t') := by
  have hfr : Frame w (w.update (w.store.put d s') i t') := by
    refine Frame.of_update ht hcall fun e u hu => ?_
    rw [sessions_put] at hu
    split at hu
    · rename_i hde
      subst hde
      cases hu
      exact ⟨s, hs, hsame⟩
    · exact ⟨u, hu, Continues.refl u⟩
  refine h.update ht hcall hfr ?_ htask hcand
  intro e u hu
  rw [sessions_put] at hu
  split at hu
  · rename_i hde
    subst hde
    cases hu
    exact hsess.imp (fun hm => ⟨s, hs, hm⟩) fun hok => hok hfr
  · exact .inl ⟨u, hu, rfl, rfl, rfl, .inl⟩

end

end SameFiles

/-! ### Files that change -/

/-- The point of the call holds no candidate. -/
theorem CandidateOk.of_none (h : pc.candidate? = none) : CandidateOk w pc := by
  unfold CandidateOk
  split
  · cases h
  · cases h
  · trivial

/-- A candidate whose file is left alone. -/
theorem CandidateOk.kept (h : CandidateOk w pc)
    (hkept : ∀ c, pc.candidate? = some c → w'.fs.lookup c.filePath = w.fs.lookup c.filePath ∧
      ∀ hdl, w.fs.lookup c.filePath = some hdl →
        (w'.fs.file hdl).length = (w.fs.file hdl).length) : CandidateOk w' pc := by
  unfold CandidateOk at h ⊢
  split at h
  · obtain ⟨hlookup, -⟩ := hkept _ rfl
    rw [hlookup]; exact h
  · obtain ⟨hlookup, hlen⟩ := hkept _ rfl
    obtain ⟨hdl, hl, hsize⟩ := h
    exact ⟨hdl, hlookup.trans hl, (hlen hdl hl).trans hsize⟩
  · trivial

/-- Pins and drawn ids have no part in either. -/
theorem Keeps.congr {p : Std.TreeMap String Nat} {ids : List String} (h : Keeps cfg w w') :
    Keeps cfg w { w' with pinned := p, drawn := ids } := by
  obtain ⟨⟨f₁, f₂, f₃, f₄, f₅, f₆, f₇, f₈⟩, hsession, htask, hcand⟩ := h
  refine ⟨⟨f₁, f₂, f₃, f₄, f₅, f₆, f₇, f₈⟩, ?_, ?_, hcand⟩
  · intro d s hs
    obtain ⟨h₁, h₂, h₃, h₄⟩ := hsession d s hs
    exact ⟨h₁, h₂, h₃, h₄⟩
  · intro i t ht
    obtain ⟨h₁, h₂, h₃, h₄⟩ := htask i t ht
    exact ⟨h₁, h₂, h₃, h₄⟩

theorem Keeps.refl (h : FileInv cfg w) : Keeps cfg w w where
  frame := Frame.of_same_fs rfl (fun _ t ht => ⟨t, ht, rfl⟩)
    fun _ s' _ hs' => ⟨s', hs', Continues.refl s'⟩
  inv := h

/-- Only files that belong to no live session change. -/
theorem Frame.of_untouched (hstore : w'.store = w.store)
    (hcalls : ∀ (j : Nat) t, w.tasks[j]? = some t → ∃ t', w'.tasks[j]? = some t' ∧ t'.call = t.call)
    (hinodes : w.fs.inodes.length ≤ w'.fs.inodes.length)
    (hlookup_old : ∀ p h, h < w.fs.inodes.length → w'.fs.lookup p = some h →
      w.fs.lookup p = some h)
    (hlookup : ∀ (d : String) s, w.store.sessions[d]? = some s →
      w'.fs.lookup s.filePath = w.fs.lookup s.filePath)
    (hfile : ∀ h, h < w.fs.inodes.length → w'.fs.file h = w.fs.file h) : Frame w w' where
  calls := hcalls
  inodes := hinodes
  lookup_old := hlookup_old
  old := by rw [hstore]; exact fun d s' _ hs' => ⟨s', hs', Continues.refl s'⟩
  lookup := fun d s hs _ => hlookup d s hs
  length := fun d s h _ _ hl => by rw [hfile h (FileStore.lookup_lt hl)]
  cells := fun d s h x c _ _ hl hc => Or.inl (by rw [← hfile h (FileStore.lookup_lt hl)]; exact hc)
  frozen := fun d s h _ _ _ hl => hfile h (FileStore.lookup_lt hl)

/-- Preallocating under a new name: one new file, nothing else changes. -/
theorem preallocate_of_none {fs : FileStore Cell} {p : String} (hp : fs.lookup p = none) (n : Nat) :
    (∀ q, (preallocate fs p n).lookup q = if p = q then some fs.inodes.length else fs.lookup q) ∧
      (preallocate fs p n).inodes.length = fs.inodes.length + 1 ∧
      (∀ h, h < fs.inodes.length → (preallocate fs p n).file h = fs.file h) ∧
      ((preallocate fs p n).file fs.inodes.length).length = n := by
  obtain ⟨hlookup, hinodes, hhandle⟩ := FileStore.openTruncate_of_none hp
  have hlen : (fs.openTruncate p).1.inodes.length = fs.inodes.length + 1 := by
    rw [hinodes, List.length_append, List.length_singleton]
  simp only [preallocate]
  refine ⟨hlookup, ?_, ?_, ?_⟩
  · rw [FileStore.length_inodes_modify, hlen]
  · intro h hh
    rw [hhandle, FileStore.file_modify_ne _ (Nat.ne_of_gt hh)]
    simp only [FileStore.file, hinodes, List.getD_eq_getElem?_getD, List.getElem?_append_left hh]
  · rw [hhandle, FileStore.file_modify_self (by omega), length_resize]

section Create

variable {i : Nat} {t t' : Task} {c : UploadSession}

/-- A path of another id than the candidate's. -/
theorem IdInv.candidate_path_ne (hid : IdInv cfg w) (ht : w.tasks[i]? = some t)
    (hc : t.pc.candidate? = some c) (hd : d ≠ c.deployId) :
    c.filePath ≠ artifactPath cfg.root d := by
  rw [hid.candidate_path ht hc]
  intro h
  exact hd (artifactPath_injective h).symm

/-- A `prepare` creates the file of its candidate. -/
theorem StoreInv.create (h : StoreInv cfg w)
    (ht : w.tasks[i]? = some t) (hpc : t.pc = .creating c) (hcall : t'.call = t.call) (n : Nat)
    (hwrite : t'.pc.inWrite = false) (hdigest : t'.pc.inDigest = false)
    (hcand : t'.pc.candidate? = none ∨ t'.pc = .inserting c ∧ n = c.artifactSize) :
    Keeps cfg w { w.update w.store i t' with fs := preallocate w.fs c.filePath n } := by
  have hc : t.pc.candidate? = some c := by rw [hpc]; rfl
  have hnone : w.fs.lookup c.filePath = none := by
    have := h.file.candidate i t ht
    rwa [hpc] at this
  obtain ⟨hlookup, hinodes, hfile, hnew⟩ := preallocate_of_none hnone n
  have hother : ∀ q, c.filePath ≠ q →
      (preallocate w.fs c.filePath n).lookup q = w.fs.lookup q := by
    intro q hq
    rw [hlookup, if_neg hq]
  refine h.of_frame ?_ (fun d s hs => .inl ⟨s, hs, rfl, rfl, rfl, .inl⟩) ?_ ?_
  · refine Frame.of_untouched rfl (calls_update w.store ht hcall) ?_ ?_ ?_ hfile
    · exact Nat.le_of_lt (by rw [hinodes]; exact Nat.lt_succ_self _)
    · intro p hdl hlt hl
      rw [hlookup] at hl
      split at hl
      · exact absurd (Option.some.inj hl) (Nat.ne_of_gt hlt)
      · exact hl
    · intro d s hs
      refine hother _ ?_
      rw [h.id.path_eq d s hs]
      refine h.id.candidate_path_ne ht hc ?_
      rintro rfl
      rw [h.id.candidate_not_live ht hc] at hs
      cases hs
  · intro j u (hu : (w.update w.store i t').tasks[j]? = some u)
    rcases getElem?_set_cases hu with ⟨rfl, rfl⟩ | ⟨-, hu⟩
    · exact .inr (TaskOk.of_uncounted hwrite hdigest)
    · exact .inl ⟨u, hu, rfl, rfl⟩
  · intro j u (hu : (w.update w.store i t').tasks[j]? = some u)
    rcases getElem?_set_cases hu with ⟨rfl, rfl⟩ | ⟨hji, hu⟩
    · rcases hcand with hcand | ⟨hpc', rfl⟩
      · exact CandidateOk.of_none hcand
      · rw [hpc']
        exact ⟨_, by rw [hlookup, if_pos rfl], hnew⟩
    · refine (h.file.candidate j u hu).kept fun c' hc' => ⟨?_, ?_⟩
      · refine hother _ ?_
        rw [h.id.candidate_path hu hc']
        refine h.id.candidate_path_ne ht hc fun heq => hji ?_
        exact h.id.candidate_inj j i u t c' c hu ht hc' hc heq
      · intro hdl hl
        rw [hfile hdl (FileStore.lookup_lt hl)]

end Create

/-- A cleanup removes a file of an id that has no session. -/
theorem StoreInv.unlink (h : StoreInv cfg w) {p : String}
    (hp : w.Retired cfg p) : Keeps cfg w { w with fs := w.fs.unlink p } := by
  obtain ⟨d, rfl, hissued, hnone⟩ := hp
  have hother : ∀ q, artifactPath cfg.root d ≠ q →
      (w.fs.unlink (artifactPath cfg.root d)).lookup q = w.fs.lookup q := by
    intro q hq
    rw [FileStore.lookup_unlink, if_neg hq]
  refine h.of_frame ?_ (fun d s hs => .inl ⟨s, hs, rfl, rfl, rfl, .inl⟩)
    (fun j u hu => Or.inl ⟨u, hu, rfl, rfl⟩) ?_
  · refine Frame.of_untouched rfl (fun j u hu => ⟨u, hu, rfl⟩) (Nat.le_refl _) ?_ ?_
      (fun _ _ => rfl)
    · intro q hdl _ hl
      rw [FileStore.lookup_unlink] at hl
      split at hl
      · cases hl
      · exact hl
    · intro e s hs
      refine hother _ ?_
      rw [h.id.path_eq e s hs]
      intro heq
      obtain rfl := artifactPath_injective heq
      rw [hnone] at hs; cases hs
  · intro j u hu
    refine (h.file.candidate j u hu).kept fun c hc => ⟨hother _ ?_, fun _ _ => rfl⟩
    rw [h.id.candidate_path hu hc]
    intro heq
    exact hissued.2 j u c hu hc (artifactPath_injective heq).symm

section Write

variable {i : Nat} {t : Task} {req : ArtifactPushRequest} {hdl offset : Nat} {rest : List UInt8}

theorem length_cellsOf_take {n : Nat} (hn : n ≤ rest.length) :
    (cellsOf i (rest.take n)).length = n := by
  rw [cellsOf, List.length_map, List.length_take, Nat.min_eq_left hn]

/-- A cell among those of a chunk: its mark and its byte. -/
theorem getElem?_cellsOf_take {n k : Nat} (hc : (cellsOf i (rest.take n))[k]? = some c) :
    c.writer = some i ∧ rest[k]? = some c.byte := by
  simp only [cellsOf, List.getElem?_map, List.getElem?_take, Option.map_eq_some_iff] at hc
  obtain ⟨b, hb, rfl⟩ := hc
  split at hb
  · exact ⟨rfl, hb⟩
  · cases hb

/-- The next `n` bytes of push `i` have reached its file. -/
def World.landed (w : World) (i : Nat) (t : Task) (hdl offset : Nat) (rest : List UInt8) (n : Nat) :
    World :=
  { w.update w.store i { t with pc := .writing hdl (offset + n) (rest.drop n) } with
    fs := w.fs.modify hdl fun f => writeAt f offset (cellsOf i (rest.take n)) }

section Landed

variable {n : Nat} (h : StoreInv cfg w) (ht : w.tasks[i]? = some t) (hcall : t.call = .push req)
  (hpc : t.pc = .writing hdl offset rest) (hn : n ≤ rest.length)

include h ht hcall hpc

/-- Two sessions do not share a file, so a handle belongs to the session pushed to. -/
theorem StoreInv.session_of_handle (hs : w.store.sessions[d]? = some s)
    (hl : w.fs.lookup s.filePath = some hdl) : d = req.header.deployId := by
  obtain ⟨-, hpath⟩ := (h.file.task i t ht).handle req hdl offset rest hcall hpc
  have heq := hpath _ hl
  rw [h.id.path_eq d s hs] at heq
  exact artifactPath_injective heq

/-- A push to a live session writes inside the file and only with its token. -/
theorem StoreInv.writing (hs : w.store.sessions[req.header.deployId]? = some s) :
    s.uploadToken = req.header.uploadToken ∧ offset + rest.length ≤ (w.fs.file hdl).length ∧
      req.header.offset ≤ offset ∧ rest = req.chunk.drop (offset - req.header.offset) := by
  obtain ⟨htok, hsize, -, hpush⟩ :=
    (h.file.task i t ht).push req s hcall (by rw [hpc]; rfl) hs
  rw [hpc] at hpush
  obtain ⟨hl, hle, hsum, hrest, -⟩ := hpush
  obtain ⟨hdl', hl', hlen⟩ := (h.file.session _ s hs).file
  obtain rfl := Option.mem_unique hl hl'
  exact ⟨htok, by omega, hle, hrest⟩

/-- Another file than the one behind the handle is not touched; that one is
overwritten in place. -/
theorem StoreInv.file_landed :
    (w.landed i t hdl offset rest n).fs.file hdl
        = writeAt (w.fs.file hdl) offset (cellsOf i (rest.take n)) ∧
      ∀ hdl', hdl ≠ hdl' → (w.landed i t hdl offset rest n).fs.file hdl' = w.fs.file hdl' := by
  obtain ⟨hlt, -⟩ := (h.file.task i t ht).handle req hdl offset rest hcall hpc
  exact ⟨FileStore.file_modify_self hlt _, fun hdl' hne => FileStore.file_modify_ne _ hne _⟩

include hn

theorem StoreInv.length_landed (hs : w.store.sessions[req.header.deployId]? = some s) :
    ((w.landed i t hdl offset rest n).fs.file hdl).length = (w.fs.file hdl).length := by
  have hfit := (h.writing ht hcall hpc hs).2.1
  rw [(h.file_landed ht hcall hpc).1, length_writeAt (by rw [length_cellsOf_take hn]; omega)]

/-- A cell of the file is an old one outside of what was written, or it holds
what the push carries for its position. -/
theorem StoreInv.cell_landed (hs : w.store.sessions[req.header.deployId]? = some s) {x : Nat}
    (hc : ((w.landed i t hdl offset rest n).fs.file hdl)[x]? = some c) :
    ((x < offset ∨ offset + n ≤ x) ∧ (w.fs.file hdl)[x]? = some c) ∨
      (w.landed i t hdl offset rest n).Wrote req.header.deployId s.uploadToken x c := by
  obtain ⟨htok, hfit, hle, hrest⟩ := h.writing ht hcall hpc hs
  rw [(h.file_landed ht hcall hpc).1,
    getElem?_writeAt (by rw [length_cellsOf_take hn]; omega), length_cellsOf_take hn] at hc
  split at hc
  · rename_i hx
    obtain ⟨hwriter, hbyte⟩ := getElem?_cellsOf_take hc
    rw [hrest, List.getElem?_drop] at hbyte
    refine .inr ⟨i, _, req, hwriter, World.tasks_update_self ht w.store _, hcall, rfl,
      htok.symm, by omega, ?_⟩
    rw [← hbyte]
    congr 1
    omega
  · exact .inl ⟨by omega, hc⟩

theorem StoreInv.frame_landed : Frame w (w.landed i t hdl offset rest n) := by
  have hwrites : t.writes req.header.deployId = true := by
    rw [writes_push hcall, hpc, beq_self_eq_true]; rfl
  have hother := (h.file_landed (n := n) ht hcall hpc).2
  refine ⟨calls_update w.store ht rfl, ?_, fun _ _ _ hl => hl, ?_, fun _ _ _ _ => rfl, ?_, ?_, ?_⟩
  · exact Nat.le_of_eq (FileStore.length_inodes_modify ..).symm
  · exact fun d s' _ hs' => ⟨s', hs', Continues.refl s'⟩
  · intro d s hdl' hs _ hl
    by_cases hcase : hdl = hdl'
    · subst hcase
      obtain rfl := h.session_of_handle ht hcall hpc hs hl
      exact h.length_landed ht hcall hpc hn hs
    · rw [hother hdl' hcase]
  · intro d s hdl' x c hs _ hl hc
    by_cases hcase : hdl = hdl'
    · subst hcase
      obtain rfl := h.session_of_handle ht hcall hpc hs hl
      exact (h.cell_landed ht hcall hpc hn hs hc).imp_left And.right
    · rw [hother hdl' hcase] at hc
      exact .inl hc
  · intro d s hdl' hs _ hmark hl
    -- a session that is being committed has no push in flight
    refine hother hdl' ?_
    rintro rfl
    obtain rfl := h.session_of_handle ht hcall hpc hs hl
    have hpos := h.count.inflight_pos ht hwrites hs
    rw [h.count.exclusive _ s hs hmark] at hpos
    exact absurd hpos (Nat.lt_irrefl 0)

theorem StoreInv.write : Keeps cfg w (w.landed i t hdl offset rest n) := by
  have hfr := h.frame_landed ht hcall hpc hn
  obtain ⟨hlt, hpath⟩ := (h.file.task i t ht).handle req hdl offset rest hcall hpc
  refine h.of_frame hfr (fun d s hs => .inl ⟨s, hs, rfl, rfl, rfl, .inl⟩) ?_ ?_
  · intro j u hu
    rcases getElem?_set_cases hu with ⟨rfl, rfl⟩ | ⟨-, hu⟩
    · refine .inr (TaskOk.of_push hcall nofun ?_ ?_)
      · intro hdl' offset' rest' hp
        cases hp
        exact ⟨Nat.lt_of_lt_of_le hlt hfr.inodes, hpath⟩
      · intro s hs
        obtain ⟨htok, hsize, hlen, hpush⟩ :=
          (h.file.task j t ht).push req s hcall (by rw [hpc]; rfl) hs
        rw [hpc] at hpush
        obtain ⟨hl, hle, hsum, hrest, hold⟩ := hpush
        refine ⟨htok, hsize, hlen, hl, by omega, by rw [List.length_drop]; omega, ?_, ?_⟩
        · rw [hrest, List.drop_drop]
          congr 1
          omega
        intro x c hx hx' hc
        rcases h.cell_landed ht hcall hpc hn hs hc with ⟨hout, hc⟩ | hnew
        · exact (hold x c hx (by omega) hc).frame hfr
        · exact hnew
    · exact .inl ⟨u, hu, rfl, rfl⟩
  · intro j u hu
    rcases getElem?_set_cases hu with ⟨rfl, rfl⟩ | ⟨-, hu⟩
    · trivial
    · refine (h.file.candidate j u hu).kept fun c hc => ⟨rfl, ?_⟩
      intro hdl' hl
      refine congrArg _ ((h.file_landed ht hcall hpc).2 hdl' ?_)
      rintro rfl
      -- the id pushed to is issued, so it is no candidate's
      have hwrites : t.writes req.header.deployId = true := by
        rw [writes_push hcall, hpc, beq_self_eq_true]; rfl
      have heq := hpath _ hl
      rw [h.id.candidate_path hu hc] at heq
      exact ((h.id.task ht).target_issued _ (.inl hwrites)).2 j u c hu hc
        (artifactPath_injective heq)

end Landed

end Write

/-! ### The calls between their sections -/

variable {answer : Answer}

section Sections

variable {i : Nat} {t : Task}

/-- A commit that goes on. -/
theorem TaskOk.of_commit {req : ArtifactCommitRequest} (hcall' : t'.call = .commit req)
    (hdigest : ∀ s, w.store.sessions[req.deployId]? = some s → DigestOk cfg w s t'.pc) :
    TaskOk cfg w t' := by
  refine ⟨?_, ?_, ?_, ?_⟩
  · intro req' p hc
    cases hcall'.symm.trans hc
  · intro req' hdl offset rest hc
    cases hcall'.symm.trans hc
  · intro req' s hc
    cases hcall'.symm.trans hc
  · intro req' s hc _ hs
    obtain rfl := Call.commit.inj (hcall'.symm.trans hc)
    exact hdigest s hs

section

variable (h : StoreInv cfg w) (ht : w.tasks[i]? = some t)

include h ht

/-- A commit goes on with its digest. -/
theorem StoreInv.digests {req : ArtifactCommitRequest} {pc : Pc} (hcall : t.call = .commit req)
    (hin : t.pc.inDigest = true)
    (hwrite : pc.inWrite = true → t.pc.inWrite = true) (hcand : CandidateOk w pc)
    (hok : ∀ s, DigestOk cfg w s t.pc → DigestOk cfg w s pc) :
    Keeps cfg w (w.update w.store i { t with pc := pc }) := by
  refine h.move ht rfl hwrite (fun _ => hin) (TaskOk.of_commit hcall fun s hs => ?_) hcand
  exact hok s ((h.file.task i t ht).digest req s hcall hin hs)

theorem StoreInv.beginWrite {chunkEnd : Nat} (hcall : t.call = .push req)
    (hcheck : pushCheck cfg req = .ok chunkEnd)
    (hs : w.store.sessions[req.header.deployId]? = some s)
    (hguard : pushGuard cfg req.header chunkEnd s = .ok ()) :
    Keeps cfg w (w.update (w.store.put req.header.deployId (s.beginWrite t.now)) i
      { t with pc := .opening s.filePath }) := by
  obtain ⟨htok, -, -, hend, -⟩ := pushGuard_eq_ok.mp hguard
  obtain ⟨hlen, rfl⟩ := pushCheck_eq_ok hcheck
  refine h.work ht (by rfl) hs ⟨rfl, fun hc => hc⟩ (.inl ⟨rfl, rfl, rfl, .inl⟩) (.inr ?_) trivial
  refine TaskOk.of_push hcall (fun p hp => ?_) nofun fun s' hs' => ?_
  · cases hp
    exact h.id.path_eq _ s hs
  · rw [World.store_update, sessions_put, if_pos rfl] at hs'
    cases hs'
    exact ⟨htok, hend, hlen, rfl⟩

/-- The range of a finished write is recorded: every cell of it was written by
this push, or since then by another that presented the token. -/
theorem StoreInv.receive (hcall : t.call = .push req)
    (hpc : t.pc = .written (.ok ())) (hs : w.store.sessions[req.header.deployId]? = some s) :
    Keeps cfg w (w.update (w.store.put req.header.deployId (s.receive req.header t.now)) i
      { t with pc := .cleaning t.plan answer }) := by
  refine h.work ht (by rfl) hs ⟨rfl, fun hc => hc⟩ (.inr fun hfr => ?_)
    (Or.inr (TaskOk.of_uncounted rfl rfl)) trivial
  have hok := h.file.session _ s hs
  have hin : t.pc.inWrite = true := by rw [hpc]; rfl
  have hpos : 0 < s.inflightWrites :=
    h.count.inflight_pos ht (by rw [writes_push hcall, hin, beq_self_eq_true]; rfl) hs
  obtain ⟨-, -, -, hwritten⟩ := (h.file.task i t ht).push req s hcall hin hs
  rw [hpc] at hwritten
  refine ⟨hok.file, ?_, ?_, hok.digest⟩
  · intro hdl x c hl hcov hc
    refine World.Wrote.frame hfr ?_
    rcases covered_mergeRange hcov with hcov | ⟨hx, hx'⟩
    · exact hok.covered hdl x c hl hcov hc
    · simp only [rangeFromStartEnd] at hx hx'
      exact hwritten hdl x c hl hx (by omega) hc
  · -- a session with a push in flight is neither committed nor being committed
    intro hmark
    have hzero := h.count.exclusive _ s hs hmark
    omega

theorem StoreInv.beginCommit {req : ArtifactCommitRequest} (hcall : t.call = .commit req)
    (hs : w.store.sessions[req.deployId]? = some s)
    (hguard : commitGuard req s = .ok ()) :
    Keeps cfg w (w.update (w.store.put req.deployId (s.beginCommit t.now)) i
      { t with pc := .digestOpening s.filePath s.artifactDigest }) := by
  obtain ⟨-, -, hcomplete⟩ := commitGuard_eq_ok.mp hguard
  refine h.work ht (by rfl) hs ⟨rfl, fun hc => hc⟩ (.inr fun hfr => ?_) (.inr ?_) trivial
  · have hok := h.file.session _ s hs
    exact ⟨hok.file, fun hdl x c hl hcov hc => (hok.covered hdl x c hl hcov hc).frame hfr,
      fun _ => hcomplete, hok.digest⟩
  · refine TaskOk.of_commit hcall fun s' hs' => ?_
    rw [World.store_update, sessions_put, if_pos rfl] at hs'
    cases hs'
    exact ⟨rfl, rfl⟩

/-- The digest that was computed is that of the file as it is. -/
theorem StoreInv.accept {req : ArtifactCommitRequest} {expected : String}
    (hcall : t.call = .commit req) (hpc : t.pc = .digested (.ok expected) expected)
    (hs : w.store.sessions[req.deployId]? = some s) :
    Keeps cfg w (w.update (w.store.put req.deployId (s.accept t.now)) i
      { t with pc := .cleaning t.plan answer }) := by
  have hin : t.pc.inDigest = true := by rw [hpc]; rfl
  obtain ⟨hmark, -⟩ := h.count.at_digested ht hcall hin hs
  have hdigest := (h.file.task i t ht).digest req s hcall hin hs
  rw [hpc] at hdigest
  obtain ⟨hexp, hall⟩ := hdigest
  refine h.work ht (by rfl) hs ⟨rfl, fun _ => rfl⟩ (.inr fun hfr => ?_)
    (Or.inr (TaskOk.of_uncounted rfl rfl)) trivial
  have hok := h.file.session _ s hs
  refine ⟨hok.file, fun hdl x c hl hcov hc => (hok.covered hdl x c hl hcov hc).frame hfr,
    fun _ => hok.complete (Or.inl hmark), ?_⟩
  intro hdl hl _
  exact (hall hdl hl).symm.trans hexp

/-- A candidate becomes a session with a full-length file and no ranges. -/
theorem StoreInv.insert {c : UploadSession} (now : Nat) (hpc : t.pc = .inserting c) :
    Keeps cfg w (w.update
      { sessions := w.store.sessions.insert c.deployId (c.touch now)
        idempotency := w.store.idempotency.insert c.idempotencyKey c.deployId } i
      { t with pc := .cleaning t.plan answer }) := by
  have hc : t.pc.candidate? = some c := by rw [hpc]; rfl
  refine h.update ht (by rfl) ?_ ?_ (.inr (TaskOk.of_uncounted rfl rfl)) trivial
  · refine Frame.of_same_fs rfl (calls_update _ ht rfl) ?_
    intro d s' hissued hs'
    rw [World.store_update, getElem?_insert_ite, if_neg (hissued.2 i t c ht hc)] at hs'
    exact ⟨s', hs', Continues.refl s'⟩
  · intro d s' hs'
    rw [getElem?_insert_ite] at hs'
    split at hs'
    · cases hs'
      obtain ⟨-, req, now', k, -, hnew⟩ := (h.id.task ht).candidate c hc
      have hfile := h.file.candidate i t ht
      rw [hpc] at hfile
      have hranges : c.receivedRanges = [] := by rw [hnew]; rfl
      have hmark : c.commitInProgress = false ∧ c.committed = false := by
        rw [hnew]
        exact ⟨rfl, rfl⟩
      refine .inr ⟨hfile, ?_, ?_, ?_⟩
      · rintro hdl x cell - ⟨r, hr, -⟩
        rw [show (c.touch now).receivedRanges = [] from hranges] at hr
        cases hr
      · rintro (hcip | hcommitted)
        · exact absurd (hmark.1.symm.trans hcip) (by decide)
        · exact absurd (hmark.2.symm.trans hcommitted) (by decide)
      · intro hdl _ hcommitted
        exact absurd (hmark.2.symm.trans hcommitted) (by decide)
    · exact .inl ⟨s', hs', rfl, rfl, rfl, .inl⟩

end

/-- The read loop extends the prefix that has been hashed. -/
theorem take_append_drop_take {α : Type} {l hashed : List α} {n : Nat}
    (hpre : hashed = l.take hashed.length) (hn : hashed.length + n ≤ l.length) :
    hashed ++ (l.drop hashed.length).take n
      = l.take (hashed ++ (l.drop hashed.length).take n).length := by
  have hlen : (hashed ++ (l.drop hashed.length).take n).length = hashed.length + n := by
    rw [List.length_append, List.length_take, List.length_drop, Nat.min_eq_left (by omega)]
  rw [hlen, List.take_add, ← hpre]

/-- **Every micro-step frames the files of live sessions and keeps the invariant.** -/
theorem StoreInv.keeps (h : StoreInv cfg w) (hm : Micro cfg w w') : Keeps cfg w w' := by
  have hsame : ∀ (d : String) s, w.store.sessions[d]? = some s →
      (∃ s₀, w.store.sessions[d]? = some s₀ ∧ SameMarks s₀ s) ∨ SessionOk cfg w' d s :=
    fun d s hs => Or.inl ⟨s, hs, rfl, rfl, rfl, Or.inl⟩
  cases hm with
  | spawn c now =>
    refine h.of_frame ?_ hsame ?_ ?_
    · refine Frame.of_same_fs rfl ?_ fun _ s' _ hs' => ⟨s', hs', Continues.refl s'⟩
      intro j u hu
      refine ⟨u, ?_, rfl⟩
      obtain ⟨hj, -⟩ := List.getElem?_eq_some_iff.mp hu
      exact (List.getElem?_append_left hj).trans hu
    · exact forall_concat (fun j u hu => .inl ⟨u, hu, rfl, rfl⟩)
        (.inr (TaskOk.of_uncounted rfl rfl))
    · exact forall_concat h.file.candidate trivial
  | pins p | draw ids => exact (Keeps.refl h.file).congr
  | @drop i t ht =>
    refine h.update ht (by rfl) ?_ hsame (.inl rfl) (h.file.candidate i t ht)
    exact Frame.of_update ht (by rfl) fun d s' hs' => ⟨s', hs', Continues.refl s'⟩
  | @remove i t st' plan plan' ht hrem hplan =>
    refine h.update ht (by rfl) ?_ ?_ (.inl rfl) (h.file.candidate i t ht)
    · exact Frame.of_update ht (by rfl) fun d s' hs' => ⟨s', hrem.of_some hs', Continues.refl s'⟩
    · intro d s' hs'
      exact .inl ⟨s', hrem.of_some hs', rfl, rfl, rfl, .inl⟩
  | touch now ht hs =>
    exact h.work ht rfl hs ⟨rfl, fun hc => hc⟩ (.inl ⟨rfl, rfl, rfl, .inl⟩) (.inl rfl)
      (h.file.candidate _ _ ht)
  | @settle i t plan' pc' ht hgone hset =>
    have hpoint : pc'.inWrite = false ∧ pc'.inDigest = false ∧ pc'.candidate? = none := by
      cases pc' <;> first | exact ⟨rfl, rfl, rfl⟩ | cases hset
    obtain ⟨hwrite, hdigest, hcand⟩ := hpoint
    refine h.move ht (by rfl) ?_ ?_ (TaskOk.of_uncounted hwrite hdigest)
      (CandidateOk.of_none hcand)
    · intro hin; exact absurd (hwrite.symm.trans hin) (by decide)
    · intro hin; exact absurd (hdigest.symm.trans hin) (by decide)
  | @propose i t req d k ht hcall hpc _ hfresh =>
    have hcreate : Keeps cfg w
        (w.update w.store i { t with pc := .creating (newSession cfg req t.now d k) }) :=
      h.move ht (by rfl) nofun nofun
        (TaskOk.of_uncounted rfl rfl) hfresh.2.2.2
    exact hcreate.congr
  | insert now ht hpc hfree => exact h.insert ht now hpc
  | beginWrite ht hcall hpc hcheck hs hguard =>
    exact h.beginWrite ht hcall hcheck hs hguard
  | endWrite ht hcall hpc hs =>
    exact h.work ht (by rfl) hs ⟨rfl, fun hc => hc⟩ (.inl ⟨rfl, rfl, rfl, .inl⟩)
      (Or.inr (TaskOk.of_uncounted rfl rfl)) trivial
  | receive ht hcall hpc hs => exact h.receive ht hcall hpc hs
  | beginCommit ht hcall hpc hs hguard => exact h.beginCommit ht hcall hs hguard
  | endCommit ht hcall hpc hs =>
    refine h.work ht (by rfl) hs ⟨rfl, fun hc => hc⟩ (.inl ⟨rfl, rfl, rfl, ?_⟩)
      (Or.inr (TaskOk.of_uncounted rfl rfl)) trivial
    intro hmark; cases hmark
  | accept ht hcall hpc hs => exact h.accept ht hcall hpc hs
  | @allocate i t c ht hpc =>
    exact h.create ht hpc (by rfl) c.artifactSize (by rfl) (by rfl)
      (Or.inr ⟨by rfl, rfl⟩)
  | @abandon i t c n e ht hpc =>
    exact h.create ht hpc (by rfl) n (by rfl) (by rfl) (.inl (by rfl))
  | @openWrite i t req path hdl ht hcall hpc hlookup =>
    have hin : t.pc.inWrite = true := by rw [hpc]; rfl
    refine h.move ht (by rfl) (fun _ => hin) nofun ?_ trivial
    refine TaskOk.of_push hcall nofun (fun hdl' offset rest hp => ?_) fun s hs => ?_
    · cases hp
      refine ⟨FileStore.lookup_lt hlookup, fun p hp => ?_⟩
      rw [FileStore.lookup_inj hp hlookup]
      exact (h.file.task i t ht).opening req path hcall hpc
    · obtain ⟨htok, hsize, hlen, hpush⟩ := (h.file.task i t ht).push req s hcall hin hs
      rw [hpc] at hpush
      obtain rfl : path = s.filePath := hpush
      exact ⟨htok, hsize, hlen, hlookup, Nat.le_refl _, by rw [hlen]; omega,
        by rw [Nat.sub_self, List.drop_zero], fun x c hx hx' => by omega⟩
  | @failWrite i t req e ht hcall hin =>
    refine h.move ht (by rfl) (fun _ => hin) nofun ?_ trivial
    refine TaskOk.of_push hcall nofun nofun fun s hs => ?_
    obtain ⟨htok, hsize, hlen, -⟩ := (h.file.task i t ht).push req s hcall hin hs
    exact ⟨htok, hsize, hlen, trivial⟩
  | write ht hcall hpc hn => exact h.write ht hcall hpc hn
  | @wrote i t req hdl offset ht hcall hpc =>
    have hin : t.pc.inWrite = true := by rw [hpc]; rfl
    refine h.move ht (by rfl) (fun _ => hin) nofun ?_ trivial
    refine TaskOk.of_push hcall nofun nofun fun s hs => ?_
    obtain ⟨htok, hsize, hlen, hpush⟩ := (h.file.task i t ht).push req s hcall hin hs
    rw [hpc] at hpush
    obtain ⟨hl, -, hsum, -, hall⟩ := hpush
    rw [List.length_nil, Nat.add_zero] at hsum
    refine ⟨htok, hsize, hlen, fun hdl' x c hl' hx hx' => ?_⟩
    obtain rfl := Option.mem_unique hl hl'
    exact hall x c hx (hsum ▸ hx')
  | @openDigest i t req path expected hdl ht hcall hpc hlookup =>
    refine h.digests ht hcall (by rw [hpc]; rfl) nofun trivial fun s hold => ?_
    rw [hpc] at hold
    obtain ⟨rfl, hexp⟩ := hold
    exact ⟨hlookup, hexp, rfl⟩
  | failDigest e expected ht hcall hin =>
    exact h.digests ht hcall hin nofun trivial fun s _ => trivial
  | @read i t req hdl hashed expected n ht hcall hpc hn =>
    refine h.digests ht hcall (by rw [hpc]; rfl) nofun trivial fun s hold => ?_
    rw [hpc] at hold
    obtain ⟨hl, hexp, hpre⟩ := hold
    exact ⟨hl, hexp, take_append_drop_take hpre (by rw [List.length_map]; exact hn)⟩
  | @digest i t req hdl hashed expected ht hcall hpc heof =>
    refine h.digests ht hcall (by rw [hpc]; rfl) nofun trivial fun s hold => ?_
    rw [hpc] at hold
    obtain ⟨hl, hexp, hpre⟩ := hold
    refine ⟨hexp, fun hdl' hl' => ?_⟩
    obtain rfl := Option.mem_unique hl hl'
    -- the end of the file was reached, so the prefix is the whole file
    rw [List.take_of_length_le (by rw [List.length_map]; exact heof)] at hpre
    rw [hpre]
  | unlink ht hp => exact h.unlink ((h.id.task ht).retired _ hp)

end Sections

/-! ### Committed artifacts -/

theorem StoreInv.micro (h : StoreInv cfg w) (hm : Micro cfg w w') : StoreInv cfg w' :=
  ⟨h.id.micro hm, h.count.micro h.id hm, (h.keeps hm).inv⟩

theorem Reachable.storeInv (h : Reachable cfg w) : StoreInv cfg w :=
  h.invariant (fun _ h => h.id.coherent)
    (fun fs => ⟨IdInv.init cfg fs, CountInv.init fs, FileInv.init cfg fs⟩)
    fun _ _ h hm => h.micro hm

/-- As long as session `d` is in the store it is committed, and the file under
its path holds `cells`. -/
structure Sealed (w : World) (d path : String) (cells : List Cell) : Prop where
  issued : w.Issued d
  holds : ∀ s, w.store.sessions[d]? = some s →
    s.filePath = path ∧ s.committed = true ∧ w.fs.contents path = some cells

theorem Sealed.micro {path : String} {cells : List Cell} (hinv : StoreInv cfg w)
    (h : Sealed w d path cells) (hm : Micro cfg w w') : Sealed w' d path cells := by
  have hfr := (hinv.keeps hm).frame
  refine ⟨h.issued.micro hm, ?_⟩
  intro s' hs'
  obtain ⟨s, hs, hid, hcommitted⟩ := hfr.old d s' h.issued hs'
  obtain ⟨rfl, hmark, hcontents⟩ := h.holds s hs
  obtain ⟨-, -, -, -, -, hpath⟩ := UploadSession.fields_of_identity hid
  obtain ⟨hdl, hl, -⟩ := (hinv.file.session d s hs).file
  have hlive := Frame.ne_none hs'
  have hl' : w'.fs.lookup s.filePath = some hdl := (hfr.lookup d s hs hlive).trans hl
  refine ⟨hpath, hcommitted hmark, ?_⟩
  rw [FileStore.contents_eq hl', hfr.frozen d s hdl hs hlive (Or.inr hmark) hl,
    ← FileStore.contents_eq hl, hcontents]

/-- A sealed file stays sealed along every run. -/
theorem Sealed.reaches {path : String} {cells : List Cell} (hinv : StoreInv cfg w)
    (h : Sealed w d path cells) (hr : Reaches (step cfg) w w') : Sealed w' d path cells := by
  have hmicro : ∀ w w', StoreInv cfg w ∧ Sealed w d path cells → Micro cfg w w' →
      StoreInv cfg w' ∧ Sealed w' d path cells :=
    fun w w' h hm => ⟨h.1.micro hm, h.2.micro h.1 hm⟩
  have hstep : ∀ w a w', StoreInv cfg w ∧ Sealed w d path cells → step cfg w a = some w' →
      StoreInv cfg w' ∧ Sealed w' d path cells :=
    fun w a w' h hstep => step_invariant (fun _ h => h.1.id.coherent) hmicro h hstep
  exact (hr.invariant hstep ⟨hinv, h⟩).2

/-- A committed session is complete, has the right digest, and every byte of
its file was pushed with its token. -/
theorem StoreInv.committed (h : StoreInv cfg w) (hs : w.store.sessions[d]? = some s)
    (hcommitted : s.committed = true) :
    ∃ cells, Sealed w d s.filePath cells ∧ cells.length = s.artifactSize ∧
      cfg.sha256Hex (cells.map Cell.byte) = s.artifactDigest ∧
      ∀ c ∈ cells, w.WrittenBy d s.uploadToken c := by
  have hok := h.file.session d s hs
  obtain ⟨hdl, hl, hlen⟩ := hok.file
  refine ⟨w.fs.file hdl, ⟨h.id.issued d s hs, ?_⟩, hlen, hok.digest hdl hl hcommitted, ?_⟩
  · intro s' hs'
    obtain rfl := Option.mem_unique hs hs'
    exact ⟨rfl, hcommitted, FileStore.contents_eq hl⟩
  · intro c hc
    obtain ⟨x, hx⟩ := List.getElem?_of_mem hc
    obtain ⟨hlt, -⟩ := List.getElem?_eq_some_iff.mp hx
    have hcov := covered_of_isComplete (hok.complete (Or.inr hcommitted)) (hlen ▸ hlt)
    exact (hok.covered hdl x c hl hcov hx).writtenBy

/-- What `committed_artifact` answers is a committed session of the store. -/
theorem step_committedArtifact {i : Nat} {t : Task} {d' k' : String} {a : CommittedArtifact}
    (ht : w.tasks[i]? = some t) (hcall : t.call = .committedArtifact d)
    (hstep : step cfg w (.enter i d' k') = some w') (ht' : w'.tasks[i]? = some t')
    (hans : t'.pc.answer? = some (.ok (.artifact a))) :
    ∃ s, w'.store.sessions[d]? = some s ∧ s.committed = true ∧ a.path = s.filePath ∧
      a.artifactDigest = s.artifactDigest := by
  obtain ⟨t₀, ht₀, -, -, -, o, ho, rfl⟩ := step_enter hstep
  obtain rfl := Option.mem_unique ht ht₀
  have hpc : t'.pc = o.pc := by
    have hself := World.tasks_update_self ht o.store { t with plan := o.plan, pc := o.pc }
    rw [← Option.mem_unique hself ht']
  rw [hpc] at hans
  simp only [firstSection, hcall, committedArtifact] at ho
  obtain ⟨st₁, plan, -, hcases⟩ := lookupCommitted_cases cfg w.pinned w.store t.now d
    fun session => .artifact
      ⟨session.deployId, session.filePath, session.manifestDigest, session.artifactDigest⟩
  rcases hcases with ⟨e, -, h⟩ | ⟨s, hs, hcommitted, h⟩
  · rw [ho] at h
    rw [h] at hans
    cases hans
  · rw [ho] at h
    subst h
    cases hans
    refine ⟨s.touch t.now, ?_, hcommitted, rfl, rfl⟩
    show (st₁.put d (s.touch t.now)).sessions[d]? = _
    rw [sessions_put, if_pos rfl]

/-- **Integrity of committed artifacts.**  When `committed_artifact` succeeds,
in any state reached by any interleaving, the file at the returned path has
the announced size and digest, each of its bytes was written by a push that
presented the token of the session, and no later step changes the contents
while the session stays in the store. -/
theorem committed_artifact_intact (cfg : StoreConfig) (w w' : World) (hw : Reachable cfg w)
    (i : Nat) (t t' : Task) (d d' k' : String) (a : CommittedArtifact)
    (ht : w.tasks[i]? = some t) (hcall : t.call = .committedArtifact d)
    (hstep : step cfg w (.enter i d' k') = some w') (ht' : w'.tasks[i]? = some t')
    (hans : t'.pc.answer? = some (.ok (.artifact a))) :
    ∃ s cells, w'.store.sessions[d]? = some s ∧ a.path = s.filePath ∧
      a.artifactDigest = s.artifactDigest ∧ cells.length = s.artifactSize ∧
      cfg.sha256Hex (cells.map Cell.byte) = s.artifactDigest ∧
      (∀ c ∈ cells, w'.WrittenBy d s.uploadToken c) ∧
      ∀ w'', Reaches (step cfg) w' w'' → w''.store.sessions[d]? ≠ none →
        w''.fs.contents a.path = some cells := by
  obtain ⟨s, hs, hcommitted, hpath, hdigest⟩ := step_committedArtifact ht hcall hstep ht' hans
  have hinv := (hw.tail hstep).storeInv
  obtain ⟨cells, hsealed, hlen, hsha, hwritten⟩ := hinv.committed hs hcommitted
  refine ⟨s, cells, hs, hpath, hdigest, hlen, hsha, hwritten, ?_⟩
  intro w'' hr hlive
  obtain ⟨s'', hs''⟩ := Option.ne_none_iff_exists'.mp hlive
  rw [hpath]
  exact ((hsealed.reaches hinv hr).holds s'' hs'').2.2

/-- A whole upload: prepare, one push in two writes, a commit that reads the
file, and the lookup. -/
def sampleUpload : List Action :=
  samplePrepared ++
    [.call (.push samplePush) 102, .enter 1 "d-2" "k-2", .io 1 (.openFile none), .write 1 3,
      .write 1 1, .io 1 (.endWrite none), .reenter 1 102, .io 1 (.remove true),
      .call (.commit ⟨"d-1", "sha256-4", 4, "sha256-2"⟩) 103, .enter 2 "d-3" "k-3",
      .io 2 (.openFile none), .io 2 (.read 4), .io 2 (.read 0), .reenter 2 103,
      .call (.committedArtifact "d-1") 104]

/-- The lookup at the end of `sampleUpload` succeeds. -/
theorem committed_artifact_intact_upload :
    ∃ w w' t t' a, run (step sampleConfig) (World.init FileStore.empty) sampleUpload = some w ∧
      w.tasks[3]? = some t ∧ step sampleConfig w (.enter 3 "d-4" "k-4") = some w' ∧
      w'.tasks[3]? = some t' ∧ t'.pc.answer? = some (.ok (.artifact a)) ∧
      ∃ s cells, w'.store.sessions["d-1"]? = some s ∧ a.path = s.filePath ∧
        a.artifactDigest = s.artifactDigest ∧ cells.length = s.artifactSize ∧
        sampleConfig.sha256Hex (cells.map Cell.byte) = s.artifactDigest ∧
        (∀ c ∈ cells, w'.WrittenBy "d-1" s.uploadToken c) ∧
        ∀ w'', Reaches (step sampleConfig) w' w'' → w''.store.sessions["d-1"]? ≠ none →
          w''.fs.contents a.path = some cells := by
  have hall := fun w w' t t' a
      (hrun : run (step sampleConfig) (World.init FileStore.empty) sampleUpload = some w) =>
    committed_artifact_intact sampleConfig w w' ⟨_, _, hrun⟩ 3 t t' "d-1" "d-4" "k-4" a
  exact ⟨_, _, _, _, _, rfl, rfl, rfl, rfl, rfl, hall _ _ _ _ _ rfl rfl rfl rfl rfl rfl⟩

end Imago
