/-
Imago/UploadResume.lean

Uploads that are interrupted and taken up again.  Any number of clients push
chunks of one artifact to one session; pushes overlap, and the write of a
push may fail midway.

Three invariants carry the result.  `RangeInv`: the ranges of a session are
merged and lie inside the artifact.  `AckInv`: an acknowledged push is
recorded in the ranges of its session.  `SessionOk.covered`: a covered byte
was written by a push, which for pushes of the true bytes makes it true.
With them the plan that a client derives from the response of `prepare`
covers what is missing, and once it is acknowledged the commit succeeds
(`upload_resumes`).
-/
import Imago.UploadPlan
import Imago.UndisturbedCalls

namespace Imago

variable {cfg : StoreConfig} {w w' : World}

/-! ### What a micro-step does to ranges, candidates and answers -/

variable {d : String}

/-- A session keeps its ranges, or a push records its chunk, or it is new. -/
theorem ranges_micro (hm : Micro cfg w w') {s' : UploadSession}
    (hs' : w'.store.sessions[d]? = some s') :
    (∃ s, w.store.sessions[d]? = some s ∧ s'.identity = s.identity ∧
        s'.receivedRanges = s.receivedRanges) ∨
      (∃ (i : Nat) (t : Task) (req : ArtifactPushRequest) (s : UploadSession),
        w.tasks[i]? = some t ∧ t.call = .push req ∧ t.pc = .written (.ok ()) ∧
        req.header.deployId = d ∧ w.store.sessions[d]? = some s ∧
        s' = s.receive req.header t.now) ∨
      ∃ (i : Nat) (t : Task) (c : UploadSession) (now : Nat),
        w.tasks[i]? = some t ∧ t.pc = .inserting c ∧ c.deployId = d ∧ s' = c.touch now := by
  have hput : ∀ {e : String} {s u : UploadSession}, (w.store.put e u).sessions[d]? = some s' →
      w.store.sessions[e]? = some s → u.identity = s.identity →
      u.receivedRanges = s.receivedRanges →
      ∃ s, w.store.sessions[d]? = some s ∧ s'.identity = s.identity ∧
        s'.receivedRanges = s.receivedRanges := by
    intro e s u hu hs hid hranges
    rw [sessions_put] at hu
    split at hu
    · rename_i hed
      subst hed
      cases hu
      exact ⟨s, hs, hid, hranges⟩
    · exact ⟨s', hu, rfl, rfl⟩
  cases hm with
  | remove ht hrem => exact Or.inl ⟨s', hrem.of_some hs', rfl, rfl⟩
  | touch now ht hs => exact Or.inl (hput hs' hs rfl rfl)
  | insert now ht hpc =>
    rename_i i t c _
    simp only [World.store_update, getElem?_insert_ite] at hs'
    split at hs'
    · rename_i hd
      exact .inr (.inr ⟨i, t, c, now, ht, hpc, hd, (Option.some.inj hs').symm⟩)
    · exact .inl ⟨s', hs', rfl, rfl⟩
  | beginWrite ht hcall hpc hcheck hs | endWrite ht hcall hpc hs =>
    exact Or.inl (hput hs' hs rfl rfl)
  | receive ht hcall hpc hs =>
    rw [World.store_update, sessions_put] at hs'
    split at hs'
    · rename_i hd
      subst hd
      exact .inr (.inl ⟨_, _, _, _, ht, hcall, hpc, rfl, hs, (Option.some.inj hs').symm⟩)
    · exact .inl ⟨s', hs', rfl, rfl⟩
  | beginCommit ht hcall hpc hs | endCommit ht hcall hpc hs | accept ht hcall hpc hs =>
    exact Or.inl (hput hs' hs rfl rfl)
  | _ =>
    exact .inl ⟨s', hs', rfl, rfl⟩

/-- A candidate was there before, or a request that passed its check makes it. -/
theorem candidate_micro (hm : Micro cfg w w') {j : Nat} {u : Task} {c : UploadSession}
    (hu : w'.tasks[j]? = some u) (hc : u.pc.candidate? = some c) :
    (∃ (i : Nat) (t : Task), w.tasks[i]? = some t ∧ t.pc.candidate? = some c) ∨
      ∃ req now d k, c = newSession cfg req now d k ∧ prepareCheck cfg req = .ok () := by
  have hmoved : ∀ {i : Nat} {t t' : Task}, (w.update w.store i t').tasks[j]? = some u →
      w.tasks[i]? = some t → (t'.pc.candidate? = some c → t.pc.candidate? = some c) →
      ∃ (i : Nat) (t : Task), w.tasks[i]? = some t ∧ t.pc.candidate? = some c := by
    intro i t t' hu ht hback
    rcases getElem?_set_cases hu with ⟨rfl, rfl⟩ | ⟨-, hu⟩
    · exact ⟨j, t, ht, hback hc⟩
    · exact ⟨j, u, hu, hc⟩
  cases hm with
  | spawn c' now =>
    rcases getElem?_concat_cases hu with hu | ⟨-, rfl⟩
    · exact .inl ⟨j, u, hu, hc⟩
    · cases hc
  | pins | draw | unlink => exact .inl ⟨j, u, hu, hc⟩
  | @propose i t req d k ht hcall hpc hcheck hfresh =>
    rcases getElem?_set_cases
        (show (w.update w.store i
          { t with pc := .creating (newSession cfg req t.now d k) }).tasks[j]?
          = some u from hu) with ⟨rfl, rfl⟩ | ⟨-, hu⟩
    · exact .inr ⟨req, t.now, d, k, (Option.some.inj hc).symm, hcheck⟩
    · exact .inl ⟨j, u, hu, hc⟩
  | @settle i t plan' pc' ht hgone hset =>
    refine .inl (hmoved hu ht fun h => ?_)
    have hnone : pc'.candidate? = none := by cases pc' <;> first | rfl | cases hset
    exact absurd (hnone.symm.trans h) (by simp)
  | allocate ht hpc => exact Or.inl (hmoved hu ht (fun h => by rw [hpc]; exact h))
  | drop ht | remove ht | touch now ht => exact Or.inl (hmoved hu ht id)
  | _ => exact .inl (hmoved hu ‹w.tasks[_]? = some _› nofun)

/-- A push was acknowledged before, or its chunk is recorded right now. -/
theorem ack_micro (hm : Micro cfg w w') {j : Nat} {u : Task} {req : ArtifactPushRequest}
    {ack : ArtifactPushAck} (hu : w'.tasks[j]? = some u) (hcall : u.call = .push req)
    (hack : u.pc.answer? = some (.ok (.pushed ack))) :
    (∃ t, w.tasks[j]? = some t ∧ t.call = .push req ∧ t.pc.answer? = some (.ok (.pushed ack))) ∨
      ∃ t s, w.tasks[j]? = some t ∧ t.call = .push req ∧ t.pc = .written (.ok ()) ∧
        w.store.sessions[req.header.deployId]? = some s ∧
        w'.store = w.store.put req.header.deployId (s.receive req.header t.now) := by
  have hmoved : ∀ {i : Nat} {t t' : Task}, (w.update w.store i t').tasks[j]? = some u →
      w.tasks[i]? = some t → t'.call = t.call →
      (t'.pc.answer? = some (.ok (.pushed ack)) → t.pc.answer? = some (.ok (.pushed ack))) →
      ∃ t, w.tasks[j]? = some t ∧ t.call = .push req ∧
        t.pc.answer? = some (.ok (.pushed ack)) := by
    intro i t t' hu ht hsame hback
    rcases getElem?_set_cases hu with ⟨rfl, rfl⟩ | ⟨-, hu⟩
    · exact ⟨t, ht, hsame ▸ hcall, hback hack⟩
    · exact ⟨u, hu, hcall, hack⟩
  cases hm with
  | spawn c' now =>
    rcases getElem?_concat_cases hu with hu | ⟨-, rfl⟩
    · exact .inl ⟨u, hu, hcall, hack⟩
    · cases hack
  | pins | draw | unlink => exact .inl ⟨u, hu, hcall, hack⟩
  | @receive i t req' s ack' ht hcall' hpc hs =>
    rcases getElem?_set_cases hu with ⟨rfl, rfl⟩ | ⟨-, hu⟩
    · obtain rfl := Call.push.inj (hcall'.symm.trans hcall)
      exact .inr ⟨t, s, ht, hcall', hpc, hs, rfl⟩
    · exact .inl ⟨u, hu, hcall, hack⟩
  | settle ht hgone hset hfiles hans hold => exact Or.inl (hmoved hu ht rfl (hold ack))
  | drop ht | remove ht | touch now ht => exact Or.inl (hmoved hu ht rfl id)
  | _ => exact .inl (hmoved hu ‹w.tasks[_]? = some _› (by rfl) nofun)

/-! ### Ranges and acknowledgements -/

theorem prepareCheck_eq_ok {req : DeployPrepareRequest} :
    prepareCheck cfg req = .ok () ↔
      0 < req.artifactSize ∧ req.artifactSize ≤ cfg.maxArtifactSizeBytes := by
  unfold prepareCheck
  split_ifs with hzero hmax
  · simp [hzero]
  · simp only [false_iff]
    omega
  · simp only [true_iff]
    omega

/-- The size of a session, or of one to be, has passed the check of `prepare`. -/
def SizeOk (cfg : StoreConfig) (s : UploadSession) : Prop :=
  0 < s.artifactSize ∧ s.artifactSize ≤ cfg.maxArtifactSizeBytes

/-- The ranges of every session are merged and inside the artifact. -/
structure RangeInv (cfg : StoreConfig) (w : World) : Prop where
  session : ∀ (d : String) s, w.store.sessions[d]? = some s →
    SizeOk cfg s ∧ Merged s.artifactSize s.receivedRanges
  candidate : ∀ (i : Nat) t c, w.tasks[i]? = some t → t.pc.candidate? = some c → SizeOk cfg c

theorem RangeInv.init (cfg : StoreConfig) (fs : FileStore Cell) : RangeInv cfg (World.init fs) where
  session := by intro d s hs; simp [World.init, StoreState.empty] at hs
  candidate := by intro i t c ht; simp [World.init] at ht

section Receive

variable {i : Nat} {t : Task} {req : ArtifactPushRequest} {s : UploadSession}
  (hmax : cfg.maxArtifactSizeBytes ≤ u64Max) (hinv : StoreInv cfg w) (h : RangeInv cfg w)
  (ht : w.tasks[i]? = some t) (hcall : t.call = .push req) (hpc : t.pc = .written (.ok ()))
  (hs : w.store.sessions[req.header.deployId]? = some s)

include hmax hinv h ht hcall hpc hs

/-- A push that records its chunk adds exactly the bytes of the chunk. -/
theorem RangeInv.receive :
    Merged s.artifactSize (s.receive req.header t.now).receivedRanges ∧
      ∀ x, Covered (s.receive req.header t.now).receivedRanges x ↔
        Covered s.receivedRanges x ∨
          req.header.offset ≤ x ∧ x < req.header.length + req.header.offset := by
  obtain ⟨hsize, hmerged⟩ := h.session _ s hs
  obtain ⟨-, hend, -, -⟩ := (hinv.file.task i t ht).push req s hcall (by rw [hpc]; rfl) hs
  have hin : (rangeFromStartEnd req.header.offset (req.header.length + req.header.offset)).offset +
      (rangeFromStartEnd req.header.offset (req.header.length + req.header.offset)).length
        ≤ s.artifactSize := by
    simp only [rangeFromStartEnd]
    omega
  obtain ⟨hmerged', hcov⟩ := hmerged.mergeRange hin (Nat.le_trans hsize.2 hmax)
  refine ⟨hmerged', fun x => ?_⟩
  rw [← contains_rangeFromStartEnd]
  exact hcov x

end Receive

section

variable (hmax : cfg.maxArtifactSizeBytes ≤ u64Max)

include hmax

theorem RangeInv.micro (hinv : StoreInv cfg w)
    (h : RangeInv cfg w) (hm : Micro cfg w w') : RangeInv cfg w' := by
  refine ⟨?_, ?_⟩
  · intro d s' hs'
    rcases ranges_micro hm hs' with ⟨s, hs, hid, hranges⟩ |
      ⟨i, t, req, s, ht, hcall, hpc, rfl, hs, rfl⟩ | ⟨i, t, c, now, ht, hpc, rfl, rfl⟩
    · obtain ⟨-, -, -, hsize, -, -⟩ := UploadSession.fields_of_identity hid
      simp only [SizeOk, hsize, hranges]
      exact h.session d s hs
    · exact ⟨(h.session _ s hs).1, (h.receive hmax hinv ht hcall hpc hs).1⟩
    · have hc : t.pc.candidate? = some c := by rw [hpc]; rfl
      obtain ⟨-, req, now', k, -, hnew⟩ := (hinv.id.task ht).candidate c hc
      have hranges : c.receivedRanges = [] := by rw [hnew]; rfl
      refine ⟨h.candidate i t c ht hc, ?_⟩
      show Merged c.artifactSize c.receivedRanges
      rw [hranges]
      exact Merged.nil _
  · intro j u c hu hc
    rcases candidate_micro hm hu hc with ⟨i, t, ht, hc⟩ | ⟨req, now, d, k, rfl, hcheck⟩
    · exact h.candidate i t c ht hc
    · exact prepareCheck_eq_ok.mp hcheck

/-- As long as session `d` is in the store, its ranges cover the bytes in `P`. -/
def Records (w : World) (d : String) (P : Nat → Prop) : Prop :=
  w.Issued d ∧ ∀ s, w.store.sessions[d]? = some s → ∀ x, P x → Covered s.receivedRanges x

/-- What is recorded stays recorded. -/
theorem Records.micro (hinv : StoreInv cfg w)
    (hr : RangeInv cfg w) {P : Nat → Prop} (h : Records w d P) (hm : Micro cfg w w') :
    Records w' d P := by
  refine ⟨h.1.micro hm, fun s' hs' x hx => ?_⟩
  rcases ranges_micro hm hs' with ⟨s, hs, -, hranges⟩ |
    ⟨i, t, req, s, ht, hcall, hpc, rfl, hs, rfl⟩ | ⟨i, t, c, now, ht, hpc, hd, -⟩
  · rw [hranges]
    exact h.2 s hs x hx
  · exact ((hr.receive hmax hinv ht hcall hpc hs).2 x).mpr (.inl (h.2 s hs x hx))
  · -- an issued id is no candidate's
    exact absurd hd (h.1.2 i t c ht (by rw [hpc]; rfl))

/-- Every acknowledged chunk is recorded. -/
def AckInv (w : World) : Prop :=
  ∀ (i : Nat) t req ack, w.tasks[i]? = some t → t.call = .push req →
    t.pc.answer? = some (.ok (.pushed ack)) →
    Records w req.header.deployId fun x =>
      req.header.offset ≤ x ∧ x < req.header.length + req.header.offset

theorem AckInv.micro (hinv : StoreInv cfg w)
    (hr : RangeInv cfg w) (h : AckInv w) (hm : Micro cfg w w') : AckInv w' := by
  intro j u req ack hu hcall hack
  rcases ack_micro hm hu hcall hack with ⟨t, ht, hcall, hack⟩ | ⟨t, s, ht, hcall, hpc, hs, hstore⟩
  · exact (h j t req ack ht hcall hack).micro hmax hinv hr hm
  · refine ⟨(hinv.id.issued _ s hs).micro hm, fun s' hs' x hx => ?_⟩
    rw [hstore, sessions_put, if_pos rfl] at hs'
    cases hs'
    exact ((hr.receive hmax hinv ht hcall hpc hs).2 x).mpr (.inr hx)

/-- All that holds of uploads in every reachable state. -/
structure UploadInv (cfg : StoreConfig) (w : World) : Prop where
  store : StoreInv cfg w
  ranges : RangeInv cfg w
  acks : AckInv w

theorem UploadInv.micro (h : UploadInv cfg w)
    (hm : Micro cfg w w') : UploadInv cfg w' :=
  ⟨h.store.micro hm, h.ranges.micro hmax h.store hm, h.acks.micro hmax h.store h.ranges hm⟩

theorem Reachable.uploadInv (h : Reachable cfg w) :
    UploadInv cfg w := by
  refine h.invariant (fun _ h => h.store.id.coherent) (fun fs => ?_) fun _ _ h hm => h.micro hmax hm
  refine ⟨⟨IdInv.init cfg fs, CountInv.init fs, FileInv.init cfg fs⟩, RangeInv.init cfg fs, ?_⟩
  intro i t req ack ht
  simp [World.init] at ht

/-- What every micro-step keeps, every run keeps. -/
theorem UploadInv.reaches (hw : UploadInv cfg w)
    {Q : World → Prop} (hQ : ∀ w w', UploadInv cfg w → Q w → Micro cfg w w' → Q w') (h : Q w)
    (hr : Reaches (step cfg) w w') : Q w' := by
  have hmicro : ∀ w w', UploadInv cfg w ∧ Q w → Micro cfg w w' → UploadInv cfg w' ∧ Q w' :=
    fun w w' h hm => ⟨h.1.micro hmax hm, hQ w w' h.1 h.2 hm⟩
  have hstep : ∀ w a w', UploadInv cfg w ∧ Q w → step cfg w a = some w' →
      UploadInv cfg w' ∧ Q w' :=
    fun w a w' h hstep => step_invariant (fun _ h => h.1.store.id.coherent) hmicro h hstep
  exact (hr.invariant hstep ⟨hw, h⟩).2

end

/-- As long as session `d` is in the store, it is `s` up to its progress. -/
def Remains (w : World) (d : String) (s : UploadSession) : Prop :=
  w.Issued d ∧ ∀ s', w.store.sessions[d]? = some s' → s'.identity = s.identity

theorem Remains.of_session {s : UploadSession} (h : StoreInv cfg w)
    (hs : w.store.sessions[d]? = some s) : Remains w d s := by
  refine ⟨h.id.issued d s hs, fun s₀ hs₀ => ?_⟩
  rw [Option.mem_unique hs hs₀]

theorem Remains.micro {s : UploadSession} (h : Remains w d s) (hm : Micro cfg w w') :
    Remains w' d s := by
  refine ⟨h.1.micro hm, fun s' hs' => ?_⟩
  rcases ranges_micro hm hs' with ⟨s₀, hs₀, hid, -⟩ |
    ⟨i, t, req, s₀, ht, hcall, hpc, rfl, hs₀, rfl⟩ | ⟨i, t, c, now, ht, hpc, hd, -⟩
  · exact hid.trans (h.2 s₀ hs₀)
  · exact h.2 s₀ hs₀
  · exact absurd hd (h.1.2 i t c ht (by rw [hpc]; rfl))

/-! ### Pushes of the true bytes -/

/-- What the chunk holds of the artifact's range is the artifact's. -/
def ArtifactPushRequest.Carries (art : List UInt8) (req : ArtifactPushRequest) : Prop :=
  ∀ k < req.chunk.length, ∀ b ∈ art[req.header.offset + k]?, req.chunk[k]? = some b

instance (art : List UInt8) (req : ArtifactPushRequest) : Decidable (req.Carries art) :=
  inferInstanceAs (Decidable (∀ k < req.chunk.length, ∀ b ∈ _, _))

/-- A push to `d` carries the bytes of the artifact. -/
def Call.trueTo (art : List UInt8) (d : String) : Call → Bool
  | .push req => req.header.deployId != d || decide (req.Carries art)
  | _ => true

/-- Every push to `d` that was ever made carries the bytes of the artifact. -/
def PushesTrue (art : List UInt8) (d : String) (w : World) : Prop :=
  ∀ t ∈ w.tasks, t.call.trueTo art d = true

instance (art : List UInt8) (d : String) (w : World) : Decidable (PushesTrue art d w) :=
  inferInstanceAs (Decidable (∀ t ∈ w.tasks, _))

theorem PushesTrue.carries {art : List UInt8} (h : PushesTrue art d w) {t : Task} (ht : t ∈ w.tasks)
    {req : ArtifactPushRequest} (hcall : t.call = .push req) (hd : req.header.deployId = d) :
    req.Carries art := by
  have htrue := h t ht
  simpa [hcall, Call.trueTo, hd] using htrue

/-- No push to `d` and no commit of it is between its sections. -/
def AtRest (w : World) (d : String) : Prop :=
  ∀ t ∈ w.tasks, t.writes d = false ∧ t.digests d = false

instance (w : World) (d : String) : Decidable (AtRest w d) :=
  inferInstanceAs (Decidable (∀ t ∈ w.tasks, _ ∧ _))

/-- The call is a push of the chunk to `d` that was acknowledged. -/
def Task.acks (d : String) (c : ByteRange) (t : Task) : Bool :=
  match t.call, t.pc.answer? with
  | .push req, some (.ok (.pushed _)) =>
    req.header.deployId == d && req.header.offset == c.offset && req.header.length == c.length
  | _, _ => false

/-- The chunk was pushed to `d` and acknowledged. -/
def ChunkAcked (w : World) (d : String) (c : ByteRange) : Prop :=
  ∃ t ∈ w.tasks, t.acks d c = true

instance (w : World) (d : String) (c : ByteRange) : Decidable (ChunkAcked w d c) :=
  inferInstanceAs (Decidable (∃ t ∈ w.tasks, _))

section True

variable {art : List UInt8} {d : String} {s : UploadSession}

/-- Every covered byte is on disk with its true value. -/
theorem UploadInv.covered_true (h : UploadInv cfg w) (hs : w.store.sessions[d]? = some s)
    (hsize : s.artifactSize = art.length) (htrue : PushesTrue art d w) {x : Nat}
    (hx : Covered s.receivedRanges x) :
    x < art.length ∧ storedByte w.fs s.filePath x = art[x]? := by
  obtain ⟨r, hr, hrx⟩ := hx
  have hlt : x < art.length := by
    have hin := (h.ranges.session d s hs).2.inside r hr
    have := hrx.2
    omega
  have hok := h.store.file.session d s hs
  obtain ⟨hdl, hl, hlen⟩ := hok.file
  have hcell : (w.fs.file hdl)[x]? = some ((w.fs.file hdl)[x]) :=
    List.getElem?_eq_getElem (by omega)
  obtain ⟨j, t, req, -, ht, hcall, hd, -, hle, hbyte⟩ := hok.covered hdl x _ hl ⟨r, hr, hrx⟩ hcell
  -- the push that wrote the cell carries the byte of the artifact there
  have hmem := List.mem_of_getElem? ht
  have hk : x - req.header.offset < req.chunk.length := (List.getElem?_eq_some_iff.mp hbyte).1
  have hpos : req.header.offset + (x - req.header.offset) = x := by omega
  have htrue' := htrue.carries hmem hcall hd _ hk art[x]
    (by rw [hpos]; exact List.getElem?_eq_getElem hlt)
  refine ⟨hlt, ?_⟩
  rw [storedByte_eq hl, hcell, Option.map_some, ← hbyte, htrue', List.getElem?_eq_getElem hlt]

/-- A file holds the artifact if it holds it byte by byte. -/
theorem map_byte_eq_iff {fs : FileStore Cell} {path : String} {hdl : Nat}
    (hl : fs.lookup path = some hdl) (hlen : (fs.file hdl).length = art.length) :
    (fs.file hdl).map Cell.byte = art ↔ ∀ x < art.length, storedByte fs path x = art[x]? := by
  constructor
  · intro h x _
    rw [storedByte_eq hl, ← List.getElem?_map, h]
  · intro h
    refine List.ext_getElem? fun x => ?_
    rw [List.getElem?_map]
    rcases Nat.lt_or_ge x art.length with hx | hx
    · rw [← storedByte_eq hl, h x hx]
    · rw [List.getElem?_eq_none (by omega), List.getElem?_eq_none hx, Option.map_none]

/-- A session that covers the whole artifact holds the artifact. -/
theorem UploadInv.contents_true (h : UploadInv cfg w) (hs : w.store.sessions[d]? = some s)
    (hsize : s.artifactSize = art.length) (htrue : PushesTrue art d w)
    (hall : ∀ x, x < art.length → Covered s.receivedRanges x) :
    ∃ cells, w.fs.contents s.filePath = some cells ∧ cells.map Cell.byte = art := by
  obtain ⟨hdl, hl, hlen⟩ := (h.store.file.session d s hs).file
  refine ⟨w.fs.file hdl, FileStore.contents_eq hl, (map_byte_eq_iff hl (hlen.trans hsize)).mpr ?_⟩
  exact fun x hx => (h.covered_true hs hsize htrue (hall x hx)).2

/-- The bytes of an acknowledged chunk are covered. -/
theorem UploadInv.covered_of_acked (h : UploadInv cfg w) {c : ByteRange} (hack : ChunkAcked w d c)
    (hs : w.store.sessions[d]? = some s) {x : Nat} (hx : c.Contains x) :
    Covered s.receivedRanges x := by
  obtain ⟨t, ht, hacks⟩ := hack
  obtain ⟨j, hj⟩ := List.getElem?_of_mem ht
  unfold Task.acks at hacks
  split at hacks
  · rename_i req ack hcall hanswer
    simp only [Bool.and_eq_true, beq_iff_eq] at hacks
    obtain ⟨⟨rfl, hoff⟩, hlen⟩ := hacks
    refine (h.acks j t req ack hj hcall hanswer).2 s hs x ⟨hoff ▸ hx.1, ?_⟩
    have := hx.2
    omega
  · cases hacks

/-- Sessions that no call works on have idle counters. -/
theorem CountInv.idle (h : CountInv w) (hs : w.store.sessions[d]? = some s) (hrest : AtRest w d) :
    s.Idle := by
  refine ⟨?_, ?_⟩
  · rw [h.inflight d s hs, List.countP_eq_zero]
    intro t ht hwrites
    exact absurd ((hrest t ht).1.symm.trans hwrites) (by decide)
  · have hcount := h.commit d s hs
    have hzero : w.tasks.countP (Task.digests d) = 0 := by
      rw [List.countP_eq_zero]
      intro t ht hdigests
      exact absurd ((hrest t ht).2.symm.trans hdigests) (by decide)
    rw [hzero] at hcount
    rcases hmark : s.commitInProgress with - | -
    · rfl
    · rw [hmark] at hcount
      cases hcount

end True

/-- Two chunks without a byte in common. -/
def ByteRange.Disjoint (a b : ByteRange) : Prop := ∀ x, ¬(a.Contains x ∧ b.Contains x)

/-- **Interrupted uploads can be resumed.**  In every state reached by any
interleaving of calls whose pushes to the session carry the artifact's bytes,
each covered byte is on disk with its true value.  The plan that a client
derives from the response of `prepare` exists for every positive chunk size
and consists of disjoint non-empty chunks that cover exactly the missing
bytes; and as soon as all of them are acknowledged and no call works on the
session, a commit that runs alone returns, with `verified = true`. -/
theorem upload_resumes (cfg : StoreConfig) (hmax : cfg.maxArtifactSizeBytes ≤ u64Max)
    (art : List UInt8) (w : World) (hw : Reachable cfg w) (d : String) (s : UploadSession)
    (hs : w.store.sessions[d]? = some s) (hsize : s.artifactSize = art.length)
    (hdigest : s.artifactDigest = cfg.sha256Hex art) (htrue : PushesTrue art d w) :
    (∀ x, Covered s.receivedRanges x →
      x < art.length ∧ storedByte w.fs s.filePath x = art[x]?) ∧
    ∀ now chunkSize, 0 < chunkSize → ∃ plan,
      uploadPlan (buildPrepareResponse (s.touch now) cfg.uploadSessionTtlSecs now) s.artifactSize
        chunkSize = .ok plan ∧
      (∀ c ∈ plan, 0 < c.length ∧ c.length ≤ chunkSize) ∧ plan.Pairwise ByteRange.Disjoint ∧
      (∀ x, Covered plan x ↔ x < art.length ∧ ¬Covered s.receivedRanges x) ∧
      ∀ w' s', Reaches (step cfg) w w' → w'.store.sessions[d]? = some s' → PushesTrue art d w' →
        (∀ c ∈ plan, ChunkAcked w' d c) → AtRest w' d → ∀ commitNow later,
        (collectSessionCleanup cfg w'.pinned w'.store commitNow none).1.sessions[d]? = some s' →
        (∃ w'', Served cfg w' (.commit ⟨d, s.artifactDigest, s.artifactSize, s.manifestDigest⟩)
          commitNow later w'' (.ok (.committed ⟨s.artifactDigest, true⟩))) ∧
        ∀ w'' answer, Served cfg w'
          (.commit ⟨d, s.artifactDigest, s.artifactSize, s.manifestDigest⟩) commitNow later w''
            answer → answer = .ok (.committed ⟨s.artifactDigest, true⟩) := by
  have hinv := hw.uploadInv hmax
  refine ⟨fun x hx => hinv.covered_true hs hsize htrue hx, fun now chunkSize hchunk => ?_⟩
  obtain ⟨hsizeOk, hmerged⟩ := hinv.ranges.session d s hs
  obtain ⟨plan, hplan, hpieces, hsmall, hcov⟩ := uploadPlan_spec (s := s.touch now) hsizeOk.1
    (Nat.le_trans hsizeOk.2 hmax) hmerged
    (fun hc => (hinv.store.file.session d s hs).complete (Or.inr hc))
    cfg.uploadSessionTtlSecs now hchunk
  refine ⟨plan, hplan, fun c hc => ⟨hpieces.pos c hc, hsmall c hc⟩, ?_, ?_, ?_⟩
  · refine hpieces.ordered.imp fun {a b} hab x => ?_
    rintro ⟨ha, hb⟩
    have := ha.2
    have := hb.1
    omega
  · intro x
    rw [hcov, ← hsize]
    rfl
  · intro w' s' hr hs' htrue' hacked hrest commitNow later hlive
    have hw' : Reachable cfg w' := by
      obtain ⟨fs, h₀⟩ := hw
      exact ⟨fs, h₀.trans hr⟩
    have hinv' := hw'.uploadInv hmax
    -- the session is the one that was planned for
    have hremains : Remains w' d s :=
      hinv.reaches hmax (Q := fun w => Remains w d s) (fun _ _ _ h hm => h.micro hm)
        (Remains.of_session hinv.store hs) hr
    have hsame : s'.identity = s.identity := hremains.2 s' hs'
    obtain ⟨-, -, hd', hsize', -, -⟩ := UploadSession.fields_of_identity hsame
    -- a byte that was covered is covered, and the others are in acknowledged chunks
    have hrecords : Records w' d (Covered s.receivedRanges) := by
      refine hinv.reaches hmax (Q := fun w => Records w d (Covered s.receivedRanges))
        (fun _ _ hw h hm => h.micro hmax hw.store hw.ranges hm) ?_ hr
      refine ⟨hinv.store.id.issued d s hs, fun s₀ hs₀ x hx => ?_⟩
      obtain rfl := Option.mem_unique hs hs₀
      exact hx
    have hall : ∀ x, x < art.length → Covered s'.receivedRanges x := by
      intro x hx
      by_cases hold : Covered s.receivedRanges x
      · exact hrecords.2 s' hs' x hold
      · obtain ⟨c, hc, hcx⟩ := (hcov x).mpr ⟨hsize ▸ hx, hold⟩
        exact hinv'.covered_of_acked (hacked c hc) hs' hcx
    obtain ⟨cells, hcells, hbytes⟩ :=
      hinv'.contents_true hs' (hsize'.trans hsize) htrue' hall
    have hcomplete : isComplete s'.receivedRanges s'.artifactSize = true := by
      refine (hinv'.ranges.session d s' hs').2.isComplete (hinv'.ranges.session d s' hs').1.1 ?_
      intro x hx
      exact hall x (by omega)
    have hmanifest : s'.manifestDigest = s.manifestDigest :=
      (UploadSession.mk.inj hsame).2.2.2.2.2.2.1
    have hguard : commitGuard ⟨d, s.artifactDigest, s.artifactSize, s.manifestDigest⟩ s' = .ok () :=
      commitGuard_eq_ok.mpr ⟨⟨hd'.symm, hsize'.symm, hmanifest.symm⟩,
        hinv'.store.count.idle hs' hrest, hcomplete⟩
    have hanswer : commitAnswer cfg s' (cells.map Cell.byte)
        = .ok (.committed ⟨s.artifactDigest, true⟩) := by
      rw [commitAnswer, hbytes, hd', if_pos hdigest.symm]
    rcases hclean : collectSessionCleanup cfg w'.pinned w'.store commitNow none with ⟨st₁, removed⟩
    rw [hclean] at hlive
    rw [← hanswer]
    exact commit_served hclean hlive hguard hcells hw'

/-- An upload of four bytes: the first two are pushed, and the write of a
second push that overlaps them fails midway. -/
def sampleInterrupted : List Action :=
  samplePrepared ++
    [.call (.push ⟨⟨"d-1", 0, 2, "sha256-2", "k-1"⟩, [1, 2]⟩) 102, .enter 1 "d-2" "k-2",
      .io 1 (.openFile none), .write 1 2, .io 1 (.endWrite none), .reenter 1 102,
      .io 1 (.remove true),
      .call (.push ⟨⟨"d-1", 1, 2, "sha256-2", "k-1"⟩, [2, 3]⟩) 103, .enter 2 "d-3" "k-3",
      .io 2 (.openFile none), .write 2 1, .io 2 (.endWrite (some "disk full")), .reenter 2 103]

/-- The client comes back and pushes what is missing. -/
def sampleResumed : List Action :=
  [.call (.push ⟨⟨"d-1", 2, 2, "sha256-2", "k-1"⟩, [3, 4]⟩) 104, .enter 3 "d-4" "k-4",
    .io 3 (.openFile none), .write 3 2, .io 3 (.endWrite none), .reenter 3 104,
    .io 3 (.remove true)]

/-- The interrupted upload is resumed and committed. -/
theorem upload_resumes_after_failure :
    ∃ w w' s, run (step sampleConfig) (World.init FileStore.empty) sampleInterrupted = some w ∧
      w.store.sessions["d-1"]? = some s ∧ s.receivedRanges = [⟨0, 2⟩] ∧
      uploadPlan (buildPrepareResponse (s.touch 104) 900 104) 4 64 = .ok [⟨2, 2⟩] ∧
      run (step sampleConfig) w sampleResumed = some w' ∧
      ∃ w'', Served sampleConfig w' (.commit ⟨"d-1", "sha256-4", 4, "sha256-2"⟩) 105 105 w''
        (.ok (.committed ⟨"sha256-4", true⟩)) := by
  have hrun :
      ((run (step sampleConfig) (World.init FileStore.empty) sampleInterrupted).bind fun w =>
      (run (step sampleConfig) w sampleResumed).bind fun w' =>
      w.store.sessions["d-1"]?.bind fun s => w'.store.sessions["d-1"]?.map fun s' =>
        decide ((s.artifactSize = 4 ∧ s.artifactDigest = "sha256-4" ∧
            s.manifestDigest = "sha256-2" ∧ s.receivedRanges = [⟨0, 2⟩]) ∧
          PushesTrue [1, 2, 3, 4] "d-1" w ∧ PushesTrue [1, 2, 3, 4] "d-1" w' ∧
          ChunkAcked w' "d-1" ⟨2, 2⟩ ∧ AtRest w' "d-1" ∧
          (collectSessionCleanup sampleConfig w'.pinned w'.store 105 none).1.sessions["d-1"]?
            = some s' ∧
          uploadPlan (buildPrepareResponse (s.touch 104) 900 104) 4 64 = .ok [⟨2, 2⟩])) =
            some true := by
    decide +kernel
  simp only [Option.bind_eq_some_iff, Option.map_eq_some_iff, decide_eq_true_eq] at hrun
  obtain ⟨w, hw, w', hw', s, hs, s', hs', ⟨hsize, hdigest, hmanifest, hranges⟩, htrue, htrue',
    hacked, hrest, hlive, hplan⟩ := hrun
  obtain ⟨-, hresume⟩ := upload_resumes sampleConfig (by decide) [1, 2, 3, 4] w ⟨_, _, hw⟩ "d-1" s
    hs hsize (by rw [hdigest]; rfl) htrue
  obtain ⟨plan, hok, -, -, -, hcommit⟩ := hresume 104 64 (by decide)
  rw [hsize] at hok
  obtain rfl : plan = [⟨2, 2⟩] := Except.ok.inj (hok.symm.trans hplan)
  have hserved := hcommit w' s' ⟨_, hw'⟩ hs' htrue' (by simpa using hacked) hrest 105 105 hlive
  rw [hdigest, hsize, hmanifest] at hserved
  exact ⟨w, w', s, hw, hs, hranges, hplan, hw', hserved.1⟩

end Imago
