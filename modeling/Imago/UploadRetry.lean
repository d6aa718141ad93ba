/-
Imago/UploadRetry.lean

The upload phase of the client (`run_upload_phase_once`), run alone against a
store that an earlier upload left in any reachable state: `deploy.prepare`,
the pushes of the plan one after the other, `artifact.commit`.

What the phase pushes is what the session does not cover, so a byte that an
earlier push got wrong is neither pushed again nor forgotten: the commit
fails on it, and so does every later attempt while each of them keeps the
session alive.  `upload_redone_iff` says exactly when the phase ends with
`verified = true`.
-/
import Imago.UploadResume

namespace Imago

variable {cfg : StoreConfig} {req : DeployPrepareRequest} {art : List UInt8} {chunkSize : Nat}
  {resp : DeployPrepareResponse} {w w' w₁ w₂ : World} {s s' s₁ s₂ : UploadSession}
  {now last : Nat} {answer : Answer}

/-! ### The upload phase of the client -/

/-- What `ArtifactStore::new` makes of the limits, in the range of `u64`. -/
structure StoreConfig.Limited (cfg : StoreConfig) : Prop where
  uploadTtl : 0 < cfg.uploadSessionTtlSecs
  committedTtl : 0 < cfg.committedSessionTtlSecs
  inflight : 0 < cfg.maxInflightChunks
  size : cfg.maxArtifactSizeBytes ≤ u64Max

theorem limited_new (root : String) (uploadTtl committedTtl maxCommitted maxChunk maxInflight
    maxSize : Nat) (sha256Hex : List UInt8 → String) (hsize : maxSize ≤ u64Max) :
    (StoreConfig.new root uploadTtl committedTtl maxCommitted maxChunk maxInflight maxSize
      sha256Hex).Limited where
  uploadTtl := Nat.lt_of_lt_of_le Nat.one_pos (Nat.le_max_right ..)
  committedTtl := Nat.lt_of_lt_of_le Nat.one_pos (Nat.le_max_right ..)
  inflight := Nat.lt_of_lt_of_le Nat.one_pos (Nat.le_max_right ..)
  size := Nat.max_le.mpr ⟨hsize, by decide⟩

/-- `push_single_artifact_chunk`: the bytes of the artifact at a chunk of the
plan, with their hash. -/
def chunkRequest (cfg : StoreConfig) (resp : DeployPrepareResponse) (art : List UInt8)
    (c : ByteRange) : ArtifactPushRequest :=
  let chunk := (art.drop c.offset).take c.length
  ⟨⟨resp.deployId, c.offset, chunk.length, cfg.sha256Hex chunk, resp.uploadToken⟩, chunk⟩

/-- The commit at the end of the phase. -/
def phaseCommit (req : DeployPrepareRequest) (resp : DeployPrepareResponse) :
    ArtifactCommitRequest :=
  ⟨resp.deployId, req.artifactDigest, req.artifactSize, req.manifestDigest⟩

/-- The next call comes before the session of the last one times out. -/
def Soon (cfg : StoreConfig) (last now : Nat) : Prop :=
  now - last < cfg.uploadSessionTtlSecs ∧ now - last < cfg.committedSessionTtlSecs

/-- `push_artifact_ranges`: the chunks are pushed one after the other
(`max_inflight_chunks` is one), each by a call that runs alone.  The result is
the state after the last of them and the time of that call, or `none` if one
is refused. -/
inductive PushRun (cfg : StoreConfig) (art : List UInt8) (resp : DeployPrepareResponse) :
    World → Nat → List ByteRange → Option (World × Nat) → Prop
  | done (w : World) (last : Nat) : PushRun cfg art resp w last [] (some (w, last))
  | acked {w w' : World} {last now later : Nat} {c : ByteRange} {cs : List ByteRange}
      {ack : ArtifactPushAck} {r : Option (World × Nat)} (hsoon : Soon cfg last now)
      (h : Served cfg w (.push (chunkRequest cfg resp art c)) now later w' (.ok (.pushed ack)))
      (hrest : PushRun cfg art resp w' now cs r) : PushRun cfg art resp w last (c :: cs) r
  | refused {w w' : World} {last now later : Nat} {c : ByteRange} {cs : List ByteRange}
      {answer : Answer} (hsoon : Soon cfg last now)
      (h : Served cfg w (.push (chunkRequest cfg resp art c)) now later w' answer)
      (hrefused : ∀ ack, answer ≠ .ok (.pushed ack)) : PushRun cfg art resp w last (c :: cs) none

/-- `commit_response.verified`, and the errors on the way to it. -/
def verifiedIn : Answer → Bool
  | .ok (.committed response) => response.verified
  | _ => false

/-- The phase from the response of `deploy.prepare` on, which was asked for at
`now`.  The result says whether it ends with `verified = true`. -/
inductive UploadTail (cfg : StoreConfig) (req : DeployPrepareRequest) (art : List UInt8)
    (chunkSize : Nat) (resp : DeployPrepareResponse) (w : World) (now : Nat) : Bool → Prop
  | planRefused {e : String} (hplan : uploadPlan resp req.artifactSize chunkSize = .error e) :
      UploadTail cfg req art chunkSize resp w now false
  | pushRefused {plan : List ByteRange}
      (hplan : uploadPlan resp req.artifactSize chunkSize = .ok plan)
      (hpush : PushRun cfg art resp w now plan none) :
      UploadTail cfg req art chunkSize resp w now false
  | commit {plan : List ByteRange} {w₂ w₃ : World} {last commitNow later : Nat} {answer : Answer}
      (hplan : uploadPlan resp req.artifactSize chunkSize = .ok plan)
      (hpush : PushRun cfg art resp w now plan (some (w₂, last)))
      (hsoon : Soon cfg last commitNow)
      (h : Served cfg w₂ (.commit (phaseCommit req resp)) commitNow later w₃ answer) :
      UploadTail cfg req art chunkSize resp w now (verifiedIn answer)

/-- `run_upload_phase_once`. -/
inductive UploadRun (cfg : StoreConfig) (req : DeployPrepareRequest) (art : List UInt8)
    (chunkSize : Nat) (w : World) (now : Nat) : Bool → Prop
  | prepareRefused {later : Nat} {w₁ : World} {e : ImagodError} (hclock : now ≤ later)
      (h : Served cfg w (.prepare req) now later w₁ (.error e)) :
      UploadRun cfg req art chunkSize w now false
  | prepared {later : Nat} {w₁ : World} {resp : DeployPrepareResponse} {r : Bool}
      (hclock : now ≤ later) (h : Served cfg w (.prepare req) now later w₁ (.ok (.prepared resp)))
      (htail : UploadTail cfg req art chunkSize resp w₁ now r) :
      UploadRun cfg req art chunkSize w now r

/-- The phase ends, and however it goes it ends with `verified = true`. -/
def Redone (cfg : StoreConfig) (req : DeployPrepareRequest) (art : List UInt8) (chunkSize : Nat)
    (w : World) (now : Nat) : Prop :=
  (∃ r, UploadRun cfg req art chunkSize w now r) ∧
    ∀ r, UploadRun cfg req art chunkSize w now r → r = true

/-! ### The pushes -/

/-- The session of the response, not committed and last used at `last` or
after it. -/
structure Live (cfg : StoreConfig) (resp : DeployPrepareResponse) (art : List UInt8) (w : World)
    (last : Nat) (s : UploadSession) : Prop where
  reach : Reachable cfg w
  session : w.store.sessions[resp.deployId]? = some s
  token : s.uploadToken = resp.uploadToken
  size : s.artifactSize = art.length
  opened : s.committed = false
  used : last ≤ s.updatedAtEpochSecs

/-- The session outlives the cleanup at the head of the next call. -/
def Outlives (cfg : StoreConfig) (w : World) (d : String) (s : UploadSession) (now : Nat) : Prop :=
  (collectSessionCleanup cfg w.pinned w.store now none).1.sessions[d]? = some s

theorem Live.outlives (h : Live cfg resp art w last s) (hsoon : Soon cfg last now) :
    Outlives cfg w resp.deployId s now := by
  refine sessions_collectSessionCleanup.mpr ⟨h.session, ?_⟩
  rintro (⟨-, -, hage⟩ | ⟨⟨hc, -⟩, -⟩ | ⟨⟨⟨hc, -⟩, -⟩, -⟩)
  · have := h.used
    have := hsoon.1
    omega
  · exact absurd (h.opened.symm.trans hc) (by decide)
  · exact absurd (h.opened.symm.trans hc) (by decide)

theorem covered_single {c : ByteRange} {x : Nat} : Covered [c] x ↔ c.Contains x := by
  rw [covered_cons, or_iff_left]
  rintro ⟨r, hr, -⟩
  cases hr

/-- From `s` in `w` to `s'` in `w'` the chunks were pushed, and nothing else
has changed. -/
structure Pushed (art : List UInt8) (w w' : World) (s s' : UploadSession) (cs : List ByteRange) :
    Prop where
  same : s'.identity = s.identity
  idle : s'.Idle ↔ s.Idle
  covered : ∀ x, Covered s'.receivedRanges x ↔ Covered s.receivedRanges x ∨ Covered cs x
  fresh : ∀ x, Covered cs x → storedByte w'.fs s.filePath x = art[x]?
  kept : ∀ x, ¬Covered cs x → storedByte w'.fs s.filePath x = storedByte w.fs s.filePath x

theorem Pushed.refl (art : List UInt8) (w : World) (s : UploadSession) : Pushed art w w s s [] where
  same := rfl
  idle := Iff.rfl
  covered := fun x => ⟨Or.inl, fun h => h.elim id fun ⟨c, hc, _⟩ => (by cases hc)⟩
  fresh := fun x ⟨c, hc, _⟩ => (by cases hc)
  kept := fun _ _ => rfl

theorem Pushed.trans {c : ByteRange} {cs : List ByteRange} (h₁ : Pushed art w w₁ s s₁ [c])
    (h₂ : Pushed art w₁ w₂ s₁ s₂ cs) : Pushed art w w₂ s s₂ (c :: cs) := by
  have hpath : s₁.filePath = s.filePath := (UploadSession.fields_of_identity h₁.same).2.2.2.2.2
  have hcons : ∀ x, Covered (c :: cs) x ↔ Covered [c] x ∨ Covered cs x :=
    fun x => by rw [covered_cons, covered_single]
  have hfresh := h₂.fresh
  have hkept := h₂.kept
  rw [hpath] at hfresh hkept
  refine ⟨h₂.same.trans h₁.same, h₂.idle.trans h₁.idle, fun x => ?_, fun x hx => ?_, fun x hx => ?_⟩
  · rw [h₂.covered, h₁.covered, hcons, or_assoc]
  · by_cases hcs : Covered cs x
    · exact hfresh x hcs
    · rw [hkept x hcs]
      exact h₁.fresh x (((hcons x).mp hx).resolve_right hcs)
  · rw [hcons, not_or] at hx
    rw [hkept x hx.2, h₁.kept x hx.1]

/-- The chunk lies in the artifact and the store takes chunks of its length. -/
def ByteRange.Fits (cfg : StoreConfig) (art : List UInt8) (c : ByteRange) : Prop :=
  c.offset + c.length ≤ art.length ∧ c.length ≤ cfg.maxChunkSize

section Push

variable {c : ByteRange}

theorem length_chunkRequest (resp : DeployPrepareResponse) (hc : c.Fits cfg art) :
    (chunkRequest cfg resp art c).header.length = c.length := by
  have := hc.1
  simp only [chunkRequest, List.length_take, List.length_drop]
  omega

theorem pushCheck_chunkRequest (resp : DeployPrepareResponse) (hlim : cfg.Limited)
    (hart : art.length ≤ cfg.maxArtifactSizeBytes) (hc : c.Fits cfg art) :
    pushCheck cfg (chunkRequest cfg resp art c) = .ok (c.length + c.offset) := by
  have hlen := length_chunkRequest resp hc
  have hsum : c.length + c.offset ≤ u64Max := by
    have := hc.1
    have := hlim.size
    omega
  have hadd : checkedAdd (chunkRequest cfg resp art c).header.length c.offset
      = some (c.length + c.offset) := by rw [hlen, checkedAdd, if_pos hsum]
  have hsame : (chunkRequest cfg resp art c).chunk.length
      = (chunkRequest cfg resp art c).header.length := rfl
  have hhash : cfg.sha256Hex (chunkRequest cfg resp art c).chunk
      = (chunkRequest cfg resp art c).header.chunkSha256 := rfl
  have hoff : (chunkRequest cfg resp art c).header.offset = c.offset := rfl
  rw [pushCheck, if_neg (by rw [hlen]; exact Nat.not_lt.mpr hc.2), if_neg (not_not.mpr hsame),
    if_neg (not_not.mpr hhash), hoff, hadd]

variable (hlim : cfg.Limited) (hl : Live cfg resp art w last s) (hc : c.Fits cfg art)
  (hsoon : Soon cfg last now)

include hl in
theorem Live.art_le (hlim : cfg.Limited) : art.length ≤ cfg.maxArtifactSizeBytes := by
  rw [← hl.size]
  exact ((hl.reach.uploadInv hlim.size).ranges.session _ s hl.session).1.2

include hl hc in
/-- The guard of a push in the phase looks at the counters only. -/
theorem pushGuard_chunkRequest :
    pushGuard cfg (chunkRequest cfg resp art c).header (c.length + c.offset) s = .ok () ↔
      s.commitInProgress = false ∧ s.inflightWrites < cfg.maxInflightChunks := by
  rw [pushGuard_eq_ok]
  have := hc.1
  have := hl.size
  refine ⟨fun h => ⟨h.2.1, h.2.2.2.2⟩, fun h => ⟨hl.token, h.1, hl.opened, by omega, h.2⟩⟩

include hlim hl hc hsoon

/-- **One push of the phase.**  If it is acknowledged, its chunk is recorded
and on disk. -/
theorem Live.push {later : Nat} {ack : ArtifactPushAck}
    (h : Served cfg w (.push (chunkRequest cfg resp art c)) now later w' (.ok (.pushed ack))) :
    ∃ s', Live cfg resp art w' now s' ∧ Pushed art w w' s s' [c] := by
  rcases hclean : collectSessionCleanup cfg w.pinned w.store now none with ⟨st₁, plan⟩
  have hs : st₁.sessions[resp.deployId]? = some s := by
    have := hl.outlives hsoon
    rwa [Outlives, hclean] at this
  have hcheck := pushCheck_chunkRequest resp hlim (hl.art_le hlim) hc
  have hlen := length_chunkRequest resp hc
  by_cases hguard : pushGuard cfg (chunkRequest cfg resp art c).header (c.length + c.offset) s
      = .ok ()
  · obtain ⟨-, hw', hs', hspliced⟩ := (push_served hclean hcheck hs hguard hl.reach).2 _ _ h
    refine ⟨_, ⟨hw', hs', hl.token, hl.size, hl.opened, Nat.le_refl now⟩, rfl, ?_, ?_, ?_, ?_⟩
    · -- the counter goes up and down again
      show (s.inflightWrites + 1 - 1 = 0 ∧ s.commitInProgress = false) ↔ _
      rw [Nat.add_sub_cancel]
      exact Iff.rfl
    · intro x
      obtain ⟨hsize, hmerged⟩ := (hl.reach.uploadInv hlim.size).ranges.session _ s hl.session
      have hin : (rangeFromStartEnd c.offset (c.length + c.offset)).offset +
          (rangeFromStartEnd c.offset (c.length + c.offset)).length ≤ s.artifactSize := by
        have := hc.1
        have := hl.size
        simp only [rangeFromStartEnd]
        omega
      have hcov := (hmerged.mergeRange hin (Nat.le_trans hsize.2 hlim.size)).2 x
      rw [contains_rangeFromStartEnd] at hcov
      show Covered (mergeRange s.receivedRanges (rangeFromStartEnd c.offset
        ((chunkRequest cfg resp art c).header.length + c.offset))) x ↔ _
      rw [hlen, hcov, covered_single]
      refine or_congr_right ⟨fun h => ⟨h.1, ?_⟩, fun h => ⟨h.1, ?_⟩⟩
      · have := h.2
        omega
      · have := h.2
        omega
    · intro x hx
      obtain ⟨hlo, hhi⟩ := covered_single.mp hx
      rw [hspliced x, if_pos ⟨hlo, by rw [hlen]; exact Nat.add_comm c.length c.offset ▸ hhi⟩]
      show ((art.drop c.offset).take c.length)[x - c.offset]? = _
      rw [List.getElem?_take, if_pos (by omega), List.getElem?_drop, Nat.add_sub_cancel' hlo]
    · intro x hx
      rw [hspliced x, if_neg]
      rintro ⟨hlo, hhi⟩
      rw [hlen] at hhi
      exact hx (covered_single.mpr ⟨hlo, Nat.add_comm c.length c.offset ▸ hhi⟩)
  · -- a push that fails its guard is not acknowledged
    obtain ⟨e, he⟩ := push_refused hclean hcheck
      (fun s₀ hs₀ => Option.mem_unique hs hs₀ ▸ hguard) hl.reach h
    cases he

/-- An idle session takes the push. -/
theorem Live.push_served (hidle : s.Idle) (later : Nat) :
    (∃ w' answer, Served cfg w (.push (chunkRequest cfg resp art c)) now later w' answer) ∧
      ∀ w' answer, Served cfg w (.push (chunkRequest cfg resp art c)) now later w' answer →
        ∃ ack, answer = .ok (.pushed ack) := by
  rcases hclean : collectSessionCleanup cfg w.pinned w.store now none with ⟨st₁, plan⟩
  have hs : st₁.sessions[resp.deployId]? = some s := by
    have := hl.outlives hsoon
    rwa [Outlives, hclean] at this
  have hguard := (pushGuard_chunkRequest hl hc).mpr ⟨hidle.2, hidle.1 ▸ hlim.inflight⟩
  have hcheck := pushCheck_chunkRequest resp hlim (hl.art_le hlim) hc
  refine ⟨(Imago.push_served hclean hcheck hs hguard hl.reach).1, fun w' answer h => ?_⟩
  exact ((Imago.push_served hclean hcheck hs hguard hl.reach).2 w' answer h).1

end Push

section PushRun

variable {cs : List ByteRange} {r : Option (World × Nat)} (hlim : cfg.Limited)

include hlim

section

variable (h : PushRun cfg art resp w last cs r) (hfits : ∀ c ∈ cs, c.Fits cfg art)
  (hl : Live cfg resp art w last s)

include h hfits hl

/-- All pushes of the phase: by induction on the run, one push at a time. -/
theorem PushRun.pushed (hr : r = some (w', now)) :
    ∃ s', Live cfg resp art w' now s' ∧ Pushed art w w' s s' cs := by
  induction h generalizing s with
  | done w last =>
    cases hr
    exact ⟨s, hl, Pushed.refl art _ s⟩
  | acked hsoon h hrest ih =>
    obtain ⟨hc, hcs⟩ := List.forall_mem_cons.mp hfits
    obtain ⟨s₁, hl₁, hpushed₁⟩ := hl.push hlim hc hsoon h
    obtain ⟨s', hl', hpushed'⟩ := ih hcs hl₁ hr
    exact ⟨s', hl', hpushed₁.trans hpushed'⟩
  | refused => cases hr

/-- No push to an idle session is refused. -/
theorem PushRun.ne_none (hidle : s.Idle) : r ≠ none := by
  induction h generalizing s with
  | done => exact Option.some_ne_none _
  | acked hsoon h hrest ih =>
    obtain ⟨hc, hcs⟩ := List.forall_mem_cons.mp hfits
    obtain ⟨s₁, hl₁, hpushed₁⟩ := hl.push hlim hc hsoon h
    exact ih hcs hl₁ (hpushed₁.idle.mpr hidle)
  | refused hsoon h hrefused =>
    obtain ⟨hc, -⟩ := List.forall_mem_cons.mp hfits
    obtain ⟨ack, hack⟩ := (hl.push_served hlim hc hsoon hidle _).2 _ _ h
    exact absurd hack (hrefused ack)

end

/-- To an idle session all chunks can be pushed. -/
theorem exists_pushRun (hfits : ∀ c ∈ cs, c.Fits cfg art) (hl : Live cfg resp art w last s)
    (hidle : s.Idle) : ∃ r, PushRun cfg art resp w last cs r := by
  induction cs generalizing w last s with
  | nil => exact ⟨_, .done w last⟩
  | cons c cs ih =>
    obtain ⟨hc, hcs⟩ := List.forall_mem_cons.mp hfits
    have hsoon : Soon cfg last last := by
      rw [Soon, Nat.sub_self]
      exact ⟨hlim.uploadTtl, hlim.committedTtl⟩
    obtain ⟨⟨w', answer, h⟩, hall⟩ := hl.push_served hlim hc hsoon hidle last
    obtain ⟨ack, rfl⟩ := hall w' answer h
    obtain ⟨s', hl', hpushed⟩ := hl.push hlim hc hsoon h
    obtain ⟨r, hrun⟩ := ih hcs hl' (hpushed.idle.mpr hidle)
    exact ⟨r, .acked hsoon h hrun⟩

end PushRun

/-! ### The commit -/

section Commit

variable (hout : Outlives cfg w resp.deployId s now)
  (hreq : s.identity = (newSession cfg req 0 resp.deployId s.uploadToken).identity)
  (hsize : req.artifactSize = art.length) (hdigest : req.artifactDigest = cfg.sha256Hex art)
  (hlim : cfg.Limited) (hall : ∀ x < art.length, Covered s.receivedRanges x)
  (hw : Reachable cfg w)

/-- The metadata that the commit repeats. -/
theorem fields_of_request
    (hreq : s.identity = (newSession cfg req 0 resp.deployId s.uploadToken).identity) :
    s.artifactDigest = req.artifactDigest ∧ s.artifactSize = req.artifactSize ∧
      s.manifestDigest = req.manifestDigest := by
  simp only [UploadSession.identity, newSession, UploadSession.mk.injEq] at hreq
  obtain ⟨-, -, -, -, hd, hsz, hm, -⟩ := hreq
  exact ⟨hd, hsz, hm⟩

include hout hreq hsize hlim hall hw

theorem commitGuard_phaseCommit : commitGuard (phaseCommit req resp) s = .ok () ↔ s.Idle := by
  obtain ⟨hd, hsz, hm⟩ := fields_of_request hreq
  obtain ⟨hsizeOk, hmerged⟩ := (hw.uploadInv hlim.size).ranges.session _ s
    (sessions_collectSessionCleanup.mp hout).1
  have hcomplete : isComplete s.receivedRanges s.artifactSize = true :=
    hmerged.isComplete hsizeOk.1 fun x hx => hall x (by omega)
  rw [commitGuard_eq_ok]
  exact ⟨fun h => h.2.1, fun h => ⟨⟨hd.symm, hsz.symm, hm.symm⟩, h, hcomplete⟩⟩

include hdigest

/-- The commit of an idle session answers by the bytes on disk. -/
theorem commit_idle (hidle : s.Idle) (later : Nat) : ∃ answer,
    (∃ w', Served cfg w (.commit (phaseCommit req resp)) now later w' answer) ∧
    (∀ w' answer', Served cfg w (.commit (phaseCommit req resp)) now later w' answer' →
      answer' = answer) ∧
    ((∀ x < art.length, storedByte w.fs s.filePath x = art[x]?) → verifiedIn answer = true) ∧
    ((∀ bytes, cfg.sha256Hex bytes = cfg.sha256Hex art → bytes = art) → verifiedIn answer = true →
      ∀ x < art.length, storedByte w.fs s.filePath x = art[x]?) := by
  have hs := (sessions_collectSessionCleanup.mp hout).1
  obtain ⟨hd, hsz, -⟩ := fields_of_request hreq
  obtain ⟨hdl, hl, hlen⟩ := ((hw.uploadInv hlim.size).store.file.session _ s hs).file
  have hbytes := map_byte_eq_iff hl (hlen.trans (hsz.trans hsize))
  rcases hclean : collectSessionCleanup cfg w.pinned w.store now none with ⟨st₁, plan⟩
  have hs₁ : st₁.sessions[(phaseCommit req resp).deployId]? = some s := by
    rwa [Outlives, hclean] at hout
  have hguard := (commitGuard_phaseCommit hout hreq hsize hlim hall hw).mpr hidle
  have hcells := FileStore.contents_eq hl
  refine ⟨_, (commit_served hclean hs₁ hguard hcells hw).1,
    (commit_served hclean hs₁ hguard hcells hw).2, fun htrue => ?_, fun hinj hver => ?_⟩
  · rw [commitAnswer, hbytes.mpr htrue, hd, if_pos hdigest.symm]
    rfl
  · rw [commitAnswer, hd, hdigest] at hver
    split at hver
    · rename_i heq
      exact hbytes.mp (hinj _ heq)
    · cases hver

omit hdigest in
/-- The commit of a session that is not idle is refused. -/
theorem idle_of_verified {later : Nat}
    (h : Served cfg w (.commit (phaseCommit req resp)) now later w' answer)
    (hver : verifiedIn answer = true) : s.Idle := by
  by_contra hidle
  rcases hclean : collectSessionCleanup cfg w.pinned w.store now none with ⟨st₁, plan⟩
  have hs₁ : st₁.sessions[resp.deployId]? = some s := by
    have := hout
    rwa [Outlives, hclean] at this
  have hrefuse : ∀ s₀, st₁.sessions[(phaseCommit req resp).deployId]? = some s₀ →
      commitGuard (phaseCommit req resp) s₀ ≠ .ok () := by
    intro s₀ hs₀ hok
    obtain rfl := Option.mem_unique hs₁ hs₀
    exact hidle ((commitGuard_phaseCommit hout hreq hsize hlim hall hw).mp hok)
  obtain ⟨e, rfl⟩ := commit_refused hclean hrefuse hw h
  cases hver

end Commit

/-! ### The phase after `prepare` -/

/-- `prepare` has answered `resp` for session `s`, which was used at `now` or
after it and outlives the cleanup of the next call. -/
structure Prepared (cfg : StoreConfig) (req : DeployPrepareRequest) (resp : DeployPrepareResponse)
    (w : World) (now : Nat) (s : UploadSession) : Prop where
  reach : Reachable cfg w
  session : w.store.sessions[resp.deployId]? = some s
  request : s.identity = (newSession cfg req 0 resp.deployId s.uploadToken).identity
  response : ∃ t, resp = buildPrepareResponse s cfg.uploadSessionTtlSecs t
  used : now ≤ s.updatedAtEpochSecs
  outlives : ∀ next, Soon cfg now next → Outlives cfg w resp.deployId s next

section Tail

variable (hlim : cfg.Limited) (hsize : req.artifactSize = art.length)
  (hdigest : req.artifactDigest = cfg.sha256Hex art) (hpos : 0 < chunkSize)
  (hchunk : chunkSize ≤ cfg.maxChunkSize) (hp : Prepared cfg req resp w now s)

include hlim hsize hpos hchunk hp in
/-- The plan that the client derives from the response. -/
theorem Prepared.plan : ∃ plan, uploadPlan resp req.artifactSize chunkSize = .ok plan ∧
    (∀ c ∈ plan, c.Fits cfg art) ∧
    (∀ x, Covered plan x ↔ x < art.length ∧ ¬Covered s.receivedRanges x) ∧
    (s.committed = true → plan = []) := by
  have hinv := hp.reach.uploadInv hlim.size
  obtain ⟨hsizeOk, hmerged⟩ := hinv.ranges.session _ s hp.session
  have hcommitted : s.committed = true → isComplete s.receivedRanges s.artifactSize = true :=
    fun hc => (hinv.store.file.session _ s hp.session).complete (Or.inr hc)
  have hsz : s.artifactSize = art.length := (fields_of_request hp.request).2.1.trans hsize
  obtain ⟨t, ht⟩ := hp.response
  obtain ⟨plan, hplan, hpieces, hsmall, hcov⟩ := uploadPlan_spec hsizeOk.1
    (Nat.le_trans hsizeOk.2 hlim.size) hmerged hcommitted cfg.uploadSessionTtlSecs t hpos
  rw [← ht, hsz, ← hsize] at hplan
  rw [hsz] at hpieces hcov
  refine ⟨plan, hplan, fun c hc => ⟨(hpieces.bounds c hc).2, Nat.le_trans (hsmall c hc) hchunk⟩,
    hcov, fun hc => ?_⟩
  -- a chunk of the plan would cover a byte that is not missing
  rcases plan with - | ⟨c, cs⟩
  · rfl
  · have hcx : Covered (c :: cs) c.offset :=
      ⟨c, .head _, Nat.le_refl _, Nat.lt_add_of_pos_right (hpieces.pos c (.head _))⟩
    obtain ⟨hlt, hnot⟩ := (hcov c.offset).mp hcx
    exact absurd (covered_of_isComplete (hcommitted hc) (hsz ▸ hlt)) hnot

theorem Prepared.live (hp : Prepared cfg req resp w now s) (hsize : req.artifactSize = art.length)
    (hopen : s.committed = false) : Live cfg resp art w now s := by
  obtain ⟨t, ht⟩ := hp.response
  exact ⟨hp.reach, hp.session, by rw [ht]; rfl, (fields_of_request hp.request).2.1.trans hsize,
    hopen, hp.used⟩

include hlim hsize hp in
/-- The state after the pushes. -/
theorem Prepared.pushed {plan : List ByteRange} (hfits : ∀ c ∈ plan, c.Fits cfg art)
    (hnil : s.committed = true → plan = [])
    (h : PushRun cfg art resp w now plan (some (w', last))) :
    ∃ s', Reachable cfg w' ∧ Pushed art w w' s s' plan ∧
      s'.identity = (newSession cfg req 0 resp.deployId s'.uploadToken).identity ∧
      ∀ next, Soon cfg last next → Outlives cfg w' resp.deployId s' next := by
  rcases hc : s.committed with - | -
  · obtain ⟨s', hl, hpushed⟩ := h.pushed hlim hfits (hp.live hsize hc) rfl
    refine ⟨s', hl.reach, hpushed, ?_, fun next hsoon => hl.outlives hsoon⟩
    rw [(UploadSession.fields_of_identity hpushed.same).2.2.2.2.1]
    exact hpushed.same.trans hp.request
  · -- nothing is pushed to a committed session
    obtain rfl := hnil hc
    cases h
    exact ⟨s, hp.reach, Pushed.refl art w s, hp.request, hp.outlives⟩

/-- The bytes that the session covers are on disk with their true value. -/
def CoveredTrue (art : List UInt8) (w : World) (s : UploadSession) : Prop :=
  ∀ x, Covered s.receivedRanges x → storedByte w.fs s.filePath x = art[x]?

/-- After the pushes every byte is covered, and what was covered is as it was. -/
theorem Pushed.bytes {plan : List ByteRange} (h : Pushed art w w' s s' plan)
    (hcov : ∀ x, Covered plan x ↔ x < art.length ∧ ¬Covered s.receivedRanges x)
    (hin : ∀ x, Covered s.receivedRanges x → x < art.length) :
    (∀ x < art.length, Covered s'.receivedRanges x) ∧
      ((∀ x < art.length, storedByte w'.fs s'.filePath x = art[x]?) ↔
        CoveredTrue art w s) := by
  have hpath : s'.filePath = s.filePath := (UploadSession.fields_of_identity h.same).2.2.2.2.2
  rw [hpath]
  refine ⟨fun x hx => ?_, fun hall x hx => ?_, fun hold x hx => ?_⟩
  · rw [h.covered, hcov]
    by_cases hc : Covered s.receivedRanges x
    · exact .inl hc
    · exact .inr ⟨hx, hc⟩
  · rw [← h.kept x fun hc => ((hcov x).mp hc).2 hx]
    exact hall x (hin x hx)
  · by_cases hc : Covered plan x
    · exact h.fresh x hc
    · rw [h.kept x hc]
      refine hold x ?_
      by_contra hnot
      exact hc ((hcov x).mpr ⟨hx, hnot⟩)

include hlim hsize hp in
theorem Prepared.inside : ∀ x, Covered s.receivedRanges x → x < art.length := by
  rintro x ⟨r, hr, hx⟩
  have hsz : s.artifactSize = art.length := (fields_of_request hp.request).2.1.trans hsize
  have hin := ((hp.reach.uploadInv hlim.size).ranges.session _ s hp.session).2.inside r hr
  have := hx.2
  omega

include hlim hsize hdigest hpos hchunk hp

/-- **From an idle session** the phase ends, and if the bytes are right it ends
verified. -/
theorem Prepared.ends (hidle : s.Idle) : (∃ r, UploadTail cfg req art chunkSize resp w now r) ∧
    (CoveredTrue art w s → ∀ r, UploadTail cfg req art chunkSize resp w now r → r = true) := by
  obtain ⟨plan, hplan, hfits, hcov, hnil⟩ := hp.plan hlim hsize hpos hchunk
  -- how the commit goes after the pushes
  have hcommit : ∀ {w₂ : World} {last next : Nat} (later : Nat),
      PushRun cfg art resp w now plan (some (w₂, last)) → Soon cfg last next →
      ∃ answer, (∃ w₃, Served cfg w₂ (.commit (phaseCommit req resp)) next later w₃ answer) ∧
        (∀ w₃ answer', Served cfg w₂ (.commit (phaseCommit req resp)) next later w₃ answer' →
          answer' = answer) ∧ (CoveredTrue art w s → verifiedIn answer = true) := by
    intro w₂ last next later hpush hsoon
    obtain ⟨s₂, hw₂, hpushed, hreq, hout⟩ := hp.pushed hlim hsize hfits hnil hpush
    obtain ⟨hall, hbytes⟩ := hpushed.bytes hcov (hp.inside hlim hsize)
    obtain ⟨answer, hexists, hunique, hver, -⟩ := commit_idle (hout next hsoon) hreq hsize hdigest
      hlim hall hw₂ (hpushed.idle.mpr hidle) later
    exact ⟨answer, hexists, hunique, fun htrue => hver (hbytes.mpr htrue)⟩
  have hpushes : ∀ {r : Option (World × Nat)}, PushRun cfg art resp w now plan r → r ≠ none := by
    intro r hr
    rcases hc : s.committed with - | -
    · exact hr.ne_none hlim hfits (hp.live hsize hc) hidle
    · obtain rfl := hnil hc
      cases hr
      exact Option.some_ne_none _
  refine ⟨?_, fun htrue r hr => ?_⟩
  · have hrun : ∃ r, PushRun cfg art resp w now plan r := by
      rcases hc : s.committed with - | -
      · exact exists_pushRun hlim hfits (hp.live hsize hc) hidle
      · rw [hnil hc]
        exact ⟨_, .done w now⟩
    obtain ⟨r, hr⟩ := hrun
    obtain ⟨⟨w₂, last⟩, rfl⟩ := Option.ne_none_iff_exists'.mp (hpushes hr)
    have hsoon : Soon cfg last last := by
      rw [Soon, Nat.sub_self]
      exact ⟨hlim.uploadTtl, hlim.committedTtl⟩
    obtain ⟨answer, ⟨w₃, h⟩, -⟩ := hcommit last hr hsoon
    exact ⟨_, .commit hplan hr hsoon h⟩
  · cases hr with
    | planRefused hplan' => cases hplan.symm.trans hplan'
    | pushRefused hplan' hpush =>
      cases hplan.symm.trans hplan'
      exact absurd rfl (hpushes hpush)
    | commit hplan' hpush hsoon h =>
      cases hplan.symm.trans hplan'
      obtain ⟨answer, -, hunique, hver⟩ := hcommit _ hpush hsoon
      rw [hunique _ _ h, hver htrue]

/-- **A phase that ends verified** started from an idle session whose bytes
were right. -/
theorem Prepared.sound (hinj : ∀ bytes, cfg.sha256Hex bytes = cfg.sha256Hex art → bytes = art)
    {r : Bool} (h : UploadTail cfg req art chunkSize resp w now r) (hr : r = true) :
    s.Idle ∧ CoveredTrue art w s := by
  obtain ⟨plan, hplan, hfits, hcov, hnil⟩ := hp.plan hlim hsize hpos hchunk
  cases h with
  | planRefused | pushRefused => cases hr
  | commit hplan' hpush hsoon h =>
    cases hplan.symm.trans hplan'
    obtain ⟨s₂, hw₂, hpushed, hreq, hout⟩ := hp.pushed hlim hsize hfits hnil hpush
    obtain ⟨hall, hbytes⟩ := hpushed.bytes hcov (hp.inside hlim hsize)
    have hidle := idle_of_verified (hout _ hsoon) hreq hsize hlim hall hw₂ h hr
    obtain ⟨answer, -, hunique, -, htrue⟩ := commit_idle (hout _ hsoon) hreq hsize hdigest hlim
      hall hw₂ hidle _
    rw [hunique _ _ h] at hr
    exact ⟨hpushed.idle.mp hidle, hbytes.mp (htrue hinj hr)⟩

end Tail

/-! ### The whole phase -/

section Phase

variable (hlim : cfg.Limited) (hsize : req.artifactSize = art.length)
  (hdigest : req.artifactDigest = cfg.sha256Hex art)
  (hinj : ∀ bytes, cfg.sha256Hex bytes = cfg.sha256Hex art → bytes = art)
  (hpos : 0 < chunkSize) (hchunk : chunkSize ≤ cfg.maxChunkSize)

include hlim hsize hdigest hinj hpos hchunk

/-- If `prepare` always leads to an idle session or never does, and so for a
session with true bytes, the phase ends and succeeds accordingly. -/
theorem redone_iff_of_prepared {P Q : Prop}
    (hexists : ∃ w₁ answer, Served cfg w (.prepare req) now now w₁ answer)
    (hall : ∀ later w₁ answer, now ≤ later → Served cfg w (.prepare req) now later w₁ answer →
      ∃ resp s₁, answer = .ok (.prepared resp) ∧ Prepared cfg req resp w₁ now s₁ ∧
        (s₁.Idle ↔ P) ∧ (CoveredTrue art w₁ s₁ ↔ Q)) :
    (P → ∃ r, UploadRun cfg req art chunkSize w now r) ∧
      (Redone cfg req art chunkSize w now ↔ P ∧ Q) := by
  have hends : P → ∃ r, UploadRun cfg req art chunkSize w now r := by
    intro hP
    obtain ⟨w₁, answer, h⟩ := hexists
    obtain ⟨resp, s₁, rfl, hp, hidle, -⟩ := hall now w₁ answer (Nat.le_refl now) h
    obtain ⟨⟨r, htail⟩, -⟩ := hp.ends hlim hsize hdigest hpos hchunk (hidle.mpr hP)
    exact ⟨r, .prepared (Nat.le_refl now) h htail⟩
  refine ⟨hends, ?_, fun ⟨hP, hQ⟩ => ⟨hends hP, fun r hrun => ?_⟩⟩
  · rintro ⟨⟨r, hrun⟩, hverified⟩
    obtain rfl := hverified r hrun
    cases hrun with
    | prepared hclock h htail =>
      obtain ⟨resp, s₁, hok, hp, hidle, htrue⟩ := hall _ _ _ hclock h
      cases hok
      obtain ⟨hidle₁, htrue₁⟩ := hp.sound hlim hsize hdigest hpos hchunk hinj htail rfl
      exact ⟨hidle.mp hidle₁, htrue.mp htrue₁⟩
  · cases hrun with
    | prepareRefused hclock h =>
      obtain ⟨resp, s₁, hok, -⟩ := hall _ _ _ hclock h
      cases hok
    | prepared hclock h htail =>
      obtain ⟨resp, s₁, hok, hp, hidle, htrue⟩ := hall _ _ _ hclock h
      cases hok
      exact (hp.ends hlim hsize hdigest hpos hchunk (hidle.mpr hP)).2 (htrue.mpr hQ) r htail

variable (hcheck : prepareCheck cfg req = .ok ()) (hw : Reachable cfg w) {st₁ : StoreState}
  {removed : CleanupPlan}
  (hclean : collectSessionCleanup cfg w.pinned w.store now none = (st₁, removed))

include hcheck hw hclean

/-- The phase with a session of the request. -/
theorem redone_iff_found {d : String}
    (hfind : st₁.findByKey req.idempotencyKey = some (d, s))
    (hreq : s.identity = (newSession cfg req 0 d s.uploadToken).identity) :
    (s.Idle → ∃ r, UploadRun cfg req art chunkSize w now r) ∧
      (Redone cfg req art chunkSize w now ↔ s.Idle ∧ CoveredTrue art w s) := by
  have hs := (findByKey_eq_some.mp hfind).2
  have hd : s.deployId = d := congrArg UploadSession.deployId hreq
  have hfp : s.fingerprint = fingerprint cfg req := congrArg UploadSession.fingerprint hreq
  refine redone_iff_of_prepared hlim hsize hdigest hinj hpos hchunk
    (prepare_found hcheck hclean hfind hfp hw).1 fun later w₁ answer _ h => ?_
  obtain ⟨hanswer, hw₁, hpinned, hstore, hbytes⟩ :=
    (prepare_found hcheck hclean hfind hfp hw).2 w₁ answer h
  refine ⟨_, s.touch now, hanswer, ⟨hw₁, ?_, ?_, ⟨now, rfl⟩, Nat.le_refl now, ?_⟩, .rfl, ?_⟩
  · show w₁.store.sessions[s.deployId]? = _
    rw [hd, hstore, sessions_put, if_pos rfl]
  · show s.identity = (newSession cfg req 0 s.deployId s.uploadToken).identity
    rw [hd]
    exact hreq
  · intro next hsoon
    show (collectSessionCleanup cfg w₁.pinned w₁.store next none).1.sessions[s.deployId]? = _
    rw [hd, hpinned, hstore]
    refine sessions_collectSessionCleanup.mpr ⟨?_, not_swept_of_touch hclean hs hsoon.1 hsoon.2⟩
    rw [sessions_put, if_pos rfl]
  · refine forall_congr' fun x => imp_congr Iff.rfl ?_
    show storedByte w₁.fs s.filePath x = _ ↔ _
    rw [hbytes x]

/-- The phase without a session of the request. -/
theorem redone_new (hnone : st₁.findByKey req.idempotencyKey = none) :
    Redone cfg req art chunkSize w now := by
  have hidx : IndexInv st₁ := (removes_of_eq hclean).indexInv hw.storeInv.id.index
  refine (redone_iff_of_prepared (P := True) (Q := True) hlim hsize hdigest hinj hpos hchunk
    (prepare_new hcheck hclean hidx hnone hw).1 fun later w₁ answer hclock h => ?_).2.mpr
      ⟨trivial, trivial⟩
  obtain ⟨hw₁, d, k, hanswer, hs⟩ := (prepare_new hcheck hclean hidx hnone hw).2 w₁ answer h
  have hlive : Live cfg (buildPrepareResponse ((newSession cfg req now d k).touch later)
      cfg.uploadSessionTtlSecs later) art w₁ now ((newSession cfg req now d k).touch later) :=
    ⟨hw₁, hs, rfl, hsize, rfl, hclock⟩
  refine ⟨_, _, hanswer, ⟨hw₁, hs, rfl, ⟨later, rfl⟩, hclock, fun next => hlive.outlives⟩, ?_⟩
  refine ⟨iff_true_intro ⟨rfl, rfl⟩, iff_true_intro ?_⟩
  rintro x ⟨r, hr, -⟩
  cases hr

end Phase

/-- **When an upload can be redone.**  From every reachable state, and for a
request whose idempotency key is only used by sessions of the same request,
the upload phase with the true artifact ends with `verified = true` exactly
if a session with that key that outlives the cleanup of `deploy.prepare` is
idle and every byte it covers is on disk with its true value.  SHA-256 enters
as a function without a second preimage of the artifact's digest. -/
theorem upload_redone_iff (cfg : StoreConfig) (hlim : cfg.Limited) (req : DeployPrepareRequest)
    (hcheck : prepareCheck cfg req = .ok ()) (art : List UInt8)
    (hsize : req.artifactSize = art.length) (hdigest : req.artifactDigest = cfg.sha256Hex art)
    (hinj : ∀ bytes, cfg.sha256Hex bytes = cfg.sha256Hex art → bytes = art) (chunkSize : Nat)
    (hpos : 0 < chunkSize) (hchunk : chunkSize ≤ cfg.maxChunkSize) (w : World)
    (hw : Reachable cfg w)
    (hsame : ∀ (d : String) s, w.store.sessions[d]? = some s →
      s.idempotencyKey = req.idempotencyKey →
      s.identity = (newSession cfg req 0 d s.uploadToken).identity) (now : Nat) :
    Redone cfg req art chunkSize w now ↔
      ∀ (d : String) s, w.store.sessions[d]? = some s → s.idempotencyKey = req.idempotencyKey →
        ¬Swept cfg w.pinned w.store now none d s → s.Idle ∧ CoveredTrue art w s := by
  rcases hclean : collectSessionCleanup cfg w.pinned w.store now none with ⟨st₁, removed⟩
  have hidx : IndexInv st₁ := (removes_of_eq hclean).indexInv hw.storeInv.id.index
  rcases hfind : st₁.findByKey req.idempotencyKey with - | ⟨d, s⟩
  · refine ⟨fun _ d s hs hkey hkept => ?_, fun _ => redone_new hlim hsize hdigest hinj hpos hchunk
      hcheck hw hclean hfind⟩
    -- a session that is left would be found
    have hs₁ := (survives_iff hclean).mpr ⟨hs, hkept⟩
    have hkey₁ := hidx.key_of_session d s hs₁
    rw [hkey] at hkey₁
    cases hfind.symm.trans (findByKey_eq_some.mpr ⟨hkey₁, hs₁⟩)
  · obtain ⟨hkey, hs₁⟩ := findByKey_eq_some.mp hfind
    obtain ⟨hs, hkept⟩ := (survives_iff hclean).mp hs₁
    have hown : s.idempotencyKey = req.idempotencyKey := by
      obtain ⟨u, hu, hkeyu⟩ := hidx.session_of_key _ d hkey
      rw [Option.mem_unique hs₁ hu]
      exact hkeyu
    rw [(redone_iff_found hlim hsize hdigest hinj hpos hchunk hcheck hw hclean hfind
      (hsame d s hs hown)).2]
    refine ⟨fun h e u hu hkeyu hkeptu => ?_, fun h => h d s hs hown hkept⟩
    -- no other session has the key
    have hu₁ := hidx.key_of_session e u ((survives_iff hclean).mpr ⟨hu, hkeptu⟩)
    rw [hkeyu] at hu₁
    obtain rfl := Option.mem_unique hkey hu₁
    obtain rfl := Option.mem_unique hs hu
    exact h

/-- The store of `sampleConfig` with a hash that tells one artifact from all
others. -/
def retryConfig : StoreConfig :=
  .new "/var/lib/imago" 900 3600 8 64 4 1024 fun bytes =>
    if bytes = [1, 2, 3, 4] then "sha256-4" else "sha256-other"

theorem retryConfig_injective (bytes : List UInt8)
    (h : retryConfig.sha256Hex bytes = retryConfig.sha256Hex [1, 2, 3, 4]) :
    bytes = [1, 2, 3, 4] := by
  by_contra hne
  have hother : retryConfig.sha256Hex bytes = "sha256-other" := if_neg hne
  rw [hother] at h
  exact absurd h (by decide)

theorem eq_of_toList_sessions {st : StoreState} {d₀ : String} {s₀ : UploadSession}
    (h : st.sessions.toList = [(d₀, s₀)]) {d : String} (hs : st.sessions[d]? = some s) :
    d = d₀ ∧ s = s₀ := by
  have hmem := Std.TreeMap.mem_toList_iff_getElem?_eq_some.mpr hs
  rw [h, List.mem_singleton] at hmem
  exact Prod.mk.inj hmem

/-- A push of four bytes that are not the artifact's, and the commit of them. -/
def sampleSpoiled : List Action :=
  samplePrepared ++
    [.call (.push ⟨⟨"d-1", 0, 4, "sha256-other", "k-1"⟩, [9, 9, 9, 9]⟩) 102, .enter 1 "d-2" "k-2",
      .io 1 (.openFile none), .write 1 4, .io 1 (.endWrite none), .reenter 1 102,
      .io 1 (.remove true),
      .call (.commit ⟨"d-1", "sha256-4", 4, "sha256-2"⟩) 103, .enter 2 "d-3" "k-3",
      .io 2 (.openFile none), .io 2 (.read 4), .io 2 (.read 0), .reenter 2 103]

/-- The call has returned an error with the message. -/
def Pc.failedWith (message : String) : Pc → Bool
  | .done (.error e) => e.message == message
  | _ => false

/-- After the failed commit the upload cannot be redone: the session reports
itself complete, nothing is uploaded, and the phase ends without `verified`. -/
theorem upload_not_redone :
    ∃ w, run (step retryConfig) (World.init FileStore.empty) sampleSpoiled = some w ∧
      (∃ t, w.tasks[2]? = some t ∧ t.pc.failedWith "artifact digest mismatch" = true) ∧
      ¬Redone retryConfig (sampleRequest 4) [1, 2, 3, 4] 64 w 110 ∧
      UploadRun retryConfig (sampleRequest 4) [1, 2, 3, 4] 64 w 110 false := by
  have hrun : ((run (step retryConfig) (World.init FileStore.empty) sampleSpoiled).bind fun w =>
      w.store.sessions["d-1"]?.map fun s =>
        decide ((w.tasks[2]?.map fun t => t.pc.failedWith "artifact digest mismatch") = some true ∧
          (collectSessionCleanup retryConfig w.pinned w.store 110 none).1.findByKey "deploy-1"
            = some ("d-1", s) ∧
          s.identity = (newSession retryConfig (sampleRequest 4) 0 "d-1" s.uploadToken).identity ∧
          (s.inflightWrites = 0 ∧ s.commitInProgress = false) ∧
          s.receivedRanges = [⟨0, 4⟩] ∧ storedByte w.fs s.filePath 0 = some 9)) = some true := by
    decide +kernel
  simp only [Option.bind_eq_some_iff, Option.map_eq_some_iff, decide_eq_true_eq] at hrun
  obtain ⟨w, hw, s, hs, hpc, hfind, hreq, hidle, hranges, hbyte⟩ := hrun
  rcases hclean : collectSessionCleanup retryConfig w.pinned w.store 110 none with ⟨st₁, removed⟩
  rw [hclean] at hfind
  obtain ⟨hends, hiff⟩ := redone_iff_found (limited_new _ _ _ _ _ _ _ _ (by decide)) rfl rfl
    retryConfig_injective (show 0 < 64 by decide) (by decide) rfl ⟨_, _, hw⟩ hclean hfind hreq
  have hnot : ¬Redone retryConfig (sampleRequest 4) [1, 2, 3, 4] 64 w 110 := by
    intro hredone
    have htrue := (hiff.mp hredone).2 0
      (by rw [hranges]; exact covered_single.mpr ⟨by decide, by decide⟩)
    rw [hbyte] at htrue
    exact absurd htrue (by decide)
  refine ⟨w, hw, hpc, hnot, ?_⟩
  by_contra hnone
  refine hnot ⟨hends hidle, fun r hr => ?_⟩
  cases r with
  | false => exact absurd hr hnone
  | true => rfl

/-- A push of the first two bytes of the artifact. -/
def sampleHalf : List Action :=
  samplePrepared ++
    [.call (.push ⟨⟨"d-1", 0, 2, "sha256-other", "k-1"⟩, [1, 2]⟩) 102, .enter 1 "d-2" "k-2",
      .io 1 (.openFile none), .write 1 2, .io 1 (.endWrite none), .reenter 1 102,
      .io 1 (.remove true)]

/-- Two right bytes, and the upload can be redone. -/
theorem upload_redone_half :
    ∃ w, run (step retryConfig) (World.init FileStore.empty) sampleHalf = some w ∧
      Redone retryConfig (sampleRequest 4) [1, 2, 3, 4] 64 w 110 := by
  have hrun : ((run (step retryConfig) (World.init FileStore.empty) sampleHalf).bind fun w =>
      w.store.sessions["d-1"]?.map fun s =>
        decide (w.store.sessions.toList = [("d-1", s)] ∧
          s.identity = (newSession retryConfig (sampleRequest 4) 0 "d-1" s.uploadToken).identity ∧
          (s.inflightWrites = 0 ∧ s.commitInProgress = false) ∧ s.receivedRanges = [⟨0, 2⟩] ∧
          storedByte w.fs s.filePath 0 = some 1 ∧ storedByte w.fs s.filePath 1 = some 2)) =
            some true := by
    decide +kernel
  simp only [Option.bind_eq_some_iff, Option.map_eq_some_iff, decide_eq_true_eq] at hrun
  obtain ⟨w, hw, s, hs, honly, hreq, hidle, hranges, hzero, hone⟩ := hrun
  refine ⟨w, hw, (upload_redone_iff retryConfig (limited_new _ _ _ _ _ _ _ _ (by decide))
    (sampleRequest 4) rfl [1, 2, 3, 4] rfl rfl retryConfig_injective 64 (by decide) (by decide) w
    ⟨_, _, hw⟩ ?_ 110).mpr ?_⟩
  · intro d u hu _
    obtain ⟨rfl, rfl⟩ := eq_of_toList_sessions honly hu
    exact hreq
  · intro d u hu _ _
    obtain ⟨rfl, rfl⟩ := eq_of_toList_sessions honly hu
    refine ⟨hidle, fun x hx => ?_⟩
    rw [hranges, covered_single] at hx
    have hlt : x < 2 := hx.2
    obtain rfl | rfl : x = 0 ∨ x = 1 := by omega
    · exact hzero
    · exact hone

end Imago
