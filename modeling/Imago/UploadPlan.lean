/-
Imago/UploadPlan.lean

What the client makes of a `deploy.prepare` response: the ranges it has to
upload (`upload_ranges_for_prepare`) and the chunks it cuts them into
(`build_upload_chunk_plan`).  The pairs `(offset, length)` of the source are
`ByteRange`s here.

For a session with merged ranges the two functions compose: the plan exists,
its chunks are non-empty, disjoint and of limited length, and they cover the
bytes that the server is missing and no others (`uploadPlan_spec`).
-/
import Imago.ArtifactStore

namespace Imago

/-! ### The functions of the source -/

/-- `upload_ranges_for_prepare`. -/
def uploadRangesForPrepare (status : ArtifactStatus) (missingRanges : List ByteRange)
    (artifactSize : Nat) : Except String (List ByteRange) :=
  match status with
  | .complete => .ok []
  | .missing => .ok [⟨0, artifactSize⟩]
  | .partially =>
    if missingRanges.isEmpty then
      .error "server reported artifact_status=partial but missing_ranges is empty"
    else .ok missingRanges

/-- The inner loop of `build_upload_chunk_plan`.  A turn advances the cursor
by a byte at least, so the length of the range bounds the number of turns. -/
def chunkLoop (chunkSize rangeEnd : Nat) : Nat → Nat → List ByteRange
  | 0, _ => []
  | turns + 1, cursor =>
    if cursor < rangeEnd then
      let chunkLen := min (rangeEnd - cursor) chunkSize
      ⟨cursor, chunkLen⟩ :: chunkLoop chunkSize rangeEnd turns (saturatingAdd cursor chunkLen)
    else []

/-- The chunks of one range, in the outer loop of `build_upload_chunk_plan`. -/
def rangeChunks (artifactSize chunkSize : Nat) (range : ByteRange) :
    Except String (List ByteRange) :=
  if range.length = 0 then .error "missing range length must be greater than 0"
  else
    match checkedAdd range.offset range.length with
    | none => .error "missing range overflow: offset+length"
    | some rangeEnd =>
      if rangeEnd > artifactSize then
        .error ("missing range is outside artifact size: end=" ++ toString rangeEnd ++
          " artifact_size=" ++ toString artifactSize)
      else .ok (chunkLoop chunkSize rangeEnd range.length range.offset)

/-- The outer loop of `build_upload_chunk_plan`. -/
def chunksOfRanges (artifactSize chunkSize : Nat) :
    List ByteRange → Except String (List ByteRange)
  | [] => .ok []
  | range :: ranges => do
      let chunks ← rangeChunks artifactSize chunkSize range
      let rest ← chunksOfRanges artifactSize chunkSize ranges
      return chunks ++ rest

/-- `build_upload_chunk_plan`. -/
def buildUploadChunkPlan (ranges : List ByteRange) (artifactSize chunkSize : Nat) :
    Except String (List ByteRange) :=
  if chunkSize = 0 then .error "chunk_size must be greater than 0"
  else chunksOfRanges artifactSize chunkSize ranges

/-- The plan the client derives from a response. -/
def uploadPlan (response : DeployPrepareResponse) (artifactSize chunkSize : Nat) :
    Except String (List ByteRange) := do
  let ranges ← uploadRangesForPrepare response.artifactStatus response.missingRanges artifactSize
  buildUploadChunkPlan ranges artifactSize chunkSize

/-! ### Cutting ranges into chunks -/

section Chunks

variable {artifactSize chunkSize : Nat}

/-- The inner loop cuts what is left of the range, given enough turns. -/
theorem chunkLoop_spec {rangeEnd : Nat} (hchunk : 0 < chunkSize) (hend : rangeEnd ≤ u64Max) :
    ∀ {turns cursor : Nat}, cursor ≤ rangeEnd → rangeEnd ≤ cursor + turns →
      Pieces cursor rangeEnd (chunkLoop chunkSize rangeEnd turns cursor) ∧
        (∀ c ∈ chunkLoop chunkSize rangeEnd turns cursor, c.length ≤ chunkSize) ∧
        ∀ i, Covered (chunkLoop chunkSize rangeEnd turns cursor) i ↔
          cursor ≤ i ∧ i < rangeEnd := by
  intro turns
  -- nothing is left of the range
  have hnone : ∀ {cursor}, rangeEnd ≤ cursor → Pieces cursor rangeEnd [] ∧
      (∀ c ∈ ([] : List ByteRange), c.length ≤ chunkSize) ∧
      ∀ i, Covered [] i ↔ cursor ≤ i ∧ i < rangeEnd := by
    intro cursor hle
    refine ⟨Pieces.nil _ _, nofun, fun i => ⟨fun ⟨c, hc, _⟩ => (by cases hc), ?_⟩⟩
    intro hi
    omega
  induction turns with
  | zero =>
    intro cursor _ hturns
    exact hnone hturns
  | succ turns ih =>
    intro cursor hcursor hturns
    rw [chunkLoop]
    split
    · rename_i hlt
      dsimp only
      set len := min (rangeEnd - cursor) chunkSize with hlen
      have hpos : 0 < len := by omega
      have hle : cursor + len ≤ rangeEnd := by omega
      rw [saturatingAdd_eq (Nat.le_trans hle hend)]
      obtain ⟨hpieces, hsmall, hcov⟩ := ih hle (by omega)
      have hfirst : Pieces cursor (cursor + len) [⟨cursor, len⟩] :=
        ⟨by simpa using hpos, List.pairwise_singleton .., by simp⟩
      refine ⟨hfirst.append hpieces (by omega) hle, ?_, fun i => ?_⟩
      · intro c hc
        rcases List.mem_cons.mp hc with rfl | hc
        · exact Nat.min_le_right ..
        · exact hsmall c hc
      · rw [covered_cons, hcov]
        simp only [ByteRange.Contains]
        omega
    · exact hnone (by omega)

/-- A non-empty range inside the artifact is cut into chunks that cover it. -/
theorem rangeChunks_spec {range : ByteRange} (hchunk : 0 < chunkSize)
    (hsize : artifactSize ≤ u64Max) (hpos : 0 < range.length)
    (hin : range.offset + range.length ≤ artifactSize) :
    ∃ chunks, rangeChunks artifactSize chunkSize range = .ok chunks ∧
      Pieces range.offset (range.offset + range.length) chunks ∧
      (∀ c ∈ chunks, c.length ≤ chunkSize) ∧ ∀ i, Covered chunks i ↔ range.Contains i := by
  have hend : range.offset + range.length ≤ u64Max := Nat.le_trans hin hsize
  obtain ⟨h₁, h₂, h₃⟩ := chunkLoop_spec hchunk hend
    (Nat.le_add_right range.offset range.length) (Nat.le_refl (range.offset + range.length))
  refine ⟨_, ?_, h₁, h₂, h₃⟩
  rw [rangeChunks, if_neg (Nat.pos_iff_ne_zero.mp hpos), checkedAdd, if_pos hend]
  simp only [gt_iff_lt, Nat.not_lt.mpr hin, if_false]

/-- Ordered ranges inside the artifact are cut one after the other. -/
theorem chunksOfRanges_spec (hchunk : 0 < chunkSize) (hsize : artifactSize ≤ u64Max)
    {ranges : List ByteRange} :
    ∀ {lo : Nat}, lo ≤ artifactSize → Pieces lo artifactSize ranges →
      ∃ plan, chunksOfRanges artifactSize chunkSize ranges = .ok plan ∧
        Pieces lo artifactSize plan ∧ (∀ c ∈ plan, c.length ≤ chunkSize) ∧
        ∀ i, Covered plan i ↔ Covered ranges i := by
  induction ranges with
  | nil =>
    intro lo _ h
    exact ⟨[], rfl, h, nofun, fun i => Iff.rfl⟩
  | cons r rs ih =>
    intro lo _ h
    obtain ⟨hlo, hhi⟩ := h.bounds r (.head _)
    obtain ⟨hbehind, hordered⟩ := List.pairwise_cons.mp h.ordered
    have hrest : Pieces (r.offset + r.length) artifactSize rs :=
      ⟨fun q hq => h.pos q (.tail _ hq), hordered,
        fun q hq => ⟨hbehind q hq, (h.bounds q (.tail _ hq)).2⟩⟩
    obtain ⟨chunks, hchunks, hpieces, hsmall, hcov⟩ :=
      rangeChunks_spec hchunk hsize (h.pos r (.head _)) hhi
    obtain ⟨plan, hplan, hpieces', hsmall', hcov'⟩ := ih hhi hrest
    refine ⟨chunks ++ plan, ?_, ?_, ?_, fun i => ?_⟩
    · rw [chunksOfRanges, hchunks, hplan]; rfl
    · have hwide : Pieces lo (r.offset + r.length) chunks :=
        ⟨hpieces.pos, hpieces.ordered, fun q hq =>
          ⟨Nat.le_trans hlo (hpieces.bounds q hq).1, (hpieces.bounds q hq).2⟩⟩
      exact hwide.append hpieces' (by omega) hhi
    · intro c hc
      exact (List.mem_append.mp hc).elim (hsmall c) (hsmall' c)
    · rw [covered_append, covered_cons, hcov, hcov']

end Chunks

/-! ### The plan for a session -/

section

variable {s : UploadSession} (hpos : 0 < s.artifactSize) (hsize : s.artifactSize ≤ u64Max)
  (hmerged : Merged s.artifactSize s.receivedRanges)
  (hcommitted : s.committed = true → isComplete s.receivedRanges s.artifactSize = true)

include hpos hsize hmerged hcommitted

/-- The ranges the client uploads are those the server is missing. -/
theorem uploadRanges_spec (ttl now : Nat) :
    ∃ ranges, uploadRangesForPrepare (buildPrepareResponse s ttl now).artifactStatus
        (buildPrepareResponse s ttl now).missingRanges s.artifactSize = .ok ranges ∧
      Pieces 0 s.artifactSize ranges ∧
      ∀ i, Covered ranges i ↔ i < s.artifactSize ∧ ¬Covered s.receivedRanges i := by
  obtain ⟨hpieces, hcov⟩ := allMissingRanges_spec hpos hsize hmerged
  by_cases hcomplete : isComplete s.receivedRanges s.artifactSize = true
  · -- nothing is missing and nothing is uploaded
    refine ⟨[], ?_, Pieces.nil _ _, fun i => ⟨fun ⟨r, hr, _⟩ => (by cases hr), ?_⟩⟩
    · simp [buildPrepareResponse, uploadRangesForPrepare, hcomplete]
    · rintro ⟨hi, hnot⟩
      exact absurd (covered_of_isComplete hcomplete hi) hnot
  · have hopen : s.committed = false := by
      by_contra hc
      exact hcomplete (hcommitted (by simpa using hc))
    have hcomplete' : isComplete s.receivedRanges s.artifactSize = false := by simpa using hcomplete
    rcases hranges : s.receivedRanges with - | ⟨r, rs⟩
    · refine ⟨[⟨0, s.artifactSize⟩], ?_, Pieces.single hpos, fun i => ?_⟩
      · simp [buildPrepareResponse, uploadRangesForPrepare, hopen, hranges, isComplete]
      · simp [Covered, ByteRange.Contains]
    · rw [← hranges]
      refine ⟨allMissingRanges s.receivedRanges s.artifactSize, ?_, hpieces, hcov⟩
      -- the list is not empty, since a list that covers everything is complete
      have hsome : allMissingRanges s.receivedRanges s.artifactSize ≠ [] := by
        intro hnil
        refine hcomplete (hmerged.isComplete hpos fun i hi => ?_)
        by_contra hnot
        obtain ⟨q, hq, -⟩ := (hcov i).mpr ⟨hi, hnot⟩
        rw [hnil] at hq
        cases hq
      have hne : s.receivedRanges.isEmpty = false := by rw [hranges]; rfl
      simp [buildPrepareResponse, uploadRangesForPrepare, hopen, hcomplete', hne, hsome]

/-- **The plan exists and is exact**: non-empty disjoint chunks of at most
`chunkSize` bytes that cover the missing bytes and no others. -/
theorem uploadPlan_spec (ttl now : Nat) {chunkSize : Nat} (hchunk : 0 < chunkSize) :
    ∃ plan, uploadPlan (buildPrepareResponse s ttl now) s.artifactSize chunkSize = .ok plan ∧
      Pieces 0 s.artifactSize plan ∧ (∀ c ∈ plan, c.length ≤ chunkSize) ∧
      ∀ i, Covered plan i ↔ i < s.artifactSize ∧ ¬Covered s.receivedRanges i := by
  obtain ⟨ranges, hranges, hpieces, hcov⟩ :=
    uploadRanges_spec hpos hsize hmerged hcommitted ttl now
  obtain ⟨plan, hplan, hpieces', hsmall, hcov'⟩ :=
    chunksOfRanges_spec hchunk hsize (Nat.zero_le _) hpieces
  refine ⟨plan, ?_, hpieces', hsmall, fun i => by rw [hcov', hcov]⟩
  rw [uploadPlan, hranges]
  show buildUploadChunkPlan ranges s.artifactSize chunkSize = .ok plan
  rw [buildUploadChunkPlan, if_neg (Nat.pos_iff_ne_zero.mp hchunk), hplan]

end

example : buildUploadChunkPlan [⟨2, 5⟩, ⟨9, 1⟩] 10 3 = .ok [⟨2, 3⟩, ⟨5, 2⟩, ⟨9, 1⟩] := by decide

end Imago
