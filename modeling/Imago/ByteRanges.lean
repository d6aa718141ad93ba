/-
Imago/ByteRanges.lean

The received-range bookkeeping of an upload session
(`artifact_store/commit.rs`): which bytes of the artifact have arrived, kept
as a list of merged ranges.

The fact that the integrity of a committed artifact rests on is the soundness
of the merge (`covered_mergeRange`): the merged list never covers a byte that
neither the old list nor the new chunk covers.  With it a *complete* list
(`isComplete`) means that every byte of the artifact has been written by some
accepted chunk (`covered_of_isComplete`).
-/
import Imago.RustStd
import Mathlib.Data.List.Sort

namespace Imago

/-- A byte range of an artifact. -/
structure ByteRange where
  offset : Nat
  length : Nat
  deriving DecidableEq, Repr

namespace ByteRange

/-- `offset.saturating_add(length)`. -/
def stop (r : ByteRange) : Nat := saturatingAdd r.offset r.length

/-- The bytes that lie in the range. -/
def Contains (r : ByteRange) (i : Nat) : Prop := r.offset ≤ i ∧ i < r.offset + r.length

end ByteRange

/-- Some range of the list contains the byte. -/
def Covered (ranges : List ByteRange) (i : Nat) : Prop := ∃ r ∈ ranges, r.Contains i

variable {i total : Nat} {rs merged ranges : List ByteRange} {r range incoming : ByteRange}

theorem covered_append {as bs : List ByteRange} :
    Covered (as ++ bs) i ↔ Covered as i ∨ Covered bs i := by
  simp only [Covered, List.mem_append, or_and_right, exists_or]

theorem covered_cons : Covered (r :: rs) i ↔ r.Contains i ∨ Covered rs i := by
  simp [Covered]

/-! ### The functions of the source -/

/-- `range_from_start_end`. -/
def rangeFromStartEnd (start stop : Nat) : ByteRange := ⟨start, stop - start⟩

/-- `is_complete`: one range, from the first byte to the last. -/
def isComplete (ranges : List ByteRange) (total : Nat) : Bool :=
  match ranges with
  | [first] => first.offset == 0 && first.length == total
  | _ => false

/-- The loop of `next_missing_range`; the cursor is the end of the last range. -/
def nextMissingFrom (total : Nat) : Nat → List ByteRange → Option ByteRange
  | cursor, [] => if cursor < total then some (rangeFromStartEnd cursor total) else none
  | cursor, r :: rs =>
    if cursor < r.offset then some (rangeFromStartEnd cursor r.offset)
    else nextMissingFrom total r.stop rs

/-- `next_missing_range`. -/
def nextMissingRange (ranges : List ByteRange) (total : Nat) : Option ByteRange :=
  if total = 0 then none
  else if ranges.isEmpty then some ⟨0, total⟩
  else nextMissingFrom total 0 ranges

/-- The loop of `all_missing_ranges`; it breaks once the cursor is at the end. -/
def allMissingFrom (total : Nat) : Nat → List ByteRange → List ByteRange
  | cursor, [] => if cursor < total then [rangeFromStartEnd cursor total] else []
  | cursor, r :: rs =>
    (if cursor < r.offset then [rangeFromStartEnd cursor r.offset] else []) ++
      if total ≤ max cursor r.stop then []
      else allMissingFrom total (max cursor r.stop) rs

/-- `all_missing_ranges`. -/
def allMissingRanges (ranges : List ByteRange) (total : Nat) : List ByteRange :=
  if total = 0 then []
  else if ranges.isEmpty then [⟨0, total⟩]
  else allMissingFrom total 0 ranges

/-- One turn of the merge loop.  The merged list is kept newest first, so
that its head is what `merged.last_mut()` returns. -/
def mergeStep (merged : List ByteRange) (range : ByteRange) : List ByteRange :=
  match merged with
  | [] => [range]
  | last :: rest =>
    if range.offset ≤ last.stop then
      { last with length := max last.stop range.stop - last.offset } :: rest
    else range :: last :: rest

/-- `merge_range`: append, sort by offset, merge what touches.  Rust's
`sort_by_key` is stable, and so is insertion sort along `≤`. -/
def mergeRange (ranges : List ByteRange) (incoming : ByteRange) : List ByteRange :=
  (((ranges ++ [incoming]).insertionSort (fun a b => a.offset ≤ b.offset)).foldl
    mergeStep []).reverse

/-! ### Soundness of the merge -/

/-- Extending the last range by one that starts inside or right behind it
adds no byte that neither of them contains. -/
theorem contains_of_contains_extended {last : ByteRange} (htouch : range.offset ≤ last.stop)
    (h : ({ last with length := max last.stop range.stop - last.offset } : ByteRange).Contains i) :
    last.Contains i ∨ range.Contains i := by
  have hlast := saturatingAdd_le last.offset last.length
  have hrange := saturatingAdd_le range.offset range.length
  simp only [ByteRange.Contains, ByteRange.stop] at h htouch ⊢
  omega

theorem covered_mergeStep (h : Covered (mergeStep merged range) i) :
    Covered merged i ∨ range.Contains i := by
  obtain ⟨r, hr, hi⟩ := h
  unfold mergeStep at hr
  split at hr
  · obtain rfl := List.mem_singleton.mp hr
    exact .inr hi
  · rename_i last rest
    split at hr
    · rename_i htouch
      rcases List.mem_cons.mp hr with rfl | hr
      · rcases contains_of_contains_extended htouch hi with hi | hi
        · exact .inl ⟨last, .head _, hi⟩
        · exact .inr hi
      · exact .inl ⟨r, List.mem_cons_of_mem _ hr, hi⟩
    · rcases List.mem_cons.mp hr with rfl | hr
      · exact .inr hi
      · exact .inl ⟨r, hr, hi⟩

theorem covered_foldl_mergeStep (h : Covered (ranges.foldl mergeStep merged) i) :
    Covered merged i ∨ Covered ranges i := by
  induction ranges generalizing merged with
  | nil => exact Or.inl h
  | cons r rs ih =>
    rcases ih h with h | ⟨r', hr', hi⟩
    · rcases covered_mergeStep h with h | hi
      · exact .inl h
      · exact .inr ⟨r, .head _, hi⟩
    · exact .inr ⟨r', List.mem_cons_of_mem _ hr', hi⟩

/-- **Soundness of `merge_range`**: the merged list covers no byte that
neither the old list nor the incoming range covers. -/
theorem covered_mergeRange (h : Covered (mergeRange ranges incoming) i) :
    Covered ranges i ∨ incoming.Contains i := by
  obtain ⟨r, hr, hi⟩ := h
  have hfold : Covered _ i := ⟨r, List.mem_reverse.mp hr, hi⟩
  rcases covered_foldl_mergeStep hfold with ⟨r', hr', _⟩ | ⟨r', hr', hi'⟩
  · cases hr'
  · rw [List.mem_insertionSort, List.mem_append, List.mem_singleton] at hr'
    rcases hr' with hr' | rfl
    · exact .inl ⟨r', hr', hi'⟩
    · exact .inr hi'

/-- A complete list covers every byte of the artifact. -/
theorem covered_of_isComplete (h : isComplete ranges total = true) (hi : i < total) :
    Covered ranges i := by
  unfold isComplete at h
  split at h
  · rename_i first
    simp only [Bool.and_eq_true, beq_iff_eq] at h
    refine ⟨first, List.mem_singleton_self _, ?_⟩
    simp only [ByteRange.Contains]
    omega
  · cases h

/-! ### Merged lists

The merge keeps its list in order and a byte apart, so that a list which
covers everything is one range.  Newest first, as the loop holds it, the list
is in descending order. -/

/-- What `merge_range` keeps of an artifact of `total` bytes. -/
structure Merged (total : Nat) (ranges : List ByteRange) : Prop where
  apart : ranges.Pairwise fun a b => a.offset + a.length < b.offset
  inside : ∀ r ∈ ranges, r.offset + r.length ≤ total

theorem Merged.nil (total : Nat) : Merged total [] :=
  ⟨List.Pairwise.nil, nofun⟩

theorem Merged.tail (h : Merged total (r :: rs)) : Merged total rs :=
  ⟨(List.pairwise_cons.mp h.apart).2, fun r' hr' => h.inside r' (.tail _ hr')⟩

/-- A range inside an artifact of 64-bit size does not saturate. -/
theorem ByteRange.stop_eq (hr : r.offset + r.length ≤ total) (htotal : total ≤ u64Max) :
    r.stop = r.offset + r.length :=
  saturatingAdd_eq (Nat.le_trans hr htotal)

/-- The state of the merge loop before a range that starts at `next`. -/
structure Merging (total next : Nat) (merged : List ByteRange) : Prop where
  apart : merged.Pairwise fun a b => b.offset + b.length < a.offset
  inside : ∀ r ∈ merged, r.offset + r.length ≤ total
  started : ∀ r ∈ merged, r.offset ≤ next

theorem Merging.mono {next next' : Nat} (h : Merging total next merged) (hle : next ≤ next') :
    Merging total next' merged :=
  ⟨h.apart, h.inside, fun r hr => Nat.le_trans (h.started r hr) hle⟩

theorem Merging.mergeStep (h : Merging total range.offset merged)
    (hin : range.offset + range.length ≤ total) (htotal : total ≤ u64Max) :
    Merging total range.offset (mergeStep merged range) ∧
      ∀ i, Covered (Imago.mergeStep merged range) i ↔ Covered merged i ∨ range.Contains i := by
  have hrange := ByteRange.stop_eq hin htotal
  -- nothing else is covered (`covered_mergeStep`), and nothing is lost
  suffices hkept : Merging total range.offset (Imago.mergeStep merged range) ∧
      ∀ i, Covered merged i ∨ range.Contains i → Covered (Imago.mergeStep merged range) i from
    ⟨hkept.1, fun i => ⟨covered_mergeStep, hkept.2 i⟩⟩
  unfold Imago.mergeStep
  split
  · exact ⟨⟨List.pairwise_singleton .., List.forall_mem_singleton.mpr hin,
      List.forall_mem_singleton.mpr (Nat.le_refl _)⟩, fun i => by simp [Covered]⟩
  · rename_i last rest
    obtain ⟨hlast, hrest⟩ := List.pairwise_cons.mp h.apart
    obtain ⟨hlastIn, hrestIn⟩ := List.forall_mem_cons.mp h.inside
    obtain ⟨hle, hrestLe⟩ := List.forall_mem_cons.mp h.started
    have hstop := ByteRange.stop_eq hlastIn htotal
    split
    · -- the range starts in the last one or right behind it, which grows
      refine ⟨⟨List.pairwise_cons.mpr ⟨hlast, hrest⟩, List.forall_mem_cons.mpr ⟨?_, hrestIn⟩,
        List.forall_mem_cons.mpr ⟨hle, hrestLe⟩⟩, ?_⟩
      · simp only; omega
      · intro i
        simp only [Covered, List.mem_cons, exists_eq_or_imp, ByteRange.Contains]
        rintro ((hi | hi) | hi)
        · exact .inl (by omega)
        · exact .inr hi
        · exact .inl (by omega)
    · refine ⟨⟨List.pairwise_cons.mpr ⟨List.forall_mem_cons.mpr ⟨?_, fun r hr => ?_⟩, h.apart⟩,
        List.forall_mem_cons.mpr ⟨hin, h.inside⟩,
        List.forall_mem_cons.mpr ⟨Nat.le_refl _, h.started⟩⟩, fun i hi => covered_cons.mpr hi.symm⟩
      · omega
      · have := hlast r hr
        omega

/-- The whole loop, over ranges in the order of their offsets. -/
theorem Merging.foldl (htotal : total ≤ u64Max) :
    ∀ {next : Nat} {merged : List ByteRange}, Merging total next merged →
      ranges.Pairwise (fun a b => a.offset ≤ b.offset) → (∀ r ∈ ranges, next ≤ r.offset) →
      (∀ r ∈ ranges, r.offset + r.length ≤ total) →
      (∃ next', Merging total next' (ranges.foldl Imago.mergeStep merged)) ∧
        ∀ i, Covered (ranges.foldl Imago.mergeStep merged) i ↔
          Covered merged i ∨ Covered ranges i := by
  induction ranges with
  | nil =>
    intro next merged h _ _ _
    exact ⟨⟨next, h⟩, fun i => by simp [Covered]⟩
  | cons r rs ih =>
    intro next merged h hsorted hnext hin
    obtain ⟨hfirst, hsorted⟩ := List.pairwise_cons.mp hsorted
    obtain ⟨hstep, hcov⟩ :=
      (h.mono (hnext r (.head _))).mergeStep (hin r (.head _)) htotal
    obtain ⟨hmerging, hfold⟩ :=
      ih hstep hsorted hfirst fun r' hr' => hin r' (.tail _ hr')
    refine ⟨hmerging, fun i => ?_⟩
    rw [List.foldl_cons, hfold i, hcov i, or_assoc]
    simp [Covered]

/-- **`merge_range` is exact**: it keeps a merged list merged and adds the
bytes of the incoming range, no others. -/
theorem Merged.mergeRange (h : Merged total ranges)
    (hin : incoming.offset + incoming.length ≤ total) (htotal : total ≤ u64Max) :
    Merged total (mergeRange ranges incoming) ∧
      ∀ i, Covered (Imago.mergeRange ranges incoming) i ↔ Covered ranges i ∨
        incoming.Contains i := by
  let before : ByteRange → ByteRange → Prop := fun a b => a.offset ≤ b.offset
  have : Std.Total before := ⟨fun a b => Nat.le_total _ _⟩
  have : IsTrans ByteRange before := ⟨fun a b c => Nat.le_trans⟩
  have hmem : ∀ r, r ∈ (ranges ++ [incoming]).insertionSort before ↔ r ∈ ranges ∨ r = incoming := by
    intro r
    rw [List.mem_insertionSort, List.mem_append, List.mem_singleton]
  have hall : ∀ r ∈ (ranges ++ [incoming]).insertionSort before, r.offset + r.length ≤ total := by
    intro r hr
    rcases (hmem r).mp hr with hr | rfl
    · exact h.inside r hr
    · exact hin
  have hempty : Merging total 0 [] :=
    ⟨List.Pairwise.nil, nofun, nofun⟩
  obtain ⟨⟨next, hfold⟩, hcov⟩ := Merging.foldl htotal hempty
    (List.pairwise_insertionSort before _) (fun r _ => Nat.zero_le _) hall
  refine ⟨⟨List.pairwise_reverse.mpr hfold.apart, ?_⟩, fun i => ?_⟩
  · intro r hr
    exact hfold.inside r (List.mem_reverse.mp hr)
  · have hrev : Covered (Imago.mergeRange ranges incoming) i
        ↔ Covered (((ranges ++ [incoming]).insertionSort before).foldl Imago.mergeStep []) i := by
      simp only [Covered, Imago.mergeRange, List.mem_reverse]
      rfl
    rw [hrev, hcov i]
    simp only [Covered, hmem, List.not_mem_nil, false_and, exists_false, false_or, or_and_right,
      exists_or, exists_eq_left]

/-- A merged list that covers the whole artifact is complete. -/
theorem Merged.isComplete (h : Merged total ranges) (hpos : 0 < total)
    (hall : ∀ i, i < total → Covered ranges i) : isComplete ranges total = true := by
  match ranges, h, hall with
  | [], _, hall =>
    obtain ⟨r, hr, -⟩ := hall 0 hpos
    cases hr
  | [r], h, hall =>
    have hin := h.inside r (.head _)
    obtain ⟨_, hr, hfirst⟩ := hall 0 hpos
    obtain rfl := List.mem_singleton.mp hr
    obtain ⟨_, hr, hlast⟩ := hall (total - 1) (by omega)
    obtain rfl := List.mem_singleton.mp hr
    simp only [ByteRange.Contains] at hfirst hlast
    simp only [Imago.isComplete, Bool.and_eq_true, beq_iff_eq]
    omega
  | r :: r' :: rs, h, hall =>
    -- the byte right behind the first range is not covered
    exfalso
    have hapart := (List.pairwise_cons.mp h.apart).1
    have hgap := hapart r' (.head _)
    have hin := h.inside r' (List.mem_cons_of_mem _ (.head _))
    obtain ⟨q, hq, hcontains⟩ := hall (r.offset + r.length) (by omega)
    simp only [ByteRange.Contains] at hcontains
    rcases List.mem_cons.mp hq with rfl | hq
    · omega
    · have := hapart q hq
      omega

/-! ### The missing bytes -/

/-- Non-empty ranges between `lo` and `hi`, in order and disjoint. -/
structure Pieces (lo hi : Nat) (ranges : List ByteRange) : Prop where
  pos : ∀ r ∈ ranges, 0 < r.length
  ordered : ranges.Pairwise fun a b => a.offset + a.length ≤ b.offset
  bounds : ∀ r ∈ ranges, lo ≤ r.offset ∧ r.offset + r.length ≤ hi

theorem Pieces.nil (lo hi : Nat) : Pieces lo hi [] where
  pos := nofun
  ordered := List.Pairwise.nil
  bounds := nofun

theorem Pieces.single {lo hi : Nat} (h : lo < hi) : Pieces lo hi [rangeFromStartEnd lo hi] where
  pos := by simpa [rangeFromStartEnd] using Nat.sub_pos_of_lt h
  ordered := List.pairwise_singleton ..
  bounds := by
    intro r hr
    obtain rfl := List.mem_singleton.mp hr
    simp only [rangeFromStartEnd]
    omega

theorem Pieces.append {lo mid hi : Nat} {as bs : List ByteRange} (h₁ : Pieces lo mid as)
    (h₂ : Pieces mid hi bs) (hlo : lo ≤ mid) (hhi : mid ≤ hi) : Pieces lo hi (as ++ bs) where
  pos := by
    intro r hr
    exact (List.mem_append.mp hr).elim (h₁.pos r) (h₂.pos r)
  ordered := by
    refine List.pairwise_append.mpr ⟨h₁.ordered, h₂.ordered, fun a ha b hb => ?_⟩
    exact Nat.le_trans (h₁.bounds a ha).2 (h₂.bounds b hb).1
  bounds := by
    intro r hr
    rcases List.mem_append.mp hr with hr | hr
    · exact ⟨(h₁.bounds r hr).1, Nat.le_trans (h₁.bounds r hr).2 hhi⟩
    · exact ⟨Nat.le_trans hlo (h₂.bounds r hr).1, (h₂.bounds r hr).2⟩

theorem contains_rangeFromStartEnd {start stop : Nat} :
    (rangeFromStartEnd start stop).Contains i ↔ start ≤ i ∧ i < stop := by
  simp only [ByteRange.Contains, rangeFromStartEnd]
  omega

/-- The gap in front of the cursor, if there is one. -/
theorem pieces_gap {lo hi : Nat} (h : lo ≤ hi) :
    Pieces lo hi (if lo < hi then [rangeFromStartEnd lo hi] else []) ∧
      ∀ i, Covered (if lo < hi then [rangeFromStartEnd lo hi] else []) i ↔ lo ≤ i ∧ i < hi := by
  split
  · rename_i hlt
    refine ⟨Pieces.single hlt, fun i => ?_⟩
    rw [covered_cons, contains_rangeFromStartEnd]
    simp [Covered]
  · refine ⟨Pieces.nil lo hi, fun i => ⟨fun ⟨r, hr, _⟩ => (by cases hr), fun hi => ?_⟩⟩
    omega

/-- The loop of `all_missing_ranges` from a cursor in front of the ranges left. -/
theorem allMissingFrom_spec (htotal : total ≤ u64Max) :
    ∀ {cursor : Nat}, cursor ≤ total → Merged total ranges → (∀ r ∈ ranges, cursor ≤ r.offset) →
      Pieces cursor total (allMissingFrom total cursor ranges) ∧
        ∀ i, Covered (allMissingFrom total cursor ranges) i ↔
          cursor ≤ i ∧ i < total ∧ ¬Covered ranges i := by
  induction ranges with
  | nil =>
    intro cursor hcursor _ _
    obtain ⟨hpieces, hcov⟩ := pieces_gap hcursor
    exact ⟨hpieces, fun i => by rw [allMissingFrom, hcov]; simp [Covered]⟩
  | cons r rs ih =>
    intro cursor hcursor h hbehind
    have hr := hbehind r (.head _)
    have hin := h.inside r (.head _)
    have hstop : max cursor r.stop = r.offset + r.length := by
      rw [ByteRange.stop_eq hin htotal]; omega
    have hnext : ∀ q ∈ rs, r.offset + r.length < q.offset := (List.pairwise_cons.mp h.apart).1
    obtain ⟨hgap, hgapCov⟩ := pieces_gap hr
    obtain ⟨hrest, hrestCov⟩ : Pieces (r.offset + r.length) total
        (if total ≤ r.offset + r.length then []
          else allMissingFrom total (r.offset + r.length) rs) ∧
        ∀ i, Covered (if total ≤ r.offset + r.length then []
            else allMissingFrom total (r.offset + r.length) rs) i ↔
          r.offset + r.length ≤ i ∧ i < total ∧ ¬Covered rs i := by
      split
      · refine ⟨Pieces.nil _ _, fun i => ⟨fun ⟨q, hq, _⟩ => (by cases hq), fun hi => ?_⟩⟩
        omega
      · exact ih hin h.tail fun q hq => Nat.le_of_lt (hnext q hq)
    rw [allMissingFrom, hstop]
    refine ⟨?_, fun i => ?_⟩
    · have hwide : Pieces cursor (r.offset + r.length)
          (if cursor < r.offset then [rangeFromStartEnd cursor r.offset] else []) :=
        ⟨hgap.pos, hgap.ordered, fun q hq => ⟨(hgap.bounds q hq).1,
          Nat.le_trans (hgap.bounds q hq).2 (Nat.le_add_right ..)⟩⟩
      exact hwide.append hrest (by omega) hin
    · rw [covered_append, hgapCov, hrestCov, covered_cons]
      -- a byte in front of `r` is in none of the ranges behind it
      have hfront : i < r.offset → ¬Covered rs i := by
        rintro hi ⟨q, hq, hqi⟩
        have := hnext q hq
        exact absurd hqi.1 (by omega)
      simp only [ByteRange.Contains]
      constructor
      · rintro (⟨h₁, h₂⟩ | ⟨h₁, h₂, h₃⟩)
        · exact ⟨h₁, by omega, fun hc => hc.elim (by omega) (hfront h₂)⟩
        · exact ⟨by omega, h₂, fun hc => hc.elim (by omega) h₃⟩
      · rintro ⟨h₁, h₂, h₃⟩
        rcases Nat.lt_or_ge i r.offset with hi | hi
        · exact .inl ⟨h₁, hi⟩
        · refine .inr ⟨?_, h₂, fun hc => h₃ (.inr hc)⟩
          by_contra hlt
          exact h₃ (.inl (by omega))

theorem allMissingRanges_eq (hpos : 0 < total) :
    allMissingRanges ranges total = allMissingFrom total 0 ranges := by
  rw [allMissingRanges, if_neg (Nat.pos_iff_ne_zero.mp hpos)]
  split
  · rename_i hempty
    rw [List.isEmpty_iff.mp hempty, allMissingFrom, if_pos hpos, rangeFromStartEnd, Nat.sub_zero]
  · rfl

/-- **`all_missing_ranges` is exact**: its ranges are non-empty, ordered and
disjoint, and cover the bytes of the artifact that the merged list does not. -/
theorem allMissingRanges_spec (hpos : 0 < total) (htotal : total ≤ u64Max)
    (h : Merged total ranges) :
    Pieces 0 total (allMissingRanges ranges total) ∧
      ∀ i, Covered (allMissingRanges ranges total) i ↔ i < total ∧ ¬Covered ranges i := by
  obtain ⟨hpieces, hcov⟩ :=
    allMissingFrom_spec htotal (Nat.zero_le _) h fun r _ => Nat.zero_le r.offset
  rw [allMissingRanges_eq hpos]
  exact ⟨hpieces, fun i => by rw [hcov]; simp⟩

example : mergeRange [⟨0, 4⟩, ⟨8, 4⟩] ⟨4, 4⟩ = [⟨0, 12⟩] := by decide

/-! ### The canonical list of a set of bytes -/

/-- Non-empty ranges in order, no two of which overlap or touch. -/
structure Canonical (total : Nat) (ranges : List ByteRange) : Prop extends Merged total ranges where
  pos : ∀ r ∈ ranges, 0 < r.length

theorem Canonical.nil (total : Nat) : Canonical total [] :=
  ⟨Merged.nil total, nofun⟩

section

variable (h : Canonical total (r :: rs))

include h

theorem Canonical.tail : Canonical total rs :=
  ⟨h.toMerged.tail, fun q hq => h.pos q (.tail _ hq)⟩

/-- The first byte of a canonical list. -/
theorem Canonical.offset_le (hi : Covered (r :: rs) i) :
    r.offset ≤ i := by
  obtain ⟨q, hq, hqi⟩ := hi
  rcases List.mem_cons.mp hq with rfl | hq
  · exact hqi.1
  · have := (List.pairwise_cons.mp h.apart).1 q hq
    exact Nat.le_trans (by omega) hqi.1

theorem Canonical.covered_offset : Covered (r :: rs) r.offset :=
  ⟨r, .head _, Nat.le_refl _, Nat.lt_add_of_pos_right (h.pos r (.head _))⟩

/-- The bytes of the ranges behind the first lie behind the byte that follows it. -/
theorem Canonical.covered_tail :
    Covered rs i ↔ Covered (r :: rs) i ∧ r.offset + r.length < i := by
  rw [covered_cons]
  constructor
  · rintro ⟨q, hq, hqi⟩
    have := (List.pairwise_cons.mp h.apart).1 q hq
    exact ⟨.inr ⟨q, hq, hqi⟩, Nat.lt_of_lt_of_le this hqi.1⟩
  · rintro ⟨hi | hi, hlt⟩
    · exact absurd hi.2 (by omega)
    · exact hi

/-- The end of the first range is what its bytes say. -/
theorem Canonical.length_le {q : ByteRange} {qs : List ByteRange}
    (hoffset : r.offset = q.offset) (hcov : ∀ i, Covered (q :: qs) i → Covered (r :: rs) i) :
    q.length ≤ r.length := by
  by_contra hlt
  have hend : Covered (q :: qs) (r.offset + r.length) :=
    ⟨q, .head _, by omega, by omega⟩
  rcases covered_cons.mp (hcov _ hend) with hi | hi
  · exact absurd hi.2 (Nat.lt_irrefl _)
  · exact absurd (h.covered_tail.mp hi).2 (Nat.lt_irrefl _)

end

/-- **A set of bytes has one canonical list.** -/
theorem Canonical.ext {as bs : List ByteRange} (ha : Canonical total as) (hb : Canonical total bs)
    (hcov : ∀ i, Covered as i ↔ Covered bs i) : as = bs := by
  induction as generalizing bs with
  | nil =>
    cases bs with
    | nil => rfl
    | cons q qs =>
      obtain ⟨_, hr, -⟩ := (hcov _).mpr hb.covered_offset
      cases hr
  | cons r rs ih =>
    cases bs with
    | nil =>
      obtain ⟨_, hr, -⟩ := (hcov _).mp ha.covered_offset
      cases hr
    | cons q qs =>
      have hoffset : r.offset = q.offset := Nat.le_antisymm
        (ha.offset_le ((hcov _).mpr hb.covered_offset))
        (hb.offset_le ((hcov _).mp ha.covered_offset))
      have hlength : r.length = q.length := Nat.le_antisymm
        (hb.length_le hoffset.symm fun i => (hcov i).mp)
        (ha.length_le hoffset fun i => (hcov i).mpr)
      have htail : rs = qs := by
        refine ih ha.tail hb.tail fun i => ?_
        rw [ha.covered_tail, hb.covered_tail, hcov, hoffset, hlength]
      cases r
      cases q
      simp_all

/-- A non-empty range whose end is a 64-bit number. -/
def ByteRange.Proper (r : ByteRange) : Prop := 0 < r.length ∧ r.offset + r.length ≤ u64Max

theorem proper_mergeStep (hmerged : ∀ r ∈ merged, r.Proper) (hrange : range.Proper) :
    ∀ r ∈ mergeStep merged range, r.Proper := by
  intro r hr
  unfold mergeStep at hr
  split at hr
  · exact List.mem_singleton.mp hr ▸ hrange
  · rename_i last rest
    have hlast := hmerged last (.head _)
    have hstop : last.stop = last.offset + last.length := saturatingAdd_eq hlast.2
    have hend : range.stop = range.offset + range.length := saturatingAdd_eq hrange.2
    split at hr
    · rcases List.mem_cons.mp hr with rfl | hr
      · -- the last range only grows, up to the larger of two ends
        show 0 < max last.stop range.stop - last.offset ∧
          last.offset + (max last.stop range.stop - last.offset) ≤ u64Max
        have := hlast.1
        have := hlast.2
        have := hrange.2
        omega
      · exact hmerged r (.tail _ hr)
    · rcases List.mem_cons.mp hr with rfl | hr
      · exact hrange
      · exact hmerged r hr

theorem proper_foldl_mergeStep :
    ∀ {merged : List ByteRange}, (∀ r ∈ merged, r.Proper) → (∀ r ∈ ranges, r.Proper) →
      ∀ r ∈ ranges.foldl mergeStep merged, r.Proper := by
  induction ranges with
  | nil => exact fun hmerged _ => hmerged
  | cons q qs ih =>
    intro merged hmerged hranges
    exact ih (proper_mergeStep hmerged (hranges q (.head _)))
      fun r hr => hranges r (.tail _ hr)

theorem Canonical.mergeRange (h : Canonical total ranges)
    (hin : incoming.offset + incoming.length ≤ total) (hpos : 0 < incoming.length)
    (htotal : total ≤ u64Max) : Canonical total (mergeRange ranges incoming) := by
  refine ⟨(h.toMerged.mergeRange hin htotal).1, fun r hr => ?_⟩
  refine (proper_foldl_mergeStep (fun q hq => by cases hq) (fun q hq => ?_) r
    (List.mem_reverse.mp hr)).1
  rw [List.mem_insertionSort, List.mem_append, List.mem_singleton] at hq
  rcases hq with hq | rfl
  · exact ⟨h.pos q hq, Nat.le_trans (h.inside q hq) htotal⟩
  · exact ⟨hpos, Nat.le_trans hin htotal⟩

/-- The chunks of an upload, one after the other, from any canonical list. -/
theorem Canonical.foldl (htotal : total ≤ u64Max) {chunks : List ByteRange} :
    ∀ {ranges : List ByteRange}, Canonical total ranges →
      (∀ c ∈ chunks, 0 < c.length ∧ c.offset + c.length ≤ total) →
      Canonical total (chunks.foldl Imago.mergeRange ranges) ∧
        ∀ i, Covered (chunks.foldl Imago.mergeRange ranges) i ↔ Covered ranges i ∨
          Covered chunks i := by
  induction chunks with
  | nil => exact fun h _ => ⟨h, fun i => by simp [Covered]⟩
  | cons c cs ih =>
    intro ranges h hchunks
    obtain ⟨hpos, hin⟩ := hchunks c (.head _)
    obtain ⟨hcanonical, hcov⟩ := ih (h.mergeRange hin hpos htotal)
      fun c' hc' => hchunks c' (.tail _ hc')
    refine ⟨hcanonical, fun i => ?_⟩
    rw [List.foldl_cons, hcov i, (h.toMerged.mergeRange hin htotal).2 i, or_assoc, covered_cons]

/-! ### The three scans of a canonical list -/

theorem Merged.isComplete_iff (h : Merged total ranges) (hpos : 0 < total) :
    Imago.isComplete ranges total = true ↔ ∀ i, Covered ranges i ↔ i < total := by
  constructor
  · intro hcomplete i
    refine ⟨fun ⟨r, hr, hri⟩ => Nat.lt_of_lt_of_le hri.2 (h.inside r hr), fun hi => ?_⟩
    exact covered_of_isComplete hcomplete hi
  · exact fun hall => h.isComplete hpos fun i => (hall i).mpr

/-- Between two gaps lies a range, so no two gaps touch. -/
theorem allMissingFrom_apart (htotal : total ≤ u64Max) :
    ∀ {cursor : Nat}, Canonical total ranges → (∀ r ∈ ranges, cursor ≤ r.offset) →
      (allMissingFrom total cursor ranges).Pairwise fun a b => a.offset + a.length < b.offset := by
  induction ranges with
  | nil =>
    intro cursor _ _
    rw [allMissingFrom]
    split
    · exact List.pairwise_singleton ..
    · exact List.Pairwise.nil
  | cons r rs ih =>
    intro cursor h hbehind
    have hr := hbehind r (.head _)
    have hin := h.inside r (.head _)
    have hpos := h.pos r (.head _)
    have hstop : max cursor r.stop = r.offset + r.length := by
      rw [ByteRange.stop_eq hin htotal]; omega
    have hnext : ∀ q ∈ rs, r.offset + r.length ≤ q.offset := fun q hq =>
      Nat.le_of_lt ((List.pairwise_cons.mp h.apart).1 q hq)
    rw [allMissingFrom, hstop]
    refine List.pairwise_append.mpr ⟨?_, ?_, fun a ha b hb => ?_⟩
    · split
      · exact List.pairwise_singleton ..
      · exact List.Pairwise.nil
    · split
      · exact List.Pairwise.nil
      · exact ih h.tail hnext
    · -- the gap ends where `r` begins, the next one starts where `r` ends or later
      have hend : a.offset + a.length ≤ r.offset := ((pieces_gap hr).1.bounds a ha).2
      have hstart : r.offset + r.length ≤ b.offset := by
        split at hb
        · cases hb
        · exact ((allMissingFrom_spec htotal hin h.tail.toMerged hnext).1.bounds b hb).1
      omega

/-- The two scans agree on the first gap, though their cursors move differently. -/
theorem nextMissingFrom_eq_head? (htotal : total ≤ u64Max) :
    ∀ {cursor : Nat}, Merged total ranges → (∀ r ∈ ranges, cursor ≤ r.offset) →
      nextMissingFrom total cursor ranges = (allMissingFrom total cursor ranges).head? := by
  induction ranges with
  | nil =>
    intro cursor _ _
    rw [nextMissingFrom, allMissingFrom]
    split <;> rfl
  | cons r rs ih =>
    intro cursor h hbehind
    have hin := h.inside r (.head _)
    have hr := hbehind r (.head _)
    have hstop := ByteRange.stop_eq hin htotal
    have hapart := (List.pairwise_cons.mp h.apart).1
    rw [nextMissingFrom, allMissingFrom]
    split
    · rfl
    · rw [List.nil_append, Nat.max_eq_right (by omega)]
      split
      · -- nothing lies behind a range that ends with the artifact
        have hnil : rs = [] := by
          refine List.eq_nil_iff_forall_not_mem.mpr fun q hq => ?_
          have := hapart q hq
          have := h.inside q (.tail _ hq)
          omega
        rw [hnil, nextMissingFrom, if_neg (by omega)]
        rfl
      · exact ih h.tail fun q hq => by have := hapart q hq; omega

theorem Canonical.allMissingRanges (hpos : 0 < total) (htotal : total ≤ u64Max)
    (h : Canonical total ranges) : Canonical total (allMissingRanges ranges total) := by
  have hpieces := (allMissingRanges_spec hpos htotal h.toMerged).1
  refine ⟨⟨?_, fun r hr => (hpieces.bounds r hr).2⟩, hpieces.pos⟩
  rw [allMissingRanges_eq hpos]
  exact allMissingFrom_apart htotal h fun r _ => Nat.zero_le _

theorem nextMissingRange_eq_head? (hpos : 0 < total) (htotal : total ≤ u64Max)
    (h : Merged total ranges) :
    nextMissingRange ranges total = (allMissingRanges ranges total).head? := by
  rw [allMissingRanges_eq hpos, ← nextMissingFrom_eq_head? htotal h fun r _ => Nat.zero_le _,
    nextMissingRange, if_neg (Nat.pos_iff_ne_zero.mp hpos)]
  split
  · rename_i hempty
    rw [List.isEmpty_iff.mp hempty, nextMissingFrom, if_pos hpos, rangeFromStartEnd, Nat.sub_zero]
  · rfl

/-- Nothing is missing exactly when the list is complete. -/
theorem nextMissingRange_eq_none_iff (hpos : 0 < total) (htotal : total ≤ u64Max)
    (h : Merged total ranges) :
    nextMissingRange ranges total = none ↔ isComplete ranges total = true := by
  obtain ⟨hpieces, hmissing⟩ := allMissingRanges_spec hpos htotal h
  rw [nextMissingRange_eq_head? hpos htotal h, List.head?_eq_none_iff, h.isComplete_iff hpos]
  constructor
  · intro hnil i
    refine ⟨fun ⟨r, hr, hri⟩ => Nat.lt_of_lt_of_le hri.2 (h.inside r hr), fun hi => ?_⟩
    by_contra hnot
    obtain ⟨_, hr, -⟩ := (hmissing i).mpr ⟨hi, hnot⟩
    rw [hnil] at hr
    cases hr
  · intro hall
    refine List.eq_nil_iff_forall_not_mem.mpr fun r hr => ?_
    have hfirst : r.Contains r.offset :=
      ⟨Nat.le_refl _, Nat.lt_add_of_pos_right (hpieces.pos r hr)⟩
    obtain ⟨hlt, hnot⟩ := (hmissing r.offset).mp ⟨r, hr, hfirst⟩
    exact hnot ((hall _).mpr hlt)

/-- **The bookkeeping of an upload is exact**: the chunks of a non-empty
artifact leave the canonical list of the bytes that they cover, in whatever
order they come, and on every canonical list the three scans say which bytes
are missing. -/
theorem received_ranges_canonical {total : Nat} (hpos : 0 < total) (htotal : total ≤ u64Max)
    {chunks : List ByteRange} (hchunks : ∀ c ∈ chunks, 0 < c.length ∧ c.offset + c.length ≤ total) :
    Canonical total (chunks.foldl mergeRange []) ∧
      (∀ i, Covered (chunks.foldl mergeRange []) i ↔ Covered chunks i) ∧
      (∀ chunks' : List ByteRange, chunks'.Perm chunks →
        chunks'.foldl mergeRange [] = chunks.foldl mergeRange []) ∧
      ∀ ranges, Canonical total ranges →
        (isComplete ranges total = true ↔ ∀ i, Covered ranges i ↔ i < total) ∧
        Canonical total (allMissingRanges ranges total) ∧
        (∀ i, Covered (allMissingRanges ranges total) i ↔ i < total ∧ ¬Covered ranges i) ∧
        nextMissingRange ranges total = (allMissingRanges ranges total).head? ∧
        (nextMissingRange ranges total = none ↔ isComplete ranges total = true) := by
  have hfold : ∀ cs : List ByteRange, (∀ c ∈ cs, 0 < c.length ∧ c.offset + c.length ≤ total) →
      Canonical total (cs.foldl mergeRange []) ∧
        ∀ i, Covered (cs.foldl mergeRange []) i ↔ Covered cs i := by
    intro cs hcs
    obtain ⟨hcanonical, hcov⟩ := Canonical.foldl htotal (Canonical.nil total) hcs
    exact ⟨hcanonical, fun i => by rw [hcov i]; simp [Covered]⟩
  obtain ⟨hcanonical, hcov⟩ := hfold chunks hchunks
  refine ⟨hcanonical, hcov, fun chunks' hperm => ?_, fun ranges h => ?_⟩
  · -- the same bytes have the same canonical list
    obtain ⟨hcanonical', hcov'⟩ := hfold chunks' fun c hc => hchunks c (hperm.mem_iff.mp hc)
    refine hcanonical'.ext hcanonical fun i => ?_
    rw [hcov', hcov]
    simp only [Covered, hperm.mem_iff]
  · exact ⟨h.toMerged.isComplete_iff hpos, Canonical.allMissingRanges hpos htotal h,
      (allMissingRanges_spec hpos htotal h.toMerged).2,
      nextMissingRange_eq_head? hpos htotal h.toMerged,
      nextMissingRange_eq_none_iff hpos htotal h.toMerged⟩

theorem received_ranges_canonical_chunks :
    [⟨4, 4⟩, ⟨0, 4⟩].foldl mergeRange [] = [⟨0, 4⟩, ⟨4, 4⟩].foldl mergeRange [] ∧
      Canonical 12 ([⟨0, 4⟩, ⟨4, 4⟩].foldl mergeRange []) := by
  obtain ⟨hcanonical, -, hperm, -⟩ := @received_ranges_canonical 12 (by decide) (by decide)
    [⟨0, 4⟩, ⟨4, 4⟩] (by decide)
  exact ⟨hperm _ (List.Perm.swap ..), hcanonical⟩

/-- An artifact of no bytes has nothing left to send, yet its empty list does
not count as complete; `prepare` turns such an artifact away. -/
theorem empty_artifact_incomplete :
    isComplete ([].foldl mergeRange []) 0 = false ∧
      (∀ i, Covered ([].foldl mergeRange []) i ↔ i < 0) ∧
      nextMissingRange ([].foldl mergeRange []) 0 = none :=
  ⟨rfl, fun i => by simp [Covered], rfl⟩

end Imago
