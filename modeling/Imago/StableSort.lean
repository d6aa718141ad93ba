/-
Imago/StableSort.lean

Who is among the first `n` of a stable sort.

A list that is ordered by a first key and then sorted stably by a second one
is ordered by the second key with ties broken by the first (`Before`).  So an
entry is among the first `n` exactly if fewer than `n` entries come before it
(`mem_take_insertionSort`), which says what a "least recently used first"
selection picks without mentioning the sort.
-/
import Mathlib.Data.List.Sort

namespace Imago

section Ranks

variable {α : Type*} {lt : α → α → Prop} [DecidableRel lt]

/-- In an ordered list the first `n` entries are those of rank below `n`. -/
theorem mem_take_iff_countP_lt (hasymm : ∀ a b, lt a b → ¬lt b a) {l : List α}
    (hl : l.Pairwise lt) (x : α) (n : Nat) :
    x ∈ l.take n ↔ x ∈ l ∧ l.countP (fun y => lt y x) < n := by
  induction l generalizing n with
  | nil => simp
  | cons a l ih =>
    obtain ⟨ha, hl⟩ := List.pairwise_cons.mp hl
    have hirrefl : ∀ b, ¬lt b b := fun b hb => hasymm b b hb hb
    rcases n with - | n
    · simp
    rw [List.take_succ_cons, List.mem_cons, List.mem_cons, List.countP_cons, ih hl n]
    by_cases hx : x = a
    · subst hx
      -- nothing comes before the head
      have hzero : l.countP (fun y => lt y x) = 0 := by
        rw [List.countP_eq_zero]
        intro y hy
        simpa using hasymm x y (ha y hy)
      simp [hzero, hirrefl]
    · constructor
      · rintro (h | ⟨hmem, hlt⟩)
        · exact absurd h hx
        · refine ⟨.inr hmem, ?_⟩
          rw [if_pos (by simpa using ha x hmem)]
          omega
      · rintro ⟨h | hmem, hlt⟩
        · exact absurd h hx
        · rw [if_pos (by simpa using ha x hmem)] at hlt
          exact .inr ⟨hmem, by omega⟩

end Ranks

section Stable

variable {α β : Type*} [LinearOrder α] [LinearOrder β]

/-- `a` comes before `b`: a smaller second key, or the same and a smaller first. -/
def Before (a b : α × β) : Prop := a.2 < b.2 ∨ a.2 = b.2 ∧ a.1 < b.1

instance (a b : α × β) : Decidable (Before a b) :=
  inferInstanceAs (Decidable (_ ∨ _ ∧ _))

theorem Before.asymm (a b : α × β) (h : Before a b) : ¬Before b a := by
  rintro (h' | ⟨h', h''⟩) <;> rcases h with h | ⟨h, hk⟩
  · exact absurd h' h.asymm
  · exact absurd h' (h ▸ lt_irrefl _)
  · exact absurd h (h' ▸ lt_irrefl _)
  · exact absurd h'' hk.asymm

/-- Inserting an entry that is first by the first key. -/
theorem pairwise_before_orderedInsert {a : α × β} {l : List (α × β)} (hl : l.Pairwise Before)
    (ha : ∀ b ∈ l, a.1 < b.1) :
    (l.orderedInsert (fun a b => a.2 ≤ b.2) a).Pairwise Before := by
  induction l with
  | nil => simp
  | cons b l ih =>
    obtain ⟨hb, hl'⟩ := List.pairwise_cons.mp hl
    by_cases hab : a.2 ≤ b.2
    · rw [List.orderedInsert_cons_of_le (fun a b : α × β => a.2 ≤ b.2) l hab]
      refine List.pairwise_cons.mpr ⟨?_, hl⟩
      have hfirst : ∀ c ∈ b :: l, a.2 ≤ c.2 → Before a c := by
        intro c hc hle
        rcases hle.lt_or_eq with h | h
        · exact .inl h
        · exact .inr ⟨h, ha c hc⟩
      intro c hc
      refine hfirst c hc ?_
      rcases List.mem_cons.mp hc with rfl | hc
      · exact hab
      · rcases hb c hc with h | ⟨h, -⟩
        · exact hab.trans h.le
        · exact hab.trans h.le
    · rw [List.orderedInsert_of_not_le (fun a b : α × β => a.2 ≤ b.2) l hab]
      refine List.pairwise_cons.mpr ⟨?_, ih hl' fun c hc => ha c (List.mem_cons_of_mem b hc)⟩
      intro c hc
      rcases List.mem_cons.mp ((List.perm_orderedInsert _ a l).mem_iff.mp hc) with rfl | hc
      · exact .inl (not_le.mp hab)
      · exact hb c hc

theorem pairwise_before_insertionSort {l : List (α × β)} (hl : l.Pairwise fun a b => a.1 < b.1) :
    (l.insertionSort fun a b => a.2 ≤ b.2).Pairwise Before := by
  induction l with
  | nil => simp
  | cons a l ih =>
    obtain ⟨ha, hl⟩ := List.pairwise_cons.mp hl
    refine pairwise_before_orderedInsert (ih hl) fun b hb => ?_
    exact ha b ((List.mem_insertionSort _).mp hb)

/-- **The first `n` of a stable sort** are the entries that fewer than `n`
others come before. -/
theorem mem_take_insertionSort {l : List (α × β)} (hl : l.Pairwise fun a b => a.1 < b.1)
    (x : α × β) (n : Nat) :
    x ∈ (l.insertionSort fun a b => a.2 ≤ b.2).take n ↔
      x ∈ l ∧ l.countP (fun y => Before y x) < n := by
  rw [mem_take_iff_countP_lt Before.asymm (pairwise_before_insertionSort hl),
    List.mem_insertionSort, (List.perm_insertionSort _ l).countP_eq]

end Stable

end Imago
