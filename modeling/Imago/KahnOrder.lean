/-
Imago/KahnOrder.lean

Kahn's algorithm: nodes are taken one after the other, each of them when no
predecessor of it is left, and what counts is the number of predecessors that are
left (`indegree`).

`succs v` lists the nodes behind `v`, each once.  Which of the ready nodes is taken
is left open: the last one of any arrangement of them.  The loop keeps `Inv`; it
ends within one step more than there are nodes (`loop_total`), and it has taken all
nodes exactly if there is no cycle (`taken_all_iff`).
-/
import Mathlib.Data.Fintype.EquivFin
import Mathlib.Data.Fintype.Card
import Mathlib.Order.WellFounded

namespace Imago.Kahn

variable {α : Type} [DecidableEq α]

/-- The successors of a node that has been taken: each in-degree goes down by one,
and a node whose in-degree is zero then is ready. -/
def relax : List α → (α → Nat) → List α → (α → Nat) × List α
  | [], indegree, ready => (indegree, ready)
  | v :: vs, indegree, ready =>
    let indegree := Function.update indegree v (indegree v - 1)
    relax vs indegree (if indegree v = 0 then ready ++ [v] else ready)

/-- The loop, with `arrange` for the order in which the ready nodes are kept. -/
def loop (arrange : List α → List α) (succs : α → List α) :
    Nat → List α → (α → Nat) → List α → Option (List α)
  | 0, _, _, _ => none
  | fuel + 1, ready, indegree, order =>
    match ready.getLast? with
    | none => some order
    | some next =>
      let (indegree, ready) := relax (succs next) indegree ready.dropLast
      loop arrange succs fuel (arrange ready) indegree (order ++ [next])

/-! ### One node -/

theorem relax_indegree {vs : List α} (hvs : vs.Nodup) (indegree : α → Nat) (ready : List α)
    (v : α) : (relax vs indegree ready).1 v = if v ∈ vs then indegree v - 1 else indegree v := by
  induction vs generalizing indegree ready with
  | nil => rfl
  | cons w vs ih =>
    obtain ⟨hw, hvs⟩ := List.nodup_cons.mp hvs
    rw [relax, ih hvs]
    by_cases hv : v = w
    · subst hv
      rw [if_neg hw, if_pos List.mem_cons_self, Function.update_self]
    · rw [Function.update_of_ne hv]
      simp only [List.mem_cons, hv, false_or]

theorem relax_ready {vs : List α} (hvs : vs.Nodup) (indegree : α → Nat) (ready : List α) :
    (relax vs indegree ready).2 = ready ++ vs.filter fun v => indegree v - 1 = 0 := by
  induction vs generalizing indegree ready with
  | nil => rw [relax, List.filter_nil, List.append_nil]
  | cons w vs ih =>
    obtain ⟨hw, hvs⟩ := List.nodup_cons.mp hvs
    have hrest : (vs.filter fun v => Function.update indegree w (indegree w - 1) v - 1 = 0) =
        vs.filter fun v => indegree v - 1 = 0 := by
      refine List.filter_congr fun v hv => ?_
      rw [Function.update_of_ne (ne_of_mem_of_not_mem hv hw)]
    rw [relax, ih hvs, hrest, Function.update_self, List.filter_cons]
    by_cases hzero : indegree w - 1 = 0
    · rw [if_pos hzero, if_pos (decide_eq_true hzero), List.append_assoc, List.singleton_append]
    · rw [if_neg hzero, if_neg (by simpa using hzero)]

/-! ### The invariant -/

/-- The predecessors of `v` that are left. -/
def left (nodes : Finset α) (succs : α → List α) (order : List α) (v : α) : Finset α :=
  nodes.filter fun a => a ∉ order ∧ v ∈ succs a

variable {nodes : Finset α} {succs : α → List α} {order : List α}

theorem mem_left {a v : α} :
    a ∈ left nodes succs order v ↔ a ∈ nodes ∧ a ∉ order ∧ v ∈ succs a :=
  Finset.mem_filter

theorem left_concat (order : List α) (next v : α) :
    left nodes succs (order ++ [next]) v = (left nodes succs order v).erase next := by
  ext a
  simp only [mem_left, Finset.mem_erase, List.mem_append, List.mem_singleton, not_or]
  tauto

/-- What the loop keeps. -/
structure Inv (nodes : Finset α) (succs : α → List α) (ready : List α) (indegree : α → Nat)
    (order : List α) : Prop where
  nodup : (order ++ ready).Nodup
  subset : ∀ v ∈ order ++ ready, v ∈ nodes
  indegree_eq : ∀ v ∈ nodes, indegree v = (left nodes succs order v).card
  ready_iff : ∀ v ∈ nodes, v ∈ order ++ ready ↔ indegree v = 0
  first : ∀ pre v post, order = pre ++ v :: post → ∀ a ∈ nodes, v ∈ succs a → a ∈ pre

variable {indegree : α → Nat} {ready : List α}

theorem Inv.perm {ready' : List α} (h : Inv nodes succs ready indegree order)
    (hperm : ready'.Perm ready) : Inv nodes succs ready' indegree order where
  nodup := (List.Perm.append_left order hperm).nodup_iff.mpr h.nodup
  subset v hv := h.subset v ((List.Perm.append_left order hperm).mem_iff.mp hv)
  indegree_eq := h.indegree_eq
  ready_iff v hv := ((List.Perm.append_left order hperm).mem_iff).trans (h.ready_iff v hv)
  first := h.first

/-- A node is taken. -/
theorem Inv.take {next : α} (hsuccs : ∀ a, (succs a).Nodup) (hnodes : ∀ a, ∀ v ∈ succs a, v ∈ nodes)
    (h : Inv nodes succs (ready ++ [next]) indegree order) :
    Inv nodes succs (relax (succs next) indegree ready).2 (relax (succs next) indegree ready).1
      (order ++ [next]) := by
  have hnext : next ∈ nodes := h.subset next (by simp)
  have hnodup := h.nodup
  rw [← List.append_assoc, List.nodup_append] at hnodup
  obtain ⟨hold, -, hnotin⟩ := hnodup
  have hnotmem : next ∉ order ++ ready := fun hmem => hnotin next hmem next (by simp) rfl
  have hzero : indegree next = 0 := (h.ready_iff next hnext).mp (by simp)
  -- a successor of the node had it among the predecessors that were left
  have hpos : ∀ v ∈ succs next, 0 < indegree v := by
    intro v hv
    rw [h.indegree_eq v (hnodes next v hv)]
    exact Finset.card_pos.mpr ⟨next, mem_left.mpr
      ⟨hnext, fun hmem => hnotmem (List.mem_append_left _ hmem), hv⟩⟩
  have hmem_ready : ∀ v, v ∈ (relax (succs next) indegree ready).2 ↔
      v ∈ ready ∨ (v ∈ succs next ∧ indegree v - 1 = 0) := by
    intro v
    rw [relax_ready (hsuccs next), List.mem_append, List.mem_filter, decide_eq_true_eq]
  have hold_iff : ∀ v ∈ nodes, v ∈ order ∨ v ∈ ready ∨ v = next ↔ indegree v = 0 := by
    intro v hv
    rw [← h.ready_iff v hv]
    simp only [List.mem_append, List.mem_singleton]
  refine ⟨?_, ?_, ?_, ?_, ?_⟩
  · rw [relax_ready (hsuccs next)]
    have hnew : ((order ++ ready) ++ next ::
        ((succs next).filter fun v => indegree v - 1 = 0)).Nodup := by
      refine List.nodup_append.mpr ⟨hold, List.nodup_cons.mpr ⟨?_, (hsuccs next).filter _⟩, ?_⟩
      · intro hmem
        have := hpos next (List.mem_of_mem_filter hmem)
        omega
      · rintro v hv w hw rfl
        rcases List.mem_cons.mp hw with rfl | hw
        · exact hnotmem hv
        · have hsucc := List.mem_of_mem_filter hw
          have := hpos v hsucc
          have := (hold_iff v (hnodes next v hsucc)).mp (by
            rcases List.mem_append.mp hv with hv | hv
            · exact .inl hv
            · exact .inr (.inl hv))
          omega
    refine (List.Perm.nodup_iff ?_).mp hnew
    rw [List.append_assoc, List.append_assoc]
    refine List.Perm.append_left order ?_
    rw [List.singleton_append]
    exact List.perm_middle
  · intro v hv
    simp only [List.mem_append, List.mem_singleton] at hv
    rcases hv with (hv | rfl) | hv
    · exact h.subset v (by simp [hv])
    · exact hnext
    · rcases (hmem_ready v).mp hv with hv | ⟨hv, -⟩
      · exact h.subset v (by simp [hv])
      · exact hnodes next v hv
  · intro v hv
    rw [relax_indegree (hsuccs next), left_concat, h.indegree_eq v hv]
    by_cases hsucc : v ∈ succs next
    · rw [if_pos hsucc, Finset.card_erase_of_mem]
      exact mem_left.mpr ⟨hnext, fun hmem => hnotmem (List.mem_append_left _ hmem), hsucc⟩
    · rw [if_neg hsucc, Finset.erase_eq_of_notMem]
      exact fun hmem => hsucc (mem_left.mp hmem).2.2
  · intro v hv
    rw [relax_indegree (hsuccs next)]
    have hiff : v ∈ order ++ [next] ++ (relax (succs next) indegree ready).2 ↔
        indegree v = 0 ∨ (v ∈ succs next ∧ indegree v - 1 = 0) := by
      rw [← hold_iff v hv]
      simp only [List.mem_append, List.mem_singleton, hmem_ready]
      tauto
    rw [hiff]
    by_cases hsucc : v ∈ succs next
    · rw [if_pos hsucc]
      constructor
      · rintro (hz | ⟨-, hz⟩)
        · omega
        · exact hz
      · exact fun hz => .inr ⟨hsucc, hz⟩
    · rw [if_neg hsucc]
      simp only [hsucc, false_and, or_false]
  · intro pre v post hsplit a ha hedge
    rcases List.eq_nil_or_concat post with rfl | ⟨post', x, rfl⟩
    · -- the node that is taken has no predecessor left
      obtain ⟨rfl, hv⟩ := List.append_inj' hsplit rfl
      obtain rfl : next = v := List.head_eq_of_cons_eq hv
      by_contra hnot
      have hempty := h.indegree_eq next hnext
      rw [hzero] at hempty
      exact Finset.notMem_empty a
        ((Finset.card_eq_zero.mp hempty.symm) ▸ mem_left.mpr ⟨ha, hnot, hedge⟩)
    · rw [List.concat_eq_append, ← List.cons_append, ← List.append_assoc] at hsplit
      obtain ⟨horder, -⟩ := List.append_inj' hsplit rfl
      exact h.first pre v post' horder a ha hedge

/-- **The loop ends, with nothing ready.** -/
theorem loop_total {arrange : List α → List α} (harrange : ∀ l, (arrange l).Perm l)
    (hsuccs : ∀ a, (succs a).Nodup) (hnodes : ∀ a, ∀ v ∈ succs a, v ∈ nodes) (fuel : Nat)
    (h : Inv nodes succs ready indegree order) (hfuel : nodes.card < fuel + order.length) :
    ∃ order' indegree', loop arrange succs fuel ready indegree order = some order' ∧
      Inv nodes succs [] indegree' order' := by
  induction fuel generalizing ready indegree order with
  | zero =>
    -- there are not more taken nodes than nodes
    have hle : (order ++ ready).length ≤ nodes.card := by
      rw [← List.toFinset_card_of_nodup h.nodup]
      exact Finset.card_le_card fun v hv => h.subset v (List.mem_toFinset.mp hv)
    rw [List.length_append] at hle
    omega
  | succ fuel ih =>
    rw [loop]
    rcases List.eq_nil_or_concat ready with rfl | ⟨rest, next, rfl⟩
    · exact ⟨order, indegree, rfl, h⟩
    · rw [List.concat_eq_append] at h ⊢
      rw [List.getLast?_concat]
      dsimp only
      rw [List.dropLast_concat]
      refine ih ((h.take hsuccs hnodes).perm (harrange _)) ?_
      rw [List.length_append, List.length_singleton]
      omega

/-! ### Cycles -/

/-- No way leads from a node back to it. -/
def Acyclic (succs : α → List α) : Prop := ∀ a, ¬Relation.TransGen (fun a b => b ∈ succs a) a a

/-- In an order with the predecessors first, a way leads to the right. -/
theorem acyclic_of_first (hnodes : ∀ a, ∀ v ∈ succs a, a ∈ order ∧ v ∈ order) (hnodup : order.Nodup)
    (hfirst : ∀ pre v post, order = pre ++ v :: post → ∀ a, v ∈ succs a → a ∈ pre) :
    Acyclic succs := by
  have hlt : ∀ a b, Relation.TransGen (fun a b => b ∈ succs a) a b →
      order.idxOf a < order.idxOf b := by
    have hstep : ∀ a b, b ∈ succs a → order.idxOf a < order.idxOf b := by
      intro a b hedge
      obtain ⟨pre, post, hsplit⟩ := List.append_of_mem (hnodes a b hedge).2
      have ha := hfirst pre b post hsplit a hedge
      have hb : b ∉ pre := by
        rw [hsplit, List.nodup_append] at hnodup
        exact fun hmem => hnodup.2.2 b hmem b (.head _) rfl
      rw [hsplit, List.idxOf_append_of_mem ha, List.idxOf_append_of_notMem hb, List.idxOf_cons_self,
        Nat.add_zero]
      exact List.idxOf_lt_length_of_mem ha
    intro a b hway
    induction hway with
    | single hedge => exact hstep _ _ hedge
    | tail _ hedge ih => exact Nat.lt_trans ih (hstep _ _ hedge)
  exact fun a hway => Nat.lt_irrefl _ (hlt a a hway)

omit [DecidableEq α] in
/-- Without a cycle, some node of a set has no predecessor in it. -/
theorem exists_source (h : Acyclic succs) {rest : Finset α} (hne : rest.Nonempty) :
    ∃ v ∈ rest, ∀ a ∈ rest, v ∉ succs a := by
  let way : rest → rest → Prop := fun a b => Relation.TransGen (fun a b => b ∈ succs a) a.1 b.1
  have : IsTrans rest way := ⟨fun _ _ _ => Relation.TransGen.trans⟩
  have : Std.Irrefl way := ⟨fun a => h a.1⟩
  have hwf : WellFounded way := Finite.wellFounded_of_trans_of_irrefl way
  obtain ⟨v, -, hv⟩ := hwf.has_min Set.univ ⟨⟨hne.choose, hne.choose_spec⟩, trivial⟩
  exact ⟨v.1, v.2, fun a ha hedge => hv ⟨a, ha⟩ trivial (.single hedge)⟩

/-- **All nodes have been taken exactly if there is no cycle.** -/
theorem taken_all_iff (hnodes : ∀ a, ∀ v ∈ succs a, a ∈ nodes ∧ v ∈ nodes)
    (h : Inv nodes succs [] indegree order) : order.length = nodes.card ↔ Acyclic succs := by
  have hnodup : order.Nodup := by simpa using h.nodup
  have hsubset : order.toFinset ⊆ nodes := fun v hv =>
    h.subset v (by simpa using List.mem_toFinset.mp hv)
  constructor
  · intro hlen
    have hall : order.toFinset = nodes :=
      Finset.eq_of_subset_of_card_le hsubset (by rw [List.toFinset_card_of_nodup hnodup, hlen])
    have hmem : ∀ a ∈ nodes, a ∈ order := fun a ha => List.mem_toFinset.mp (hall ▸ ha)
    exact acyclic_of_first
      (fun a v hv => ⟨hmem a (hnodes a v hv).1, hmem v (hnodes a v hv).2⟩) hnodup
      fun pre v post hsplit a hedge => h.first pre v post hsplit a (hnodes a v hedge).1 hedge
  · intro hacyclic
    by_contra hlen
    have hne : (nodes \ order.toFinset).Nonempty := by
      rw [Finset.sdiff_nonempty]
      intro hsub
      have := Finset.card_le_card hsub
      have := Finset.card_le_card hsubset
      rw [List.toFinset_card_of_nodup hnodup] at *
      omega
    obtain ⟨v, hv, hsource⟩ := exists_source hacyclic hne
    obtain ⟨hv, hnot⟩ := Finset.mem_sdiff.mp hv
    -- a node that is not taken has a predecessor that is not taken
    have hpos : indegree v ≠ 0 := fun hzero => hnot (List.mem_toFinset.mpr (by
      simpa using (h.ready_iff v hv).mpr hzero))
    rw [h.indegree_eq v hv] at hpos
    obtain ⟨a, ha⟩ := Finset.card_pos.mp (Nat.pos_of_ne_zero hpos)
    obtain ⟨ha, hanot, hedge⟩ := mem_left.mp ha
    exact hsource a (Finset.mem_sdiff.mpr ⟨ha, fun hmem => hanot (List.mem_toFinset.mp hmem)⟩) hedge

end Imago.Kahn
