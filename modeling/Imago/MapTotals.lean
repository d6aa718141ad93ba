/-
Imago/MapTotals.lean

Sums over the values of a tree map, for stores that keep a running total beside
a map: what the total does under `erase` and `insert`, and when two maps with
different keys have the same total.
-/
import Imago.RustStd
import Mathlib.Data.List.Perm.Lattice

namespace Imago

open Std (TreeMap)

section Totals

variable {α β : Type} [Ord α] [Std.TransOrd α] [Std.LawfulEqOrd α] {t : TreeMap α β}
  {size : β → Nat} {k : α} {v : β}

/-- The sum of the sizes of the values. -/
def totalOf (size : β → Nat) (t : TreeMap α β) : Nat := (t.toList.map fun e => size e.2).sum

theorem nodup_toList (t : TreeMap α β) : t.toList.Nodup :=
  TreeMap.distinct_keys_toList.imp fun h he => h (by rw [he]; exact Std.ReflCmp.compare_self)

/-- An entry taken out of the list of entries. -/
theorem toList_perm_erase (h : t[k]? = some v) : t.toList.Perm ((k, v) :: (t.erase k).toList) := by
  classical
  refine (List.perm_ext_iff_of_nodup (nodup_toList t)
    (List.nodup_cons.mpr ⟨?_, nodup_toList _⟩)).mpr
    fun ⟨k', v'⟩ => ?_
  · rw [TreeMap.mem_toList_iff_getElem?_eq_some, TreeMap.getElem?_erase_self]
    exact nofun
  · rw [List.mem_cons, TreeMap.mem_toList_iff_getElem?_eq_some,
      TreeMap.mem_toList_iff_getElem?_eq_some, getElem?_erase_ite]
    by_cases hk : k = k'
    · subst hk
      rw [if_pos rfl, h]
      simp [eq_comm]
    · rw [if_neg hk]
      simp [Ne.symm hk]

theorem totalOf_erase (size : β → Nat) (h : t[k]? = some v) :
    totalOf size (t.erase k) + size v = totalOf size t := by
  unfold totalOf
  rw [((toList_perm_erase h).map _).sum_nat, List.map_cons, List.sum_cons, Nat.add_comm]

/-- The total depends on what is looked up only. -/
theorem totalOf_congr {t' : TreeMap α β} (h : ∀ a : α, t[a]? = t'[a]?) :
    totalOf size t = totalOf size t' := by
  have hperm : t.toList.Perm t'.toList := by
    refine (List.perm_ext_iff_of_nodup (nodup_toList _) (nodup_toList _)).mpr fun ⟨k, v⟩ => ?_
    rw [TreeMap.mem_toList_iff_getElem?_eq_some, TreeMap.mem_toList_iff_getElem?_eq_some, h]
  exact (hperm.map _).sum_nat

theorem totalOf_erase_of_none (h : t[k]? = none) :
    totalOf size (t.erase k) = totalOf size t := by
  classical
  refine totalOf_congr fun a => ?_
  rw [getElem?_erase_ite]
  split
  · next heq => rw [← heq, h]
  · rfl

theorem totalOf_insert (h : t[k]? = none) :
    totalOf size (t.insert k v) = totalOf size t + size v := by
  have hself : (t.insert k v)[k]? = some v := TreeMap.getElem?_insert_self
  have hgone : totalOf size ((t.insert k v).erase k) = totalOf size t := by
    classical
    refine totalOf_congr fun a => ?_
    rw [getElem?_erase_ite, getElem?_insert_ite]
    split
    · next heq => rw [← heq, h]
    · rfl
  rw [← totalOf_erase size hself, hgone]

omit [Std.TransOrd α] [Std.LawfulEqOrd α] in
theorem totalOf_empty (h : t.toList = []) : totalOf size t = 0 := by
  rw [totalOf, h]
  rfl

theorem totalOf_eq_sum_keys :
    totalOf size t = (t.keys.map fun k => (t[k]?).elim 0 size).sum := by
  unfold totalOf
  rw [← TreeMap.map_fst_toList_eq_keys, List.map_map]
  refine congrArg List.sum (List.map_congr_left fun ⟨k, v⟩ he => ?_)
  show size v = (t[k]?).elim 0 size
  rw [TreeMap.mem_toList_iff_getElem?_eq_some.mp he]
  rfl

end Totals

/-- Two maps whose keys and sizes correspond have the same total. -/
theorem totalOf_eq_of_keys {α β γ δ : Type} [Ord α] [Std.TransOrd α] [Std.LawfulEqOrd α] [Ord γ]
    [Std.TransOrd γ] [Std.LawfulEqOrd γ] {t : TreeMap α β} {u : TreeMap γ δ} {size : β → Nat}
    {size' : δ → Nat} (g : α → γ) (hinj : ∀ a ∈ t, ∀ a' ∈ t, g a = g a' → a = a')
    (hkeys : ∀ c, c ∈ u ↔ ∃ a, a ∈ t ∧ g a = c)
    (hsize : ∀ a b, t[a]? = some b → (u[g a]?).elim 0 size' = size b) :
    totalOf size' u = totalOf size t := by
  have hnodup : ∀ {α β : Type} [Ord α] [Std.TransOrd α] [Std.LawfulEqOrd α] (t : TreeMap α β),
      t.keys.Nodup := fun t =>
    TreeMap.distinct_keys.imp fun h he => h (by rw [he]; exact Std.ReflCmp.compare_self)
  have hperm : u.keys.Perm (t.keys.map g) := by
    refine (List.perm_ext_iff_of_nodup (hnodup u) ?_).mpr fun c => ?_
    · exact (List.nodup_map_iff_inj_on (hnodup t)).mpr fun a ha a' ha' =>
        hinj a (TreeMap.mem_keys.mp ha) a' (TreeMap.mem_keys.mp ha')
    · rw [TreeMap.mem_keys, hkeys, List.mem_map]
      simp only [TreeMap.mem_keys]
  rw [totalOf_eq_sum_keys, totalOf_eq_sum_keys, (hperm.map _).sum_nat, List.map_map]
  refine congrArg List.sum (List.map_congr_left fun a ha => ?_)
  obtain ⟨b, hb⟩ := Option.isSome_iff_exists.mp
    (TreeMap.mem_iff_isSome_getElem?.mp (TreeMap.mem_keys.mp ha))
  show (u[g a]?).elim 0 size' = (t[a]?).elim 0 size
  rw [hsize a b hb, hb]
  rfl

end Imago
