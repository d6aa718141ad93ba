/-
Imago/PathTree.lean

Trees of named nodes, given by what stands at each path.  A path is the list
of its components, and `PathTree κ α` maps every path to its node, if there is
one.  The operations of a file system on whole subtrees all come down to one:
`graft t p s` puts the tree `s` at the path `p`, in the place of whatever was
there.  Removing a subtree grafts the empty tree, moving it grafts it in one
place and the empty tree in the other.

What an operation changes is described from the side of the observer: `below
t q` is the subtree at `q`, and it is not affected by work at a path that is
*apart* from `q`, neither above nor below it.
-/
import Mathlib.Data.List.Infix
import Mathlib.Logic.Function.Basic

namespace Imago

/-- A tree: the node at each path. -/
abbrev PathTree (κ α : Type*) := List κ → Option α

namespace PathTree

variable {κ α : Type*} [DecidableEq κ]

/-! ### Operations -/

omit [DecidableEq κ] in
/-- The subtree at `p`. -/
def below (t : PathTree κ α) (p : List κ) : PathTree κ α := fun r => t (p ++ r)

/-- The tree with the subtree at `p` replaced by `s`. -/
def graft (t : PathTree κ α) (p : List κ) (s : PathTree κ α) : PathTree κ α := fun r =>
  if p <+: r then s (r.drop p.length) else t r

/-- The tree without the subtree at `p`. -/
def remove (t : PathTree κ α) (p : List κ) : PathTree κ α := t.graft p fun _ => none

/-- The subtree at `p` is moved to `q`. -/
def move (t : PathTree κ α) (p q : List κ) : PathTree κ α := (t.remove p).graft q (t.below p)

/-- One node is set, whatever was there. -/
def put (t : PathTree κ α) (p : List κ) (x : α) : PathTree κ α := fun r =>
  if r = p then some x else t r

/-- Every path on the way to `p` that has no node gets the node `x`; the root
itself is left out. -/
def fill (t : PathTree κ α) (p : List κ) (x : α) : PathTree κ α := fun r =>
  if r <+: p ∧ r ≠ [] ∧ (t r).isNone then some x else t r

/-! ### Paths apart -/

omit [DecidableEq κ] in
/-- Neither path is above the other. -/
def Apart (p q : List κ) : Prop := ¬ p <+: q ∧ ¬ q <+: p

omit [DecidableEq κ] in
theorem apart_of_head_ne {x y : κ} (h : x ≠ y) (p q : List κ) : Apart (x :: p) (y :: q) :=
  ⟨fun hp => h (List.cons_prefix_cons.mp hp).1, fun hq => h (List.cons_prefix_cons.mp hq).1.symm⟩

/-! ### What an operation leaves -/

variable {t s : PathTree κ α} {p q r : List κ} {x : α}

omit [DecidableEq κ] in
@[simp] theorem below_apply (r : List κ) : t.below p r = t (p ++ r) := rfl

omit [DecidableEq κ] in
theorem below_nil_apply : t.below p [] = t p := by rw [below_apply, List.append_nil]

theorem graft_of_not_prefix (h : ¬ p <+: r) : t.graft p s r = t r := if_neg h

@[simp] theorem below_graft_self : (t.graft p s).below p = s := by
  funext r
  rw [below_apply, graft, if_pos (List.prefix_append p r), List.drop_left]

theorem remove_of_prefix (h : p <+: r) : t.remove p r = none := if_pos h

theorem remove_of_not_prefix (h : ¬ p <+: r) : t.remove p r = t r := graft_of_not_prefix h

@[simp] theorem below_move_self : (t.move p q).below q = t.below p := below_graft_self

theorem move_of_not_prefix (hp : ¬ p <+: r) (hq : ¬ q <+: r) : t.move p q r = t r := by
  rw [move, graft_of_not_prefix hq, remove_of_not_prefix hp]

@[simp] theorem put_self : t.put p x p = some x := if_pos rfl

theorem put_of_ne (h : r ≠ p) : t.put p x r = t r := if_neg h

theorem fill_of_not_prefix (h : ¬ r <+: p) : t.fill p x r = t r := if_neg fun hr => h hr.1

theorem fill_of_some {y : α} (h : t r = some y) : t.fill p x r = some y := by
  rw [fill, if_neg, h]
  rintro ⟨-, -, hnone⟩
  rw [h] at hnone
  cases hnone

theorem fill_self (hp : p ≠ []) : t.fill p x p = some ((t p).getD x) := by
  rcases h : t p with - | y
  · rw [fill, if_pos ⟨List.prefix_refl p, hp, by rw [h]; rfl⟩]
    rfl
  · rw [fill_of_some h]
    rfl

/-- Work under `p` is work on the subtree at `p`. -/
theorem below_put_append : (t.put (p ++ q) x).below p = (t.below p).put q x := by
  funext r
  show (if p ++ r = p ++ q then some x else t (p ++ r)) = if r = q then some x else t (p ++ r)
  exact if_congr (List.append_right_inj p) rfl rfl

/-- The same for the nodes on a way, once the start of the way is there. -/
theorem below_fill_append (h : (t p).isSome) :
    (t.fill (p ++ q) x).below p = (t.below p).fill q x := by
  funext r
  rcases r with - | ⟨y, r⟩
  · obtain ⟨z, hz⟩ := Option.isSome_iff_exists.mp h
    rw [below_nil_apply, fill_of_some hz, fill, if_neg fun hr => hr.2.1 rfl, below_nil_apply, hz]
  · have hprefix : p ++ y :: r <+: p ++ q ↔ y :: r <+: q := List.prefix_append_right_inj p
    simp [fill, hprefix]

end PathTree

end Imago
