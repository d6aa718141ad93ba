/-
Imago/Delimited.lean

Texts that are joined by a separator and not escaped.

Where a separator may also stand inside a text, the joined text does not say
where it was cut.  It does once it is known how often the separator occurs in
the text in front of the cut (`append_cons_inj`).  So a list of entries, each
a key and a value ended by a separator of its own, is determined by the joined
text together with these numbers (`flatMap_entry_inj`), and the numbers are
what an encoding without lengths or escapes loses.
-/
import Mathlib.Data.List.Basic

namespace Imago.Delimited

variable {α : Type*} [DecidableEq α]

/-- The cut behind a known number of separators. -/
theorem append_cons_inj {c : α} {a b x y : List α} (hcount : a.count c = b.count c)
    (h : a ++ c :: x = b ++ c :: y) : a = b ∧ x = y := by
  induction a generalizing b with
  | nil =>
    cases b with
    | nil => exact ⟨rfl, (List.cons.inj h).2⟩
    | cons e b =>
      -- the other text would begin with a separator more
      obtain ⟨rfl, -⟩ := List.cons.inj h
      simp at hcount
  | cons d a ih =>
    cases b with
    | nil =>
      obtain ⟨rfl, -⟩ := List.cons.inj h
      simp at hcount
    | cons e b =>
      obtain ⟨rfl, htail⟩ := List.cons.inj h
      rw [List.count_cons, List.count_cons, Nat.add_right_cancel_iff] at hcount
      obtain ⟨rfl, rfl⟩ := ih hcount htail
      exact ⟨rfl, rfl⟩

/-- A key and a value, each ended by its separator. -/
def entry (inner outer : α) (e : List α × List α) : List α :=
  e.1 ++ inner :: (e.2 ++ [outer])

/-- How often the separators occur where they would end a text too early. -/
def separators (inner outer : α) (e : List α × List α) : Nat × Nat :=
  (e.1.count inner, e.2.count outer)

/-- Entries one after the other, in front of a rest. -/
theorem flatMap_entry_inj {inner outer : α} {xs ys : List (List α × List α)} {r s : List α}
    (hseps : xs.map (separators inner outer) = ys.map (separators inner outer))
    (h : xs.flatMap (entry inner outer) ++ r = ys.flatMap (entry inner outer) ++ s) :
    xs = ys ∧ r = s := by
  induction xs generalizing ys with
  | nil =>
    obtain rfl := List.map_eq_nil_iff.mp hseps.symm
    exact ⟨rfl, h⟩
  | cons x xs ih =>
    cases ys with
    | nil => cases hseps
    | cons y ys =>
      obtain ⟨hfirst, hseps⟩ := List.cons.inj hseps
      obtain ⟨hkey, hvalue⟩ := Prod.mk.inj hfirst
      simp only [List.flatMap_cons, entry, List.append_assoc, List.cons_append,
        List.nil_append] at h
      obtain ⟨hk, h⟩ := append_cons_inj hkey h
      obtain ⟨hv, h⟩ := append_cons_inj hvalue h
      obtain ⟨rfl, rfl⟩ := ih hseps h
      exact ⟨congrArg (· :: xs) (Prod.ext hk hv), rfl⟩

end Imago.Delimited
