/-
Imago/Custody.lean

Who holds what.  Items that must not get lost (processes, permits, file
handles) are kept in *places*; a place holds at most one item.  The map
`held : Place → Option Item` is the whole bookkeeping, and `Custody needed held`
says that it is in order: no item is in two places, and every item that is
still needed is in some place.

A system that only ever moves items changes `held` in four ways, and each has
its rule:

* `Custody.forget`: fewer items are needed than before;
* `Custody.clear`: a place is emptied that held nothing needed;
* `Custody.move`: an item goes to another place, over something not needed;
* `Custody.place`: a new item appears in an empty place.
-/
import Mathlib.Logic.Function.Basic

namespace Imago

open Function (update update_apply update_of_ne update_self)

variable {Place Item : Type*} [DecidableEq Place]

/-- Every needed item is held, and no item is held twice. -/
structure Custody (needed : Item → Prop) (held : Place → Option Item) : Prop where
  unique : ∀ {p q : Place} {x : Item}, held p = some x → held q = some x → p = q
  covered : ∀ {x : Item}, needed x → ∃ p, held p = some x

namespace Custody

variable {needed : Item → Prop} {held : Place → Option Item} {p q : Place} {x : Item}

omit [DecidableEq Place] in
/-- The place of a needed item is determined. -/
theorem existsUnique (h : Custody needed held) (hx : needed x) : ∃! p, held p = some x := by
  obtain ⟨p, hp⟩ := h.covered hx
  exact ⟨p, hp, fun q hq => h.unique hq hp⟩

omit [DecidableEq Place] in
theorem forget {needed' : Item → Prop} (h : Custody needed held)
    (hle : ∀ x, needed' x → needed x) : Custody needed' held where
  unique := h.unique
  covered hx := h.covered (hle _ hx)

theorem clear (h : Custody needed held) (hp : ∀ x, held p = some x → ¬ needed x) :
    Custody needed (update held p none) where
  unique := by
    intro q r y hq hr
    have hold : ∀ {s}, update held p none s = some y → held s = some y := by
      intro s hs
      rw [update_apply] at hs
      split at hs
      · cases hs
      · exact hs
    exact h.unique (hold hq) (hold hr)
  covered := by
    intro y hy
    obtain ⟨r, hr⟩ := h.covered hy
    have hne : r ≠ p := fun e => hp y (e ▸ hr) hy
    exact ⟨r, by rwa [update_of_ne hne]⟩

theorem move (h : Custody needed held) (hx : held p = some x)
    (hq : ∀ y, held q = some y → ¬ needed y) :
    Custody needed (update (update held p none) q (some x)) where
  unique := by
    -- after the move the item is in `q` only, and nothing else has moved
    have hold : ∀ {r y}, r ≠ q →
        update (update held p none) q (some x) r = some y →
        held r = some y ∧ y ≠ x := by
      intro r y hr hy
      rw [update_of_ne hr, update_apply] at hy
      split at hy
      · cases hy
      · next hrp =>
        refine ⟨hy, fun hyx => hrp ?_⟩
        rw [hyx] at hy
        exact h.unique hy hx
    intro r s y hr hs
    by_cases hrq : r = q <;> by_cases hsq : s = q
    · rw [hrq, hsq]
    · rw [hrq, update_self] at hr
      cases hr
      exact absurd rfl (hold hsq hs).2
    · rw [hsq, update_self] at hs
      cases hs
      exact absurd rfl (hold hrq hr).2
    · exact h.unique (hold hrq hr).1 (hold hsq hs).1
  covered := by
    intro y hy
    obtain ⟨r, hr⟩ := h.covered hy
    by_cases hyx : y = x
    · exact ⟨q, by rw [update_self, hyx]⟩
    · have hrq : r ≠ q := fun e => hq y (e ▸ hr) hy
      have hrp : r ≠ p := by
        rintro rfl
        rw [hx] at hr
        exact hyx (Option.some.inj hr).symm
      exact ⟨r, by rwa [update_of_ne hrq, update_of_ne hrp]⟩

theorem place (h : Custody needed held) (hx : ∀ p, held p ≠ some x) (hq : held q = none) :
    Custody (fun y => needed y ∨ y = x) (update held q (some x)) where
  unique := by
    intro r s y hr hs
    rw [update_apply] at hr hs
    split at hr <;> split at hs
    · next hrq hsq => rw [hrq, hsq]
    · cases hr
      exact absurd hs (hx s)
    · cases hs
      exact absurd hr (hx r)
    · exact h.unique hr hs
  covered := by
    rintro y (hy | rfl)
    · obtain ⟨r, hr⟩ := h.covered hy
      have hne : r ≠ q := by
        rintro rfl
        rw [hq] at hr
        cases hr
      exact ⟨r, by rwa [update_of_ne hne]⟩
    · exact ⟨q, update_self ..⟩

end Custody

end Imago
