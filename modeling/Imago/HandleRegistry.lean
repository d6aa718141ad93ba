/-
Imago/HandleRegistry.lean

The registries in which the native plugins keep what a guest resource stands
for: a map from 32-bit representations to handles, and a counter that wraps
around.  The gpio, usb and v4l2 plugins share one loop, which inserts before it
knows whether the representation was taken, and the rpc bridge does not loop.

A registration is right exactly if the counter comes to a free representation
before one that stands for another handle (`FreeAhead`).
-/
import Imago.RustStd

namespace Imago.HandleRegistry

open Std (TreeMap)

variable {α : Type}

/-- A registry and its counter. -/
structure Registry (α : Type) where
  entries : TreeMap Nat α
  next : Nat
  next_lt : next < 2 ^ 32

/-- `fetch_add(1)`: the registry with the next value of the counter. -/
def Registry.advance (r : Registry α) : Registry α where
  entries := r.entries
  next := (r.next + 1) % 2 ^ 32
  next_lt := Nat.mod_lt _ (by decide)

def Registry.insert (r : Registry α) (rep : Nat) (handle : α) : Registry α :=
  { r with entries := r.entries.insert rep handle }

/-- The loop that the plugins share, for a number of rounds. -/
def registerLoop : Nat → Registry α → α → Option (Nat × Registry α)
  | 0, _, _ => none
  | rounds + 1, r, handle =>
    if r.next = 0 then registerLoop rounds r.advance handle
    else
      let inserted := r.advance.insert r.next handle
      match r.entries[r.next]? with
      | none => some (r.next, inserted)
      | some _ => registerLoop rounds inserted handle

/-- `register_handle` of the gpio plugin. -/
def Gpio.registerHandle : Nat → Registry α → α → Option (Nat × Registry α) := registerLoop

/-- `register_rep` of the usb plugin. -/
def Usb.registerRep : Nat → Registry α → α → Option (Nat × Registry α) := registerLoop

/-- `register_rep` of the v4l2 plugin. -/
def V4l2.registerRep : Nat → Registry α → α → Option (Nat × Registry α) := registerLoop

/-- `allocate_connection_rep`. -/
def Rpc.allocateConnectionRep (r : Registry α) (connection : α) : Nat × Registry α :=
  (r.next, r.advance.insert r.next connection)

/-! ### What a registration should do -/

/-- The representation is not zero and was free, it stands for the new handle,
and the other entries are as they were. -/
structure Registers (entries : TreeMap Nat α) (handle : α) (result : Nat × Registry α) :
    Prop where
  nonzero : result.1 ≠ 0
  free : entries[result.1]? = none
  stored : result.2.entries[result.1]? = some handle
  frame : ∀ k, k ≠ result.1 → result.2.entries[k]? = entries[k]?

/-- The registration returns, and what it returns is right. -/
def Correct (register : Nat → Registry α → α → Option (Nat × Registry α)) (r : Registry α)
    (handle : α) : Prop :=
  (∃ rounds, (register rounds r handle).isSome) ∧
    ∀ rounds result, register rounds r handle = some result → Registers r.entries handle result

/-- The `i`-th value of the counter from now on. -/
def Registry.rep (r : Registry α) (i : Nat) : Nat := (r.next + i) % 2 ^ 32

/-- The counter comes to a free representation, and all those that it comes to
before, zero apart, stand for the handle already. -/
def FreeAhead (r : Registry α) (handle : α) : Prop :=
  ∃ n, r.rep n ≠ 0 ∧ r.entries[r.rep n]? = none ∧
    ∀ i < n, r.rep i ≠ 0 → r.entries[r.rep i]? = some handle

variable {r : Registry α} {handle : α} {rounds : Nat} {result : Nat × Registry α}

@[simp] theorem rep_zero : r.rep 0 = r.next := Nat.mod_eq_of_lt r.next_lt

@[simp] theorem rep_advance (i : Nat) : r.advance.rep i = r.rep (i + 1) := by
  rw [Registry.rep, Registry.rep, Registry.advance, Nat.mod_add_mod, Nat.add_assoc, Nat.add_comm 1]

/-- Putting a handle where it stands already changes no lookup. -/
theorem getElem?_insert_same {rep : Nat} (h : r.entries[rep]? = some handle) (k : Nat) :
    (r.insert rep handle).entries[k]? = r.entries[k]? := by
  by_cases hk : rep = k
  · exact (getElem?_insert_ite.trans (if_pos hk)).trans (hk ▸ h.symm)
  · exact getElem?_insert_ne hk

theorem Registers.congr {entries entries' : TreeMap Nat α}
    (heq : ∀ k : Nat, entries'[k]? = entries[k]?) (h : Registers entries handle result) :
    Registers entries' handle result where
  nonzero := h.nonzero
  free := (heq _).trans h.free
  stored := h.stored
  frame k hk := (h.frame k hk).trans (heq k).symm

/-- One value of the counter further: it was zero, or stood for the handle. -/
theorem freeAhead_succ_iff {r' : Registry α} (hrep : ∀ i, r'.rep i = r.rep (i + 1))
    (heq : ∀ k : Nat, r'.entries[k]? = r.entries[k]?)
    (hfirst : r.next = 0 ∨ r.entries[r.next]? = some handle) :
    FreeAhead r' handle ↔ FreeAhead r handle := by
  simp only [FreeAhead, hrep, heq]
  constructor
  · rintro ⟨n, hne, hfree, hbefore⟩
    refine ⟨n + 1, hne, hfree, fun i hi => ?_⟩
    cases i with
    | zero => exact rep_zero (r := r) ▸ hfirst.resolve_left
    | succ i => exact hbefore i (Nat.lt_of_succ_lt_succ hi)
  · rintro ⟨n, hne, hfree, hbefore⟩
    cases n with
    | zero =>
      rw [rep_zero] at hne hfree
      cases hfree.symm.trans (hfirst.resolve_left hne)
    | succ n => exact ⟨n, hne, hfree, fun i hi => hbefore (i + 1) (Nat.succ_lt_succ hi)⟩

theorem freeAhead_of_free (hne : r.next ≠ 0) (hfree : r.entries[r.next]? = none) :
    FreeAhead r handle :=
  ⟨0, by rwa [rep_zero], by rwa [rep_zero], nofun⟩

theorem registers_insert (hne : r.next ≠ 0) (hfree : r.entries[r.next]? = none) :
    Registers r.entries handle (r.next, r.advance.insert r.next handle) where
  nonzero := hne
  free := hfree
  stored := getElem?_insert_ite.trans (if_pos rfl)
  frame _ hk := getElem?_insert_ne hk.symm

/-- What stands for the new handle once is not replaced. -/
theorem registerLoop_keeps {k : Nat} (h : registerLoop rounds r handle = some result)
    (hk : r.entries[k]? = some handle) : result.2.entries[k]? = some handle := by
  have hinsert : ∀ r : Registry α, r.entries[k]? = some handle →
      (r.advance.insert r.next handle).entries[k]? = some handle := by
    intro r hk
    by_cases hrep : r.next = k
    · exact getElem?_insert_ite.trans (if_pos hrep)
    · exact (getElem?_insert_ne hrep).trans hk
  fun_induction registerLoop rounds r handle with
  | case1 => cases h
  | case2 rounds r handle hzero ih => exact ih h hk hinsert
  | case3 rounds r handle hne inserted hfree =>
    cases h
    exact hinsert r hk
  | case4 rounds r handle hne inserted old hold ih => exact ih h (hinsert r hk) hinsert

/-- What the loop returns was free, whatever it has replaced on the way. -/
theorem free_of_registerLoop (h : registerLoop rounds r handle = some result) :
    result.1 ≠ 0 ∧ r.entries[result.1]? = none := by
  fun_induction registerLoop rounds r handle with
  | case1 => cases h
  | case2 rounds r handle hzero ih => exact ih h
  | case3 rounds r handle hne inserted hfree =>
    cases h
    exact ⟨hne, hfree⟩
  | case4 rounds r handle hne inserted old hold ih =>
    obtain ⟨hne', hnone⟩ := ih h
    have hother : r.next ≠ result.1 := by
      intro heq
      cases (getElem?_insert_ite.trans (if_pos heq)).symm.trans hnone
    exact ⟨hne', (getElem?_insert_ne hother).symm.trans hnone⟩

/-- What the loop returns is right exactly when a free representation is ahead. -/
theorem registers_iff (h : registerLoop rounds r handle = some result) :
    Registers r.entries handle result ↔ FreeAhead r handle := by
  fun_induction registerLoop rounds r handle with
  | case1 => cases h
  | case2 rounds r handle hzero ih =>
    -- zero is skipped, and the entries are the same
    exact (ih h).trans (freeAhead_succ_iff rep_advance (fun _ => rfl) (.inl hzero))
  | case3 rounds r handle hne inserted hfree =>
    cases h
    exact iff_of_true (registers_insert hne hfree) (freeAhead_of_free hne hfree)
  | case4 rounds r handle hne inserted old hold ih =>
    by_cases hsame : old = handle
    · have heq := getElem?_insert_same (r := r.advance) (hsame ▸ hold)
      refine Iff.trans ⟨Registers.congr heq, Registers.congr fun k => (heq k).symm⟩
        ((ih h).trans (freeAhead_succ_iff rep_advance heq (.inr (hsame ▸ hold))))
    · -- this round has replaced another handle
      refine iff_of_false (fun hright => hsame ?_) ?_
      · have hkept := registerLoop_keeps h (getElem?_insert_ite.trans (if_pos rfl))
        have hother : r.next ≠ result.1 := by
          intro heq
          cases hold.symm.trans (heq ▸ hright.free)
        exact Option.some.inj (hold.symm.trans ((hright.frame _ hother).symm.trans hkept))
      · rintro ⟨n, hne', hfree, hbefore⟩
        cases n with
        | zero => cases hold.symm.trans (rep_zero (r := r) ▸ hfree)
        | succ n =>
          have hfirst := hbefore 0 n.succ_pos
          rw [rep_zero, hold] at hfirst
          exact hsame (Option.some.inj (hfirst hne))

/-- The loop ends where a free representation is ahead. -/
theorem returns_of_freeAhead (h : FreeAhead r handle) :
    ∃ rounds, (registerLoop rounds r handle).isSome := by
  obtain ⟨n, hne, hfree, hbefore⟩ := h
  induction n generalizing r with
  | zero =>
    rw [rep_zero] at hne hfree
    exact ⟨1, by simp [registerLoop, hne, hfree]⟩
  | succ n ih =>
    have hrest : ∀ r' : Registry α, (∀ i, r'.rep i = r.rep (i + 1)) →
        (∀ k : Nat, r'.entries[k]? = r.entries[k]?) →
        ∃ rounds, (registerLoop rounds r' handle).isSome := by
      intro r' hrep heq
      refine ih (by rwa [hrep]) (by rwa [hrep, heq]) fun i hi => ?_
      rw [hrep, heq]
      exact hbefore (i + 1) (Nat.succ_lt_succ hi)
    by_cases hzero : r.next = 0
    · obtain ⟨rounds, hsome⟩ := hrest r.advance rep_advance fun _ => rfl
      exact ⟨rounds + 1, by rwa [registerLoop, if_pos hzero]⟩
    · have hsame := hbefore 0 n.succ_pos
      rw [rep_zero] at hsame
      obtain ⟨rounds, hsome⟩ := hrest (r.advance.insert r.next handle) rep_advance
        (getElem?_insert_same (hsame hzero))
      exact ⟨rounds + 1, by simpa only [registerLoop, if_neg hzero, hsame hzero] using hsome⟩

theorem correct_registerLoop_iff : Correct registerLoop r handle ↔ FreeAhead r handle := by
  constructor
  · rintro ⟨⟨rounds, hsome⟩, hall⟩
    obtain ⟨result, hresult⟩ := Option.isSome_iff_exists.mp hsome
    exact (registers_iff hresult).mp (hall rounds result hresult)
  · exact fun h => ⟨returns_of_freeAhead h, fun _ _ hresult => (registers_iff hresult).mpr h⟩

/-- **Registering a handle**: the loops are right exactly when a free
representation is ahead, with nothing but the same handle before it; the rpc
bridge when its counter is not zero and free. -/
theorem handles_registered_iff (r : Registry α) (handle : α) :
    (Correct Gpio.registerHandle r handle ↔ FreeAhead r handle) ∧
    (Correct Usb.registerRep r handle ↔ FreeAhead r handle) ∧
    (Correct V4l2.registerRep r handle ↔ FreeAhead r handle) ∧
    (Registers r.entries handle (Rpc.allocateConnectionRep r handle) ↔
      r.next ≠ 0 ∧ r.entries[r.next]? = none) :=
  ⟨correct_registerLoop_iff, correct_registerLoop_iff, correct_registerLoop_iff,
    fun h => ⟨h.nonzero, h.free⟩, fun h => registers_insert h.1 h.2⟩

/-- The counter has come round to a taken representation: the handle `a` is
gone from it, in all four registries. -/
theorem taken_handle_replaced :
    (Gpio.registerHandle 2 (⟨{(1, "a")}, 1, by decide⟩ : Registry String) "b").map
      (fun result => (result.1, result.2.entries[1]?)) = some (2, some "b") ∧
    (Rpc.allocateConnectionRep (⟨{(1, "a")}, 1, by decide⟩ : Registry String) "b").2.entries[1]? =
      some "b" := by
  decide

end Imago.HandleRegistry
