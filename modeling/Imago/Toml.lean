/-
Imago/Toml.lean

TOML documents as the `toml` crate hands them out: a value is a scalar, an
array or a table, and a table is a list of keys with their values.

A table is read with `List.lookup` and changed with `Table.insert`, which is
`Map::insert`: it replaces the value of a key or adds the key.  `field` and
`fieldOr` are what the derived decoders do with a required and with a
defaulted field.

The text of a document belongs to the crate.  `TomlCrate` is what is assumed of
it: a document that was written is read back.
-/
import Imago.RustStd

namespace Imago

inductive Toml where
  | str (s : String)
  | int (n : Int)
  | float (bits : UInt64)
  | bool (b : Bool)
  | datetime (text : String)
  | array (values : List Toml)
  | table (fields : List (String × Toml))

/-- `toml::Table`. -/
abbrev Table := List (String × Toml)

/-- Reading and writing documents, as texts of type `Body`. -/
structure TomlCrate (Body : Type) where
  parse : Body → Option Table
  render : Table → Option Body
  parse_render : ∀ t body, render t = some body → parse body = some t

namespace Toml

def asStr : Toml → Option String
  | .str s => some s
  | _ => none

def asBool : Toml → Option Bool
  | .bool b => some b
  | _ => none

def asArray : Toml → Option (List Toml)
  | .array values => some values
  | _ => none

theorem asArray_eq_some {v : Toml} {values : List Toml} :
    v.asArray = some values ↔ v = .array values := by
  cases v <;> simp [asArray]

def asTable : Toml → Option Table
  | .table fields => some fields
  | _ => none

theorem asTable_eq_some {v : Toml} {fields : Table} :
    v.asTable = some fields ↔ v = .table fields := by
  cases v <;> simp [asTable]

/-- An integer that fits an unsigned type of so many bits. -/
def asUnsigned (bits : Nat) : Toml → Option Nat
  | .int n => if 0 ≤ n ∧ n.toNat < 2 ^ bits then some n.toNat else none
  | _ => none

/-- `Vec<String>`. -/
def asStrings (v : Toml) : Option (List String) := v.asArray.bind (·.mapM asStr)

/-- `BTreeMap<String, String>`. -/
def asStringMap (v : Toml) : Option (List (String × String)) :=
  v.asTable.bind (·.mapM fun e => e.2.asStr.map (e.1, ·))

end Toml

/-! ### Tables -/

variable {key : String}

section Table

variable {α β : Type}

/-- Sets the value of a key that is there, or adds the key. -/
def insertKey (t : List (String × α)) (key : String) (value : α) : List (String × α) :=
  match t with
  | [] => [(key, value)]
  | (k, v) :: t => if k = key then (key, value) :: t else (k, v) :: insertKey t key value

theorem lookup_cons_ite (t : List (String × α)) (key k : String) (value : α) :
    ((key, value) :: t).lookup k = if k = key then some value else t.lookup k := by
  rw [List.lookup_cons]
  by_cases h : k = key
  · rw [if_pos h, beq_iff_eq.mpr h]
  · rw [if_neg h, beq_eq_false_iff_ne.mpr h]

theorem lookup_insertKey (t : List (String × α)) (key k : String) (value : α) :
    (insertKey t key value).lookup k = if k = key then some value else t.lookup k := by
  induction t with
  | nil => rw [insertKey, lookup_cons_ite]
  | cons e t ih =>
    obtain ⟨k', v⟩ := e
    rw [insertKey]
    by_cases hk : k' = key
    · subst hk
      rw [if_pos rfl, lookup_cons_ite, lookup_cons_ite]
      split <;> rfl
    · rw [if_neg hk, lookup_cons_ite, lookup_cons_ite, ih]
      by_cases h : k = k'
      · rw [if_pos h, if_pos h, if_neg fun h' => hk (h.symm.trans h')]
      · rw [if_neg h, if_neg h]

@[simp] theorem lookup_insertKey_self (t : List (String × α)) (key : String) (value : α) :
    (insertKey t key value).lookup key = some value := by
  rw [lookup_insertKey, if_pos rfl]

theorem lookup_insertKey_ne (t : List (String × α)) {k : String} (h : k ≠ key) (value : α) :
    (insertKey t key value).lookup k = t.lookup k := by
  rw [lookup_insertKey, if_neg h]

theorem mem_insertKey {t : List (String × α)} {value : α} {e : String × α}
    (h : e ∈ insertKey t key value) : e = (key, value) ∨ e ∈ t := by
  induction t with
  | nil => exact Or.inl (List.mem_singleton.mp h)
  | cons e' t ih =>
    obtain ⟨k', v⟩ := e'
    rw [insertKey] at h
    split at h
    · rcases List.mem_cons.mp h with h | h
      · exact .inl h
      · exact .inr (.tail _ h)
    · rcases List.mem_cons.mp h with h | h
      · exact .inr (h ▸ (.head _))
      · exact (ih h).imp_right (List.mem_cons_of_mem _)

/-- A table that is not empty is decoded value by value. -/
theorem mapM_values_cons {f : α → Option β} {e : String × α} {t : List (String × α)}
    {u : List (String × β)} (h : (e :: t).mapM (fun e => (f e.2).map (e.1, ·)) = some u) :
    ∃ v u', f e.2 = some v ∧ t.mapM (fun e => (f e.2).map (e.1, ·)) = some u' ∧
      u = (e.1, v) :: u' := by
  rw [List.mapM_cons] at h
  simp only [Option.bind_eq_bind, Option.bind_eq_some_iff, Option.map_eq_some_iff] at h
  obtain ⟨e', ⟨v, hv, rfl⟩, u', hu, hcons⟩ := h
  exact ⟨v, u', hv, hu, (Option.some.inj hcons).symm⟩

/-- Decoding every value commutes with setting one of them. -/
theorem mapM_insertKey {f : α → Option β} {t : List (String × α)} {u : List (String × β)}
    {value : α} {value' : β} (h : t.mapM (fun e => (f e.2).map (e.1, ·)) = some u)
    (hvalue : f value = some value') :
    (insertKey t key value).mapM (fun e => (f e.2).map (e.1, ·)) =
      some (insertKey u key value') := by
  induction t generalizing u with
  | nil =>
    obtain rfl : u = [] := by simpa using h.symm
    simp [insertKey, hvalue]
  | cons e t ih =>
    obtain ⟨k, v⟩ := e
    obtain ⟨v', u', hv, hu, rfl⟩ := mapM_values_cons h
    rw [insertKey, insertKey]
    by_cases hk : k = key
    · simp only [if_pos hk, List.mapM_cons, hvalue, hu]
      rfl
    · simp only [if_neg hk, List.mapM_cons, hv, ih hu]
      rfl

end Table

/-- A field that must be there. -/
def field {α : Type} (t : Table) (key : String) (decode : Toml → Option α) : Option α :=
  (t.lookup key).bind decode

/-- A field with a default. -/
def fieldOr {α : Type} (t : Table) (key : String) (decode : Toml → Option α) (default : α) :
    Option α :=
  match t.lookup key with
  | none => some default
  | some v => decode v

theorem field_insertKey_ne {α : Type} (t : Table) {k : String} (h : k ≠ key) (v : Toml)
    (decode : Toml → Option α) : field (insertKey t key v) k decode = field t k decode := by
  rw [field, field, lookup_insertKey_ne t h]

theorem fieldOr_insertKey_ne {α : Type} (t : Table) {k : String} (h : k ≠ key) (v : Toml)
    (decode : Toml → Option α) (default : α) :
    fieldOr (insertKey t key v) k decode default = fieldOr t k decode default := by
  rw [fieldOr, fieldOr, lookup_insertKey_ne t h]

end Imago
