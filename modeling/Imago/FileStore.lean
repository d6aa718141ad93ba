/-
Imago/FileStore.lean

Files behind handles.  A `FileStore` keeps the contents of files in a table
of inodes and a directory from paths to inodes, as a Unix file system does:
a handle is an inode number, so it stays usable after the path it was opened
by has been unlinked, and what is written through it then no longer shows
under any path.

The cells of a file are of an arbitrary type `α` with a default value, which
is what `set_len` and a write behind the end of the file fill gaps with.

The two facts every proof about files needs are fields of the structure: a
path leads to an inode of the table (`dir_lt`), and no two paths lead to the
same one (`dir_inj`; there is no hard link operation).
-/
import Std.Data.TreeMap

namespace Imago

open Std (TreeMap)

/-! ### Cell lists -/

variable {off : Nat}

section Cells

variable {α : Type} [Inhabited α]

/-- Cut a file to `n` cells, or extend it to `n` cells with default cells. -/
def resize (f : List α) (n : Nat) : List α :=
  f.take n ++ List.replicate (n - f.length) default

/-- Overwrite the cells from `off` on with `bs`, filling a gap before `off`. -/
def writeAt (f : List α) (off : Nat) (bs : List α) : List α :=
  (resize f (max f.length off)).take off ++ bs ++ f.drop (off + bs.length)

@[simp] theorem length_resize (f : List α) (n : Nat) : (resize f n).length = n := by
  simp only [resize, List.length_append, List.length_take, List.length_replicate]
  omega

theorem resize_length_self (f : List α) : resize f f.length = f := by
  simp [resize]

theorem writeAt_eq {f bs : List α} (h : off + bs.length ≤ f.length) :
    writeAt f off bs = f.take off ++ bs ++ f.drop (off + bs.length) := by
  have hmax : max f.length off = f.length := by omega
  rw [writeAt, hmax, resize_length_self]

/-- A write at the end of the file appends. -/
theorem writeAt_length (f bs : List α) : writeAt f f.length bs = f ++ bs := by
  rw [writeAt, Nat.max_self, resize_length_self, List.take_length,
    List.drop_eq_nil_of_le (Nat.le_add_right ..), List.append_nil]

theorem length_writeAt {f bs : List α} (h : off + bs.length ≤ f.length) :
    (writeAt f off bs).length = f.length := by
  rw [writeAt_eq h]
  simp only [List.length_append, List.length_take, List.length_drop]
  omega

/-- A write inside the file replaces the cells it covers and no other. -/
theorem getElem?_writeAt {f bs : List α} (h : off + bs.length ≤ f.length) (i : Nat) :
    (writeAt f off bs)[i]?
      = if off ≤ i ∧ i < off + bs.length then bs[i - off]? else f[i]? := by
  have hlen : (f.take off).length = off := by rw [List.length_take]; omega
  rw [writeAt_eq h, List.append_assoc, List.getElem?_append, hlen]
  by_cases hi : i < off
  · rw [if_pos hi, if_neg (by omega), List.getElem?_take, if_pos hi]
  · rw [if_neg hi, List.getElem?_append]
    by_cases hi' : i < off + bs.length
    · rw [if_pos (by omega), if_pos ⟨by omega, hi'⟩]
    · rw [if_neg (by omega), if_neg (by omega), List.getElem?_drop]
      congr 1
      omega

end Cells

/-! ### The store -/

/-- Inode table and directory. -/
structure FileStore (α : Type) where
  inodes : List (List α)
  dir : TreeMap String Nat
  dir_lt : ∀ (p : String) h, dir[p]? = some h → h < inodes.length
  dir_inj : ∀ (p q : String) h, dir[p]? = some h → dir[q]? = some h → p = q

namespace FileStore

variable {α : Type}

/-- No file at all. -/
def empty : FileStore α where
  inodes := []
  dir := ∅
  dir_lt := by intro p h hp; simp at hp
  dir_inj := by intro p q h hp; simp at hp

/-- The inode a path leads to: opening an existing file. -/
def lookup (fs : FileStore α) (p : String) : Option Nat := fs.dir[p]?

/-- The cells behind a handle. -/
def file (fs : FileStore α) (h : Nat) : List α := fs.inodes.getD h []

/-- The cells under a path. -/
def contents (fs : FileStore α) (p : String) : Option (List α) :=
  (fs.lookup p).map fs.file

/-- Change the cells behind a handle. -/
def modify (fs : FileStore α) (h : Nat) (g : List α → List α) : FileStore α where
  inodes := fs.inodes.modify h g
  dir := fs.dir
  dir_lt := by intro p h' hp; rw [List.length_modify]; exact fs.dir_lt p h' hp
  dir_inj := fs.dir_inj

/-- Open a path with `create` and `truncate`: a file that exists is emptied,
a file that does not exist is created. -/
def openTruncate (fs : FileStore α) (p : String) : FileStore α × Nat :=
  match hp : fs.dir[p]? with
  | some h => (fs.modify h fun _ => [], h)
  | none =>
    ({ inodes := fs.inodes ++ [[]]
       dir := fs.dir.insert p fs.inodes.length
       dir_lt := by
         intro q h hq
         rw [List.length_append, List.length_singleton]
         rw [TreeMap.getElem?_insert] at hq
         split at hq
         · obtain rfl := Option.some.inj hq; omega
         · have := fs.dir_lt q h hq; omega
       dir_inj := by
         intro q q' h hq hq'
         simp only [TreeMap.getElem?_insert, Std.LawfulEqCmp.compare_eq_iff_eq] at hq hq'
         split at hq <;> split at hq'
         · rename_i h₁ h₂; exact h₁.symm.trans h₂
         · cases hq
           exact absurd (fs.dir_lt q' _ hq') (Nat.lt_irrefl _)
         · cases hq'
           exact absurd (fs.dir_lt q _ hq) (Nat.lt_irrefl _)
         · exact fs.dir_inj q q' h hq hq' },
      fs.inodes.length)

/-- Remove a path; handles to its inode stay valid. -/
def unlink (fs : FileStore α) (p : String) : FileStore α where
  inodes := fs.inodes
  dir := fs.dir.erase p
  dir_lt := by
    intro q h hq
    rw [TreeMap.getElem?_erase] at hq
    split at hq
    · cases hq
    · exact fs.dir_lt q h hq
  dir_inj := by
    intro q q' h hq hq'
    rw [TreeMap.getElem?_erase] at hq hq'
    split at hq <;> split at hq' <;> first | cases hq | cases hq' | skip
    exact fs.dir_inj q q' h hq hq'

/-! ### What each operation changes -/

variable {fs : FileStore α} {h : Nat} {p : String}

theorem lookup_lt (hp : fs.lookup p = some h) : h < fs.inodes.length := fs.dir_lt p h hp

theorem lookup_inj {q : String} (hp : fs.lookup p = some h) (hq : fs.lookup q = some h) : p = q :=
  fs.dir_inj p q h hp hq

theorem file_modify_self (hh : h < fs.inodes.length) (g : List α → List α) :
    (fs.modify h g).file h = g (fs.file h) := by
  simp [file, modify, List.getD_eq_getElem?_getD, hh]

theorem file_modify_ne (fs : FileStore α) {h' : Nat} (hne : h ≠ h') (g : List α → List α) :
    (fs.modify h g).file h' = fs.file h' := by
  simp [file, modify, List.getD_eq_getElem?_getD, hne]

@[simp] theorem length_inodes_modify (fs : FileStore α) (h : Nat) (g : List α → List α) :
    (fs.modify h g).inodes.length = fs.inodes.length := List.length_modify ..

theorem lookup_unlink (fs : FileStore α) (p q : String) :
    (fs.unlink p).lookup q = if p = q then none else fs.lookup q := by
  simp [lookup, unlink, TreeMap.getElem?_erase]

/-- Creating a file under a path that does not exist yet. -/
theorem openTruncate_of_none (hp : fs.lookup p = none) :
    (∀ q, (fs.openTruncate p).1.lookup q
        = if p = q then some fs.inodes.length else fs.lookup q) ∧
      (fs.openTruncate p).1.inodes = fs.inodes ++ [[]] ∧
      (fs.openTruncate p).2 = fs.inodes.length := by
  unfold openTruncate
  split
  · rename_i h hp'
    exact absurd (hp.symm.trans hp') (by simp)
  · refine ⟨?_, rfl, rfl⟩
    intro q
    simp [lookup, TreeMap.getElem?_insert]

theorem contents_eq (hp : fs.lookup p = some h) : fs.contents p = some (fs.file h) := by
  rw [contents, hp, Option.map_some]

end FileStore

end Imago
