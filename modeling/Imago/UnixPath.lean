/-
Imago/UnixPath.lean

Paths of Unix as the standard library takes them apart and puts them together.

`components` drops empty pieces and pieces that are a dot, except for a dot at the very
start of a relative path; `render` is what the pieces look like once they have been
pushed onto an empty path.  A path that consists of a root and normal components is
read back from what is rendered (`components_render`).
-/
import Imago.RustStd

namespace Imago.UnixPath

/-- `std::path::Component`, without the prefix of Windows. -/
inductive Component where
  | rootDir
  | curDir
  | parentDir
  | normal (name : String)
  deriving DecidableEq

/-- A piece between separators. -/
def component (piece : List Char) : Option Component :=
  if piece = [] ∨ piece = ['.'] then none
  else if piece = ['.', '.'] then some .parentDir
  else some (.normal (String.ofList piece))

/-- `Path::components`. -/
def components (raw : String) : List Component :=
  let pieces := raw.toList.splitOn '/'
  let front : List Component :=
    if raw.toList.head? = some '/' then [.rootDir]
    else if pieces.head? = some ['.'] then [.curDir] else []
  front ++ pieces.filterMap component

/-- `Component::as_os_str`. -/
def Component.text : Component → String
  | .rootDir => "/"
  | .curDir => "."
  | .parentDir => ".."
  | .normal name => name

/-- The pieces behind a root, if there is one, with separators between them. -/
def render : List Component → String
  | .rootDir :: rest => "/" ++ "/".intercalate (rest.map Component.text)
  | parts => "/".intercalate (parts.map Component.text)

/-- `PathBuf::push` of a component: the root replaces what is there. -/
def push (path : List Component) : Component → List Component
  | .rootDir => [.rootDir]
  | part => path ++ [part]

/-- `PathBuf::pop`; nothing if there is no parent. -/
def pop (path : List Component) : Option (List Component) :=
  match path.getLast? with
  | none => none
  | some .rootDir => none
  | some _ => some path.dropLast

/-! ### Normal names -/

/-- What a normal component can be called. -/
def NormalName (name : String) : Prop :=
  name ≠ "" ∧ name ≠ "." ∧ name ≠ ".." ∧ '/' ∉ name.toList

theorem component_normal {name : String} (h : NormalName name) :
    component name.toList = some (.normal name) := by
  have hne : ∀ s : String, name ≠ s → name.toList ≠ s.toList := fun s hs heq =>
    hs (String.toList_injective heq)
  have hempty : ¬(name.toList = [] ∨ name.toList = ['.']) := not_or.mpr ⟨hne "" h.1, hne "." h.2.1⟩
  have hparent : name.toList ≠ ['.', '.'] := hne ".." h.2.2.1
  rw [component, if_neg hempty, if_neg hparent, String.ofList_toList]

theorem normalName_of_component {piece : List Char} {name : String}
    (h : component piece = some (.normal name)) (hslash : '/' ∉ piece) :
    NormalName name := by
  unfold component at h
  split at h
  · cases h
  · rename_i hempty
    split at h
    · cases h
    · rename_i hparent
      obtain rfl := Component.normal.inj (Option.some.inj h)
      have hne : ∀ s : String, piece ≠ s.toList → String.ofList piece ≠ s := by
        rintro _ hs rfl
        exact hs String.toList_ofList.symm
      exact ⟨hne "" (not_or.mp hempty).1, hne "." (not_or.mp hempty).2, hne ".." hparent,
        by rwa [String.toList_ofList]⟩

theorem slash_not_mem_of_mem_splitOn {cs piece : List Char} (h : piece ∈ cs.splitOn '/') :
    '/' ∉ piece := by
  induction cs generalizing piece with
  | nil =>
    rw [List.splitOn_nil, List.mem_singleton] at h
    rw [h]
    exact List.not_mem_nil
  | cons c cs ih =>
    rw [List.splitOn_cons_eq_if_modifyHead] at h
    split at h
    · rcases List.mem_cons.mp h with rfl | h
      · exact List.not_mem_nil
      · exact ih h
    · rename_i hc
      obtain ⟨first, rest, hsplit⟩ := List.exists_cons_of_ne_nil (List.splitOn_ne_nil '/' cs)
      rw [hsplit] at h ih
      rcases List.mem_cons.mp h with rfl | h
      · intro hslash
        rcases List.mem_cons.mp hslash with heq | hslash
        · exact hc (beq_iff_eq.mpr heq.symm)
        · exact ih (.head _) hslash
      · exact ih (.tail _ h)

/-- A normal component is a piece without a slash. -/
theorem normalName_of_mem_components {raw name : String} (h : .normal name ∈ components raw) :
    NormalName name := by
  rcases List.mem_append.mp h with hfront | hpiece
  · split at hfront
    · cases List.mem_singleton.mp hfront
    · split at hfront
      · cases List.mem_singleton.mp hfront
      · cases hfront
  · obtain ⟨piece, hmem, hpiece⟩ := List.mem_filterMap.mp hpiece
    exact normalName_of_component hpiece (slash_not_mem_of_mem_splitOn hmem)

theorem toList_render (names : List String) : (render (.rootDir :: names.map .normal)).toList =
    '/' :: ['/'].intercalate (names.map String.toList) := by
  have htext : (names.map Component.normal).map Component.text = names := by
    rw [List.map_map]
    exact List.map_id names
  rw [render, htext, String.toList_append, String.toList_intercalate]
  rfl

/-- **What is rendered from a root and names is read back.** -/
theorem components_render {names : List String} (hne : names ≠ []) (h : ∀ n ∈ names, NormalName n) :
    components (render (.rootDir :: names.map .normal)) = .rootDir :: names.map .normal := by
  have hchars := toList_render names
  have hsplit : (render (.rootDir :: names.map .normal)).toList.splitOn '/' =
      [] :: names.map String.toList := by
    rw [hchars, List.splitOn_cons_eq_if_modifyHead, if_pos (beq_self_eq_true _),
      List.splitOn_intercalate]
    · intro piece hpiece
      obtain ⟨name, hname, rfl⟩ := List.mem_map.mp hpiece
      exact (h name hname).2.2.2
    · exact mt List.map_eq_nil_iff.mp hne
  have hnames : (names.map String.toList).filterMap component = names.map .normal := by
    rw [List.filterMap_map]
    calc names.filterMap (component ∘ String.toList)
        = names.filterMap (some ∘ .normal) :=
          List.filterMap_congr fun name hname => component_normal (h name hname)
      _ = names.map .normal := congrFun List.filterMap_eq_map names
  have hroot : (render (.rootDir :: names.map .normal)).toList.head? = some '/' := by
    rw [hchars]
    rfl
  calc components (render (.rootDir :: names.map .normal))
      = [.rootDir] ++ ([] :: names.map String.toList).filterMap component := by
        unfold components
        rw [hsplit]
        exact congrArg (· ++ _) (if_pos hroot)
    _ = .rootDir :: names.map .normal := by
        rw [List.filterMap_cons, hnames]
        rfl

end Imago.UnixPath
