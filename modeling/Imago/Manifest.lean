/-
Imago/Manifest.lean

The manifest of a release, as the manager reads it, and the checks of the
manifest validator.  All of them answer with `BadManifest` and a text that
names the field.
-/
import Imago.IpcAuth
import Mathlib.Data.List.Infix

namespace Imago

/-- `map_bad_manifest`. -/
def mapBadManifest (message : String) : ImagodError := .new .badManifest stageOrchestrate message

/-- `char::is_ascii_alphanumeric`. -/
def isAsciiAlphanumeric (c : Char) : Bool :=
  ('0' ≤ c && c ≤ '9') || ('A' ≤ c && c ≤ 'Z') || ('a' ≤ c && c ≤ 'z')

/-- `str::contains` with a text. -/
def containsStr (s pattern : String) : Bool := decide (pattern.toList <:+: s.toList)

/-! ### Names -/

/-- `validate_service_name`. -/
def validateServiceName (name : String) : Except ImagodError Unit :=
  if name = "" then .error (mapBadManifest "manifest.name must not be empty")
  else if '/' ∈ name.toList ∨ '\\' ∈ name.toList ∨ containsStr name ".." then
    .error (mapBadManifest ("manifest.name contains invalid path characters: " ++ name))
  else if name.toList.all fun c => isAsciiAlphanumeric c || c = '.' || c = '_' || c = '-' then
    .ok ()
  else .error (mapBadManifest ("manifest.name contains unsupported characters: " ++ name))

/-! ### Bindings -/

/-- A binding entry of the manifest. -/
structure ManifestBinding where
  name : String
  wit : String
  deriving DecidableEq, Repr

/-- The checks of one binding. -/
def validateBinding (idx : Nat) (binding : ManifestBinding) : Except ImagodError ServiceBinding :=
  let field := "manifest.bindings[" ++ toString idx ++ "]"
  if binding.name = "" then .error (mapBadManifest (field ++ ".name must not be empty"))
  else if binding.wit = "" then .error (mapBadManifest (field ++ ".wit must not be empty"))
  else
    match validateServiceName binding.name with
    | .error err =>
      .error (mapBadManifest
        (field ++ ".name is invalid '" ++ binding.name ++ "': " ++ err.message))
    | .ok _ => .ok ⟨binding.name, binding.wit⟩

/-- The bindings from index `idx` on. -/
def validateBindingsFrom : Nat → List ManifestBinding → Except ImagodError (List ServiceBinding)
  | _, [] => .ok []
  | idx, binding :: rest => do
      let first ← validateBinding idx binding
      let others ← validateBindingsFrom (idx + 1) rest
      return first :: others

/-- `validate_bindings`: the names and the WIT ids are taken over as they are. -/
def validateBindings (bindings : List ManifestBinding) :
    Except ImagodError (List ServiceBinding) :=
  validateBindingsFrom 0 bindings

theorem validateBinding_eq_ok {idx : Nat} {binding : ManifestBinding} {b : ServiceBinding}
    (h : validateBinding idx binding = .ok b) :
    b = ⟨binding.name, binding.wit⟩ := by
  unfold validateBinding at h
  dsimp only at h
  split at h
  · cases h
  split at h
  · cases h
  split at h
  · cases h
  · exact (Except.ok.inj h).symm

theorem validateBindingsFrom_eq_ok {bindings : List ManifestBinding} {idx : Nat}
    {bs : List ServiceBinding} (h : validateBindingsFrom idx bindings = .ok bs) :
    bs = bindings.map (fun b => ⟨b.name, b.wit⟩) := by
  induction bindings generalizing idx bs with
  | nil =>
    cases h
    rfl
  | cons binding rest ih =>
    unfold validateBindingsFrom at h
    rcases hfirst : validateBinding idx binding with e | first <;> rw [hfirst] at h
    · cases h
    rcases hrest : validateBindingsFrom (idx + 1) rest with e | others
    · simp [hrest, bind, Except.bind] at h
    · simp only [hrest, bind, Except.bind, pure, Except.pure, Except.ok.injEq] at h
      rw [← h, ih hrest, validateBinding_eq_ok hfirst, List.map_cons]

end Imago
