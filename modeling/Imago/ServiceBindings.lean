/-
Imago/ServiceBindings.lean

The two sides of a call to a bound service.  The runner links an import of the
component to a target service when the *normal forms* of the import name and of
a binding's WIT id agree (`normalizeBindingWitId`: trimmed, and without the
`@version`), and calls the target under that normal form.  The manager allows
the call when the pair of target and interface is, text for text, one of the
bindings (`isBindingAllowed`).

The two agree on an import exactly when each binding that the import matches
is in the list with its WIT id in normal form (`shim_authorized_iff`); a list
with `yieldspace:svc/invoke@0.1.0` alone is linked and then refused
(`versioned_binding_refused`).
-/
import Imago.Manifest
import Imago.ManagerControl

namespace Imago

open Std (TreeMap)
open Imago.Control (isBindingAllowed isBindingAllowed_iff)

/-! ### The runner's side -/

/-- `map_runtime_error` of the runner. -/
def mapRuntimeError (message : String) : ImagodError := .new .internal "runtime.start" message

/-- `normalize_binding_wit_id`. -/
def normalizeBindingWitId (raw : String) : String :=
  let trimmed := trim raw
  match splitOnce trimmed '/' with
  | none => trimmed
  | some (package, interfaceWithVersion) =>
    package ++ "/" ++ splitFirst interfaceWithVersion '@'

/-- The bindings still to be entered, over the map built so far. -/
def bindingTargetMapFrom (byWit : TreeMap String String) :
    List ServiceBinding → Except ImagodError (TreeMap String String)
  | [] => .ok byWit
  | binding :: rest =>
    let normalizedWit := normalizeBindingWitId binding.wit
    if normalizedWit = "" then .error (mapRuntimeError "binding wit must not be empty")
    else
      match byWit[normalizedWit]? with
      | some existing =>
        if existing ≠ binding.name then
          .error (mapRuntimeError ("binding wit '" ++ normalizedWit ++
            "' maps to multiple services ('" ++ existing ++ "' and '" ++ binding.name ++ "')"))
        else bindingTargetMapFrom byWit rest
      | none => bindingTargetMapFrom (byWit.insert normalizedWit binding.name) rest

/-- `build_binding_target_map`. -/
def buildBindingTargetMap (bindings : List ServiceBinding) :
    Except ImagodError (TreeMap String String) :=
  bindingTargetMapFrom ∅ bindings

/-- `resolve_binding_target_for_import`: the target service, and the interface
id under which it is called. -/
def resolveBindingTargetForImport (bindingTargets : TreeMap String String) (importName : String) :
    Option (String × String) :=
  let normalized := normalizeBindingWitId importName
  (bindingTargets[normalized]?).map fun targetService => (targetService, normalized)

/-! ### What the runner's map holds -/

theorem trim_eq_empty_iff (raw : String) : trim raw = "" ↔ isBlank raw = true := by
  rw [trim, isBlank, List.isEmpty_iff]
  exact ⟨fun h => String.ofList_injective h, fun h => by rw [h]⟩

/-- Only a blank WIT id has an empty normal form. -/
theorem normalizeBindingWitId_eq_empty_iff (raw : String) :
    normalizeBindingWitId raw = "" ↔ isBlank raw = true := by
  unfold normalizeBindingWitId
  dsimp only
  rcases hs : splitOnce (trim raw) '/' with - | ⟨package, rest⟩
  · exact trim_eq_empty_iff raw
  · constructor
    · intro h
      -- the slash is still there
      have := congrArg String.toList h
      simp at this
    · intro hblank
      rw [(trim_eq_empty_iff raw).mpr hblank] at hs
      cases hs

variable {byWit result : TreeMap String String} {bindings : List ServiceBinding}

/-- A map that is built holds each binding's service under its normal form,
and nothing but that and what was there before. -/
theorem of_bindingTargetMapFrom (h : bindingTargetMapFrom byWit bindings = .ok result) :
    (∀ k v : String, byWit[k]? = some v → result[k]? = some v) ∧
    (∀ b ∈ bindings, isBlank b.wit = false ∧
      result[normalizeBindingWitId b.wit]? = some b.name) ∧
    ∀ k v : String, result[k]? = some v → byWit[k]? = some v ∨
      ∃ b ∈ bindings, normalizeBindingWitId b.wit = k ∧ b.name = v := by
  induction bindings generalizing byWit with
  | nil =>
    cases h
    exact ⟨fun _ _ h => h, by simp, fun _ _ h => .inl h⟩
  | cons b rest ih =>
    unfold bindingTargetMapFrom at h
    dsimp only at h
    split at h
    · cases h
    rename_i hne
    have hblank : isBlank b.wit = false :=
      Bool.eq_false_iff.mpr fun hb => hne ((normalizeBindingWitId_eq_empty_iff _).mpr hb)
    rcases hold : byWit[normalizeBindingWitId b.wit]? with - | existing
    · -- the first binding with this normal form
      rw [hold] at h
      obtain ⟨hkeep, hall, honly⟩ := ih h
      refine ⟨?_, ?_, ?_⟩
      · intro k v hk
        refine hkeep k v ?_
        rw [getElem?_insert_ne, hk]
        rintro rfl
        rw [hold] at hk
        cases hk
      · refine List.forall_mem_cons.mpr ⟨⟨hblank, hkeep _ _ ?_⟩, hall⟩
        exact TreeMap.getElem?_insert_self
      · intro k v hk
        rcases honly k v hk with hins | ⟨b', hb', hk'⟩
        · rcases lookup_of_insert hins with ⟨heq, hv⟩ | hins
          · exact .inr ⟨b, .head _, heq.symm, hv.symm⟩
          · exact .inl hins
        · exact .inr ⟨b', List.mem_cons_of_mem _ hb', hk'⟩
    · -- another binding of the same service came before
      rw [hold] at h
      dsimp only at h
      split at h
      · cases h
      rename_i hsame
      obtain rfl := Decidable.not_not.mp hsame
      obtain ⟨hkeep, hall, honly⟩ := ih h
      refine ⟨hkeep, List.forall_mem_cons.mpr ⟨⟨hblank, hkeep _ _ hold⟩, hall⟩, ?_⟩
      intro k v hk
      refine (honly k v hk).imp_right ?_
      rintro ⟨b', hb', hk'⟩
      exact ⟨b', List.mem_cons_of_mem _ hb', hk'⟩

/-- Two bindings ask for one normal form at different services. -/
def Ambiguous (bindings : List ServiceBinding) : Prop :=
  ∃ b ∈ bindings, ∃ b' ∈ bindings,
    normalizeBindingWitId b.wit = normalizeBindingWitId b'.wit ∧ b.name ≠ b'.name

/-- Nothing but a blank WIT id or an ambiguity keeps the map from being built. -/
theorem bindingTargetMapFrom_eq_ok (hblank : ∀ b ∈ bindings, isBlank b.wit = false)
    (hamb : ¬ Ambiguous bindings)
    (hold : ∀ b ∈ bindings, ∀ v, byWit[normalizeBindingWitId b.wit]? = some v → v = b.name) :
    ∃ result, bindingTargetMapFrom byWit bindings = .ok result := by
  induction bindings generalizing byWit with
  | nil => exact ⟨byWit, rfl⟩
  | cons b rest ih =>
    have hne : normalizeBindingWitId b.wit ≠ "" := fun h =>
      absurd ((normalizeBindingWitId_eq_empty_iff _).mp h)
        (by rw [hblank b List.mem_cons_self]; nofun)
    have hblank' := fun b' hb' => hblank b' (List.mem_cons_of_mem b hb')
    have hamb' : ¬ Ambiguous rest := fun ⟨b₁, h₁, b₂, h₂, h⟩ =>
      hamb ⟨b₁, List.mem_cons_of_mem _ h₁, b₂, List.mem_cons_of_mem _ h₂, h⟩
    unfold bindingTargetMapFrom
    rw [if_neg hne]
    rcases hb : byWit[normalizeBindingWitId b.wit]? with - | existing <;> dsimp only
    · refine ih hblank' hamb' fun b' hb' v hv => ?_
      rcases lookup_of_insert hv with ⟨heq, rfl⟩ | hv
      · by_contra hv'
        exact hamb ⟨b, .head _, b', List.mem_cons_of_mem _ hb', heq.symm, hv'⟩
      · exact hold b' (.tail _ hb') v hv
    · rw [if_neg (fun h => h (hold b (.head _) existing hb))]
      exact ih hblank' hamb' fun b' hb' => hold b' (.tail _ hb')

/-! ### Agreement -/

/-- **The manager allows what the runner links, exactly when the matching
bindings are in normal form.**  For bindings that the manager has accepted and
an import name: every call that the runner's map sets up for the import is
allowed by the manager if and only if the map cannot be built (a blank WIT id,
or an ambiguity), or each binding that the import matches is in the list in
normal form. -/
theorem shim_authorized_iff (manifestBindings : List ManifestBinding)
    (bindings : List ServiceBinding) (haccepted : validateBindings manifestBindings = .ok bindings)
    (importName : String) :
    (∀ targets target interfaceId, buildBindingTargetMap bindings = .ok targets →
      resolveBindingTargetForImport targets importName = some (target, interfaceId) →
      isBindingAllowed bindings target interfaceId = true) ↔
    ((∃ b ∈ manifestBindings, isBlank b.wit = true) ∨
      (∃ b ∈ manifestBindings, ∃ b' ∈ manifestBindings,
        normalizeBindingWitId b.wit = normalizeBindingWitId b'.wit ∧ b.name ≠ b'.name) ∨
      ∀ b ∈ manifestBindings, normalizeBindingWitId b.wit = normalizeBindingWitId importName →
        ⟨b.name, normalizeBindingWitId b.wit⟩ ∈ manifestBindings) := by
  obtain rfl := validateBindingsFrom_eq_ok haccepted
  -- a binding of the runner's list is one of the manifest's
  have hmem : ∀ {name wit : String},
      (⟨name, wit⟩ : ServiceBinding) ∈ manifestBindings.map (fun b => ⟨b.name, b.wit⟩) ↔
        (⟨name, wit⟩ : ManifestBinding) ∈ manifestBindings := by
    intro name wit
    constructor
    · intro h
      obtain ⟨b, hb, heq⟩ := List.mem_map.mp h
      cases heq
      exact hb
    · intro h
      exact List.mem_map.mpr ⟨_, h, rfl⟩
  constructor
  · intro hallowed
    by_contra hcond
    obtain ⟨hblank, hcond⟩ := not_or.mp hcond
    obtain ⟨hamb, hmissing⟩ := not_or.mp hcond
    -- the map is built, so the unmatched binding would be linked and allowed
    obtain ⟨targets, htargets⟩ : ∃ targets, buildBindingTargetMap
        (manifestBindings.map fun b => ⟨b.name, b.wit⟩) = .ok targets := by
      refine bindingTargetMapFrom_eq_ok ?_ ?_ ?_
      · intro b hb
        obtain ⟨b', hb', rfl⟩ := List.mem_map.mp hb
        exact Bool.eq_false_iff.mpr fun h => hblank ⟨b', hb', h⟩
      · rintro ⟨b, hb, b', hb', h⟩
        exact hamb ⟨⟨b.name, b.wit⟩, hmem.mp hb, ⟨b'.name, b'.wit⟩, hmem.mp hb', h⟩
      · intro b hb v hv
        simp at hv
    refine hmissing fun b hb himport => ?_
    obtain ⟨-, hall, -⟩ := of_bindingTargetMapFrom htargets
    have hlink := (hall ⟨b.name, b.wit⟩ (hmem.mpr hb)).2
    have hresolve : resolveBindingTargetForImport targets importName
        = some (b.name, normalizeBindingWitId b.wit) := by
      rw [resolveBindingTargetForImport, ← himport, hlink]
      rfl
    exact hmem.mp (isBindingAllowed_iff.mp (hallowed targets _ _ htargets hresolve))
  · intro hcond targets target interfaceId htargets hresolve
    obtain ⟨-, hall, honly⟩ := of_bindingTargetMapFrom htargets
    rcases hcond with ⟨b, hb, hblank⟩ | ⟨b, hb, b', hb', hsame, hname⟩ | hnormal
    · exact absurd hblank (by rw [(hall ⟨b.name, b.wit⟩ (hmem.mpr hb)).1]; nofun)
    · have h₁ := (hall ⟨b.name, b.wit⟩ (hmem.mpr hb)).2
      have h₂ := (hall ⟨b'.name, b'.wit⟩ (hmem.mpr hb')).2
      refine absurd (Option.some.inj (h₁.symm.trans ?_)) hname
      rwa [show normalizeBindingWitId b.wit = normalizeBindingWitId b'.wit from hsame]
    · obtain ⟨target', htarget, heq⟩ := Option.map_eq_some_iff.mp hresolve
      cases heq
      rcases honly _ _ htarget with hempty | ⟨b, hb, hwit, rfl⟩
      · simp at hempty
      · refine isBindingAllowed_iff.mpr ?_
        rw [← hwit]
        exact hmem.mpr (hnormal ⟨b.name, b.wit⟩ (hmem.mp hb) hwit)

theorem shim_authorized_iff_plain :
    validateBindings [⟨"svc-b", "yieldspace:svc/invoke"⟩]
      = .ok [⟨"svc-b", "yieldspace:svc/invoke"⟩] ∧
    ∀ targets target interfaceId,
      buildBindingTargetMap [⟨"svc-b", "yieldspace:svc/invoke"⟩] = .ok targets →
      resolveBindingTargetForImport targets "yieldspace:svc/invoke@0.1.0"
        = some (target, interfaceId) →
      isBindingAllowed [⟨"svc-b", "yieldspace:svc/invoke"⟩] target interfaceId = true := by
  have haccepted : validateBindings [⟨"svc-b", "yieldspace:svc/invoke"⟩]
      = .ok [⟨"svc-b", "yieldspace:svc/invoke"⟩] := rfl
  refine ⟨haccepted, (shim_authorized_iff _ _ haccepted _).mpr (.inr (.inr ?_))⟩
  intro b hb _
  obtain rfl := List.mem_singleton.mp hb
  exact List.mem_singleton.mpr rfl

/-- A binding with a version is linked under its normal form, and the call is
then refused. -/
theorem versioned_binding_refused :
    ∃ bindings targets,
      validateBindings [⟨"svc-b", "yieldspace:svc/invoke@0.1.0"⟩] = .ok bindings ∧
      buildBindingTargetMap bindings = .ok targets ∧
      resolveBindingTargetForImport targets "yieldspace:svc/invoke@0.1.0"
        = some ("svc-b", "yieldspace:svc/invoke") ∧
      isBindingAllowed bindings "svc-b" "yieldspace:svc/invoke" = false :=
  ⟨_, _, rfl, rfl, rfl, rfl⟩

end Imago
