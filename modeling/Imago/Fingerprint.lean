/-
Imago/Fingerprint.lean

What the fingerprint of a `deploy.prepare` request says about the request
(`fingerprint` in `artifact_store.rs`).

The fingerprint joins the fields with `|`, and the entries of the two maps
with `=` and a line feed, without escapes.  The fields may hold these
characters themselves, so two different payloads can have one fingerprint
(`shifted_names_collide`).  Equal fingerprints mean equal payloads exactly for
requests that hold the separators equally often, field by field
(`fingerprint_same_payload_iff`), in particular for requests without them.
-/
import Imago.ArtifactStore
import Imago.Delimited
import Mathlib.Data.List.TakeDrop

namespace Imago

open Std (TreeMap)
open Delimited (append_cons_inj flatMap_entry_inj)

/-- `DeployPrepareRequest::validate`. -/
def DeployPrepareRequest.validate (r : DeployPrepareRequest) : Except ValidationError Unit := do
  ensureRequiredStrings
    [(r.name, "name"), (r.appType, "type"), (r.artifactDigest, "artifact_digest"),
      (r.manifestDigest, "manifest_digest"), (r.idempotencyKey, "idempotency_key")]
  ensurePositiveU64 r.artifactSize "artifact_size"

/-- What is hashed of the two maps. -/
def DeployPrepareRequest.extra (r : DeployPrepareRequest) : String :=
  mapFingerprintFragment r.target ++ "|" ++ mapFingerprintFragment r.policy

/-- The two requests carry one payload; the idempotency keys may differ. -/
structure SamePayload (r₁ r₂ : DeployPrepareRequest) : Prop where
  name : r₁.name = r₂.name
  appType : r₁.appType = r₂.appType
  artifactDigest : r₁.artifactDigest = r₂.artifactDigest
  artifactSize : r₁.artifactSize = r₂.artifactSize
  manifestDigest : r₁.manifestDigest = r₂.manifestDigest
  target : r₁.target.toList = r₂.target.toList
  policy : r₁.policy.toList = r₂.policy.toList

/-- The `=` in each key and the line feeds in each value. -/
def mapSeparators (map : TreeMap String String) : List (Nat × Nat) :=
  map.toList.map fun e => (e.1.toList.count '=', e.2.toList.count '\n')

/-- The two requests hold the separators equally often, field by field.  The
size has none, and behind the manifest digest stands a hash of fixed length. -/
structure SameSeparators (r₁ r₂ : DeployPrepareRequest) : Prop where
  name : r₁.name.toList.count '|' = r₂.name.toList.count '|'
  appType : r₁.appType.toList.count '|' = r₂.appType.toList.count '|'
  artifactDigest : r₁.artifactDigest.toList.count '|' = r₂.artifactDigest.toList.count '|'
  target : mapSeparators r₁.target = mapSeparators r₂.target
  policy : mapSeparators r₁.policy = mapSeparators r₂.policy

theorem SamePayload.sameSeparators {r₁ r₂ : DeployPrepareRequest} (h : SamePayload r₁ r₂) :
    SameSeparators r₁ r₂ where
  name := by rw [h.name]
  appType := by rw [h.appType]
  artifactDigest := by rw [h.artifactDigest]
  target := by rw [mapSeparators, mapSeparators, h.target]
  policy := by rw [mapSeparators, mapSeparators, h.policy]

/-! ### The joined texts as lists of characters -/

/-- The entries of a map as keys and values without their encoding. -/
def mapEntries (map : TreeMap String String) : List (List Char × List Char) :=
  map.toList.map fun e => (e.1.toList, e.2.toList)

theorem toList_eq_of_mapEntries {m₁ m₂ : TreeMap String String}
    (h : mapEntries m₁ = mapEntries m₂) : m₁.toList = m₂.toList := by
  refine (List.map_injective_iff.mpr ?_) h
  rintro ⟨k₁, v₁⟩ ⟨k₂, v₂⟩ he
  obtain ⟨hk, hv⟩ := Prod.mk.inj he
  exact Prod.ext (String.toList_injective hk) (String.toList_injective hv)

theorem separators_mapEntries (map : TreeMap String String) :
    (mapEntries map).map (Delimited.separators '=' '\n') = mapSeparators map := by
  rw [mapEntries, mapSeparators, List.map_map]
  rfl

theorem toList_mapFingerprintFragment (map : TreeMap String String) :
    (mapFingerprintFragment map).toList = (mapEntries map).flatMap (Delimited.entry '=' '\n') := by
  -- the fold, over what has been written so far
  have hfold : ∀ (es : List (String × String)) (fragment : String),
      (es.foldl (fun fragment e => fragment ++ e.1 ++ "=" ++ e.2 ++ "\n") fragment).toList
        = fragment.toList ++ (es.map fun e => (e.1.toList, e.2.toList)).flatMap
            (Delimited.entry '=' '\n') := by
    intro es
    induction es with
    | nil => intro fragment; simp
    | cons e es ih =>
      intro fragment
      rw [List.foldl_cons, ih]
      simp [Delimited.entry]
  rw [mapFingerprintFragment, TreeMap.foldl_eq_foldl_toList, hfold, mapEntries]
  simp

theorem toList_fingerprint (cfg : StoreConfig) (r : DeployPrepareRequest) :
    (fingerprint cfg r).toList = r.name.toList ++ '|' :: (r.appType.toList ++ '|' ::
      (r.artifactDigest.toList ++ '|' :: ((toString r.artifactSize).toList ++ '|' ::
        (r.manifestDigest.toList ++ '|' ::
          (cfg.sha256Hex r.extra.toUTF8.data.toList).toList)))) := by
  simp [fingerprint, DeployPrepareRequest.extra]

theorem toList_toString_inj {m n : Nat} (h : (toString m).toList = (toString n).toList) :
    m = n := by
  have hdigits : Nat.toDigits 10 m = Nat.toDigits 10 n := by
    simpa [Nat.toString_eq_repr] using h
  have hvalue := congrArg (Nat.ofDigitChars 10 · 0) hdigits
  simpa [Nat.ofDigitChars_toDigits] using hvalue

theorem count_toString (n : Nat) : (toString n).toList.count '|' = 0 := by
  refine List.count_eq_zero.mpr fun hmem => ?_
  rw [Nat.toString_eq_repr, Nat.toList_repr] at hmem
  exact absurd (Nat.isDigit_of_mem_toDigits (by decide) (by decide) hmem) (by decide)

/-! ### When the fingerprint identifies the payload -/

/-- The maps, from the text that is hashed. -/
theorem maps_eq_of_extra {r₁ r₂ : DeployPrepareRequest} (h : r₁.extra = r₂.extra)
    (htarget : mapSeparators r₁.target = mapSeparators r₂.target)
    (hpolicy : mapSeparators r₁.policy = mapSeparators r₂.policy) :
    r₁.target.toList = r₂.target.toList ∧ r₁.policy.toList = r₂.policy.toList := by
  have hchars := congrArg String.toList h
  simp only [DeployPrepareRequest.extra, String.toList_append, toList_mapFingerprintFragment,
    List.append_assoc] at hchars
  rw [← separators_mapEntries, ← separators_mapEntries] at htarget hpolicy
  obtain ⟨hfirst, hrest⟩ := flatMap_entry_inj htarget hchars
  have hsecond := List.append_cancel_left hrest
  rw [← List.append_nil (List.flatMap ..),
    ← List.append_nil (List.flatMap _ (mapEntries r₂.policy))]
    at hsecond
  exact ⟨toList_eq_of_mapEntries hfirst,
    toList_eq_of_mapEntries (flatMap_entry_inj hpolicy hsecond).1⟩

/-- **When equal fingerprints mean equal payloads**: exactly when the two
requests hold the separators equally often.  Of the hash it is used that all
its texts have one length and that the two texts hashed here do not collide. -/
theorem fingerprint_same_payload_iff {cfg : StoreConfig} {r₁ r₂ : DeployPrepareRequest}
    (hlength : ∀ bytes, (cfg.sha256Hex bytes).length = 64)
    (hsha : cfg.sha256Hex r₁.extra.toUTF8.data.toList = cfg.sha256Hex r₂.extra.toUTF8.data.toList →
      r₁.extra.toUTF8.data.toList = r₂.extra.toUTF8.data.toList)
    (hfingerprint : fingerprint cfg r₁ = fingerprint cfg r₂) :
    SamePayload r₁ r₂ ↔ SameSeparators r₁ r₂ := by
  refine ⟨SamePayload.sameSeparators, fun h => ?_⟩
  have hchars := congrArg String.toList hfingerprint
  rw [toList_fingerprint, toList_fingerprint] at hchars
  -- cut the fields off from the front, and the hash from the back
  obtain ⟨hname, hchars⟩ := append_cons_inj h.name hchars
  obtain ⟨htype, hchars⟩ := append_cons_inj h.appType hchars
  obtain ⟨hdigest, hchars⟩ := append_cons_inj h.artifactDigest hchars
  obtain ⟨hsize, hchars⟩ :=
    append_cons_inj ((count_toString _).trans (count_toString _).symm) hchars
  obtain ⟨hmanifest, hhash⟩ := List.append_inj' hchars (by
    rw [List.length_cons, List.length_cons, String.length_toList, String.length_toList, hlength,
      hlength])
  have hbytes := hsha (String.toList_injective (List.cons.inj hhash).2)
  have hextra : r₁.extra = r₂.extra :=
    String.toByteArray_inj.mp (ByteArray.ext (Array.toList_inj.mp hbytes))
  obtain ⟨htarget, hpolicy⟩ := maps_eq_of_extra hextra h.target h.policy
  exact ⟨String.toList_injective hname, String.toList_injective htype,
    String.toList_injective hdigest, toList_toString_inj hsize, String.toList_injective hmanifest,
    htarget, hpolicy⟩

/-- A request without entries in its maps. -/
def plainRequest (name appType : String) : DeployPrepareRequest where
  name := name
  appType := appType
  target := ∅
  artifactDigest := "sha256:abc"
  artifactSize := 1024
  manifestDigest := "sha256:def"
  idempotencyKey := "deploy-1"
  policy := ∅

/-- A text of 64 characters, which tells shorter texts apart. -/
def sampleHex (bytes : List UInt8) : String :=
  String.ofList ((bytes.map fun b => Char.ofNat b.toNat).takeD 64 '0')

/-- The same payload again, with a map filled in another order. -/
theorem fingerprint_same_payload_iff_maps :
    let cfg := StoreConfig.new "/data" 60 60 4 4 4 4096 sampleHex
    let first := { plainRequest "svc" "rpc" with
      target := {("region", "eu"), ("zone", "1")}, policy := {("restart", "always")} }
    let again := { first with
      target := {("zone", "1"), ("region", "eu")}, idempotencyKey := "deploy-2" }
    fingerprint cfg first = fingerprint cfg again ∧
      (SamePayload first again ↔ SameSeparators first again) := by
  intro cfg first again
  have hextra : first.extra = again.extra := by decide +kernel
  have hfingerprint : fingerprint cfg first = fingerprint cfg again := by decide +kernel
  have hlength : ∀ bytes, (cfg.sha256Hex bytes).length = 64 :=
    fun _ => String.length_ofList.trans (List.takeD_length ..)
  have hiff := fingerprint_same_payload_iff hlength (fun _ => by rw [hextra]) hfingerprint
  exact ⟨hfingerprint, hiff⟩

/-- A `|` moved from the name to the type: two valid requests with different
payloads and, whatever the hash, one fingerprint. -/
theorem shifted_names_collide :
    (plainRequest "a|b" "c").validate = .ok () ∧ (plainRequest "a" "b|c").validate = .ok () ∧
      (plainRequest "a|b" "c").name ≠ (plainRequest "a" "b|c").name ∧
      ∀ cfg, fingerprint cfg (plainRequest "a|b" "c") =
        fingerprint cfg (plainRequest "a" "b|c") := by
  refine ⟨by decide +kernel, by decide +kernel, by decide, fun cfg => ?_⟩
  apply String.toList_injective
  rw [toList_fingerprint, toList_fingerprint]
  rfl

end Imago
