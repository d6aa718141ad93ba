/-
Imago/GpioCatalog.lean

The catalog of digital pins under `resources.gpio`: how the build checks it, and how
the plugin on the device reads it.

Both go through the same fields of each entry (`Reads`) and both want names and value
paths that differ.  The plugin also brings the value path into a normal form, which
must be a `value` file below the directory of the kernel; the build takes any text.
-/
import Imago.Json
import Imago.UnixPath
import Mathlib.Data.List.Forall2

namespace Imago

/-! ### What both sides do -/

/-- A text that is not blank, trimmed. -/
def nonEmptyText (value : Option JsonValue) : Option String :=
  ((value.bind JsonValue.asStr).map trim).filter (· ≠ "")

/-- A check that fails with an error. -/
def ensure {ε : Type} (condition : Prop) [Decidable condition] (error : ε) : Except ε Unit :=
  if condition then .ok () else .error error

/-- Names put into a set one by one, which must not be there. -/
def insertNames {ε : Type} (duplicated : Nat → String → ε) :
    Nat → List String → List String → Except ε (List String)
  | _, seen, [] => .ok seen
  | index, seen, name :: rest =>
    if name ∈ seen then .error (duplicated index name)
    else insertNames duplicated (index + 1) (name :: seen) rest

/-- `resources.gpio.digital_pins[index]`. -/
def pinPath (index : Nat) : String := "resources.gpio.digital_pins[" ++ toString index ++ "]"

/-- The public names and the value paths that have been seen. -/
structure SeenPins where
  names : List String
  valuePaths : List String

/-! ### The build -/

namespace Build

/-- `digital_pin_label`. -/
def digitalPinLabel (entry : JsonValue) (fieldName : String) : Except String String :=
  match nonEmptyText (entry.asObject.bind (JsonMap.get · "label")) with
  | some label => .ok label
  | none => .error (fieldName ++ ".label is required")

/-- The loop over the aliases. -/
def aliasNames (fieldName : String) : Nat → List JsonValue → Except String (List String)
  | _, [] => .ok []
  | index, item :: rest =>
    match nonEmptyText (some item) with
    | none => .error (fieldName ++ ".aliases[" ++ toString index ++ "] must be a string")
    | some name => do
        let names ← aliasNames fieldName (index + 1) rest
        return name :: names

/-- `digital_pin_public_names`. -/
def digitalPinPublicNames (entry : JsonValue) (fieldName : String) :
    Except String (List String) := do
  let label ← digitalPinLabel entry fieldName
  match entry.asObject with
  | none => .error (fieldName ++ " must be a table")
  | some object =>
    match object.get "aliases" with
    | none => return [label]
    | some aliases =>
      match aliases.asArray with
      | none => .error (fieldName ++ ".aliases must be an array")
      | some items => do
          let names ← aliasNames fieldName 0 items
          return label :: names

/-- `required_gpio_string_field`. -/
def requiredGpioStringField (object : JsonMap) (path field : String) : Except String String :=
  match nonEmptyText (object.get field) with
  | some value => .ok value
  | none => .error (path ++ "." ++ field ++ " must be a non-empty string")

/-- `required_gpio_bool_field`. -/
def requiredGpioBoolField (object : JsonMap) (path field : String) : Except String Bool :=
  match (object.get field).bind JsonValue.asBool with
  | some value => .ok value
  | none => .error (path ++ "." ++ field ++ " must be a boolean")

/-- The fields that an entry has to have. -/
def requiredPinFields : List String :=
  ["label", "value_path", "supports_input", "supports_output", "default_active_level",
    "allow_pull_resistor"]

/-- One entry. -/
def validatePin (seen : SeenPins) (index : Nat) (pin : JsonValue) : Except String SeenPins :=
  match pin.asObject with
  | none => .error (pinPath index ++ " must be a table")
  | some object => do
      requiredPinFields.forM fun field =>
        ensure ((object.get field).isSome = true)
          (pinPath index ++ "." ++ field ++ " is required after resource merge")
      let valuePath ← requiredGpioStringField object (pinPath index) "value_path"
      ensure (valuePath ∉ seen.valuePaths)
        ("resources.gpio.digital_pins contains duplicated value_path: " ++ valuePath)
      let supportsInput ← requiredGpioBoolField object (pinPath index) "supports_input"
      let supportsOutput ← requiredGpioBoolField object (pinPath index) "supports_output"
      ensure (supportsInput = true ∨ supportsOutput = true)
        (pinPath index ++ " must allow at least one mode (supports_input or supports_output)")
      let level ← requiredGpioStringField object (pinPath index) "default_active_level"
      ensure (level = "active-high" ∨ level = "active-low")
        (pinPath index ++ ".default_active_level must be 'active-high' or 'active-low'")
      let _ ← requiredGpioBoolField object (pinPath index) "allow_pull_resistor"
      let publicNames ← digitalPinPublicNames pin (pinPath index)
      let names ← insertNames
        (fun _ name => "resources.gpio.digital_pins contains duplicated public name: " ++ name) 0
        seen.names publicNames
      return ⟨names, valuePath :: seen.valuePaths⟩

/-- The loop over the entries. -/
def validatePins : SeenPins → Nat → List JsonValue → Except String Unit
  | _, _, [] => .ok ()
  | seen, index, pin :: rest => do
      let seen ← validatePin seen index pin
      validatePins seen (index + 1) rest

/-- `validate_final_gpio_catalog`. -/
def validateFinalGpioCatalog (resources : JsonValue) : Except String Unit :=
  match resources.asObject.bind (JsonMap.get · "gpio") with
  | none => .ok ()
  | some gpio =>
    match gpio.asObject.bind (JsonMap.get · "digital_pins") with
    | none => .ok ()
    | some digitalPins =>
      match digitalPins.asArray with
      | none => .error "resources.gpio.digital_pins must be an array"
      | some pins => validatePins ⟨[], []⟩ 0 pins

end Build

/-! ### The plugin -/

/-- `GpioError`, of which the catalog uses one case. -/
inductive GpioError where
  | other (message : String)

/-- `ActiveLevel`. -/
inductive ActiveLevel where
  | activeHigh
  | activeLow
  deriving DecidableEq

/-- `DigitalPinSpec`. -/
structure DigitalPinSpec where
  label : String
  aliases : List String
  valuePath : String
  supportsInput : Bool
  supportsOutput : Bool
  defaultActiveLevel : ActiveLevel
  allowPullResistor : Bool

namespace Gpio

open UnixPath

/-- `parse_required_string`. -/
def parseRequiredString (object : JsonMap) (fieldName fieldPath : String) :
    Except GpioError String :=
  match object.get fieldName with
  | none => .error (.other (fieldPath ++ " is required"))
  | some value =>
    match value.asStr with
    | none => .error (.other (fieldPath ++ " must be a string"))
    | some text =>
      if trim text = "" then .error (.other (fieldPath ++ " must not be empty"))
      else .ok (trim text)

/-- `parse_required_bool`. -/
def parseRequiredBool (object : JsonMap) (fieldName fieldPath : String) : Except GpioError Bool :=
  match object.get fieldName with
  | none => .error (.other (fieldPath ++ " is required"))
  | some value =>
    match value.asBool with
    | none => .error (.other (fieldPath ++ " must be a boolean"))
    | some b => .ok b

/-- The loop over an array of texts. -/
def stringItems (fieldPath : String) : Nat → List JsonValue → Except GpioError (List String)
  | _, [] => .ok []
  | index, item :: rest =>
    match item.asStr with
    | none => .error (.other (fieldPath ++ "[" ++ toString index ++ "] must be a string"))
    | some text =>
      if trim text = "" then
        .error (.other (fieldPath ++ "[" ++ toString index ++ "] must not be empty"))
      else do
        let values ← stringItems fieldPath (index + 1) rest
        return trim text :: values

/-- `parse_optional_string_array`. -/
def parseOptionalStringArray (object : JsonMap) (fieldName fieldPath : String) :
    Except GpioError (List String) :=
  match object.get fieldName with
  | none => .ok []
  | some value =>
    match value.asArray with
    | none => .error (.other (fieldPath ++ " must be an array of strings"))
    | some items => stringItems fieldPath 0 items

/-- `parse_required_active_level`. -/
def parseRequiredActiveLevel (object : JsonMap) (fieldName fieldPath : String) :
    Except GpioError ActiveLevel := do
  let raw ← parseRequiredString object fieldName fieldPath
  if raw = "active-high" then return .activeHigh
  else if raw = "active-low" then return .activeLow
  else
    .error (.other (fieldPath ++ " must be 'active-high' or 'active-low' (got: " ++ raw ++ ")"))

/-- One component of a value path. -/
def normalizeStep (normalized : List UnixPath.Component) :
    UnixPath.Component → List UnixPath.Component
  | .curDir => normalized
  | .parentDir => (pop normalized).getD (push normalized .parentDir)
  | part => push normalized part

/-- `GPIO_SYSFS_BASE_PATH`, as components. -/
def gpioBasePath : List UnixPath.Component :=
  [.rootDir, .normal "sys", .normal "class", .normal "gpio"]

/-- `normalize_digital_value_path`. -/
def normalizeDigitalValuePath (valuePath : String) : Except GpioError String :=
  let normalized := (components valuePath).foldl normalizeStep []
  if normalized = [] then
    .error (.other "resources.gpio.digital_pins[].value_path must not normalize to empty path")
  else if normalized.head? ≠ some .rootDir then
    .error (.other "resources.gpio.digital_pins[].value_path must be an absolute path")
  else if ¬gpioBasePath <+: normalized then
    .error (.other "resources.gpio.digital_pins[].value_path must stay under /sys/class/gpio")
  else if normalized.getLast? ≠ some (.normal "value") then
    .error (.other "resources.gpio.digital_pins[].value_path must target a GPIO value file")
  else .ok (render normalized)

/-- One entry. -/
def parsePin (seen : SeenPins) (index : Nat) (pinValue : JsonValue) :
    Except GpioError (DigitalPinSpec × SeenPins) :=
  match pinValue.asObject with
  | none => .error (.other (pinPath index ++ " must be a table"))
  | some pin => do
      let label ← parseRequiredString pin "label" (pinPath index ++ ".label")
      ensure (label ∉ seen.names) (.other (pinPath index ++ ".label is duplicated: " ++ label))
      let aliases ← parseOptionalStringArray pin "aliases" (pinPath index ++ ".aliases")
      let names ← insertNames (fun aliasIndex name => .other (pinPath index ++ ".aliases[" ++
        toString aliasIndex ++ "] is duplicated: " ++ name)) 0 (label :: seen.names) aliases
      let valuePathRaw ← parseRequiredString pin "value_path" (pinPath index ++ ".value_path")
      let valuePath ← normalizeDigitalValuePath valuePathRaw
      ensure (valuePath ∉ seen.valuePaths)
        (.other (pinPath index ++ ".value_path is duplicated: " ++ valuePath))
      let supportsInput ← parseRequiredBool pin "supports_input"
        (pinPath index ++ ".supports_input")
      let supportsOutput ←
        parseRequiredBool pin "supports_output" (pinPath index ++ ".supports_output")
      ensure (supportsInput = true ∨ supportsOutput = true) (.other (pinPath index ++
        " must allow at least one mode (supports_input or supports_output)"))
      let level ← parseRequiredActiveLevel pin "default_active_level"
        (pinPath index ++ ".default_active_level")
      let allowPullResistor ←
        parseRequiredBool pin "allow_pull_resistor" (pinPath index ++ ".allow_pull_resistor")
      return (⟨label, aliases, valuePath, supportsInput, supportsOutput, level, allowPullResistor⟩,
        ⟨names, valuePath :: seen.valuePaths⟩)

/-- The loop over the entries. -/
def parsePins : SeenPins → Nat → List JsonValue → Except GpioError (List DigitalPinSpec)
  | _, _, [] => .ok []
  | seen, index, pin :: rest => do
      let (spec, seen) ← parsePin seen index pin
      let specs ← parsePins seen (index + 1) rest
      return spec :: specs

/-- `parse_digital_pin_catalog`. -/
def parseDigitalPinCatalog (resources : JsonMap) : Except GpioError (List DigitalPinSpec) :=
  match resources.get "gpio" with
  | none => .ok []
  | some gpioValue =>
    match gpioValue.asObject with
    | none => .error (.other "resources.gpio must be a table")
    | some gpio =>
      match gpio.get "digital_pins" with
      | none => .error (.other "resources.gpio.digital_pins is required")
      | some digitalPinsValue =>
        match digitalPinsValue.asArray with
        | none => .error (.other "resources.gpio.digital_pins must be an array")
        | some digitalPins => parsePins ⟨[], []⟩ 0 digitalPins

end Gpio

/-! ### Fields -/

variable {index : Nat} {items : List JsonValue} {text : String}

section Fields

theorem ensure_eq_ok {ε : Type} {condition : Prop} [Decidable condition] {error : ε} {u : Unit} :
    ensure condition error = .ok u ↔ condition := by
  unfold ensure
  split
  · exact ⟨fun _ => ‹_›, fun _ => rfl⟩
  · exact ⟨nofun, fun h => absurd h ‹_›⟩

/-- Texts that differ from each other and have not been seen. -/
def Fresh (seen texts : List String) : Prop := texts.Nodup ∧ ∀ t ∈ texts, t ∉ seen

theorem fresh_append {seen xs ys : List String} :
    Fresh seen (xs ++ ys) ↔ Fresh seen xs ∧ Fresh (xs.reverse ++ seen) ys := by
  simp only [Fresh, List.nodup_append, List.mem_append, List.mem_reverse]
  grind

theorem fresh_nil (seen : List String) : Fresh seen [] := ⟨List.nodup_nil, nofun⟩

theorem fresh_cons {seen xs : List String} {x : String} :
    Fresh seen (x :: xs) ↔ x ∉ seen ∧ Fresh (x :: seen) xs := by
  rw [← List.singleton_append, fresh_append]
  simp [Fresh]

theorem insertNames_eq_ok {ε : Type} {duplicated : Nat → String → ε}
    {seen names seen' : List String} :
    insertNames duplicated index seen names = .ok seen' ↔
      Fresh seen names ∧ names.reverse ++ seen = seen' := by
  induction names generalizing index seen with
  | nil => exact ⟨fun h => ⟨fresh_nil seen, Except.ok.inj h⟩, fun h => congrArg Except.ok h.2⟩
  | cons name rest ih =>
    rw [insertNames, fresh_cons, List.reverse_cons, List.append_assoc, List.singleton_append]
    split
    · exact ⟨nofun, fun h => absurd ‹_› h.1.1⟩
    · rw [ih]
      exact ⟨fun h => ⟨⟨‹_›, h.1⟩, h.2⟩, fun h => ⟨h.1.2, h.2⟩⟩

/-- A text field that is not blank. -/
theorem nonEmptyText_eq_some {value : Option JsonValue} :
    nonEmptyText value = some text ↔ ∃ raw, value = some (.string raw) ∧ trim raw = text ∧
      text ≠ "" := by
  unfold nonEmptyText
  rw [Option.filter_eq_some_iff, Option.map_eq_some_iff]
  constructor
  · rintro ⟨⟨raw, hraw, rfl⟩, hne⟩
    obtain ⟨found, rfl, hfound⟩ := Option.bind_eq_some_iff.mp hraw
    exact ⟨raw, congrArg some (JsonValue.asStr_eq_some.mp hfound), rfl, of_decide_eq_true hne⟩
  · rintro ⟨raw, rfl, rfl, hne⟩
    exact ⟨⟨raw, rfl, rfl⟩, decide_eq_true hne⟩

variable {object : JsonMap} {field path : String}

theorem Build.requiredGpioStringField_eq_ok :
    Build.requiredGpioStringField object path field = .ok text ↔
      nonEmptyText (object.get field) = some text := by
  unfold Build.requiredGpioStringField
  cases nonEmptyText (object.get field) with
  | none => exact ⟨nofun, nofun⟩
  | some found => simp

theorem Gpio.parseRequiredString_eq_ok :
    Gpio.parseRequiredString object field path = .ok text ↔
      nonEmptyText (object.get field) = some text := by
  rw [nonEmptyText_eq_some]
  unfold Gpio.parseRequiredString
  cases object.get field with
  | none => exact ⟨nofun, nofun⟩
  | some value =>
    cases value with
    | string raw =>
      show (if trim raw = "" then _ else Except.ok (trim raw)) = Except.ok text ↔ _
      split
      · refine ⟨nofun, ?_⟩
        rintro ⟨_, ⟨rfl⟩, rfl, hne⟩
        exact absurd ‹_› hne
      · constructor
        · rintro ⟨rfl⟩
          exact ⟨raw, rfl, rfl, ‹_›⟩
        · rintro ⟨_, ⟨rfl⟩, rfl, -⟩
          rfl
    | _ => exact ⟨nofun, fun ⟨_, h, _⟩ => nomatch h⟩

theorem Build.requiredGpioBoolField_eq_ok {b : Bool} :
    Build.requiredGpioBoolField object path field = .ok b ↔ object.get field = some (.bool b) := by
  unfold Build.requiredGpioBoolField
  cases object.get field with
  | none => exact ⟨nofun, nofun⟩
  | some value => cases value <;> simp [JsonValue.asBool]

theorem Gpio.parseRequiredBool_eq_ok {b : Bool} :
    Gpio.parseRequiredBool object field path = .ok b ↔ object.get field = some (.bool b) := by
  unfold Gpio.parseRequiredBool
  cases object.get field with
  | none => exact ⟨nofun, nofun⟩
  | some value => cases value <;> simp [JsonValue.asBool]

/-- The items of an array are texts, and these are the trimmed ones. -/
def ItemsRead (items : List JsonValue) (names : List String) : Prop :=
  items.map (fun item => nonEmptyText (some item)) = names.map some

theorem itemsRead_cons {item : JsonValue} {names : List String} :
    ItemsRead (item :: items) names ↔ ∃ name rest, nonEmptyText (some item) = some name ∧
      ItemsRead items rest ∧ name :: rest = names := by
  cases names with
  | nil => exact ⟨nofun, fun ⟨_, _, _, _, h⟩ => nomatch h⟩
  | cons name names => simp [ItemsRead]

theorem Build.aliasNames_eq_ok {names : List String} :
    Build.aliasNames path index items = .ok names ↔ ItemsRead items names := by
  induction items generalizing index names with
  | nil =>
    cases names with
    | nil => exact ⟨fun _ => rfl, fun _ => rfl⟩
    | cons => exact ⟨nofun, nofun⟩
  | cons item items ih =>
    rw [Build.aliasNames, itemsRead_cons]
    cases nonEmptyText (some item) with
    | none => exact ⟨nofun, fun ⟨_, _, h, _⟩ => nomatch h⟩
    | some name => simp [Except.bind_eq_ok_iff, ih, pure, Except.pure]

theorem Gpio.stringItems_eq_ok {names : List String} :
    Gpio.stringItems path index items = .ok names ↔ ItemsRead items names := by
  induction items generalizing index names with
  | nil =>
    cases names with
    | nil => exact ⟨fun _ => rfl, fun _ => rfl⟩
    | cons => constructor <;> intro h <;> cases h
  | cons item items ih =>
    rw [Gpio.stringItems, itemsRead_cons]
    cases item with
    | string raw =>
      by_cases hraw : trim raw = ""
      · simp [JsonValue.asStr, nonEmptyText, hraw]
      · simp [JsonValue.asStr, nonEmptyText, hraw, Except.bind_eq_ok_iff, ih, pure, Except.pure]
    | _ =>
      constructor
      · intro h
        cases h
      · rintro ⟨_, _, h, _⟩
        cases h

/-- The aliases of an entry: none, or an array of texts. -/
def AliasesRead (object : JsonMap) (names : List String) : Prop :=
  (object.get "aliases" = none ∧ names = []) ∨
  ∃ items, object.get "aliases" = some (.array items) ∧ ItemsRead items names

theorem Gpio.parseOptionalStringArray_eq_ok {names : List String} :
    Gpio.parseOptionalStringArray object "aliases" path = .ok names ↔ AliasesRead object names := by
  unfold Gpio.parseOptionalStringArray AliasesRead
  cases object.get "aliases" with
  | none => simp [eq_comm]
  | some value => cases value <;> simp [JsonValue.asArray, Gpio.stringItems_eq_ok]

theorem Build.digitalPinLabel_eq_ok {label : String} :
    Build.digitalPinLabel (.object object) path = .ok label ↔
      nonEmptyText (object.get "label") = some label := by
  show (match nonEmptyText (object.get "label") with
    | some label => Except.ok label
    | none => .error (path ++ ".label is required")) = .ok label ↔ _
  cases nonEmptyText (object.get "label") with
  | none => exact ⟨nofun, nofun⟩
  | some found => simp

/-- The names of an entry are its label and its aliases. -/
theorem Build.digitalPinPublicNames_eq_ok {names : List String} :
    Build.digitalPinPublicNames (.object object) path = .ok names ↔
      ∃ label aliases, nonEmptyText (object.get "label") = some label ∧ AliasesRead object aliases ∧
        label :: aliases = names := by
  unfold Build.digitalPinPublicNames AliasesRead
  simp only [Except.bind_eq_ok_iff, Build.digitalPinLabel_eq_ok, JsonValue.asObject]
  refine exists_congr fun label => ?_
  cases object.get "aliases" with
  | none => simp [pure, Except.pure]
  | some value =>
    cases value <;> simp [JsonValue.asArray, Except.bind_eq_ok_iff, Build.aliasNames_eq_ok, pure,
      Except.pure]

end Fields

/-! ### Entries -/

/-- What both sides take from an entry. -/
structure PinFields where
  label : String
  aliases : List String
  valuePath : String
  supportsInput : Bool
  supportsOutput : Bool
  level : String
  allowPullResistor : Bool

def PinFields.names (r : PinFields) : List String := r.label :: r.aliases

/-- These are the fields of a complete entry. -/
structure Reads (object : JsonMap) (r : PinFields) : Prop where
  label : nonEmptyText (object.get "label") = some r.label
  aliases : AliasesRead object r.aliases
  valuePath : nonEmptyText (object.get "value_path") = some r.valuePath
  supportsInput : object.get "supports_input" = some (.bool r.supportsInput)
  supportsOutput : object.get "supports_output" = some (.bool r.supportsOutput)
  mode : r.supportsInput = true ∨ r.supportsOutput = true
  level : nonEmptyText (object.get "default_active_level") = some r.level
  levelKnown : r.level = "active-high" ∨ r.level = "active-low"
  allowPullResistor : object.get "allow_pull_resistor" = some (.bool r.allowPullResistor)

theorem isSome_of_nonEmptyText {value : Option JsonValue} (h : nonEmptyText value = some text) :
    value.isSome = true := by
  obtain ⟨raw, rfl, -⟩ := nonEmptyText_eq_some.mp h
  rfl

variable {r : PinFields}

/-- A complete entry has the fields that are asked for. -/
theorem Reads.required {object : JsonMap} (h : Reads object r) :
    ∀ field ∈ Build.requiredPinFields, (object.get field).isSome = true := by
  simp only [Build.requiredPinFields, List.forall_mem_cons, List.not_mem_nil, false_implies,
    implies_true, and_true]
  exact ⟨isSome_of_nonEmptyText h.label, isSome_of_nonEmptyText h.valuePath,
    by rw [h.supportsInput]; rfl, by rw [h.supportsOutput]; rfl, isSome_of_nonEmptyText h.level,
    by rw [h.allowPullResistor]; rfl⟩

variable {pin : JsonValue} {seen : SeenPins}

/-- **An entry that the build accepts.** -/
theorem Build.validatePin_eq_ok {seen' : SeenPins} :
    Build.validatePin seen index pin = .ok seen' ↔ ∃ object r, pin = .object object ∧
      Reads object r ∧ Fresh seen.names r.names ∧ r.valuePath ∉ seen.valuePaths ∧
      seen' = ⟨r.names.reverse ++ seen.names, r.valuePath :: seen.valuePaths⟩ := by
  cases pin with
  | object object =>
    unfold Build.validatePin
    simp only [JsonValue.asObject, Except.bind_eq_ok_iff, Except.forM_eq_ok, ensure_eq_ok,
      Build.requiredGpioStringField_eq_ok, Build.requiredGpioBoolField_eq_ok,
      Build.digitalPinPublicNames_eq_ok, insertNames_eq_ok]
    constructor
    · rintro ⟨_, -, path, hpath, _, hfresh, input, hinput, output, houtput, _, hmode, level, hlevel,
        _, hknown, pull, hpull, _, ⟨label, aliases, hlabel, haliases, rfl⟩, names, ⟨hnew, rfl⟩, h⟩
      exact ⟨object, ⟨label, aliases, path, input, output, level, pull⟩, rfl,
        ⟨hlabel, haliases, hpath, hinput, houtput, hmode, hlevel, hknown, hpull⟩, hnew,
        hfresh, (Except.ok.inj h).symm⟩
    · rintro ⟨_, r, ⟨rfl⟩, hreads, hnew, hfresh, rfl⟩
      exact ⟨(), hreads.required, r.valuePath, hreads.valuePath, (), hfresh, r.supportsInput,
        hreads.supportsInput, r.supportsOutput, hreads.supportsOutput, (), hreads.mode, r.level,
        hreads.level, (), hreads.levelKnown, r.allowPullResistor, hreads.allowPullResistor, r.names,
        ⟨r.label, r.aliases, hreads.label, hreads.aliases, rfl⟩, _, ⟨hnew, rfl⟩, rfl⟩
  | _ => exact ⟨nofun, fun ⟨_, _, h, _⟩ => nomatch h⟩

namespace Gpio

/-- The level that a text stands for. -/
def levelOf (level : String) : ActiveLevel :=
  if level = "active-high" then .activeHigh else .activeLow

theorem parseRequiredActiveLevel_eq_ok {object : JsonMap} {path : String} {level : ActiveLevel} :
    parseRequiredActiveLevel object "default_active_level" path = .ok level ↔
      ∃ raw, nonEmptyText (object.get "default_active_level") = some raw ∧
        (raw = "active-high" ∨ raw = "active-low") ∧ levelOf raw = level := by
  unfold parseRequiredActiveLevel
  rw [Except.bind_eq_ok_iff]
  simp only [parseRequiredString_eq_ok]
  refine exists_congr fun raw => and_congr_right fun _ => ?_
  unfold levelOf
  split
  · simp_all [pure, Except.pure]
  · split <;> simp_all [pure, Except.pure]

/-- What the plugin makes of the fields, with the value path in its normal form. -/
def specOf (r : PinFields) (valuePath : String) : DigitalPinSpec :=
  ⟨r.label, r.aliases, valuePath, r.supportsInput, r.supportsOutput, levelOf r.level,
    r.allowPullResistor⟩

/-- **An entry that the plugin accepts.** -/
theorem parsePin_eq_ok {result : DigitalPinSpec × SeenPins} :
    parsePin seen index pin = .ok result ↔ ∃ object r valuePath, pin = .object object ∧
      Reads object r ∧ Fresh seen.names r.names ∧
      normalizeDigitalValuePath r.valuePath = .ok valuePath ∧
      valuePath ∉ seen.valuePaths ∧
      result = (specOf r valuePath,
        ⟨r.names.reverse ++ seen.names, valuePath :: seen.valuePaths⟩) := by
  cases pin with
  | object object =>
    unfold parsePin
    simp only [JsonValue.asObject, Except.bind_eq_ok_iff, ensure_eq_ok, parseRequiredString_eq_ok,
      parseRequiredBool_eq_ok, parseOptionalStringArray_eq_ok, insertNames_eq_ok,
      parseRequiredActiveLevel_eq_ok]
    constructor
    · rintro ⟨label, hlabel, _, hnew, aliases, haliases, names, ⟨hfresh, rfl⟩, raw, hraw,
        valuePath, hnormal, _, hpath, input, hinput, output, houtput, _, hmode, _,
        ⟨level, hlevel, hknown, rfl⟩, pull, hpull, h⟩
      have hlabels : Fresh seen.names (label :: aliases) := fresh_cons.mpr ⟨hnew, hfresh⟩
      refine ⟨object, ⟨label, aliases, raw, input, output, level, pull⟩, valuePath, rfl,
        ⟨hlabel, haliases, hraw, hinput, houtput, hmode, hlevel, hknown, hpull⟩, hlabels, hnormal,
        hpath, ?_⟩
      rw [← Except.ok.inj h, PinFields.names, List.reverse_cons, List.append_assoc]
      rfl
    · rintro ⟨_, r, valuePath, ⟨rfl⟩, hreads, hnew, hnormal, hpath, rfl⟩
      obtain ⟨hlabel, haliases⟩ := fresh_cons.mp hnew
      refine ⟨r.label, hreads.label, (), hlabel, r.aliases, hreads.aliases, _,
        ⟨haliases, rfl⟩, r.valuePath, hreads.valuePath, valuePath, hnormal, (),
        hpath, r.supportsInput, hreads.supportsInput, r.supportsOutput, hreads.supportsOutput, (),
        hreads.mode, levelOf r.level, ⟨r.level, hreads.level, hreads.levelKnown, rfl⟩,
        r.allowPullResistor, hreads.allowPullResistor, ?_⟩
      rw [PinFields.names, List.reverse_cons, List.append_assoc]
      rfl
  | _ => exact ⟨nofun, fun ⟨_, _, _, h, _⟩ => nomatch h⟩

end Gpio

/-! ### Catalogs -/

/-- An entry is a table with these fields. -/
def ReadsPin (pin : JsonValue) (r : PinFields) : Prop :=
  ∃ object, pin = .object object ∧ Reads object r

/-- **A catalog that the build accepts.** -/
theorem Build.validatePins_eq_ok {pins : List JsonValue} :
    Build.validatePins seen index pins = .ok () ↔ ∃ rs, List.Forall₂ ReadsPin pins rs ∧
      Fresh seen.names (rs.flatMap PinFields.names) ∧
        Fresh seen.valuePaths (rs.map (·.valuePath)) := by
  induction pins generalizing seen index with
  | nil => exact ⟨fun _ => ⟨[], .nil, fresh_nil _, fresh_nil _⟩, fun _ => rfl⟩
  | cons pin pins ih =>
    rw [Build.validatePins]
    simp only [Except.bind_eq_ok_iff, Build.validatePin_eq_ok, ih]
    constructor
    · rintro ⟨_, ⟨object, r, rfl, hreads, hnames, hpath, rfl⟩, rs, hrs, hnames', hpaths⟩
      exact ⟨r :: rs, .cons ⟨object, rfl, hreads⟩ hrs, fresh_append.mpr ⟨hnames, hnames'⟩,
        fresh_cons.mpr ⟨hpath, hpaths⟩⟩
    · rintro ⟨_, hrs, hnames, hpaths⟩
      obtain ⟨r, rs, ⟨object, rfl, hreads⟩, htail, rfl⟩ := List.forall₂_cons_left_iff.mp hrs
      obtain ⟨hnames, hnames'⟩ := fresh_append.mp hnames
      obtain ⟨hpath, hpaths⟩ := fresh_cons.mp hpaths
      exact ⟨_, ⟨object, r, rfl, hreads, hnames, hpath, rfl⟩, rs, htail, hnames', hpaths⟩

/-- **A catalog that the plugin accepts.** -/
theorem Gpio.parsePins_eq_ok {pins : List JsonValue} {specs : List DigitalPinSpec} :
    Gpio.parsePins seen index pins = .ok specs ↔ ∃ rs paths, List.Forall₂ ReadsPin pins rs ∧
      Fresh seen.names (rs.flatMap PinFields.names) ∧
      List.Forall₂ (fun r path => Gpio.normalizeDigitalValuePath r.valuePath = .ok path) rs paths ∧
      Fresh seen.valuePaths paths ∧ List.zipWith Gpio.specOf rs paths = specs := by
  induction pins generalizing seen index specs with
  | nil =>
    constructor
    · intro h
      exact ⟨[], [], .nil, fresh_nil _, .nil, fresh_nil _, Except.ok.inj h⟩
    · rintro ⟨_, _, ⟨⟩, -, ⟨⟩, -, rfl⟩
      rfl
  | cons pin pins ih =>
    rw [Gpio.parsePins]
    simp only [Except.bind_eq_ok_iff, Gpio.parsePin_eq_ok, ih]
    constructor
    · rintro ⟨_, ⟨object, r, path, rfl, hreads, hnames, hnormal, hpath, rfl⟩, _,
        ⟨rs, paths, hrs, hnames', hnormals, hpaths, rfl⟩, h⟩
      exact ⟨r :: rs, path :: paths, .cons ⟨object, rfl, hreads⟩ hrs,
        fresh_append.mpr ⟨hnames, hnames'⟩, .cons hnormal hnormals, fresh_cons.mpr ⟨hpath, hpaths⟩,
        Except.ok.inj h⟩
    · rintro ⟨_, _, hrs, hnames, hnormals, hpaths, rfl⟩
      obtain ⟨r, rs, ⟨object, rfl, hreads⟩, htail, rfl⟩ := List.forall₂_cons_left_iff.mp hrs
      obtain ⟨path, paths, hnormal, hnormals', rfl⟩ := List.forall₂_cons_left_iff.mp hnormals
      obtain ⟨hnames, hnames'⟩ := fresh_append.mp hnames
      obtain ⟨hpath, hpaths⟩ := fresh_cons.mp hpaths
      exact ⟨_, ⟨object, r, path, rfl, hreads, hnames, hnormal, hpath, rfl⟩, _,
        ⟨rs, paths, htail, hnames', hnormals', hpaths, rfl⟩, rfl⟩

/-! ### Value paths in normal form -/

namespace Gpio

open UnixPath

/-- A `value` file below the directory of the kernel, written without detours. -/
def CanonicalValuePath (path : String) : Prop :=
  ∃ names : List String, (∀ n ∈ names, NormalName n) ∧
    path = "/" ++ "/".intercalate (["sys", "class", "gpio"] ++ names ++ ["value"])

/-- What is left of a path while it is brought into normal form: parents in front, and
then names. -/
def Shape (path : List UnixPath.Component) : Prop :=
  ∃ (root : Bool) (parents : Nat) (names : List String), (∀ n ∈ names, NormalName n) ∧
    path = (if root then [.rootDir] else []) ++ List.replicate parents .parentDir ++
      names.map .normal

variable {path : List UnixPath.Component}

theorem Shape.step (h : Shape path) {part : UnixPath.Component}
    (hpart : ∀ n, part = .normal n → NormalName n) : Shape (normalizeStep path part) := by
  obtain ⟨root, parents, names, hnames, rfl⟩ := h
  cases part with
  | curDir => exact ⟨root, parents, names, hnames, rfl⟩
  | rootDir => exact ⟨true, 0, [], nofun, rfl⟩
  | normal n =>
    refine ⟨root, parents, names ++ [n], fun m hm => ?_, ?_⟩
    · rcases List.mem_append.mp hm with hm | hm
      · exact hnames m hm
      · exact List.mem_singleton.mp hm ▸ hpart n rfl
    · rw [List.map_append, ← List.append_assoc]
      rfl
  | parentDir =>
    -- the last name goes first, then the last parent; a parent stays behind a root or nothing
    rcases List.eq_nil_or_concat' names with rfl | ⟨front, last, rfl⟩
    · cases parents with
      | zero =>
        cases root
        · exact ⟨false, 1, [], nofun, rfl⟩
        · exact ⟨true, 1, [], nofun, rfl⟩
      | succ parents =>
        refine ⟨root, parents, [], nofun, ?_⟩
        rw [List.map_nil, List.append_nil, List.append_nil, List.replicate_succ',
          ← List.append_assoc]
        simp [normalizeStep, pop]
    · refine ⟨root, parents, front, fun n hn => hnames n (List.mem_append_left _ hn), ?_⟩
      rw [List.map_append, ← List.append_assoc]
      simp [normalizeStep, pop]

theorem shape_foldl {parts : List UnixPath.Component} (h : Shape path)
    (hparts : ∀ n, .normal n ∈ parts → NormalName n) : Shape (parts.foldl normalizeStep path) := by
  induction parts generalizing path with
  | nil => exact h
  | cons part parts ih =>
    exact ih (h.step fun n hn => hparts n (hn ▸ (.head _)))
      fun n hn => hparts n (.tail _ hn)

/-- Names are pushed as they are. -/
theorem foldl_normalizeStep_normal (path : List UnixPath.Component) (names : List String) :
    (names.map .normal).foldl normalizeStep path = path ++ names.map .normal := by
  induction names generalizing path with
  | nil => exact (List.append_nil path).symm
  | cons name names ih =>
    rw [List.map_cons, List.foldl_cons, ih]
    show (path ++ [.normal name]) ++ _ = _
    rw [List.append_assoc]
    rfl

/-- A shape below the base path has a root and names only. -/
theorem Shape.below (h : Shape path) (hbase : gpioBasePath <+: path)
    (hlast : path.getLast? = some (.normal "value")) :
    ∃ names : List String, (∀ n ∈ names, NormalName n) ∧
      path = .rootDir :: (["sys", "class", "gpio"] ++ names ++ ["value"]).map .normal := by
  obtain ⟨root, parents, names, hnames, rfl⟩ := h
  obtain ⟨rest, hrest⟩ := hbase
  have hroot : root = true := by
    cases root with
    | true => rfl
    | false => cases parents <;> cases names <;> simp [gpioBasePath, List.replicate_succ] at hrest
  have hparents : parents = 0 := by
    cases parents with
    | zero => rfl
    | succ parents => simp [gpioBasePath, hroot, List.replicate_succ] at hrest
  subst hroot hparents
  rcases names with - | ⟨a, - | ⟨b, - | ⟨c, tail⟩⟩⟩
  · simp [gpioBasePath] at hrest
  · simp [gpioBasePath] at hrest
  · simp [gpioBasePath] at hrest
  · simp only [gpioBasePath, if_true, List.replicate_zero, List.append_nil, List.map_cons,
      List.cons_append, List.nil_append, List.cons.injEq, UnixPath.Component.normal.injEq,
      true_and] at hrest
    obtain ⟨rfl, rfl, rfl, -⟩ := hrest
    rcases List.eq_nil_or_concat' tail with rfl | ⟨front, last, rfl⟩
    · simp at hlast
    · have hvalue : last = "value" := by
        rw [List.map_cons, List.map_cons, List.map_cons, List.map_append, ← List.cons_append,
          ← List.cons_append, ← List.cons_append, ← List.append_assoc] at hlast
        rw [List.map_singleton, List.getLast?_concat] at hlast
        exact UnixPath.Component.normal.inj (Option.some.inj hlast)
      subst hvalue
      exact ⟨front, fun n hn => hnames n (by simp [hn]), by simp⟩

/-- What the plugin returns is a canonical path. -/
theorem canonical_of_normalize {raw path : String} (h : normalizeDigitalValuePath raw = .ok path) :
    CanonicalValuePath path := by
  unfold normalizeDigitalValuePath at h
  have hshape : Shape ((components raw).foldl normalizeStep []) :=
    shape_foldl ⟨false, 0, [], nofun, rfl⟩ fun n hn => normalName_of_mem_components hn
  generalize (components raw).foldl normalizeStep [] = normalized at h hshape
  simp only at h
  split at h
  · cases h
  · split at h
    · cases h
    · split at h
      · cases h
      · rename_i hbase
        split at h
        · cases h
        · rename_i hlast
          obtain ⟨names, hnames, rfl⟩ := hshape.below (not_not.mp hbase) (not_not.mp hlast)
          cases h
          refine ⟨names, hnames, ?_⟩
          rw [render, List.map_map]
          exact congrArg (fun l => "/" ++ "/".intercalate l) (List.map_id _)

/-- **The paths that the plugin leaves as they are.** -/
theorem normalizeDigitalValuePath_eq_self {path : String} :
    normalizeDigitalValuePath path = .ok path ↔ CanonicalValuePath path := by
  refine ⟨canonical_of_normalize, ?_⟩
  rintro ⟨names, hnames, rfl⟩
  generalize hall : ["sys", "class", "gpio"] ++ names ++ ["value"] = all
  have hnormal : ∀ n ∈ all, NormalName n := by
    rw [← hall]
    simp only [List.cons_append, List.nil_append, List.forall_mem_cons, List.forall_mem_append,
      List.not_mem_nil, false_implies, implies_true, and_true]
    exact ⟨by unfold NormalName; decide, by unfold NormalName; decide, by unfold NormalName; decide,
      hnames, by unfold NormalName; decide⟩
  have hne : all ≠ [] := by
    rw [← hall]
    exact List.cons_ne_nil _ _
  have hrender : render (.rootDir :: all.map .normal) = "/" ++ "/".intercalate all := by
    rw [render, List.map_map]
    exact congrArg (fun l => "/" ++ "/".intercalate l) (List.map_id _)
  have hnormalized : (components ("/" ++ "/".intercalate all)).foldl normalizeStep [] =
      .rootDir :: all.map .normal := by
    rw [← hrender, components_render hne hnormal, List.foldl_cons, foldl_normalizeStep_normal]
    rfl
  have hbase : gpioBasePath <+: .rootDir :: all.map .normal := by
    rw [← hall]
    exact ⟨(names ++ ["value"]).map .normal, by simp [gpioBasePath]⟩
  have hhead : (UnixPath.Component.rootDir :: all.map .normal).head? = some .rootDir := rfl
  have hlast : (UnixPath.Component.rootDir :: all.map .normal).getLast? =
      some (.normal "value") := by
    rw [← hall, List.map_append, ← List.cons_append, List.map_singleton, List.getLast?_concat]
  unfold normalizeDigitalValuePath
  simp only [hnormalized]
  rw [if_neg (List.cons_ne_nil _ _), if_neg (not_not.mpr hhead), if_neg (not_not.mpr hbase),
    if_neg (not_not.mpr hlast), hrender]

end Gpio

/-! ### The two catalogs -/

/-- The public names and the value path of an entry, as the build reads them. -/
def Build.publicPin (pin : JsonValue) : Option (List String × String) := do
  let names ← (Build.digitalPinPublicNames pin "").toOption
  let object ← pin.asObject
  let valuePath ← nonEmptyText (object.get "value_path")
  return (names, valuePath)

/-- The entries that the build sees. -/
def Build.publicCatalog (resources : JsonMap) : List (List String × String) :=
  match ((resources.get "gpio").bind JsonValue.asObject).bind (JsonMap.get · "digital_pins") with
  | some (.array pins) => pins.filterMap Build.publicPin
  | _ => []

/-- The public names and the value path of an entry of the plugin. -/
def DigitalPinSpec.publicPin (spec : DigitalPinSpec) : List String × String :=
  (spec.label :: spec.aliases, spec.valuePath)

/-- The plugin accepts the resources, with the names and the paths that the build sees. -/
def Gpio.SameCatalog (resources : JsonMap) : Prop :=
  ∃ specs, Gpio.parseDigitalPinCatalog resources = .ok specs ∧
    specs.map DigitalPinSpec.publicPin = Build.publicCatalog resources

/-- If there is a `gpio`, it is a table with an array of pins, and each value path is
canonical once it is trimmed. -/
def Gpio.Readable (resources : JsonMap) : Prop :=
  ∀ gpio, resources.get "gpio" = some gpio → ∃ table pins, gpio = .object table ∧
    JsonMap.get table "digital_pins" = some (.array pins) ∧
    ∀ pin ∈ pins, ∀ object raw, pin = .object object →
      JsonMap.get object "value_path" = some (.string raw) → Gpio.CanonicalValuePath (trim raw)

section Catalogs

variable {pins : List JsonValue} {rs : List PinFields}

theorem ReadsPin.publicPin (h : ReadsPin pin r) :
    Build.publicPin pin = some (r.names, r.valuePath) := by
  obtain ⟨object, rfl, h⟩ := h
  have hnames : Build.digitalPinPublicNames (.object object) "" = .ok r.names :=
    Build.digitalPinPublicNames_eq_ok.mpr ⟨r.label, r.aliases, h.label, h.aliases, rfl⟩
  unfold Build.publicPin
  rw [hnames]
  show (nonEmptyText (JsonMap.get object "value_path")).bind _ = _
  rw [h.valuePath]
  rfl

theorem filterMap_publicPin (h : List.Forall₂ ReadsPin pins rs) :
    pins.filterMap Build.publicPin = rs.map fun r => (r.names, r.valuePath) := by
  induction h with
  | nil => rfl
  | cons hpin _ ih => rw [List.filterMap_cons, hpin.publicPin, ih, List.map_cons]

/-- The entries of the plugin are those of the build if no path has been changed. -/
theorem map_publicPin_zipWith {paths : List String} (hlength : rs.length = paths.length) :
    (List.zipWith Gpio.specOf rs paths).map DigitalPinSpec.publicPin =
      rs.map (fun r => (r.names, r.valuePath)) ↔ paths = rs.map (·.valuePath) := by
  induction rs generalizing paths with
  | nil =>
    rw [List.length_nil] at hlength
    simp [List.length_eq_zero_iff.mp hlength.symm]
  | cons r rs ih =>
    cases paths with
    | nil => cases hlength
    | cons path paths =>
      rw [List.zipWith_cons_cons, List.map_cons, List.map_cons, List.map_cons, List.cons.injEq,
        List.cons.injEq, ih (Nat.succ.inj hlength)]
      exact and_congr_left fun _ => ⟨fun h => (Prod.mk.inj h).2, fun h => congrArg (Prod.mk _) h⟩

/-- The value paths that the build reads are canonical. -/
theorem canonical_iff_of_reads (h : List.Forall₂ ReadsPin pins rs) :
    (∀ pin ∈ pins, ∀ object raw, pin = .object object →
      JsonMap.get object "value_path" = some (.string raw) → Gpio.CanonicalValuePath (trim raw)) ↔
    ∀ r ∈ rs, Gpio.CanonicalValuePath r.valuePath := by
  induction h with
  | nil => exact ⟨fun _ => nofun, fun _ => nofun⟩
  | cons hpin _ ih =>
    rw [List.forall_mem_cons, List.forall_mem_cons, ih]
    refine and_congr_left fun _ => ?_
    obtain ⟨object, rfl, hreads⟩ := hpin
    obtain ⟨raw, hraw, htrim, -⟩ := nonEmptyText_eq_some.mp hreads.valuePath
    rw [← htrim]
    constructor
    · intro h
      exact h object raw rfl hraw
    · rintro h _ raw' ⟨rfl⟩ hraw'
      rw [hraw, Option.some.injEq, JsonValue.string.injEq] at hraw'
      rwa [← hraw']

/-- The pins alone: the plugin accepts what the build has accepted if all value paths are
canonical. -/
theorem pins_agree_iff (h : Build.validatePins ⟨[], []⟩ 0 pins = .ok ()) :
    (∃ specs, Gpio.parsePins ⟨[], []⟩ 0 pins = .ok specs ∧
      specs.map DigitalPinSpec.publicPin = pins.filterMap Build.publicPin) ↔
    ∀ pin ∈ pins, ∀ object raw, pin = .object object →
      JsonMap.get object "value_path" = some (.string raw) →
        Gpio.CanonicalValuePath (trim raw) := by
  constructor
  · rintro ⟨specs, hparse, hsame⟩
    obtain ⟨rs, paths, hrs, -, hnormal, -, rfl⟩ := Gpio.parsePins_eq_ok.mp hparse
    rw [filterMap_publicPin hrs, map_publicPin_zipWith hnormal.length_eq] at hsame
    rw [hsame, List.forall₂_map_right_iff, List.forall₂_same] at hnormal
    exact (canonical_iff_of_reads hrs).mpr fun r hr =>
      Gpio.normalizeDigitalValuePath_eq_self.mp (hnormal r hr)
  · intro hcanonical
    obtain ⟨rs, hrs, hnames, hpaths⟩ := Build.validatePins_eq_ok.mp h
    rw [canonical_iff_of_reads hrs] at hcanonical
    have hnormal : List.Forall₂
        (fun r path => Gpio.normalizeDigitalValuePath r.valuePath = .ok path) rs
        (rs.map (·.valuePath)) := by
      rw [List.forall₂_map_right_iff, List.forall₂_same]
      exact fun r hr => Gpio.normalizeDigitalValuePath_eq_self.mpr (hcanonical r hr)
    rw [filterMap_publicPin hrs]
    exact ⟨_, Gpio.parsePins_eq_ok.mpr ⟨rs, _, hrs, hnames, hnormal, hpaths, rfl⟩,
      (map_publicPin_zipWith hnormal.length_eq).mpr rfl⟩

end Catalogs

/-- **When the device reads the catalog that the build has checked.**  A catalog that the
build accepts is accepted by the plugin, with the same names and value paths, exactly
if `gpio` is a table with pins in it and their value paths are canonical. -/
theorem gpio_catalog_agrees_iff (resources : JsonMap)
    (h : Build.validateFinalGpioCatalog (.object resources) = .ok ()) :
    Gpio.SameCatalog resources ↔ Gpio.Readable resources := by
  unfold Gpio.SameCatalog Gpio.Readable Gpio.parseDigitalPinCatalog Build.publicCatalog
  unfold Build.validateFinalGpioCatalog at h
  simp only [JsonValue.asObject, Option.bind_some] at h
  cases hgpio : resources.get "gpio" with
  | none => exact ⟨fun _ => nofun, fun _ => ⟨[], rfl, rfl⟩⟩
  | some gpio =>
    rw [hgpio] at h
    cases gpio with
    | object table =>
      cases hpins : JsonMap.get table "digital_pins" with
      | none =>
        constructor
        · rintro ⟨specs, hparse, -⟩
          simp only [JsonValue.asObject, hpins] at hparse
          cases hparse
        · intro hreadable
          obtain ⟨_, pins, ⟨rfl⟩, hsome, -⟩ := hreadable _ rfl
          rw [hpins] at hsome
          cases hsome
      | some value =>
        simp only [hpins, Option.bind_some, JsonValue.asObject] at h ⊢
        cases value with
        | array pins =>
          simp only [JsonValue.asArray] at h ⊢
          rw [pins_agree_iff h]
          constructor
          · rintro hcanonical _ ⟨rfl⟩
            exact ⟨table, pins, rfl, hpins, hcanonical⟩
          · intro hreadable
            obtain ⟨_, pins', ⟨rfl⟩, hpins', hcanonical⟩ := hreadable _ rfl
            rw [hpins, Option.some.injEq, JsonValue.array.injEq] at hpins'
            rwa [hpins']
        | _ => cases h
    | _ =>
      constructor
      · rintro ⟨specs, hparse, -⟩
        cases hparse
      · intro hreadable
        obtain ⟨_, _, heq, -⟩ := hreadable _ rfl
        cases heq

namespace Gpio

/-- A complete entry with one output. -/
def samplePin (label valuePath : String) (aliases : List String) : JsonValue :=
  .object [("aliases", .array (aliases.map .string)), ("allow_pull_resistor", .bool false),
    ("default_active_level", .string "active-high"), ("label", .string label),
    ("supports_input", .bool false), ("supports_output", .bool true),
    ("value_path", .string valuePath)]

/-- Resources with these pins. -/
def samplePins (pins : List JsonValue) : JsonMap :=
  [("gpio", .object [("digital_pins", .array pins)])]

/-- Two pins, each with another name. -/
def twoPins : JsonMap :=
  samplePins [samplePin "led" " /sys/class/gpio/gpio17/value" ["status"],
    samplePin "fan" "/sys/class/gpio/gpio27/value" ["cooler", "GPIO27"]]

end Gpio

theorem gpio_catalog_agrees_iff_two :
    Build.validateFinalGpioCatalog (.object Gpio.twoPins) = .ok () ∧
      (Gpio.SameCatalog Gpio.twoPins ↔ Gpio.Readable Gpio.twoPins) := by
  have h : Build.validateFinalGpioCatalog (.object Gpio.twoPins) = .ok () := by decide +kernel
  exact ⟨h, gpio_catalog_agrees_iff _ h⟩

/-- The build accepts the path of a LED, and the device refuses it. -/
theorem led_path_refused :
    Build.validateFinalGpioCatalog (.object
        (Gpio.samplePins [Gpio.samplePin "led" "/sys/class/leds/led0/brightness" []])) = .ok () ∧
      (Gpio.parseDigitalPinCatalog (Gpio.samplePins
        [Gpio.samplePin "led" "/sys/class/leds/led0/brightness" []])).toOption.isNone = true := by
  decide +kernel

end Imago
