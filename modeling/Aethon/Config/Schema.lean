import Aethon.Config.ConfigParser

/-!
# The configuration schema

`config/schema.cpp`: rules on the keys of a configuration, and the issues of a configuration that
does not follow them. `issue_of_rule` is about every issue: it names the key of a rule.
-/

namespace Aethon.Config

open Text

/-- The types of values. -/
inductive ConfigValueType where
  | string
  | integer
  | boolean
  deriving DecidableEq, Repr

/-- What a schema says about a key. -/
structure ConfigRule where
  key : Text
  type : ConfigValueType := .string
  required : Bool := false
  minValue : Option Int32 := none
  maxValue : Option Int32 := none
  deriving DecidableEq

/-- What is wrong with a key. -/
structure ConfigIssue where
  key : Text
  message : String
  deriving DecidableEq, Repr

/-- The issues that a validation found. -/
structure ConfigValidation where
  issues : List ConfigIssue := []
  deriving DecidableEq, Repr

/-- There is no issue. -/
def ConfigValidation.ok (validation : ConfigValidation) : Bool :=
  validation.issues.isEmpty

/-- The rules in the order in which they were added. -/
structure ConfigSchema where
  rules : List ConfigRule := []
  deriving DecidableEq

namespace ConfigSchema

/-- A number of 32 bits that takes up the whole text. -/
def parseInt (value : Text) : Option Int32 :=
  match fromCharsInt value with
  | some (out, []) => some out
  | _ => none

/-- A text is one of the six spellings of a boolean. -/
def parseBool (value : Text) : Bool :=
  value ∈ ["true".toList, "false".toList, "1".toList, "0".toList, "yes".toList, "no".toList]

/-- Add a rule behind the others. -/
def addRule (schema : ConfigSchema) (rule : ConfigRule) : ConfigSchema :=
  { schema with rules := schema.rules ++ [rule] }

/-- A key that must have a string. -/
def requireString (schema : ConfigSchema) (key : Text) : ConfigSchema :=
  schema.addRule { key, type := .string, required := true }

/-- A key that may have a string. -/
def optionalString (schema : ConfigSchema) (key : Text) : ConfigSchema :=
  schema.addRule { key, type := .string, required := false }

/-- A key that must have a boolean. -/
def requireBool (schema : ConfigSchema) (key : Text) : ConfigSchema :=
  schema.addRule { key, type := .boolean, required := true }

/-- A key that must have a number in a range. -/
def requireInt (schema : ConfigSchema) (key : Text) (minValue maxValue : Int32) : ConfigSchema :=
  schema.addRule
    { key, type := .integer, required := true, minValue := minValue, maxValue := maxValue }

/-- A key that may have a number in a range. -/
def optionalInt (schema : ConfigSchema) (key : Text) (minValue maxValue : Int32) :
    ConfigSchema :=
  schema.addRule
    { key, type := .integer, required := false, minValue := minValue, maxValue := maxValue }

/-- The two range checks on a number. -/
def rangeMessages (rule : ConfigRule) (parsed : Int32) : List String :=
  (if rule.minValue.any (parsed < ·) then ["value is below allowed range"] else []) ++
    if rule.maxValue.any (· < parsed) then ["value is above allowed range"] else []

/-- The messages of the loop body of `validate` on a value. -/
def valueMessages (rule : ConfigRule) (value : Text) : List String :=
  match rule.type with
  | .boolean => if parseBool value then [] else ["value is not a boolean"]
  | .integer =>
      match parseInt value with
      | none => ["value is not an integer"]
      | some parsed => rangeMessages rule parsed
  | .string => if value.isEmpty then ["string value is empty"] else []

/-- The messages of the loop body of `validate`. -/
def messages (config : ParsedConfig) (rule : ConfigRule) : List String :=
  match config.get rule.key with
  | none => if rule.required then ["required key is missing"] else []
  | some value => valueMessages rule value

/-- The issues of all rules, in their order. -/
def validate (schema : ConfigSchema) (config : ParsedConfig) : ConfigValidation where
  issues := schema.rules.flatMap fun rule => (messages config rule).map (⟨rule.key, ·⟩)

end ConfigSchema

/-- The schema of a collector. -/
def collectorConfigSchema : ConfigSchema :=
  ConfigSchema.requireString {} "collector.name".toList
    |>.requireInt "collector.region".toList 0 65535
    |>.requireBool "archive.enabled".toList
    |>.optionalString "archive.path".toList
    |>.optionalInt "stream.max_packet_size".toList 64 (16 * 1024 * 1024)
    |>.optionalInt "routing.default_priority".toList 0 255

namespace ConfigSchema

/-- Every issue names the key of a rule, and comes from its check. -/
theorem issue_of_rule {schema : ConfigSchema} {config : ParsedConfig} {issue : ConfigIssue} :
    issue ∈ (schema.validate config).issues ↔
      ∃ rule ∈ schema.rules, issue.key = rule.key ∧ issue.message ∈ messages config rule := by
  unfold validate
  rw [List.mem_flatMap]
  refine exists_congr fun rule => and_congr_right fun _ => ?_
  rw [List.mem_map]
  constructor
  · rintro ⟨message, hmessage, rfl⟩
    exact ⟨rfl, hmessage⟩
  · rintro ⟨hkey, hmessage⟩
    exact ⟨issue.message, hmessage, by rw [← hkey]⟩

/-- A configuration passes when every rule is met. -/
theorem ok_iff {schema : ConfigSchema} {config : ParsedConfig} :
    (schema.validate config).ok = true ↔ ∀ rule ∈ schema.rules, messages config rule = [] := by
  unfold ConfigValidation.ok
  rw [List.isEmpty_iff, validate, List.flatMap_eq_nil_iff]
  exact forall₂_congr fun _ _ => List.map_eq_nil_iff

/-- A number that meets the rule of its key is an `int` in the range of the rule. -/
theorem in_range_of_messages {config : ParsedConfig} {rule : ConfigRule} {n : ℤ}
    (htype : rule.type = .integer) (hvalue : config.get rule.key = some (signedDecimal n))
    (h : messages config rule = []) :
    (-2 ^ 31 ≤ n ∧ n < 2 ^ 31) ∧ (∀ least ∈ rule.minValue, least.toInt ≤ n) ∧
      ∀ most ∈ rule.maxValue, n ≤ most.toInt := by
  unfold messages at h
  simp only [hvalue, valueMessages, htype, parseInt, from_chars_int_decimal] at h
  by_cases hint : -2 ^ 31 ≤ n ∧ n < 2 ^ 31
  · simp only [if_pos hint, rangeMessages, List.append_eq_nil_iff] at h
    obtain ⟨hleast, hmost⟩ := h
    refine ⟨hint, fun least hmem => ?_, fun most hmem => ?_⟩
    · rw [Option.mem_def.mp hmem] at hleast
      simpa [Int32.lt_iff_toInt_lt, Int32.toInt_ofInt_of_le hint.1 hint.2] using hleast
    · rw [Option.mem_def.mp hmem] at hmost
      simpa [Int32.lt_iff_toInt_lt, Int32.toInt_ofInt_of_le hint.1 hint.2] using hmost
  · simp only [if_neg hint] at h
    exact absurd h (List.cons_ne_nil _ _)

end ConfigSchema

end Aethon.Config
