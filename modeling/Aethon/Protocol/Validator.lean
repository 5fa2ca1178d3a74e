import Aethon.Protocol.Types

/-!
# Semantic checks of packets

`validate_packet_semantics`, after `protocol/validator.cpp`, with the registry of extension types
that it asks. A report collects issues, and only those of severity `error` reject the packet:
`validate_ok_iff` says which packets pass the default rules.
-/

namespace Aethon.Protocol

/-! ## Extension types -/

/-- What a registry says about a type of extensions. -/
structure ExtensionDescriptor where
  type : UInt16 := 0
  minSize : Nat := 0
  maxSize : Nat := 65535
  repeatable : Bool := true
  deriving DecidableEq, Repr

/-- What is wrong with an extension. -/
structure ExtensionValidationIssue where
  type : UInt16
  message : String
  deriving DecidableEq, Repr

/-- The types of extensions that are known. -/
structure ExtensionRegistry where
  descriptors : List ExtensionDescriptor := []
  deriving DecidableEq, Repr

/-- A descriptor replaces the one of its type. -/
def ExtensionRegistry.add (registry : ExtensionRegistry) (descriptor : ExtensionDescriptor) :
    ExtensionRegistry :=
  match registry.descriptors.findIdx? fun item => item.type = descriptor.type with
  | none => ⟨registry.descriptors ++ [descriptor]⟩
  | some existing => ⟨registry.descriptors.set existing descriptor⟩

/-- The first descriptor of a type. -/
def ExtensionRegistry.find (registry : ExtensionRegistry) (type : UInt16) :
    Option ExtensionDescriptor :=
  registry.descriptors.find? fun descriptor => descriptor.type = type

/-- Collector, site, capture tags, firmware and operator note. -/
def defaultExtensionRegistry : ExtensionRegistry :=
  ((((({} : ExtensionRegistry).add ⟨1, 1, 8, false⟩).add ⟨2, 1, 128, false⟩).add
    ⟨3, 0, 4096, true⟩).add ⟨4, 1, 128, false⟩).add ⟨5, 0, 512, true⟩

/-- The number of extensions of a type. -/
def countType (extensions : List ExtensionHeader) (type : UInt16) : Nat :=
  extensions.countP fun ext => ext.type = type

/-- The loop body over the extensions of a packet. -/
def validateExtension (extensions : List ExtensionHeader) (registry : ExtensionRegistry)
    (ext : ExtensionHeader) : List ExtensionValidationIssue :=
  match registry.find ext.type with
  | none => [⟨ext.type, "unknown extension type"⟩]
  | some descriptor =>
      (if ext.value.length < descriptor.minSize then
        [⟨ext.type, "extension value is shorter than allowed"⟩] else []) ++
      (if ext.value.length > descriptor.maxSize then
        [⟨ext.type, "extension value is larger than allowed"⟩] else []) ++
      (if descriptor.repeatable = false ∧ countType extensions ext.type > 1 then
        [⟨ext.type, "extension type is not repeatable"⟩] else [])

/-- The issues of all extensions, in their order. -/
def validateExtensions (extensions : List ExtensionHeader) (registry : ExtensionRegistry) :
    List ExtensionValidationIssue :=
  extensions.flatMap (validateExtension extensions registry)

/-! ## Reports -/

/-- How bad an issue is. -/
inductive ValidationSeverity where
  | note
  | warning
  | error
  deriving DecidableEq, Repr

/-- The limits of a validation. -/
structure PacketValidationRuleSet where
  maxTimestampNs : UInt64 := 0
  maxExtensions : Nat := 64
  maxPayloadSize : Nat := 16 * 1024 * 1024
  requireRouteForControl : Bool := true
  deriving DecidableEq, Repr

/-- What is wrong with a packet. -/
structure PacketValidationIssue where
  severity : ValidationSeverity := .note
  code : String
  message : String
  deriving DecidableEq, Repr

/-- The issues in the order in which they were found. -/
structure PacketValidationReport where
  issues : List PacketValidationIssue := []
  deriving DecidableEq, Repr

namespace PacketValidationReport

/-- No issue is an error. -/
def ok (report : PacketValidationReport) : Bool :=
  report.issues.all fun issue => issue.severity ≠ .error

/-- `add_issue`. -/
def addIssue (report : PacketValidationReport) (severity : ValidationSeverity)
    (code message : String) : PacketValidationReport :=
  ⟨report.issues ++ [⟨severity, code, message⟩]⟩

/-- An `if` around `add_issue`. -/
def addIssueIf (report : PacketValidationReport) (c : Prop) [Decidable c]
    (severity : ValidationSeverity) (code message : String) : PacketValidationReport :=
  if c then report.addIssue severity code message else report

end PacketValidationReport

/-! ## The checks -/

/-- The issues of the payload. -/
def validatePayload (packet : Packet) (rules : PacketValidationRuleSet)
    (report : PacketValidationReport) : PacketValidationReport :=
  let report := report.addIssueIf (packet.payload.length > rules.maxPayloadSize) .error
    "packet.payload_too_large" "packet payload exceeds configured maximum"
  report.addIssueIf (packet.payload = [] ∧ packet.kind ≠ .heartbeat) .warning
    "packet.empty_payload" "non-heartbeat packet has an empty payload"

/-- The issues of the fragment. -/
def validateFragment (packet : Packet) (report : PacketValidationReport) :
    PacketValidationReport :=
  match packet.fragment with
  | none => report
  | some fragment =>
      let report := report.addIssueIf (fragment.count = 0) .error
        "fragment.zero_count" "fragment count is zero"
      report.addIssueIf (fragment.sequence ≥ fragment.count) .error
        "fragment.sequence_out_of_range" "fragment sequence is outside fragment count"

/-- The issues of the route. -/
def validateRoute (packet : Packet) (rules : PacketValidationRuleSet)
    (report : PacketValidationReport) : PacketValidationReport :=
  let report := report.addIssueIf
    (packet.kind = .control ∧ rules.requireRouteForControl = true ∧ packet.route = none) .warning
    "route.missing_control_route" "control packet has no route information"
  match packet.route with
  | none => report
  | some route =>
      -- a path that is too deep for the encoder is no more than long here
      report.addIssueIf (route.relayPath.length > 16) .warning
        "route.long_relay_path" "relay path contains more than sixteen hops"

/-- The issues of the capabilities. -/
def validateCapabilities (packet : Packet) (report : PacketValidationReport) :
    PacketValidationReport :=
  match packet.capabilities with
  | none => report
  | some caps =>
      let report := report.addIssueIf (caps.maxPayload = 0) .error
        "capabilities.zero_payload" "device capabilities report a zero max payload"
      report.addIssueIf (caps.sensorBands = []) .warning
        "capabilities.no_bands" "device capabilities contain no sensor bands"

/-- The issues of the extensions, those of the registry as warnings. -/
def validateExtensionsForPacket (packet : Packet) (rules : PacketValidationRuleSet)
    (registry : ExtensionRegistry) (report : PacketValidationReport) : PacketValidationReport :=
  let report := report.addIssueIf (packet.extensions.length > rules.maxExtensions) .error
    "extension.too_many" "packet has more extensions than allowed"
  (validateExtensions packet.extensions registry).foldl
    (fun report issue => report.addIssue .warning "extension.invalid" issue.message) report

/-- All checks one after another. -/
def validatePacketSemantics (packet : Packet) (rules : PacketValidationRuleSet := {})
    (registry : ExtensionRegistry := defaultExtensionRegistry) : PacketValidationReport :=
  let report := ({} : PacketValidationReport).addIssueIf
    (rules.maxTimestampNs ≠ 0 ∧ packet.timestampNs > rules.maxTimestampNs) .warning
    "packet.timestamp_future" "packet timestamp is greater than configured maximum"
  let report := validatePayload packet rules report
  let report := validateFragment packet report
  let report := validateRoute packet rules report
  let report := validateCapabilities packet report
  let report := validateExtensionsForPacket packet rules registry report
  report.addIssueIf (report.issues = []) .note "packet.ok" "packet semantic checks passed"

/-- The name of a severity. -/
def validationSeverityName : ValidationSeverity → String
  | .note => "note"
  | .warning => "warning"
  | .error => "error"

/-- The loop body over the issues of a report. -/
def renderPacketValidationIssue (issue : PacketValidationIssue) : String :=
  "  issue: " ++ validationSeverityName issue.severity ++ " " ++ issue.code ++ " " ++
    issue.message ++ "\n"

/-- The text of a report. -/
def renderPacketValidationReport (report : PacketValidationReport) : String :=
  "packet_validation\n" ++ "  ok: " ++ (if report.ok then "yes" else "no") ++ "\n" ++
    String.join (report.issues.map renderPacketValidationIssue)

/-! ## Which packets pass -/

namespace PacketValidationReport

theorem add_issue_ok_iff (report : PacketValidationReport) (severity : ValidationSeverity)
    (code message : String) :
    (report.addIssue severity code message).ok = true ↔ report.ok = true ∧ severity ≠ .error := by
  simp [ok, addIssue]

/-- A conditional error spoils a report where its condition holds. -/
theorem add_issue_if_ok_iff (report : PacketValidationReport) (c : Prop) [Decidable c]
    (severity : ValidationSeverity) (code message : String) :
    (report.addIssueIf c severity code message).ok = true ↔
      report.ok = true ∧ (severity = .error → ¬ c) := by
  unfold addIssueIf
  by_cases h : c
  · rw [if_pos h, add_issue_ok_iff]
    simp [h]
  · rw [if_neg h]
    simp [h]

/-- Warnings reject nothing, however many there are. -/
theorem warnings_ok_iff {α : Type} (issues : List α) (code : String) (message : α → String)
    (report : PacketValidationReport) :
    (issues.foldl (fun report issue => report.addIssue .warning code (message issue)) report).ok =
      true ↔ report.ok = true := by
  induction issues generalizing report with
  | nil => exact Iff.rfl
  | cons issue issues ih =>
      rw [List.foldl_cons, ih, add_issue_ok_iff]
      simp

end PacketValidationReport

open PacketValidationReport

/-- The check of a fragment passes when its sequence is below its count. -/
theorem validate_fragment_ok_iff {packet : Packet} {report : PacketValidationReport} :
    (validateFragment packet report).ok = true ↔
      report.ok = true ∧ ∀ f ∈ packet.fragment, 0 < f.count ∧ f.sequence < f.count := by
  unfold validateFragment
  cases packet.fragment with
  | none => simp
  | some fragment =>
      simp only [add_issue_if_ok_iff, Option.mem_def, Option.some.injEq, forall_eq', true_implies,
        UInt16.pos_iff_ne_zero, ge_iff_le, UInt16.not_le, and_assoc, ne_eq]

/-- The check of a route never spoils a report. -/
theorem validate_route_ok_iff {packet : Packet} {rules : PacketValidationRuleSet}
    {report : PacketValidationReport} :
    (validateRoute packet rules report).ok = true ↔ report.ok = true := by
  unfold validateRoute
  cases packet.route with
  | none => simp [add_issue_if_ok_iff]
  | some route => simp [add_issue_if_ok_iff]

/-- The check of capabilities passes when they allow a payload. -/
theorem validate_capabilities_ok_iff {packet : Packet} {report : PacketValidationReport} :
    (validateCapabilities packet report).ok = true ↔
      report.ok = true ∧ ∀ caps ∈ packet.capabilities, caps.maxPayload ≠ 0 := by
  unfold validateCapabilities
  cases packet.capabilities with
  | none => simp
  | some caps => simp [add_issue_if_ok_iff]

/-- A packet passes unless its payload or its extensions are too many, its fragment coordinates
are impossible or its device takes no payload. Neither the relay path, nor the bands, nor the
size of an extension is looked at for more than a warning. -/
theorem validate_ok_iff {packet : Packet} :
    (validatePacketSemantics packet).ok = true ↔
      packet.payload.length ≤ 16 * 1024 * 1024 ∧
        (∀ f ∈ packet.fragment, 0 < f.count ∧ f.sequence < f.count) ∧
        (∀ caps ∈ packet.capabilities, caps.maxPayload ≠ 0) ∧
        packet.extensions.length ≤ 64 := by
  have hempty : ({} : PacketValidationReport).ok = true := rfl
  simp only [validatePacketSemantics, validateExtensionsForPacket, validatePayload,
    add_issue_if_ok_iff, warnings_ok_iff, validate_capabilities_ok_iff, validate_route_ok_iff,
    validate_fragment_ok_iff, hempty, reduceCtorEq, false_implies, true_implies, and_true,
    true_and, gt_iff_lt, Nat.not_lt, and_assoc]

end Aethon.Protocol
