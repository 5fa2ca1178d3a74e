import Aethon.Common.Path
import Aethon.Config.Schema

/-!
# The collector profile

`load_collector_profile` of `config/profile.cpp`: the settings of a collector read from a parsed
configuration, each with its default, and the warnings about them. All numbers go through
`get_int`, with the default cast to an `int`.
-/

namespace Aethon.Config

open Text

/-- Where packets are archived. -/
structure ArchiveProfile where
  enabled : Bool := false
  path : Path := ⟨""⟩
  rotateBytes : UInt64 := 128 * 1024 * 1024
  deriving DecidableEq, Repr

/-- The limits of streams. -/
structure StreamProfile where
  maxPacketSize : UInt64 := 16 * 1024 * 1024
  idleTimeoutNs : UInt64 := 30000000000
  deriving DecidableEq, Repr

/-- The region of a collector, and the priority it gives. -/
structure RoutingProfile where
  region : UInt16 := 0
  defaultPriority : UInt8 := 0
  deriving DecidableEq, Repr

/-- What a collector is started with. -/
structure CollectorProfile where
  name : Text := []
  archive : ArchiveProfile := {}
  stream : StreamProfile := {}
  routing : RoutingProfile := {}
  warnings : List String := []
  deriving DecidableEq, Repr

/-- The default is cast to an `int` on the way in, and stands in for a negative value. -/
def getU64Or (config : ParsedConfig) (key : Text) (fallback : UInt64) : UInt64 :=
  let value := config.getInt key (Int32.ofNat fallback.toNat)
  if value < 0 then fallback else UInt64.ofInt value.toInt

/-- An integer of a byte, or the fallback. -/
def getU8Or (config : ParsedConfig) (key : Text) (fallback : UInt8) : UInt8 :=
  let value := config.getInt key (Int32.ofNat fallback.toNat)
  if value < 0 ∨ 255 < value then fallback else UInt8.ofInt value.toInt

/-- The issues of the schema become warnings. -/
def appendSchemaWarnings (profile : CollectorProfile) (validation : ConfigValidation) :
    CollectorProfile :=
  { profile with
    warnings := profile.warnings ++
      validation.issues.map fun issue => String.ofList issue.key ++ ": " ++ issue.message }

/-- The warnings about names, paths and limits that make no sense. -/
def appendProfileWarnings (profile : CollectorProfile) : CollectorProfile :=
  { profile with
    warnings := profile.warnings ++
      (if profile.name.isEmpty then ["collector name is empty"] else []) ++
      (if profile.archive.enabled ∧ profile.archive.path.empty then
        ["archive is enabled without an archive path"] else []) ++
      (if profile.stream.maxPacketSize < 64 then
        ["stream max packet size is suspiciously small"] else []) ++
      if profile.archive.rotateBytes < profile.stream.maxPacketSize then
        ["archive rotation size is smaller than maximum packet size"] else [] }

/-- The profile of a configuration, with a fallback for every field. -/
def loadCollectorProfile (config : ParsedConfig) : CollectorProfile :=
  let profile := appendSchemaWarnings {} (collectorConfigSchema.validate config)
  let profile := { profile with
    name := (config.get "collector.name".toList).getD "aethon-collector".toList
    routing.region := UInt16.ofInt (config.getInt "collector.region".toList 0).toInt
    routing.defaultPriority := getU8Or config "routing.default_priority".toList 0
    archive.enabled := config.getBool "archive.enabled".toList false
    archive.path :=
      Path.ofChars ((config.get "archive.path".toList).getD "capture.ath".toList)
    archive.rotateBytes :=
      getU64Or config "archive.rotate_bytes".toList profile.archive.rotateBytes
    stream.maxPacketSize :=
      getU64Or config "stream.max_packet_size".toList profile.stream.maxPacketSize
    stream.idleTimeoutNs :=
      getU64Or config "stream.idle_timeout_ns".toList profile.stream.idleTimeoutNs }
  appendProfileWarnings profile

/-- The warnings are the issues of the schema in its order, and then those about the profile. -/
theorem warnings_load_collector_profile (config : ParsedConfig) :
    ∃ behind, (loadCollectorProfile config).warnings =
      (collectorConfigSchema.validate config).issues.map
        (fun issue => String.ofList issue.key ++ ": " ++ issue.message) ++ behind := by
  unfold loadCollectorProfile appendProfileWarnings appendSchemaWarnings
  dsimp only
  rw [List.nil_append, List.append_assoc, List.append_assoc, List.append_assoc]
  exact ⟨_, rfl⟩

example : (loadCollectorProfile {}).warnings =
    ["collector.name: required key is missing", "collector.region: required key is missing",
      "archive.enabled: required key is missing"] := by
  decide

end Aethon.Config
