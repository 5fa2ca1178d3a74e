import Aethon.Storage.ArchiveSampling
import Aethon.Storage.ManifestDiff

/-!
# Export writers

Records, references, manifests, samples and differences as CSV, JSON lines or text, after
`storage/archive_export_writers.cpp`. A function gives what its source writes to the stream.
-/

namespace Aethon.Storage

open Text

/-- The format of an export. -/
inductive ExportFormat where
  | csv
  | jsonLines
  | textSummary
  deriving DecidableEq, Repr

/-- The format and the columns of an export. -/
structure ArchiveExportWriterOptions where
  format : ExportFormat := .csv
  includeHeader : Bool := true
  includeArchivePath : Bool := true
  includePayloadSize : Bool := true
  includePacketKind : Bool := true
  includeOffsets : Bool := true
  deriving DecidableEq, Repr

/-- The lambdas `column`, `field` and `comma` put a comma in front of all but the first field. -/
def commaJoined (fields : List Text) : Text :=
  List.intercalate [','] fields

/-- The field, if it is asked for. -/
def fieldIf (included : Bool) (field : Text) : List Text :=
  if included then [field] else []

/-! ## CSV -/

/-- The names of the columns that the options ask for. -/
def csvRecordColumns (options : ArchiveExportWriterOptions) : List Text :=
  fieldIf options.includeArchivePath "archive_path".toList ++
    fieldIf options.includeOffsets "offset".toList ++
    ["capture_time_ns".toList, "device".toList, "sequence".toList] ++
    fieldIf options.includePacketKind "kind".toList ++
    fieldIf options.includePayloadSize "payload_size".toList

/-- The line with the names of the columns. -/
def writeCsvRecordHeader (options : ArchiveExportWriterOptions) : Text :=
  commaJoined (csvRecordColumns options) ++ ['\n']

/-- The fields of a record, in the order of the columns. -/
def csvRecordFields (record : ArchiveRecord) (options : ArchiveExportWriterOptions) (path : Path) :
    List Text :=
  fieldIf options.includeArchivePath path.chars ++
    fieldIf options.includeOffsets (decimal record.offset.toNat) ++
    [decimal record.captureTimeNs.toNat, decimal record.packet.device.toNat,
      decimal record.packet.sequence.toNat] ++
    fieldIf options.includePacketKind record.packet.kind.name ++
    fieldIf options.includePayloadSize (decimal record.packet.payload.length)

/-- The line of a record. -/
def writeCsvRecord (record : ArchiveRecord) (options : ArchiveExportWriterOptions) (path : Path) :
    Text :=
  commaJoined (csvRecordFields record options path) ++ ['\n']

/-- The fields of a reference, in the order of the columns. -/
def csvRefFields (ref : ArchiveCollectionRecordRef) (options : ArchiveExportWriterOptions) :
    List Text :=
  fieldIf options.includeArchivePath ref.path.chars ++
    fieldIf options.includeOffsets (decimal ref.offset.toNat) ++
    [decimal ref.captureTimeNs.toNat, decimal ref.device.toNat, decimal ref.sequence.toNat] ++
    fieldIf options.includePacketKind "unknown".toList ++
    fieldIf options.includePayloadSize (decimal ref.payloadSize.toNat)

/-- The line of a reference. -/
def writeCsvRef (ref : ArchiveCollectionRecordRef) (options : ArchiveExportWriterOptions) : Text :=
  commaJoined (csvRefFields ref options) ++ ['\n']

/-- A manifest as lines of fields, with a line for every device. -/
def writeManifestCsv (manifest : ArchiveManifest) (options : ArchiveExportWriterOptions)
    (path : Path) : Text :=
  (if options.includeHeader then
      (if options.includeArchivePath then "archive_path,".toList else []) ++
        "device,records,first_time_ns,last_time_ns,total_payload_bytes\n".toList
    else []) ++
    manifest.devices.flatMap fun device =>
      (if options.includeArchivePath then path.chars ++ [','] else []) ++
        commaJoined
          [decimal device.device.toNat, decimal device.recordCount.toNat,
            decimal device.firstTimeNs.toNat, decimal device.lastTimeNs.toNat,
            decimal device.totalPayloadBytes.toNat] ++ ['\n']

/-! ## JSON lines -/

/-- A character as it stands in a string of JSON. -/
def escapeJsonChar (ch : Char) : Text :=
  match ch with
  | '\\' => ['\\', '\\']
  | '"' => ['\\', '"']
  | '\n' => ['\\', 'n']
  | '\r' => ['\\', 'r']
  | '\t' => ['\\', 't']
  | ch => [ch]

/-- A text with every character escaped. -/
def escapeJsonString (value : Text) : Text :=
  value.flatMap escapeJsonChar

/-- A text between quotes. -/
def inQuotes (text : Text) : Text :=
  '"' :: (text ++ ['"'])

/-- A member of an object, with the text of its value. -/
def jsonField (name : String) (value : Text) : Text :=
  inQuotes name.toList ++ ':' :: value

/-- An object of JSON with the fields in their order. -/
def jsonObject (fields : List Text) : Text :=
  '{' :: (commaJoined fields ++ ['}'])

/-- A record as an object. -/
def renderRecordJsonLine (record : ArchiveRecord) (options : ArchiveExportWriterOptions)
    (path : Path) : Text :=
  jsonObject
    (fieldIf options.includeArchivePath
        (jsonField "archive_path" (inQuotes (escapeJsonString path.chars))) ++
      fieldIf options.includeOffsets (jsonField "offset" (decimal record.offset.toNat)) ++
      [jsonField "capture_time_ns" (decimal record.captureTimeNs.toNat),
        jsonField "device" (decimal record.packet.device.toNat),
        jsonField "sequence" (decimal record.packet.sequence.toNat)] ++
      fieldIf options.includePacketKind (jsonField "kind" (inQuotes record.packet.kind.name)) ++
      fieldIf options.includePayloadSize
        (jsonField "payload_size" (decimal record.packet.payload.length)))

/-- A reference as an object. -/
def renderRefJsonLine (ref : ArchiveCollectionRecordRef) (options : ArchiveExportWriterOptions) :
    Text :=
  jsonObject
    (fieldIf options.includeArchivePath
        (jsonField "archive_path" (inQuotes (escapeJsonString ref.path.chars))) ++
      [jsonField "archive_ordinal" (decimal ref.archiveOrdinal)] ++
      fieldIf options.includeOffsets (jsonField "offset" (decimal ref.offset.toNat)) ++
      [jsonField "capture_time_ns" (decimal ref.captureTimeNs.toNat),
        jsonField "device" (decimal ref.device.toNat),
        jsonField "sequence" (decimal ref.sequence.toNat)] ++
      fieldIf options.includePayloadSize
        (jsonField "payload_size" (decimal ref.payloadSize.toNat)))

/-- A truth value in words. -/
def boolString (value : Bool) : Text :=
  if value then "true".toList else "false".toList

/-- The summary of a device as an object. -/
def renderDeviceJson (device : DeviceArchiveSummary) : Text :=
  jsonObject
    [jsonField "device" (decimal device.device.toNat),
      jsonField "records" (decimal device.recordCount.toNat),
      jsonField "payload_bytes" (decimal device.totalPayloadBytes.toNat)]

/-- A manifest as an object, with its devices in an array. -/
def renderManifestJsonLine (manifest : ArchiveManifest) (options : ArchiveExportWriterOptions)
    (path : Path) : Text :=
  jsonObject
    (fieldIf options.includeArchivePath
        (jsonField "archive_path" (inQuotes (escapeJsonString path.chars))) ++
      [jsonField "records" (decimal manifest.summary.recordCount.toNat),
        jsonField "first_time_ns" (decimal manifest.summary.firstTimeNs.toNat),
        jsonField "last_time_ns" (decimal manifest.summary.lastTimeNs.toNat),
        jsonField "warnings" (decimal manifest.warnings.length),
        jsonField "devices"
          ('[' :: (commaJoined (manifest.devices.map renderDeviceJson) ++ [']'])),
        jsonField "ok" (boolString manifest.warnings.isEmpty)])

/-- A sampled reference as an object. -/
def renderSampledJsonLine (item : SampledRecordRef) (options : ArchiveExportWriterOptions) :
    Text :=
  jsonObject
    [jsonField "sample_rank" (decimal item.sampleRank.toNat),
      jsonField "reason" (inQuotes (escapeJsonString item.reason.toList)),
      jsonField "ref" (renderRefJsonLine item.ref options)]

/-- An entry of a difference as an object. -/
def renderDiffEntryJsonLine (entry : ManifestDiffEntry) : Text :=
  jsonObject
    [jsonField "kind" (inQuotes entry.kind.name),
      jsonField "key" (inQuotes (escapeJsonString entry.key)),
      jsonField "record_delta" (signedDecimal entry.recordDelta),
      jsonField "payload_delta" (signedDecimal entry.payloadDelta),
      jsonField "before" (inQuotes (escapeJsonString entry.before)),
      jsonField "after" (inQuotes (escapeJsonString entry.after))]

/-! ## Text -/

/-- A manifest in words. -/
def writeManifestText (manifest : ArchiveManifest) (path : Path) : Text :=
  ["manifest".toList, if path.empty then [] else " path=".toList ++ path.chars,
    " records=".toList, decimal manifest.summary.recordCount.toNat,
    " first_time_ns=".toList, decimal manifest.summary.firstTimeNs.toNat,
    " last_time_ns=".toList, decimal manifest.summary.lastTimeNs.toNat, "\n".toList].flatten ++
    manifest.devices.flatMap fun device =>
      ["device ".toList, decimal device.device.toNat,
        " records=".toList, decimal device.recordCount.toNat,
        " payload_bytes=".toList, decimal device.totalPayloadBytes.toNat, "\n".toList].flatten

/-- A record in words. -/
def recordText (record : ArchiveRecord) (path : Path) : Text :=
  ["record path=".toList, path.chars, " offset=".toList, decimal record.offset.toNat,
    " capture_time_ns=".toList, decimal record.captureTimeNs.toNat,
    " device=".toList, decimal record.packet.device.toNat,
    " sequence=".toList, decimal record.packet.sequence.toNat,
    " kind=".toList, record.packet.kind.name,
    " payload_size=".toList, decimal record.packet.payload.length, "\n".toList].flatten

/-- A reference in words. -/
def refText (ref : ArchiveCollectionRecordRef) : Text :=
  ["ref path=".toList, ref.path.chars, " ordinal=".toList, decimal ref.archiveOrdinal,
    " offset=".toList, decimal ref.offset.toNat,
    " capture_time_ns=".toList, decimal ref.captureTimeNs.toNat,
    " device=".toList, decimal ref.device.toNat, " sequence=".toList, decimal ref.sequence.toNat,
    " payload_size=".toList, decimal ref.payloadSize.toNat, "\n".toList].flatten

/-! ## The writers -/

namespace ArchiveRecordExportWriter

variable (options : ArchiveExportWriterOptions)

/-- The header of an export, which only a table of fields has. -/
def writeHeader : Text :=
  if !options.includeHeader || options.format ≠ .csv then [] else writeCsvRecordHeader options

/-- A record in the format of the options. -/
def writeRecord (record : ArchiveRecord) (path : Path := ⟨""⟩) : Text :=
  match options.format with
  | .csv => writeCsvRecord record options path
  | .jsonLines => renderRecordJsonLine record options path ++ ['\n']
  | .textSummary => recordText record path

/-- A reference in the format of the options. -/
def writeRef (ref : ArchiveCollectionRecordRef) : Text :=
  match options.format with
  | .csv => writeCsvRef ref options
  | .jsonLines => renderRefJsonLine ref options ++ ['\n']
  | .textSummary => refText ref

/-- A collection: the header, and every reference. -/
def writeCollection (collection : ArchiveCollection) : Text :=
  writeHeader options ++ collection.records.flatMap (writeRef options)

/-- The result of a search: its records when they were loaded, its references otherwise. -/
def writeSearchResult (result : CollectionSearchResult) : Text :=
  writeHeader options ++
    if !result.records.isEmpty then result.records.flatMap fun record => writeRecord options record
    else result.refs.flatMap (writeRef options)

end ArchiveRecordExportWriter

namespace ArchiveSummaryExportWriter

variable (options : ArchiveExportWriterOptions)

/-- A manifest in the format of the options. -/
def writeManifest (manifest : ArchiveManifest) (path : Path := ⟨""⟩) : Text :=
  match options.format with
  | .csv => writeManifestCsv manifest options path
  | .jsonLines => renderManifestJsonLine manifest options path ++ ['\n']
  | .textSummary => writeManifestText manifest path

/-- A manifest for every archive of a collection. -/
def writeCollection (collection : ArchiveCollection) : Text :=
  collection.archives.flatMap fun archive => writeManifest options archive.manifest archive.path

/-- A sample, one object for every reference or as text. -/
def writeSample (sample : RecordSample) : Text :=
  if options.format = .jsonLines then
    sample.refs.flatMap fun item => renderSampledJsonLine item options ++ ['\n']
  else renderRecordSample sample

/-- A difference of manifests, one object for every entry or as text. -/
def writeManifestDiff (diff : ManifestDiff) : Text :=
  if options.format = .jsonLines then
    diff.entries.flatMap fun entry => renderDiffEntryJsonLine entry ++ ['\n']
  else renderManifestDiff diff

end ArchiveSummaryExportWriter

end Aethon.Storage
