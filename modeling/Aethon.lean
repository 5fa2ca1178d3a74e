import Aethon.Foundation.LittleEndian
import Aethon.Foundation.Words
import Aethon.Foundation.ShiftRegister
import Aethon.Foundation.Parsing
import Aethon.Foundation.Incremental
import Aethon.Foundation.Runs
import Aethon.Foundation.Extremum
import Aethon.Foundation.OrderedMap
import Aethon.Foundation.SortedTable
import Aethon.Foundation.IdCounter
import Aethon.Foundation.TokenBucket
import Aethon.Foundation.Actions
import Aethon.Foundation.FileStream
import Aethon.Foundation.FileSystem
import Aethon.Foundation.Grouping
import Aethon.Foundation.GreedyBlocks
import Aethon.Foundation.Scanning
import Aethon.Foundation.StableSort
import Aethon.Foundation.BinarySearch
import Aethon.Foundation.Sweeping
import Aethon.Foundation.SelectionSort
import Aethon.Foundation.Limits
import Aethon.Foundation.Tournament
import Aethon.Common.Error
import Aethon.Common.Path
import Aethon.Common.Text
import Aethon.Codec.BinaryReader
import Aethon.Codec.BinaryWriter
import Aethon.Codec.Crc
import Aethon.Protocol.Types
import Aethon.Protocol.Packet
import Aethon.Protocol.Tlv
import Aethon.Protocol.TlvRoundTrip
import Aethon.Protocol.Wire
import Aethon.Protocol.PacketEncode
import Aethon.Protocol.PacketDecode
import Aethon.Protocol.PacketRoundTrip
import Aethon.Protocol.BatchCodec
import Aethon.Protocol.ForwardCompatibility
import Aethon.Protocol.CorruptionDetection
import Aethon.Protocol.Validator
import Aethon.Protocol.Reassembler
import Aethon.Protocol.ReassemblyStreams
import Aethon.Protocol.ReassemblyRuns
import Aethon.Protocol.ReassemblyInvariant
import Aethon.Compression.Compressor
import Aethon.Compression.RunLength
import Aethon.Crypto.EnvelopeCipher
import Aethon.Stream.StreamParser
import Aethon.Stream.StreamChunks
import Aethon.Stream.StreamResync
import Aethon.Stream.FrameTransport
import Aethon.Stream.MessageTransport
import Aethon.Stream.StreamProvenance
import Aethon.Stream.SessionTracker
import Aethon.Stream.SessionRuns
import Aethon.Stream.SessionSequences
import Aethon.Runtime.IngestQueue
import Aethon.Runtime.IngestSteps
import Aethon.Runtime.IngestConservation
import Aethon.Runtime.FleetRegistry
import Aethon.Runtime.IngestCapacity
import Aethon.Runtime.IngestDevices
import Aethon.Runtime.IngestOrder
import Aethon.Runtime.IngestOverflow
import Aethon.Runtime.BatchingPolicy
import Aethon.Runtime.BatchingSteps
import Aethon.Runtime.BatchingRuns
import Aethon.Runtime.Scheduler
import Aethon.Runtime.SchedulerSteps
import Aethon.Runtime.SchedulerInvariants
import Aethon.Runtime.SchedulerIds
import Aethon.Runtime.SchedulerSelection
import Aethon.Control.CommandJournal
import Aethon.Control.JournalSteps
import Aethon.Control.JournalLifecycle
import Aethon.Control.JournalDispatching
import Aethon.Control.JournalIds
import Aethon.Control.AckTracker
import Aethon.Control.AckTrackerStates
import Aethon.Control.AckAgreement
import Aethon.Control.DeviceLimiter
import Aethon.Control.LimiterSteps
import Aethon.Control.LimiterTokens
import Aethon.Control.LimiterRefill
import Aethon.Control.LimiterRetry
import Aethon.Control.LeaseExclusion
import Aethon.Control.LimiterLeases
import Aethon.Control.BackpressureController
import Aethon.Control.BackpressureSteps
import Aethon.Control.BackpressureRuns
import Aethon.Control.ProtectedTraffic
import Aethon.Storage.Archive
import Aethon.Storage.ArchiveFormat
import Aethon.Storage.ArchiveWriting
import Aethon.Storage.ArchiveReading
import Aethon.Storage.ArchiveRoundTrip
import Aethon.Storage.RecordLoop
import Aethon.Storage.ArchiveFiles
import Aethon.Storage.ArchiveRecords
import Aethon.Storage.TruncatedArchive
import Aethon.Storage.UnfinishedWriting
import Aethon.Storage.Repair
import Aethon.Storage.SalvageScan
import Aethon.Storage.Manifest
import Aethon.Storage.ManifestAggregates
import Aethon.Storage.ArchiveIndex
import Aethon.Storage.IndexSearch
import Aethon.Storage.Query
import Aethon.Storage.QueryParser
import Aethon.Storage.QueryTokens
import Aethon.Storage.QueryText
import Aethon.Storage.QueryMatching
import Aethon.Foundation.Consecutive
import Aethon.Storage.ArchiveCollection
import Aethon.Storage.ArchiveStatistics
import Aethon.Storage.StatisticsTimelines
import Aethon.Storage.ArchiveRotation
import Aethon.Storage.RotationLimits
import Aethon.Storage.RotationShards
import Aethon.Storage.ArchiveAudit
import Aethon.Storage.ArchiveRepairPlan
import Aethon.Storage.AuditFindings
import Aethon.Storage.Catalog
import Aethon.Storage.CatalogSelection
import Aethon.Storage.CollectionRecords
import Aethon.Storage.CollectionSearch
import Aethon.Storage.SharedPeriods
import Aethon.Storage.StatisticsReport
import Aethon.Storage.RotationInputs
import Aethon.Storage.RotationPlanning
import Aethon.Storage.RotationExecution
import Aethon.Storage.RotationRuns
import Aethon.Storage.RotationOverwrites
import Aethon.Storage.RewrittenArchives
import Aethon.Storage.RepairRewrite
import Aethon.Storage.RepairSalvage
import Aethon.Storage.CatalogStates
import Aethon.Storage.Compaction
import Aethon.Storage.CompactionCopy
import Aethon.Storage.CompactionLatest
import Aethon.Storage.CompactionAgain
import Aethon.Storage.RangeSet
import Aethon.Storage.RangeSetCanonical
import Aethon.Runtime.Collector
import Aethon.Runtime.CollectorSteps
import Aethon.Replay.ReplayEngine
import Aethon.Runtime.CollectorArchive
import Aethon.Config.ConfigParser
import Aethon.Config.ConfigText
import Aethon.Telemetry.Payload
import Aethon.Telemetry.PayloadRoundTrip
import Aethon.Storage.Segments
import Aethon.Storage.SegmentPlanning
import Aethon.Storage.Retention
import Aethon.Storage.RetentionSimulation
import Aethon.Storage.ManifestDiff
import Aethon.Storage.ManifestComparison
import Aethon.Storage.ArchiveSampling
import Aethon.Storage.SamplingSelection
import Aethon.Storage.CapacityForecast
import Aethon.Storage.CapacitySamples
import Aethon.Storage.RotationEstimates
import Aethon.Foundation.Json
import Aethon.Diagnostics.JsonWriter
import Aethon.Storage.ArchiveExport
import Aethon.Storage.JsonLines
import Aethon.Foundation.Csv
import Aethon.Storage.CsvExport
import Aethon.Config.Schema
import Aethon.Config.Profile
import Aethon.Config.ProfileIntegers
import Aethon.Foundation.FrontEviction
import Aethon.Telemetry.Window
import Aethon.Telemetry.WindowAges
import Aethon.Foundation.Rounding
import Aethon.Rf.ChannelRaster
import Aethon.Rf.Types
import Aethon.Rf.BandPlan
import Aethon.Rf.BandPlanValidation
import Aethon.Foundation.Tiling
import Aethon.Rf.SweepPlanner
import Aethon.Rf.SweepSegments
import Aethon.Rf.SweepOptimization
import Aethon.Rf.SweepCoverage
import Aethon.Foundation.KeyedList
import Aethon.Rf.CalibrationStore
import Aethon.Rf.SpectrumHistory
import Aethon.Rf.PeakTracks
import Aethon.Diagnostics.SloWindow
import Aethon.Diagnostics.Metrics
import Aethon.Diagnostics.MetricGrouping
import Aethon.Diagnostics.LatencyHistogram
import Aethon.Diagnostics.AlertRules
import Aethon.Diagnostics.AlertFiring
import Aethon.Foundation.JsonReading
import Aethon.Runtime.CollectorMonitors
