import Aethon.Common.Path
import Aethon.Foundation.Actions
import Aethon.Protocol.Validator
import Aethon.Runtime.IngestQueue
import Aethon.Storage.Archive
import Aethon.Stream.SessionTracker

/-!
# The collector

`runtime::CollectorRuntime`: a packet is validated, shown to the link monitor and the session
tracker, and appended to the archive when the profile has one. `accept` is an action, because the
append may throw when the trackers have already moved.

`published` is the list of events handed to the dispatcher. The handlers return, and do not call
back into the collector.
-/

namespace Aethon.Runtime

open Actions FileStream Protocol Storage Aethon.Stream

/-- What the collector reads of the profile of its archive. -/
structure ArchiveProfile where
  enabled : Bool := false
  path : Path := ⟨""⟩
  deriving DecidableEq, Repr

/-- What the collector reads of its profile. -/
structure CollectorProfile where
  archive : ArchiveProfile := {}
  deriving DecidableEq, Repr

/-- What a collector counts. -/
structure CollectorStats where
  packetsReceived : UInt64 := 0
  packetsArchived : UInt64 := 0
  packetsRejected : UInt64 := 0
  warningsEmitted : UInt64 := 0
  deriving DecidableEq, Repr

/-- What became of a packet, and what there was to say about it. -/
structure CollectorResult where
  accepted : Bool := false
  messages : List String := []
  deriving DecidableEq, Repr

/-- A collector with its monitors and its archive, if it has one. -/
structure CollectorRuntime where
  profile : CollectorProfile
  stats : CollectorStats := {}
  published : List RuntimeEvent := []
  sessions : SessionTracker := {}
  links : LinkMonitor := {}
  archive : Option ArchiveWriter := none

namespace CollectorRuntime

/-- The constructor, which opens the archive if needed. There is no medium for a path that cannot
be opened. -/
def create (profile : CollectorProfile) (media : Path → Option Medium) :
    Except Error CollectorRuntime :=
  if profile.archive.enabled then do
    let writer ← ArchiveWriter.create (media profile.archive.path)
    pure { profile, archive := some writer }
  else pure { profile }

/-- Publish an event about a packet. -/
def publish (c : CollectorRuntime) (kind : RuntimeEventKind) (timeNs : UInt64) (packet : Packet)
    (message : String) : CollectorRuntime :=
  { c with published := c.published ++ [⟨kind, timeNs.toNat, message, packet⟩] }

/-- The branch of a packet that does not pass. -/
def reject (c : CollectorRuntime) (packet : Packet) (arrivalTimeNs : UInt64) : CollectorRuntime :=
  let c := { c with stats.packetsRejected := c.stats.packetsRejected + 1 }
  c.publish .error arrivalTimeNs packet "packet rejected by semantic validation"

/-- The loop body over the issues of a packet that passes. -/
def warn (packet : Packet) (arrivalTimeNs : UInt64) (c : CollectorRuntime)
    (issue : PacketValidationIssue) : CollectorRuntime :=
  if issue.severity = .warning then
    let c := { c with stats.warningsEmitted := c.stats.warningsEmitted + 1 }
    c.publish .warning arrivalTimeNs packet issue.message
  else c

/-- The messages that this loop puts into the result. -/
def warningMessages (validation : PacketValidationReport) : List String :=
  (validation.issues.filter fun issue => issue.severity = .warning).map fun issue => issue.message

/-- Show a packet to the link monitor and to the session tracker. -/
def track (c : CollectorRuntime) (packet : Packet) (arrivalTimeNs : UInt64) : CollectorRuntime :=
  let c := { c with links := c.links.observe packet arrivalTimeNs }
  let (events, sessions) := c.sessions.observe packet arrivalTimeNs
  events.foldl
    (fun c event => c.publish .sessionEvent arrivalTimeNs packet (renderSessionEvent event))
    { c with sessions }

/-- What follows an append to the archive. -/
def countArchived (c : CollectorRuntime) (packet : Packet) (arrivalTimeNs : UInt64) :
    CollectorRuntime :=
  let c := { c with stats.packetsArchived := c.stats.packetsArchived + 1 }
  c.publish .packetArchived arrivalTimeNs packet "packet archived"

/-- The `if` block over the archive. -/
def archivePacket (packet : Packet) (arrivalTimeNs : UInt64) :
    Action CollectorRuntime Error Unit := do
  match (← get).archive with
  | none => pure ()
  | some writer =>
      zoom (fun _ => writer) (fun c writer => { c with archive := some writer })
        (ArchiveWriter.append arrivalTimeNs packet)
      modify fun c => c.countArchived packet arrivalTimeNs

/-- Validate a packet, observe it, archive it and publish what happened. -/
def accept (packet : Packet) (arrivalTimeNs : UInt64) :
    Action CollectorRuntime Error CollectorResult := do
  modify fun c => { c with stats.packetsReceived := c.stats.packetsReceived + 1 }
  let validation := validatePacketSemantics packet
  if validation.ok = false then
    modify fun c => c.reject packet arrivalTimeNs
    pure { messages := [renderPacketValidationReport validation] }
  else
    modify fun c => validation.issues.foldl (warn packet arrivalTimeNs) c
    modify fun c => c.track packet arrivalTimeNs
    archivePacket packet arrivalTimeNs
    modify fun c => c.publish .packetReceived arrivalTimeNs packet "packet accepted"
    pure { accepted := true, messages := warningMessages validation }

end CollectorRuntime

end Aethon.Runtime
