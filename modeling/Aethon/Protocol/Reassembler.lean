import Aethon.Protocol.Types

/-!
# Fragment reassembly

`protocol::FragmentReassembler`: fragments are collected in a pending stream for each device and
stream identifier. `push` throws after it has changed the state, so it returns a result and the
state that is left in either case.
-/

namespace Aethon.Protocol

/-- A stream is one of a device. -/
structure ReassemblyKey where
  device : DeviceId := 0
  streamId : UInt32 := 0
  deriving DecidableEq, Repr

/-- The lexicographic order of the keys. -/
instance : Ord ReassemblyKey where
  compare := compareLex (compareOn ReassemblyKey.device) (compareOn ReassemblyKey.streamId)

instance : Std.TransOrd ReassemblyKey :=
  inferInstanceAs (Std.TransCmp (compareLex (compareOn ReassemblyKey.device)
    (compareOn ReassemblyKey.streamId)))

instance : Std.LawfulEqOrd ReassemblyKey where
  eq_of_compare := by
    intro first second h
    obtain ⟨hdevice, hstream⟩ := Ordering.then_eq_eq.mp h
    cases first
    cases second
    exact ReassemblyKey.mk.injEq _ _ _ _ ▸
      ⟨Std.LawfulEqOrd.eq_of_compare hdevice, Std.LawfulEqOrd.eq_of_compare hstream⟩

/-- What a reassembler counts. -/
structure ReassemblyStats where
  fragmentsSeen : Nat := 0
  completedMessages : Nat := 0
  duplicateFragments : Nat := 0
  rejectedFragments : Nat := 0
  pendingStreams : Nat := 0
  deriving DecidableEq, Repr

/-- The fragments of a stream that have arrived. -/
structure PendingStream where
  firstPacket : Packet
  fragments : List Bytes
  present : List Bool
  received : Nat := 0
  totalPayload : Nat := 0
  deriving DecidableEq, Repr

/-- Store a payload at its position. -/
def PendingStream.put (pending : PendingStream) (sequence : Nat) (payload : Bytes) :
    PendingStream :=
  { pending with
    totalPayload := pending.totalPayload + payload.length
    fragments := pending.fragments.set sequence payload
    present := pending.present.set sequence true
    received := pending.received + 1 }

/-- The first packet with the payloads in the order of their positions. -/
def PendingStream.assemble (pending : PendingStream) : Packet :=
  { pending.firstPacket with payload := pending.fragments.flatten }

/-- The streams that are not complete, by their keys. -/
structure FragmentReassembler where
  maxPayloadBytes : Nat := 1024 * 1024
  pending : Std.ExtTreeMap ReassemblyKey PendingStream := ∅
  stats : ReassemblyStats := {}

namespace FragmentReassembler

/-- The entry of a stream before its first fragment is stored. -/
def newStream (fragment : Packet) (info : FragmentInfo) : PendingStream where
  firstPacket := { fragment with payload := [], fragment := none }
  fragments := List.replicate info.count.toNat []
  present := List.replicate info.count.toNat false

/-- The end of `push`, behind the checks of the coordinates: store the fragment in its entry. -/
def store (r : FragmentReassembler) (key : ReassemblyKey) (pending : PendingStream)
    (info : FragmentInfo) (payload : Bytes) :
    Except Error (Option Packet) × FragmentReassembler :=
  if pending.present.getD info.sequence.toNat false then
    (.ok none, { r with stats.duplicateFragments := r.stats.duplicateFragments + 1 })
  else if pending.totalPayload + payload.length > r.maxPayloadBytes then
    (.error ⟨.malformedPacket, "reassembled payload exceeds configured limit"⟩, { r with
      pending := r.pending.erase key
      stats.rejectedFragments := r.stats.rejectedFragments + 1 })
  else
    let pending := pending.put info.sequence.toNat payload
    if pending.received ≠ pending.fragments.length then
      let r := { r with pending := r.pending.insert key pending }
      (.ok none, { r with stats.pendingStreams := r.pending.size })
    else
      let r := { r with pending := r.pending.erase key }
      (.ok (some pending.assemble), { r with
        stats.completedMessages := r.stats.completedMessages + 1
        stats.pendingStreams := r.pending.size })

/-- Take a packet, and give back a message where it completes one or needs no other. -/
def push (r : FragmentReassembler) (fragment : Packet) :
    Except Error (Option Packet) × FragmentReassembler :=
  let r := { r with stats.fragmentsSeen := r.stats.fragmentsSeen + 1 }
  match fragment.fragment with
  | none => (.ok (some fragment), r)
  | some info =>
      if info.count = 0 ∨ info.sequence ≥ info.count then
        (.error ⟨.malformedPacket, "invalid fragment coordinates"⟩, { r with
          stats.rejectedFragments := r.stats.rejectedFragments + 1 })
      else
        let key := ⟨fragment.device, info.streamId⟩
        match r.pending[key]? with
        | none =>
            let pending := newStream fragment info
            let r := { r with pending := r.pending.insert key pending }
            r.store key pending info fragment.payload
        | some pending =>
            if pending.fragments.length ≠ info.count.toNat then
              (.error ⟨.malformedPacket, "fragment count changed within stream"⟩, { r with
                stats.rejectedFragments := r.stats.rejectedFragments + 1 })
            else r.store key pending info fragment.payload

/-- Forget a stream of a device. -/
def clear (r : FragmentReassembler) (device : DeviceId) (streamId : UInt32) :
    FragmentReassembler :=
  let r := { r with pending := r.pending.erase ⟨device, streamId⟩ }
  { r with stats.pendingStreams := r.pending.size }

/-- Forget all streams. -/
def clearAll (r : FragmentReassembler) : FragmentReassembler :=
  { r with pending := ∅, stats.pendingStreams := 0 }

/-- `stats()`. -/
def currentStats (r : FragmentReassembler) : ReassemblyStats :=
  { r.stats with pendingStreams := r.pending.size }

end FragmentReassembler

end Aethon.Protocol
