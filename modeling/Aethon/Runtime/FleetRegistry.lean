import Mathlib.Data.UInt
import Aethon.Foundation.OrderedMap
import Aethon.Foundation.Runs
import Aethon.Protocol.Types

/-!
# The fleet registry

`runtime/fleet_registry.cpp`: a record for each device, which operators set and traffic updates.
Whether a device had a record is read off the device number in it, which is 0 in a fresh record and
in that of device 0. `mark_seen_iff` says when `mark_seen` leaves the lifecycle of a device alone
that has a record, and `lifecycle_explicit_iff` says it over every run.
-/

namespace Aethon.Runtime

open Protocol

/-! ## Records -/

/-- The stages of the life of a device. -/
inductive DeviceLifecycle where
  | unknown
  | provisioned
  | active
  | quarantined
  | retired
  deriving DecidableEq, Repr

/-- Who a device belongs to. -/
structure DeviceOwner where
  team : Bytes := []
  contact : Bytes := []
  site : Bytes := []
  deriving DecidableEq, Repr

/-- What is known of a device. -/
structure DeviceRecord where
  device : DeviceId := 0
  serial : Bytes := []
  lifecycle : DeviceLifecycle := .unknown
  owner : DeviceOwner := {}
  capabilities : DeviceCapabilities := {}
  firstSeenNs : UInt64 := 0
  lastSeenNs : UInt64 := 0
  packetsSeen : UInt64 := 0
  labels : List Bytes := []
  deriving DecidableEq, Repr

namespace DeviceRecord

/-- A device has a label. -/
def hasLabel (record : DeviceRecord) (label : Bytes) : Bool :=
  record.labels.contains label

/-- The times and the count of a device that is seen now. -/
def updateSeenFields (record : DeviceRecord) (nowNs : UInt64) : DeviceRecord where
  __ := record
  firstSeenNs := if record.firstSeenNs = 0 then nowNs else record.firstSeenNs
  lastSeenNs := nowNs
  packetsSeen := record.packetsSeen + 1

/-! What the operations do to the record that they look up. -/

/-- What a packet changes in the record of its device. -/
def markSeen (record : DeviceRecord) (packet : Packet) (nowNs : UInt64) : DeviceRecord :=
  let record :=
    if record.device = 0 then { record with device := packet.device, lifecycle := .active }
    else record
  let record :=
    match packet.capabilities with
    | some capabilities => { record with capabilities }
    | none => record
  record.updateSeenFields nowNs

/-- A record with another lifecycle. -/
def setLifecycle (record : DeviceRecord) (device : DeviceId) (lifecycle : DeviceLifecycle) :
    DeviceRecord :=
  let record := if record.device = 0 then { record with device } else record
  { record with lifecycle }

/-- A record with a label, which it has once. -/
def addLabel (record : DeviceRecord) (device : DeviceId) (label : Bytes) : DeviceRecord :=
  let record := if record.device = 0 then { record with device } else record
  if ¬ record.hasLabel label then { record with labels := record.labels ++ [label] } else record

/-- The records agree but for the capabilities, the times and the count of packets. -/
def OnlySeen (before after : DeviceRecord) : Prop :=
  after = { before with
    capabilities := after.capabilities
    firstSeenNs := after.firstSeenNs
    lastSeenNs := after.lastSeenNs
    packetsSeen := after.packetsSeen }

instance (before after : DeviceRecord) : Decidable (before.OnlySeen after) :=
  inferInstanceAs (Decidable (_ = _))

end DeviceRecord

/-! ## The registry -/

/-- The records by their devices. -/
structure FleetRegistry where
  records : Std.ExtTreeMap DeviceId DeviceRecord := ∅

/-- The calls that change a registry. -/
inductive RegistryCall where
  | upsert (record : DeviceRecord)
  | erase (device : DeviceId)
  | markSeen (packet : Packet) (nowNs : UInt64)
  | setLifecycle (device : DeviceId) (lifecycle : DeviceLifecycle)
  | addLabel (device : DeviceId) (label : Bytes)

namespace FleetRegistry

/-- Put a record in the place of that of its device. -/
def upsert (registry : FleetRegistry) (record : DeviceRecord) : FleetRegistry :=
  ⟨registry.records.insert record.device record⟩

/-- Take away the record of a device. -/
def erase (registry : FleetRegistry) (device : DeviceId) : Bool × FleetRegistry :=
  (registry.records.contains device, ⟨registry.records.erase device⟩)

/-- The record of a device. -/
def find (registry : FleetRegistry) (device : DeviceId) : Option DeviceRecord :=
  registry.records[device]?

/-- `records_[device]`, changed in place. A device without a record gets a fresh one first. -/
def modify (registry : FleetRegistry) (device : DeviceId) (change : DeviceRecord → DeviceRecord) :
    FleetRegistry :=
  ⟨registry.records.insert device (change (registry.records[device]?.getD {}))⟩

/-- Note a packet in the record of its device, which is made if it is not there. -/
def markSeen (registry : FleetRegistry) (packet : Packet) (nowNs : UInt64) : FleetRegistry :=
  registry.modify packet.device fun record => record.markSeen packet nowNs

/-- Set the lifecycle of a device. -/
def setLifecycle (registry : FleetRegistry) (device : DeviceId) (lifecycle : DeviceLifecycle) :
    FleetRegistry :=
  registry.modify device fun record => record.setLifecycle device lifecycle

/-- Label a device. -/
def addLabel (registry : FleetRegistry) (device : DeviceId) (label : Bytes) : FleetRegistry :=
  registry.modify device fun record => record.addLabel device label

/-- What a call leaves. -/
def call (registry : FleetRegistry) : RegistryCall → FleetRegistry
  | .upsert record => registry.upsert record
  | .erase device => (registry.erase device).2
  | .markSeen packet nowNs => registry.markSeen packet nowNs
  | .setLifecycle device lifecycle => registry.setLifecycle device lifecycle
  | .addLabel device label => registry.addLabel device label

/-- An empty registry after the calls. -/
def after (calls : List RegistryCall) : FleetRegistry :=
  Runs.run call {} calls

end FleetRegistry

/-- The device whose record a call works on. -/
def RegistryCall.device : RegistryCall → DeviceId
  | .upsert record => record.device
  | .erase device => device
  | .markSeen packet _ => packet.device
  | .setLifecycle device _ => device
  | .addLabel device _ => device

/-- What a call leaves of the record that it works on. -/
def RegistryCall.change (record : Option DeviceRecord) : RegistryCall → Option DeviceRecord
  | .upsert replacement => some replacement
  | .erase _ => none
  | .markSeen packet nowNs => some ((record.getD {}).markSeen packet nowNs)
  | .setLifecycle device lifecycle => some ((record.getD {}).setLifecycle device lifecycle)
  | .addLabel device label => some ((record.getD {}).addLabel device label)

/-! ## Lookups -/

namespace FleetRegistry

variable (registry : FleetRegistry)

theorem find_modify (key device : DeviceId) (change : DeviceRecord → DeviceRecord) :
    (registry.modify key change).find device =
      if device = key then some (change ((registry.find key).getD {})) else registry.find device :=
  OrderedMap.getElem?_insert _ _ _ _

/-- A call changes the record of its own device alone, by a function of this record. -/
theorem find_call (call : RegistryCall) (device : DeviceId) :
    (registry.call call).find device =
      if device = call.device then call.change (registry.find device)
      else registry.find device := by
  have hmodify : ∀ (key : DeviceId) (change : DeviceRecord → DeviceRecord),
      (registry.modify key change).find device =
        if device = key then some (change ((registry.find device).getD {}))
        else registry.find device := by
    intro key change
    rw [find_modify]
    by_cases hdevice : device = key
    · rw [hdevice]
    · rw [if_neg hdevice, if_neg hdevice]
  cases call with
  | upsert record => exact OrderedMap.getElem?_insert _ _ _ _
  | erase key => exact OrderedMap.getElem?_erase _ _ _
  | markSeen packet nowNs => exact hmodify _ _
  | setLifecycle key lifecycle => exact hmodify _ _
  | addLabel key label => exact hmodify _ _

end FleetRegistry

/-! ## Device numbers -/

namespace DeviceRecord

variable (record : DeviceRecord) (device : DeviceId)

/-- What a packet that is seen makes of its record. -/
theorem mark_seen_eq (packet : Packet) (nowNs : UInt64) :
    ∃ capabilities, record.markSeen packet nowNs = { record with
      device := if record.device = 0 then packet.device else record.device
      lifecycle := if record.device = 0 then .active else record.lifecycle
      capabilities := capabilities
      firstSeenNs := if record.firstSeenNs = 0 then nowNs else record.firstSeenNs
      lastSeenNs := nowNs
      packetsSeen := record.packetsSeen + 1 } := by
  have hbranch : (if record.device = 0 then
      { record with device := packet.device, lifecycle := .active } else record) =
      { record with
        device := if record.device = 0 then packet.device else record.device
        lifecycle := if record.device = 0 then .active else record.lifecycle } := by
    split
    case isTrue => rfl
    case isFalse => rfl
  unfold markSeen
  rw [hbranch]
  cases packet.capabilities with
  | none => exact ⟨record.capabilities, rfl⟩
  | some capabilities => exact ⟨capabilities, rfl⟩

theorem number_eq : (if record.device = 0 then { record with device } else record) =
    { record with device := if record.device = 0 then device else record.device } := by
  split
  case isTrue => rfl
  case isFalse => rfl

theorem set_lifecycle_eq (lifecycle : DeviceLifecycle) :
    record.setLifecycle device lifecycle = { record with
      device := if record.device = 0 then device else record.device
      lifecycle := lifecycle } := by
  rw [setLifecycle, number_eq]

/-- A new label changes nothing but the labels. -/
theorem add_label_eq (label : Bytes) :
    ∃ labels, record.addLabel device label = { record with
      device := if record.device = 0 then device else record.device
      labels := labels } := by
  rw [addLabel, number_eq]
  by_cases hlabel : record.hasLabel label
  · exact ⟨record.labels, if_neg (not_not_intro hlabel)⟩
  · exact ⟨record.labels ++ [label], if_pos hlabel⟩

end DeviceRecord

/-- A record that is fresh or that of the device gets the number of the device. -/
theorem numbered {number device : DeviceId} (h : number = 0 ∨ number = device) :
    (if number = 0 then device else number) = device := by
  by_cases hzero : number = 0
  · exact if_pos hzero
  · rw [if_neg hzero]
    exact h.resolve_left hzero

namespace FleetRegistry

/-- Every record is stored under its own device. -/
def Keyed (registry : FleetRegistry) : Prop :=
  ∀ device, ∀ record ∈ registry.find device, record.device = device

/-- What an operation leaves of the record of its device has the number of the device. -/
theorem device_change {found : Option DeviceRecord} (call : RegistryCall)
    (hfound : ∀ record ∈ found, record.device = call.device) :
    ∀ record ∈ call.change found, record.device = call.device := by
  have hnumber : (found.getD {}).device = 0 ∨ (found.getD {}).device = call.device := by
    cases found with
    | none => exact .inl rfl
    | some record => exact .inr (hfound record rfl)
  intro record hrecord
  cases call with
  | upsert replacement =>
      rw [← Option.some.inj hrecord]
      rfl
  | erase device => exact absurd hrecord (Option.not_mem_none _)
  | markSeen packet nowNs =>
      obtain ⟨capabilities, hseen⟩ := (found.getD {}).mark_seen_eq packet nowNs
      rw [← Option.some.inj hrecord, hseen]
      exact numbered hnumber
  | setLifecycle device lifecycle =>
      rw [← Option.some.inj hrecord, DeviceRecord.set_lifecycle_eq]
      exact numbered hnumber
  | addLabel device label =>
      obtain ⟨labels, hlabel⟩ := (found.getD {}).add_label_eq device label
      rw [← Option.some.inj hrecord, hlabel]
      exact numbered hnumber

/-- A call keeps the records under their devices. -/
theorem keyed_call {registry : FleetRegistry} (hkeyed : registry.Keyed) (call : RegistryCall) :
    (registry.call call).Keyed := by
  intro device record hrecord
  rw [find_call] at hrecord
  by_cases hdevice : device = call.device
  · rw [if_pos hdevice, hdevice] at hrecord
    rw [hdevice]
    exact device_change call (hkeyed call.device) record hrecord
  · rw [if_neg hdevice] at hrecord
    exact hkeyed device record hrecord

/-- After any calls the records are under their devices. -/
theorem keyed_after (calls : List RegistryCall) : (after calls).Keyed := by
  have hstart : Keyed {} := by
    intro device record hrecord
    have hnone : FleetRegistry.find {} device = none := Std.ExtTreeMap.getElem?_empty
    rw [hnone] at hrecord
    exact absurd hrecord (Option.not_mem_none _)
  have hstep : ∀ (registry : FleetRegistry) call, registry.Keyed → (registry.call call).Keyed :=
    fun registry call hkeyed => keyed_call hkeyed call
  exact Runs.run_invariant hstep hstart calls

end FleetRegistry

/-! ## Lifecycles -/

/-- A packet of a device that has a record changes nothing of it but the capabilities, the times
and the count, and activates the device only when it is the first. -/
structure FleetRegistry.MarksExplicitly (registry : FleetRegistry) (packet : Packet)
    (nowNs : UInt64) : Prop where
  known : ∀ before ∈ registry.find packet.device,
    ∃ record ∈ (registry.markSeen packet nowNs).find packet.device, before.OnlySeen record
  new : registry.find packet.device = none →
    ∃ record ∈ (registry.markSeen packet nowNs).find packet.device, record.lifecycle = .active
  others : ∀ other ≠ packet.device,
    (registry.markSeen packet nowNs).find other = registry.find other

/-- The call is a packet of the device. -/
def RegistryCall.Marks (device : DeviceId) : RegistryCall → Prop
  | .markSeen packet _ => packet.device = device
  | _ => False

/-- The call sets or removes the lifecycle of the device. -/
def RegistryCall.Governs (device : DeviceId) : RegistryCall → Prop
  | .upsert record => record.device = device
  | .erase key => key = device
  | .setLifecycle key _ => key = device
  | _ => False

theorem DeviceRecord.OnlySeen.lifecycle_eq {before after : DeviceRecord}
    (h : before.OnlySeen after) : after.lifecycle = before.lifecycle :=
  (congrArg lifecycle h :)

/-- A packet changes nothing else of a record unless it activates that of device 0. -/
theorem DeviceRecord.only_seen_iff (record : DeviceRecord) (packet : Packet) (nowNs : UInt64)
    (hdevice : record.device = packet.device) :
    record.OnlySeen (record.markSeen packet nowNs) ↔
      packet.device ≠ 0 ∨ record.lifecycle = .active := by
  obtain ⟨capabilities, hseen⟩ := record.mark_seen_eq packet nowNs
  rw [hseen, ← hdevice, ite_self]
  by_cases hzero : record.device = 0
  · rw [if_pos hzero]
    constructor
    · intro hsame
      exact .inr hsame.lifecycle_eq.symm
    · intro hexplicit
      rw [← hexplicit.resolve_left (not_not_intro hzero)]
      rfl
  · rw [if_neg hzero]
    exact iff_of_true rfl (.inl hzero)

/-- What a packet or a label of the device leaves of the lifecycle of its record. -/
theorem change_lifecycle {record : DeviceRecord} {call : RegistryCall}
    (hkeyed : record.device = call.device) (hcall : ¬ call.Governs call.device)
    (hmarks : call.Marks call.device → call.device ≠ 0 ∨ record.lifecycle = .active) :
    ∃ after ∈ call.change (some record), after.lifecycle = record.lifecycle := by
  cases call with
  | upsert replacement => exact absurd rfl hcall
  | erase device => exact absurd rfl hcall
  | setLifecycle device lifecycle => exact absurd rfl hcall
  | markSeen packet nowNs =>
      have hseen := (record.only_seen_iff packet nowNs hkeyed).mpr (hmarks rfl)
      exact ⟨_, rfl, hseen.lifecycle_eq⟩
  | addLabel device label =>
      obtain ⟨labels, hlabel⟩ := record.add_label_eq device label
      refine ⟨_, rfl, ?_⟩
      show (record.addLabel device label).lifecycle = record.lifecycle
      rw [hlabel]

namespace FleetRegistry

variable {registry : FleetRegistry}

/-- A packet keeps the lifecycle explicit, unless it has the number zero and finds a record that is
not active. -/
theorem marks_explicitly_iff (hkeyed : registry.Keyed) (packet : Packet) (nowNs : UInt64) :
    registry.MarksExplicitly packet nowNs ↔ packet.device ≠ 0 ∨
      ∀ record ∈ registry.find packet.device, record.lifecycle = .active := by
  have hfind : (registry.markSeen packet nowNs).find packet.device =
      some (((registry.find packet.device).getD {}).markSeen packet nowNs) := by
    rw [markSeen, find_modify, if_pos rfl]
  have hothers : ∀ other ≠ packet.device,
      (registry.markSeen packet nowNs).find other = registry.find other := by
    intro other hother
    rw [markSeen, find_modify, if_neg hother]
  cases hfound : registry.find packet.device with
  | none =>
      rw [hfound] at hfind
      refine iff_of_true ⟨?_, fun _ => ⟨_, hfind, ?_⟩, hothers⟩ (.inr ?_)
      · rw [hfound]
        exact fun record hrecord => absurd hrecord (Option.not_mem_none _)
      · obtain ⟨capabilities, hseen⟩ := ({} : DeviceRecord).mark_seen_eq packet nowNs
        show (({} : DeviceRecord).markSeen packet nowNs).lifecycle = .active
        rw [hseen]
        rfl
      · exact fun record hrecord => absurd hrecord (Option.not_mem_none _)
  | some record =>
      rw [hfound] at hfind
      have hdevice := record.only_seen_iff packet nowNs (hkeyed packet.device record hfound)
      constructor
      · intro hexplicit
        obtain ⟨after, hafter, hsame⟩ := hexplicit.known record hfound
        rw [hfind] at hafter
        rw [← Option.some.inj hafter] at hsame
        refine (hdevice.mp hsame).imp_right fun hactive other hother => ?_
        rw [← Option.some.inj hother]
        exact hactive
      · intro hcondition
        refine ⟨fun before hbefore => ⟨_, hfind, ?_⟩, fun hnone => ?_, hothers⟩
        · rw [hfound] at hbefore
          rw [← Option.some.inj hbefore]
          exact hdevice.mpr (hcondition.imp_right fun hall => hall record rfl)
        · exact absurd (hfound.symm.trans hnone) (Option.some_ne_none _)

/-- The device has a record with the lifecycle. -/
def Holds (device : DeviceId) (lifecycle : DeviceLifecycle) (registry : FleetRegistry) : Prop :=
  ∃ record ∈ registry.find device, record.lifecycle = lifecycle

/-- A call that does not govern the device leaves it its lifecycle, a packet of it under the
condition. -/
theorem holds_call (hkeyed : registry.Keyed) {device : DeviceId} {lifecycle : DeviceLifecycle}
    (h : registry.Holds device lifecycle) {call : RegistryCall} (hcall : ¬ call.Governs device)
    (hmarks : call.Marks device → device ≠ 0 ∨ lifecycle = .active) :
    (registry.call call).Holds device lifecycle := by
  obtain ⟨record, hrecord, rfl⟩ := h
  unfold Holds
  rw [find_call]
  by_cases hdevice : device = call.device
  · subst hdevice
    rw [if_pos rfl, hrecord]
    exact change_lifecycle (hkeyed _ record hrecord) hcall hmarks
  · rw [if_neg hdevice]
    exact ⟨record, hrecord, rfl⟩

/-- A packet of device 0 leaves no lifecycle but that of an active record. -/
theorem holds_marked (hkeyed : registry.Keyed) {device : DeviceId} {lifecycle : DeviceLifecycle}
    (hbefore : registry.Holds device lifecycle) {call : RegistryCall} (hmarks : call.Marks device)
    (hafter : (registry.call call).Holds device lifecycle) :
    device ≠ 0 ∨ lifecycle = .active := by
  obtain ⟨record, hrecord, rfl⟩ := hbefore
  obtain ⟨after, hfound, hsame⟩ := hafter
  cases call with
  | markSeen packet nowNs =>
      obtain rfl : packet.device = device := hmarks
      refine Decidable.or_iff_not_imp_left.mpr fun hzero => ?_
      obtain ⟨capabilities, hseen⟩ := record.mark_seen_eq packet nowNs
      have hdevice : record.device = 0 :=
        (hkeyed _ record hrecord).trans (Decidable.not_not.mp hzero)
      rw [find_call, RegistryCall.device, if_pos rfl, hrecord] at hfound
      have hmarked : record.markSeen packet nowNs = after := Option.some.inj hfound
      rw [← hsame, ← hmarked, hseen]
      exact if_pos hdevice
  | upsert replacement => exact hmarks.elim
  | erase key => exact hmarks.elim
  | setLifecycle key lifecycle => exact hmarks.elim
  | addLabel key label => exact hmarks.elim

/-- A call that does not govern the device leaves it its lifecycle exactly if it is no packet of
device 0, or the device is active. -/
theorem holds_call_iff (hkeyed : registry.Keyed) {device : DeviceId}
    {lifecycle : DeviceLifecycle} (h : registry.Holds device lifecycle) {call : RegistryCall}
    (hcall : ¬ call.Governs device) :
    (registry.call call).Holds device lifecycle ↔
      (call.Marks device → device ≠ 0 ∨ lifecycle = .active) :=
  ⟨fun hafter hmarks => holds_marked hkeyed h hmarks hafter, holds_call hkeyed h hcall⟩

/-- A device keeps its lifecycle through calls that do not govern it exactly if none of them is a
packet of device 0, or the device is active. -/
theorem holds_run_iff (hkeyed : registry.Keyed) {device : DeviceId} {lifecycle : DeviceLifecycle}
    (h : registry.Holds device lifecycle) {calls : List RegistryCall}
    (hcalls : ∀ call ∈ calls, ¬ call.Governs device) :
    (∀ n, (Runs.run call registry (calls.take n)).Holds device lifecycle) ↔
      ∀ call ∈ calls, call.Marks device → device ≠ 0 ∨ lifecycle = .active := by
  have hinv : ∀ (registry : FleetRegistry) call, registry.Keyed → (registry.call call).Keyed :=
    fun registry call hkeyed => keyed_call hkeyed call
  have hstep : ∀ (registry : FleetRegistry), ∀ call ∈ calls, registry.Keyed →
      registry.Holds device lifecycle → ((registry.call call).Holds device lifecycle ↔
        (call.Marks device → device ≠ 0 ∨ lifecycle = .active)) :=
    fun registry call hmem hkeyed h => holds_call_iff hkeyed h (hcalls call hmem)
  exact (Runs.states_iff_along hinv hstep hkeyed h).trans Runs.along_forall_iff

end FleetRegistry

/-- Explicit lifecycles over every run: a packet changes nothing of the record of its device but
the capabilities, the times and the count, and activates a device without a record alone, exactly
when the device is not device 0, has no record or is active. A device with a record keeps its
lifecycle through a run that neither sets nor removes it exactly when no packet of it comes, or it
is not device 0, or it is active. -/
theorem lifecycle_explicit_iff (calls : List RegistryCall) :
    let registry := FleetRegistry.after calls
    (∀ packet nowNs, registry.MarksExplicitly packet nowNs ↔ packet.device ≠ 0 ∨
      ∀ record ∈ registry.find packet.device, record.lifecycle = .active) ∧
    ∀ device, ∀ record ∈ registry.find device, ∀ later : List RegistryCall,
      (∀ call ∈ later, ¬ call.Governs device) →
      ((∀ n, (FleetRegistry.after (calls ++ later.take n)).Holds device record.lifecycle) ↔
        ∀ call ∈ later, call.Marks device → device ≠ 0 ∨ record.lifecycle = .active) := by
  intro registry
  have hkeyed : registry.Keyed := FleetRegistry.keyed_after calls
  refine ⟨fun packet nowNs => FleetRegistry.marks_explicitly_iff hkeyed packet nowNs, ?_⟩
  intro device record hrecord later hlater
  have hholds : registry.Holds device record.lifecycle := ⟨record, hrecord, rfl⟩
  have hrun : ∀ more, FleetRegistry.after (calls ++ more) =
      Runs.run FleetRegistry.call registry more :=
    fun more => List.foldl_append
  simp only [hrun]
  exact FleetRegistry.holds_run_iff hkeyed hholds hlater

/-- A packet activates device 0 again after it has been quarantined. -/
theorem traffic_reactivates_device_zero :
    let registry := FleetRegistry.after [.setLifecycle 0 .quarantined]
    (∃ record ∈ registry.find 0, record.lifecycle = .quarantined) ∧
      ∃ record ∈ (registry.markSeen {} 5).find 0, record.lifecycle = .active := by
  intro registry
  have hquarantined : registry.find 0 = some { lifecycle := .quarantined } := by
    show (FleetRegistry.setLifecycle {} 0 .quarantined).find 0 = _
    rw [FleetRegistry.setLifecycle, FleetRegistry.find_modify, if_pos rfl]
    rfl
  have hseen := registry.find_modify 0 0 fun record => record.markSeen {} 5
  rw [if_pos rfl, hquarantined] at hseen
  exact ⟨⟨_, hquarantined, rfl⟩, _, hseen, rfl⟩

end Aethon.Runtime
