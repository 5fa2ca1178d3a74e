import Mathlib.Algebra.Order.Floor.Semiring
import Mathlib.Algebra.Order.Ring.Rat
import Mathlib.Data.Rat.Floor
import Mathlib.Tactic.Linarith
import Aethon.Foundation.Rounding
import Aethon.Runtime.IngestQueue
import Aethon.Storage.RecordLoop

/-!
# The replay engine and its driver

`replay::ReplayEngine` hands the records of an archive that lie in a time window to a handler, and
with `preserve_timing` sleeps between them. A `double` is the rational number that it stands for:
`toDouble` rounds to its 53 bits, while its range is left out, so a quotient has no infinity and the
speed is finite. `slept` is the list of requested sleeps; nothing in the engine reads it.
`runtime::ReplayDriver` hands the records on to the subscribers of a `runtime::EventDispatcher`.
Handlers act on one common state, return, and do not call back into the dispatcher.
-/

namespace Aethon.Replay

open Rounding Storage

/-- The speed and the window of a replay. -/
structure ReplayOptions where
  speed : Rat := 1
  startTimeNs : UInt64 := 0
  endTimeNs : UInt64 := 0
  preserveTiming : Bool := false
  deriving DecidableEq

/-- What a replay counts. -/
structure ReplayStats where
  recordsSeen : UInt64 := 0
  recordsEmitted : UInt64 := 0
  bytesEmitted : UInt64 := 0
  deriving DecidableEq, Repr

/-- An engine that was constructed has a positive speed. -/
structure ReplayEngine where
  options : ReplayOptions
  positive : 0 < options.speed

/-- The local variables of `run` and the state that the handler acts on. -/
structure ReplayState (σ : Type) where
  world : σ
  stats : ReplayStats := {}
  previousTs : UInt64 := 0
  slept : List Int := []

namespace ReplayEngine

/-- The constructor. -/
def create (options : ReplayOptions) : Except Error ReplayEngine :=
  if h : options.speed ≤ 0 then .error ⟨.invalidArgument, "replay speed must be positive"⟩
  else .ok ⟨options, not_le.mp h⟩

/-- A time is in the window, whose ends at zero are open. -/
def withinWindow (engine : ReplayEngine) (ts : UInt64) : Bool :=
  (engine.options.startTimeNs == 0 || ts ≥ engine.options.startTimeNs) &&
    (engine.options.endTimeNs == 0 || ts ≤ engine.options.endTimeNs)

/-- The nearest `double`, with 53 significant bits. -/
def toDouble (value : Rat) : Rat :=
  floating 52 value

/-- The time between two records divided by the speed, as the code computes it: the time becomes a
`double`, and so does the quotient. -/
def delta (engine : ReplayEngine) (previousTs captureTimeNs : UInt64) : Rat :=
  toDouble (toDouble (captureTimeNs - previousTs).toNat / engine.options.speed)

/-- The sleep in front of a record, if any: the quotient without its fraction in 64 bits, and these
read as a signed number of nanoseconds. The cast of a quotient of 2 ^ 64 or more is undefined; here
it keeps the low bits. -/
def pause (engine : ReplayEngine) (previousTs captureTimeNs : UInt64) : List Int :=
  if engine.options.preserveTiming ∧ previousTs ≠ 0 ∧ captureTimeNs > previousTs then
    [(UInt64.ofNat ⌊engine.delta previousTs captureTimeNs⌋₊).toInt64.toInt]
  else []

variable {σ : Type} (handler : σ → ArchiveRecord → σ)

/-- The body of the loop over the records. -/
def emit (engine : ReplayEngine) (state : ReplayState σ) (record : ArchiveRecord) :
    ReplayState σ :=
  let state := { state with stats.recordsSeen := state.stats.recordsSeen + 1 }
  if engine.withinWindow record.captureTimeNs then
    { world := handler state.world record
      stats := { state.stats with
        recordsEmitted := state.stats.recordsEmitted + 1
        bytesEmitted := state.stats.bytesEmitted + UInt64.ofNat record.packet.payload.length }
      previousTs := record.captureTimeNs
      slept := state.slept ++ engine.pause state.previousTs record.captureTimeNs }
  else state

/-- The loop, up to the end of the archive or the record that cannot be read. -/
def replay (engine : ReplayEngine) (reader : ArchiveReader) (world : σ) : ReplayState σ :=
  reader.drain.1.foldl (engine.emit handler) { world }

/-- `run`: what it returns or throws, and the state it leaves. -/
def run (engine : ReplayEngine) (reader : ArchiveReader) (world : σ) :
    Except Error ReplayStats × σ :=
  let state := engine.replay handler reader world
  ((endLoop reader.drain.2).map fun _ => state.stats, state.world)

/-- The records in the window. -/
def selected (engine : ReplayEngine) (records : List ArchiveRecord) : List ArchiveRecord :=
  records.filter fun record => engine.withinWindow record.captureTimeNs

/-- The sleeps in front of records, the first of which follows one captured at `previousTs`. -/
def pauses (engine : ReplayEngine) : UInt64 → List ArchiveRecord → List Int
  | _, [] => []
  | previousTs, record :: records =>
      engine.pause previousTs record.captureTimeNs ++ pauses engine record.captureTimeNs records

/-- The payload bytes of records. -/
def payloadBytes (records : List ArchiveRecord) : Nat :=
  (records.map fun record => record.packet.payload.length).sum

variable {handler}

/-- Counting one more and then the rest. -/
theorem add_one_ofNat (count : UInt64) (n : Nat) :
    count + 1 + UInt64.ofNat n = count + UInt64.ofNat (n + 1) := by
  rw [UInt64.ofNat_add, UInt64.add_assoc, UInt64.add_comm 1]
  rfl

theorem add_ofNat_ofNat (count : UInt64) (m n : Nat) :
    count + UInt64.ofNat m + UInt64.ofNat n = count + UInt64.ofNat (m + n) := by
  rw [UInt64.ofNat_add, UInt64.add_assoc]

/-- What the loop does: the handler gets the records in the window in order, and the counters count
what was seen and emitted. -/
theorem foldl_emit (engine : ReplayEngine) (state : ReplayState σ) (records : List ArchiveRecord) :
    (records.foldl (engine.emit handler) state).world =
        (engine.selected records).foldl handler state.world ∧
      (records.foldl (engine.emit handler) state).stats =
        { recordsSeen := state.stats.recordsSeen + UInt64.ofNat records.length
          recordsEmitted :=
            state.stats.recordsEmitted + UInt64.ofNat (engine.selected records).length
          bytesEmitted := state.stats.bytesEmitted +
            UInt64.ofNat (payloadBytes (engine.selected records)) } ∧
      (records.foldl (engine.emit handler) state).slept =
        state.slept ++ engine.pauses state.previousTs (engine.selected records) := by
  induction records generalizing state with
  | nil =>
      refine ⟨rfl, ?_, ?_⟩
      · simp [selected, payloadBytes]
      · rw [selected, List.filter_nil, pauses, List.append_nil, List.foldl_nil]
  | cons record records ih =>
      obtain ⟨hworld, hstats, hslept⟩ := ih (engine.emit handler state record)
      rw [List.foldl_cons, hworld, hstats, hslept]
      by_cases hwithin : engine.withinWindow record.captureTimeNs = true
      · have hselected : engine.selected (record :: records) =
            record :: engine.selected records := List.filter_cons_of_pos hwithin
        rw [hselected]
        refine ⟨?_, ?_, ?_⟩
        · simp only [emit, hwithin, if_true, List.foldl_cons]
        · simp only [emit, hwithin, if_true, List.length_cons, payloadBytes, List.map_cons,
            List.sum_cons, add_one_ofNat, add_ofNat_ofNat]
        · simp only [emit, hwithin, if_true, pauses, List.append_assoc]
      · have hselected : engine.selected (record :: records) = engine.selected records :=
          List.filter_cons_of_neg hwithin
        rw [hselected]
        refine ⟨?_, ?_, ?_⟩
        · simp only [emit, hwithin, Bool.false_eq_true, if_false]
        · simp only [emit, hwithin, Bool.false_eq_true, if_false, List.length_cons, add_one_ofNat]
        · simp only [emit, hwithin, Bool.false_eq_true, if_false]

/-! ## Timing -/

/-- The relative error of a `double`. -/
def doubleError : Rat := 1 / 2 ^ 53

/-- The quotient is two roundings off the exact one. -/
theorem delta_bounds (engine : ReplayEngine) {previousTs captureTimeNs : UInt64}
    (hle : previousTs ≤ captureTimeNs) :
    let exact := ((captureTimeNs.toNat : Rat) - previousTs.toNat) / engine.options.speed
    exact * (1 - doubleError) ^ 2 ≤ engine.delta previousTs captureTimeNs ∧
      engine.delta previousTs captureTimeNs ≤ exact * (1 + doubleError) ^ 2 := by
  intro exact
  have hspeed := engine.positive
  have hsmall : 0 ≤ 1 - doubleError := by norm_num [doubleError]
  have hspan : ((captureTimeNs - previousTs).toNat : Rat) / engine.options.speed = exact := by
    rw [UInt64.toNat_sub_of_le _ _ hle, Nat.cast_sub (UInt64.le_iff_toNat_le.mp hle)]
  obtain ⟨hlow, hhigh⟩ := floating_bounds 52 (Nat.cast_nonneg (captureTimeNs - previousTs).toNat)
  have hlow := div_le_div_of_nonneg_right hlow hspeed.le
  have hhigh := div_le_div_of_nonneg_right hhigh hspeed.le
  rw [mul_div_right_comm, hspan] at hlow hhigh
  have hexact : 0 ≤ exact := hspan ▸ div_nonneg (Nat.cast_nonneg _) hspeed.le
  obtain ⟨hlow', hhigh'⟩ := floating_bounds 52 ((mul_nonneg hexact hsmall).trans hlow)
  rw [pow_two, pow_two, ← mul_assoc, ← mul_assoc]
  exact ⟨(mul_le_mul_of_nonneg_right hlow hsmall).trans hlow',
    hhigh'.trans (mul_le_mul_of_nonneg_right hhigh (by norm_num [doubleError]))⟩

/-- The cast and the conversion keep a quotient below 2 ^ 63, less its fraction. -/
theorem sleep_bounds {value : Rat} (hnonneg : 0 ≤ value) (hfits : value < 2 ^ 63) :
    (((UInt64.ofNat ⌊value⌋₊).toInt64.toInt : Int) : Rat) ≤ value ∧
      value ≤ (((UInt64.ofNat ⌊value⌋₊).toInt64.toInt : Int) : Rat) + 1 := by
  have hfloor : ⌊value⌋₊ < 2 ^ 63 := by
    rw [Nat.floor_lt hnonneg]
    exact_mod_cast hfits
  have hkept : (UInt64.ofNat ⌊value⌋₊).toInt64.toInt = (⌊value⌋₊ : Int) := by
    rw [UInt64.toInt64_ofNat', Int64.toInt_ofNat_of_lt hfloor]
  rw [hkept, Int.cast_natCast]
  exact ⟨Nat.floor_le hnonneg, (Nat.lt_floor_add_one _).le⟩

/-- A sleep is as long as the time between the records divided by the speed, up to the errors of the
two roundings, less a fraction of a nanosecond, and equal times are not slept between. -/
theorem pause_bounds (engine : ReplayEngine) (htiming : engine.options.preserveTiming = true)
    {previousTs captureTimeNs : UInt64} (hprevious : previousTs ≠ 0)
    (hle : previousTs ≤ captureTimeNs) :
    let exact := ((captureTimeNs.toNat : Rat) - previousTs.toNat) / engine.options.speed
    exact ≤ 2 ^ 62 →
    ((engine.pause previousTs captureTimeNs).sum : Rat) ≤ exact * (1 + doubleError) ^ 2 ∧
      exact * (1 - doubleError) ^ 2 ≤ (engine.pause previousTs captureTimeNs).sum +
        (engine.pause previousTs captureTimeNs).length := by
  intro exact hshort
  obtain ⟨hlow, hhigh⟩ := engine.delta_bounds hle
  have hnonneg : 0 ≤ exact := div_nonneg
    (sub_nonneg.mpr (Nat.cast_le.mpr (UInt64.le_iff_toNat_le.mp hle))) engine.positive.le
  unfold pause
  by_cases hlater : captureTimeNs > previousTs
  · have hfits : engine.delta previousTs captureTimeNs < 2 ^ 63 := by
      refine hhigh.trans_lt ?_
      have herror : (1 + doubleError) ^ 2 < 2 := by norm_num [doubleError]
      calc exact * (1 + doubleError) ^ 2 ≤ 2 ^ 62 * (1 + doubleError) ^ 2 :=
            mul_le_mul_of_nonneg_right hshort (sq_nonneg _)
        _ < 2 ^ 63 := by linarith
    obtain ⟨hsleep, hsleep'⟩ :=
      sleep_bounds ((mul_nonneg hnonneg (sq_nonneg _)).trans hlow) hfits
    rw [if_pos ⟨htiming, hprevious, hlater⟩, List.sum_singleton, List.length_singleton,
      Nat.cast_one]
    exact ⟨hsleep.trans hhigh, hlow.trans hsleep'⟩
  · have hsame : captureTimeNs = previousTs :=
      UInt64.le_antisymm (UInt64.not_lt.mp hlater) hle
    have hzero : exact = 0 := by simp only [exact, hsame, sub_self, zero_div]
    rw [if_neg fun h => hlater h.2.2, hzero, zero_mul, zero_mul, List.sum_nil, List.length_nil]
    simp

-- the `double` nearest to 0.1 is above it, the quotient rounds to ten all the same
example : (⟨{ speed := toDouble (1 / 10), preserveTiming := true }, by decide +kernel⟩ :
    ReplayEngine).pause 1 2 = [10] := by
  decide +kernel

/-- The last of times in order is not before the first. -/
theorem le_getLastD {time : UInt64} {times : List UInt64}
    (hsorted : (time :: times).Pairwise (· ≤ ·)) : time ≤ times.getLastD time := by
  have hmem : times.getLastD time ∈ time :: times := List.getLastD_mem_cons
  rcases List.mem_cons.mp hmem with heq | hmem
  · exact UInt64.le_of_eq heq.symm
  · exact (List.pairwise_cons.mp hsorted).1 _ hmem

/-- The sleeps between records in order of time add up to the time they span divided by the speed,
up to the errors of the roundings and less at most a nanosecond for each sleep. -/
theorem pauses_bounds (engine : ReplayEngine) (htiming : engine.options.preserveTiming = true)
    {previousTs : UInt64} (hprevious : previousTs ≠ 0) {records : List ArchiveRecord}
    (hsorted : (previousTs :: records.map ArchiveRecord.captureTimeNs).Pairwise (· ≤ ·)) :
    let exact := ((((records.map ArchiveRecord.captureTimeNs).getLastD previousTs).toNat : Rat) -
      previousTs.toNat) / engine.options.speed
    exact ≤ 2 ^ 62 →
    ((engine.pauses previousTs records).sum : Rat) ≤ exact * (1 + doubleError) ^ 2 ∧
      exact * (1 - doubleError) ^ 2 ≤
        (engine.pauses previousTs records).sum + (engine.pauses previousTs records).length := by
  induction records generalizing previousTs with
  | nil => simp [pauses]
  | cons record records ih =>
      intro exact hshort
      obtain ⟨hfirst, hrest⟩ := List.pairwise_cons.mp hsorted
      have hle : previousTs ≤ record.captureTimeNs := hfirst _ List.mem_cons_self
      have hnonzero : record.captureTimeNs ≠ 0 := fun hzero => by
        rw [hzero] at hle
        exact hprevious (UInt64.le_zero_iff.mp hle)
      have hsplit : ∀ last : Rat, (last - previousTs.toNat) / engine.options.speed =
          ((record.captureTimeNs.toNat : Rat) - previousTs.toNat) / engine.options.speed +
            (last - record.captureTimeNs.toNat) / engine.options.speed := fun last => by
        rw [← add_div, sub_add_sub_cancel']
      have hexact := hsplit
        (((record :: records).map ArchiveRecord.captureTimeNs).getLastD previousTs).toNat
      rw [show exact = _ from hexact, List.map_cons, List.getLastD_cons] at hshort ⊢
      have hnonneg : ∀ {left right : UInt64}, left ≤ right →
          0 ≤ ((right.toNat : Rat) - left.toNat) / engine.options.speed := fun h =>
        div_nonneg (sub_nonneg.mpr (Nat.cast_le.mpr (UInt64.le_iff_toNat_le.mp h)))
          engine.positive.le
      have hbefore := hnonneg hle
      have hbehind := hnonneg (le_getLastD hrest)
      obtain ⟨hpause, hpause'⟩ := engine.pause_bounds htiming hprevious hle (by linarith)
      obtain ⟨hpauses, hpauses'⟩ := ih hnonzero hrest (by linarith)
      rw [pauses, List.sum_append, List.length_append, Int.cast_add, Nat.cast_add, add_mul, add_mul]
      exact ⟨add_le_add hpause hpauses, by linarith⟩

/-- **Replay keeps time.** With `preserve_timing`, when the records in the window have capture times
in order, the first of them not zero, and the time between the first and the last of them divided by
the speed is at most 2 ^ 62, the requested sleeps add up to this quotient, less at most a nanosecond
for each sleep and up to the relative errors of two roundings to a `double`. -/
theorem replay_keeps_time (engine : ReplayEngine) (htiming : engine.options.preserveTiming = true)
    (reader : ArchiveReader) (handler : σ → ArchiveRecord → σ) (world : σ)
    {first : ArchiveRecord} {rest : List ArchiveRecord}
    (hselected : engine.selected reader.drain.1 = first :: rest) (hfirst : first.captureTimeNs ≠ 0)
    (hsorted : ((first :: rest).map ArchiveRecord.captureTimeNs).Pairwise (· ≤ ·))
    (hshort : ((rest.getLastD first).captureTimeNs.toNat : Rat) - first.captureTimeNs.toNat ≤
      2 ^ 62 * engine.options.speed) :
    let slept := (engine.replay handler reader world).slept
    let exact : Rat := (((rest.getLastD first).captureTimeNs.toNat : Rat) -
      first.captureTimeNs.toNat) / engine.options.speed
    (slept.sum : Rat) ≤ exact * (1 + doubleError) ^ 2 ∧
      exact * (1 - doubleError) ^ 2 ≤ slept.sum + slept.length := by
  intro slept exact
  have hslept : slept = engine.pauses first.captureTimeNs rest := by
    have hloop : slept = [] ++ engine.pauses 0 (engine.selected reader.drain.1) :=
      (engine.foldl_emit { world } reader.drain.1).2.2
    rw [hselected] at hloop
    refine hloop.trans ?_
    rw [pauses, pause, if_neg fun h => h.2.1 rfl]
    rfl
  have hlast : (rest.map ArchiveRecord.captureTimeNs).getLastD first.captureTimeNs =
      (rest.getLastD first).captureTimeNs := List.getLastD_map
  have hbounds := engine.pauses_bounds htiming hfirst hsorted
  rw [hlast] at hbounds
  rw [hslept]
  exact hbounds ((div_le_iff₀ engine.positive).mpr hshort)

/-- An engine at double speed. -/
def doubleSpeed : ReplayEngine :=
  ⟨{ speed := 2, preserveTiming := true }, by decide⟩

/-- A reader behind the header of an archive with two records. -/
def twoRecords : ArchiveReader where
  input := {
    content := archiveWire [(1000, { payload := [1] }), (3000, { payload := [2] })]
    position := 36 }

/-- Both records are selected. -/
theorem selected_two_records :
    doubleSpeed.selected twoRecords.drain.1 =
      recordsAt 36 [(1000, { payload := [1] }), (3000, { payload := [2] })] := by
  have hlimits : ∀ entry ∈ [((1000 : UInt64), ({ payload := [1] } : Protocol.Packet)),
      (3000, { payload := [2] })], ReadableLimits entry.2 :=
    List.forall_mem_cons.mpr ⟨readable_observation 0 0 (by decide),
      List.forall_mem_singleton.mpr (readable_observation 0 0 (by decide))⟩
  have hunread : twoRecords.input.unread =
      recordsWire [(1000, { payload := [1] }), (3000, { payload := [2] })] ++ [] := by
    rw [List.append_nil]
    exact List.drop_left' (by rw [List.length_append, length_summary_wire]; rfl)
  obtain ⟨hdrain, -⟩ := @ArchiveReader.drain_of_stands_no_record 36 _ [] _
    (stands_of_entries 36 [] hlimits) no_record_nil twoRecords rfl rfl hunread
  rw [hdrain]
  rfl

/-- Two records 2000 ns apart are replayed with about 1000 ns between them. -/
theorem two_records_at_double_speed :
    let slept := (doubleSpeed.replay (fun count _ => count + 1) twoRecords 0).slept
    let exact : Rat := (((3000 : UInt64).toNat : Rat) - (1000 : UInt64).toNat) /
      doubleSpeed.options.speed
    (slept.sum : Rat) ≤ exact * (1 + doubleError) ^ 2 ∧
      exact * (1 - doubleError) ^ 2 ≤ slept.sum + slept.length := by
  have hfirst : (1000 : UInt64) ≠ 0 := by decide
  have hsorted : [(1000 : UInt64), 3000].Pairwise (· ≤ ·) := by decide
  have hshort : ((3000 : UInt64).toNat : Rat) - (1000 : UInt64).toNat ≤
      2 ^ 62 * doubleSpeed.options.speed := by decide +kernel
  have h := doubleSpeed.replay_keeps_time rfl twoRecords (fun count _ => count + 1) 0
    selected_two_records hfirst hsorted hshort
  exact h

end ReplayEngine

end Aethon.Replay

namespace Aethon.Runtime

open Protocol Replay Storage

/-- The registered handlers, in the order of their registration. -/
structure EventDispatcher (σ : Type) where
  handlers : List (σ → RuntimeEvent → σ) := []

namespace EventDispatcher

variable {σ : Type}

/-- Register a handler behind the others. -/
def subscribe (dispatcher : EventDispatcher σ) (handler : σ → RuntimeEvent → σ) :
    EventDispatcher σ :=
  { handlers := dispatcher.handlers ++ [handler] }

/-- Every handler gets the event. -/
def publish (dispatcher : EventDispatcher σ) (world : σ) (event : RuntimeEvent) : σ :=
  dispatcher.handlers.foldl (fun world handler => handler world event) world

end EventDispatcher

/-- What a run of a driver returns. -/
structure ReplayDriverResult where
  stats : ReplayStats := {}
  eventsPublished : UInt64 := 0
  deriving DecidableEq, Repr

/-- The options of a replay, and those who are to hear of it. -/
structure ReplayDriver (σ : Type) where
  options : ReplayOptions := {}
  dispatcher : EventDispatcher σ := {}

/-- The event for a record. -/
def replayEvent (record : ArchiveRecord) : RuntimeEvent where
  kind := .packetReceived
  timeNs := record.captureTimeNs.toNat
  packet := record.packet
  message := "replayed archive packet"

namespace ReplayDriver

variable {σ : Type}

/-- Register a handler for the events of a driver. -/
def subscribe (driver : ReplayDriver σ) (handler : σ → RuntimeEvent → σ) : ReplayDriver σ :=
  { driver with dispatcher := driver.dispatcher.subscribe handler }

/-- `run` over what the file of the archive holds: what it returns or throws, and the state of the
handlers it leaves. -/
def run (driver : ReplayDriver σ) (file : Option Bytes) (world : σ) :
    Except Error ReplayDriverResult × σ :=
  match ArchiveReader.ofFile file with
  | .error failure => (.error failure, world)
  | .ok reader =>
      match ReplayEngine.create driver.options with
      | .error failure => (.error failure, world)
      | .ok engine =>
          let (stats, published, world) := engine.run
            (fun (state : UInt64 × σ) record =>
              (state.1 + 1, driver.dispatcher.publish state.2 (replayEvent record)))
            reader (0, world)
          (stats.map fun stats => { stats, eventsPublished := published }, world)

/-- Publishing records one after another counts them. -/
theorem foldl_publish (driver : ReplayDriver σ) (records : List ArchiveRecord)
    (state : UInt64 × σ) :
    records.foldl (fun (state : UInt64 × σ) record =>
        (state.1 + 1, driver.dispatcher.publish state.2 (replayEvent record))) state =
      (state.1 + UInt64.ofNat records.length,
        (records.map replayEvent).foldl driver.dispatcher.publish state.2) := by
  induction records generalizing state with
  | nil => simp
  | cons record records ih =>
      rw [List.foldl_cons, ih, List.length_cons, ReplayEngine.add_one_ofNat, List.map_cons,
        List.foldl_cons]

/-- What a run does with a file that opens, at a positive speed: it publishes the records in the
window that can be read, and returns the counts if the archive could be read to its end. -/
theorem run_of_open {driver : ReplayDriver σ} {file : Option Bytes} {reader : ArchiveReader}
    (hopen : ArchiveReader.ofFile file = .ok reader) (engine : ReplayEngine)
    (hengine : engine.options = driver.options) (world : σ) :
    (driver.run file world).2 = ((engine.selected reader.drain.1).map replayEvent).foldl
        driver.dispatcher.publish world ∧
      (driver.run file world).1 = (endLoop reader.drain.2).map fun _ =>
        { stats :=
            { recordsSeen := UInt64.ofNat reader.drain.1.length
              recordsEmitted := UInt64.ofNat (engine.selected reader.drain.1).length
              bytesEmitted :=
                UInt64.ofNat (ReplayEngine.payloadBytes (engine.selected reader.drain.1)) }
          eventsPublished := UInt64.ofNat (engine.selected reader.drain.1).length } := by
  have hcreate : ReplayEngine.create driver.options = .ok engine := by
    obtain ⟨options, hpositive⟩ := engine
    subst hengine
    exact dif_neg (not_le.mpr hpositive)
  obtain ⟨hworld, hstats, -⟩ := @ReplayEngine.foldl_emit _
    (fun (state : UInt64 × σ) record =>
      (state.1 + 1, driver.dispatcher.publish state.2 (replayEvent record)))
    engine { world := (0, world) } reader.drain.1
  rw [foldl_publish] at hworld
  simp only [run, hopen, hcreate, ReplayEngine.run, ReplayEngine.replay, hworld, hstats,
    UInt64.zero_add, true_and]
  cases endLoop reader.drain.2 <;> rfl

end ReplayDriver

end Aethon.Runtime
