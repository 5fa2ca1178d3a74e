import Aethon.Common.Text
import Aethon.Foundation.Tiling
import Aethon.Foundation.Words

/-!
# SLO windows

The events of `diagnostics/slo_window.cpp`, counted over an interval with both ends in it, and the
loop that cuts an interval into slices. The cursor of the loop and the end of a slice are sums of
words. `partition_iff` says for which interval and width none of them wraps, and that the slices
partition the interval in these cases alone.
-/

namespace Aethon.Diagnostics

open Tiling

/-- Whether an event counts, and for what. -/
inductive SloEventKind where
  | good
  | bad
  | ignored
  deriving DecidableEq, Repr

/-- An event with its weight. -/
structure SloEvent where
  timeNs : UInt64 := 0
  kind : SloEventKind := .good
  weight : UInt64 := 1
  source : Text := []
  note : Text := []
  deriving DecidableEq

/-- The counts of a stretch of time. -/
structure SloSlice where
  startTimeNs : UInt64 := 0
  endTimeNs : UInt64 := 0
  goodEvents : UInt64 := 0
  badEvents : UInt64 := 0
  ignoredEvents : UInt64 := 0
  totalWeight : UInt64 := 0
  badWeight : UInt64 := 0
  deriving DecidableEq, Repr

/-- Count an event. -/
def addEventToSlice (slice : SloSlice) (event : SloEvent) : SloSlice :=
  match event.kind with
  | .good =>
      { slice with
        goodEvents := slice.goodEvents + 1
        totalWeight := slice.totalWeight + event.weight }
  | .bad =>
      { slice with
        badEvents := slice.badEvents + 1
        totalWeight := slice.totalWeight + event.weight
        badWeight := slice.badWeight + event.weight }
  | .ignored => { slice with ignoredEvents := slice.ignoredEvents + 1 }

/-- The events of a window, in the order in which they were added. -/
structure SloWindow where
  events : List SloEvent := []

namespace SloWindow

/-- Add an event behind the others. -/
def add (window : SloWindow) (event : SloEvent) : SloWindow :=
  { window with events := window.events ++ [event] }

/-- Add a good event. -/
def good (window : SloWindow) (timeNs weight : UInt64) (source : Text) : SloWindow :=
  window.add { timeNs, kind := .good, weight, source }

/-- Add a bad event. -/
def bad (window : SloWindow) (timeNs weight : UInt64) (source note : Text) : SloWindow :=
  window.add { timeNs, kind := .bad, weight, source, note }

/-- Add an event that does not count. -/
def ignored (window : SloWindow) (timeNs : UInt64) (source note : Text) : SloWindow :=
  window.add { timeNs, kind := .ignored, weight := 0, source, note }

/-- Forget all events. -/
def clear (window : SloWindow) : SloWindow :=
  { window with events := [] }

/-- The counts of the events from a first to a last time. -/
def slice (window : SloWindow) (startNs endNs : UInt64) : SloSlice :=
  (window.events.filter fun event => event.timeNs ≥ startNs ∧ event.timeNs ≤ endNs).foldl
    addEventToSlice { startTimeNs := startNs, endTimeNs := endNs }

/-- The loop of `partition`. There is no result without a round left for the last slice. -/
def partitionLoop (window : SloWindow) (endNs sliceNs : UInt64) :
    ℕ → UInt64 → List SloSlice → Option (List SloSlice)
  | 0, _, _ => none
  | fuel + 1, cursor, slices =>
      if cursor ≤ endNs then
        let next := if cursor + sliceNs > endNs then endNs else cursor + sliceNs
        let slices := slices ++ [window.slice cursor next]
        if next = endNs then some slices
        else partitionLoop window endNs sliceNs fuel (next + 1) slices
      else some slices

/-- The slices of a stretch of time, if there is fuel for all of them. -/
def partition (window : SloWindow) (startNs endNs sliceNs : UInt64) (fuel : ℕ) :
    Option (List SloSlice) :=
  if sliceNs = 0 ∨ endNs < startNs then some []
  else window.partitionLoop endNs sliceNs fuel startNs []

end SloWindow

/-! ## Counters of a slice -/

/-- Events do not move a slice. -/
theorem times_foldl (events : List SloEvent) (slice : SloSlice) :
    (events.foldl addEventToSlice slice).startTimeNs = slice.startTimeNs ∧
      (events.foldl addEventToSlice slice).endTimeNs = slice.endTimeNs := by
  induction events generalizing slice with
  | nil => exact ⟨rfl, rfl⟩
  | cons event events ih =>
      have hstep : (addEventToSlice slice event).startTimeNs = slice.startTimeNs ∧
          (addEventToSlice slice event).endTimeNs = slice.endTimeNs := by
        unfold addEventToSlice
        cases event.kind <;> exact ⟨rfl, rfl⟩
      obtain ⟨hstart, hend⟩ := ih (addEventToSlice slice event)
      exact ⟨hstart.trans hstep.1, hend.trans hstep.2⟩

namespace SloWindow

variable (window : SloWindow) (startNs endNs : UInt64)

@[simp] theorem slice_start : (window.slice startNs endNs).startTimeNs = startNs :=
  (times_foldl _ _).1

@[simp] theorem slice_end : (window.slice startNs endNs).endTimeNs = endNs :=
  (times_foldl _ _).2

end SloWindow

/-- What an event adds to the slices that it is in. -/
structure Counter where
  field : SloSlice → UInt64
  share : SloEvent → UInt64
  fresh : ∀ startNs endNs, field { startTimeNs := startNs, endTimeNs := endNs } = 0
  add : ∀ slice event, field (addEventToSlice slice event) = field slice + share event

namespace Counter

variable (counter : Counter) (window : SloWindow)

/-- Each counter of a slice sums its share of the events. -/
theorem field_foldl (events : List SloEvent) (slice : SloSlice) :
    counter.field (events.foldl addEventToSlice slice) =
      counter.field slice + (events.map counter.share).sum := by
  induction events generalizing slice with
  | nil => exact (UInt64.add_zero _).symm
  | cons event events ih =>
      rw [List.foldl_cons, ih, counter.add, List.map_cons, List.sum_cons, UInt64.add_assoc]

/-- A counter of a slice is the sum over the events in it. -/
theorem field_slice (startNs endNs : UInt64) :
    counter.field (window.slice startNs endNs) = ((window.events.filter fun event =>
      startNs.toNat ≤ event.timeNs.toNat ∧ event.timeNs.toNat < endNs.toNat + 1).map
        counter.share).sum := by
  have hwithin : (fun event : SloEvent =>
      decide (event.timeNs ≥ startNs ∧ event.timeNs ≤ endNs)) = fun event =>
      decide (startNs.toNat ≤ event.timeNs.toNat ∧ event.timeNs.toNat < endNs.toNat + 1) := by
    funext event
    refine decide_eq_decide.mpr ?_
    rw [ge_iff_le, UInt64.le_iff_toNat_le, UInt64.le_iff_toNat_le, Nat.lt_succ_iff]
  rw [SloWindow.slice, field_foldl, counter.fresh, UInt64.zero_add, hwithin]

/-- The good events. -/
def goodEvents : Counter where
  field := SloSlice.goodEvents
  share event := if event.kind = .good then 1 else 0
  fresh _ _ := rfl
  add slice event := by
    unfold addEventToSlice
    cases event.kind <;> simp

/-- The bad events. -/
def badEvents : Counter where
  field := SloSlice.badEvents
  share event := if event.kind = .bad then 1 else 0
  fresh _ _ := rfl
  add slice event := by
    unfold addEventToSlice
    cases event.kind <;> simp

/-- The ignored events. -/
def ignoredEvents : Counter where
  field := SloSlice.ignoredEvents
  share event := if event.kind = .ignored then 1 else 0
  fresh _ _ := rfl
  add slice event := by
    unfold addEventToSlice
    cases event.kind <;> simp

/-- The weight of the events that count. -/
def totalWeight : Counter where
  field := SloSlice.totalWeight
  share event := if event.kind = .ignored then 0 else event.weight
  fresh _ _ := rfl
  add slice event := by
    unfold addEventToSlice
    cases event.kind <;> simp

/-- The weight of the bad events. -/
def badWeight : Counter where
  field := SloSlice.badWeight
  share event := if event.kind = .bad then event.weight else 0
  fresh _ _ := rfl
  add slice event := by
    unfold addEventToSlice
    cases event.kind <;> simp

end Counter

/-! ## Partitions -/

namespace SloSlice

/-- The interval of a slice as numbers, up to the one past its end. -/
def first (slice : SloSlice) : ℕ :=
  slice.startTimeNs.toNat

/-- The first number behind a slice. -/
def past (slice : SloSlice) : ℕ :=
  slice.endTimeNs.toNat + 1

/-- A time is in a slice. -/
def covers (slice : SloSlice) (timeNs : UInt64) : Bool :=
  slice.startTimeNs ≤ timeNs ∧ timeNs ≤ slice.endTimeNs

theorem covers_eq (slice : SloSlice) (timeNs : UInt64) :
    slice.covers timeNs = decide (slice.first ≤ timeNs.toNat ∧ timeNs.toNat < slice.past) := by
  refine decide_eq_decide.mpr ?_
  rw [UInt64.le_iff_toNat_le, UInt64.le_iff_toNat_le, first, past, Nat.lt_succ_iff]

end SloSlice

/-- The slices are those of the window between the times, in a row. -/
structure InSlices (window : SloWindow) (startNs endNs : UInt64) (slices : List SloSlice) :
    Prop where
  exact : ∀ slice ∈ slices, slice = window.slice slice.startTimeNs slice.endTimeNs
  tiles : Tiles SloSlice.first SloSlice.past startNs.toNat (endNs.toNat + 1) slices

section InSlices

open scoped UInt64.CommRing

variable {window : SloWindow} {startNs endNs : UInt64} {slices : List SloSlice}

/-- One slice may be the whole window. -/
theorem InSlices.single (h : startNs ≤ endNs) :
    InSlices window startNs endNs [window.slice startNs endNs] := by
  have hle := UInt64.le_iff_toNat_le.mp h
  refine ⟨fun slice hslice => ?_, Tiles.cons ?_ ?_ ?_⟩
  · rw [List.mem_singleton.mp hslice, SloWindow.slice_start, SloWindow.slice_end]
  · rw [SloSlice.first, SloWindow.slice_start]
  · rw [SloSlice.first, SloSlice.past, SloWindow.slice_start, SloWindow.slice_end]
    omega
  · rw [SloSlice.past, SloWindow.slice_end]
    exact Tiles.nil _

/-- A slice in front of slices in a row. -/
theorem InSlices.cons {next cursor : UInt64} (hle : startNs.toNat ≤ next.toNat)
    (hcursor : cursor.toNat = next.toNat + 1) (h : InSlices window cursor endNs slices) :
    InSlices window startNs endNs (window.slice startNs next :: slices) := by
  refine ⟨List.forall_mem_cons.mpr ⟨?_, h.exact⟩, Tiles.cons ?_ ?_ ?_⟩
  · rw [SloWindow.slice_start, SloWindow.slice_end]
  · rw [SloSlice.first, SloWindow.slice_start]
  · rw [SloSlice.first, SloSlice.past, SloWindow.slice_start, SloWindow.slice_end]
    omega
  · rw [SloSlice.past, SloWindow.slice_end, ← hcursor]
    exact h.tiles

/-- Every time of the window is in one slice. -/
theorem InSlices.countP_covers (h : InSlices window startNs endNs slices) (timeNs : UInt64) :
    (slices.countP fun slice => slice.covers timeNs) =
      if startNs ≤ timeNs ∧ timeNs ≤ endNs then 1 else 0 := by
  simp only [SloSlice.covers_eq]
  rw [h.tiles.countP_pieces timeNs.toNat]
  refine if_congr ?_ rfl rfl
  rw [UInt64.le_iff_toNat_le, UInt64.le_iff_toNat_le, Nat.lt_succ_iff]

/-- Each counter adds up to that of the whole. -/
theorem InSlices.sum_field (h : InSlices window startNs endNs slices) (counter : Counter) :
    (slices.map counter.field).sum = counter.field (window.slice startNs endNs) := by
  have hfields : slices.map counter.field = slices.map fun slice =>
      ((window.events.filter fun event =>
        slice.first ≤ event.timeNs.toNat ∧ event.timeNs.toNat < slice.past).map
          counter.share).sum := by
    refine List.map_congr_left fun slice hslice => ?_
    exact (congrArg counter.field (h.exact slice hslice)).trans
      (counter.field_slice window slice.startTimeNs slice.endTimeNs)
  rw [hfields, counter.field_slice]
  exact h.tiles.sum_pieces (fun event => event.timeNs.toNat) counter.share window.events

end InSlices

/-! ## Where the loop wraps -/

/-- The start of the last of the slices from `first` to `last`, where no sum wraps. -/
def lastStart (first last width : ℕ) : ℕ :=
  first + (last - first) / (width + 1) * (width + 1)

theorem last_start_of_reached {first last width : ℕ} (h : last ≤ first + width) :
    lastStart first last width = first := by
  have hnone : (last - first) / (width + 1) = 0 := Nat.div_eq_of_lt (by omega)
  rw [lastStart, hnone, Nat.zero_mul, Nat.add_zero]

/-- A slice that does not reach the end leaves the last one where it is. -/
theorem last_start_of_short {first last width : ℕ} (h : first + width < last) :
    lastStart (first + width + 1) last width = lastStart first last width := by
  have hrest : last - first = last - (first + width + 1) + (width + 1) := by omega
  have hdiv : (last - first) / (width + 1) = (last - (first + width + 1)) / (width + 1) + 1 := by
    rw [hrest, Nat.add_div_right _ (Nat.succ_pos width)]
  rw [lastStart, lastStart, hdiv, Nat.add_one_mul]
  omega

section Loop

variable {window : SloWindow} {endNs sliceNs cursor : UInt64} {slices result : List SloSlice}

/-- The end of the slice at the cursor, as the loop computes it. -/
def nextEnd (endNs sliceNs cursor : UInt64) : UInt64 :=
  if cursor + sliceNs > endNs then endNs else cursor + sliceNs

/-- A round of the loop adds a slice, and goes on unless it reached the end. -/
theorem partition_loop_round (hcursor : cursor ≤ endNs) (fuel : ℕ) :
    window.partitionLoop endNs sliceNs (fuel + 1) cursor slices =
      if nextEnd endNs sliceNs cursor = endNs then
        some (slices ++ [window.slice cursor (nextEnd endNs sliceNs cursor)])
      else window.partitionLoop endNs sliceNs fuel (nextEnd endNs sliceNs cursor + 1)
        (slices ++ [window.slice cursor (nextEnd endNs sliceNs cursor)]) :=
  if_pos hcursor

/-- The last slice ends where the window does. -/
theorem next_end_of_reached (hfits : cursor.toNat + sliceNs.toNat < 2 ^ 64)
    (hreached : endNs.toNat ≤ cursor.toNat + sliceNs.toNat) :
    nextEnd endNs sliceNs cursor = endNs := by
  have hsum := Words.toNat_add_of_lt hfits
  unfold nextEnd
  split
  · rfl
  · next hless =>
    rw [gt_iff_lt, UInt64.lt_iff_toNat_lt] at hless
    rw [← UInt64.toNat_inj]
    omega

/-- A slice before the last has its full width. -/
theorem next_end_of_short (hshort : cursor.toNat + sliceNs.toNat < endNs.toNat) :
    (nextEnd endNs sliceNs cursor).toNat = cursor.toNat + sliceNs.toNat := by
  have hend := endNs.toNat_lt
  have hsum : (cursor + sliceNs).toNat = cursor.toNat + sliceNs.toNat :=
    Words.toNat_add_of_lt (by omega)
  have hless : ¬cursor + sliceNs > endNs := by
    rw [gt_iff_lt, UInt64.lt_iff_toNat_lt]
    omega
  rw [nextEnd, if_neg hless, hsum]

/-- A slice before the last does not end the window. -/
theorem next_end_ne_of_short (hshort : cursor.toNat + sliceNs.toNat < endNs.toNat) :
    nextEnd endNs sliceNs cursor ≠ endNs := by
  intro heq
  have hnext := next_end_of_short hshort
  rw [heq] at hnext
  omega

/-- A sum that wraps is in front of the cursor. -/
theorem next_end_of_wrap (hcursor : cursor ≤ endNs)
    (hwrap : 2 ^ 64 ≤ cursor.toNat + sliceNs.toNat) :
    (nextEnd endNs sliceNs cursor).toNat < cursor.toNat := by
  have hle := UInt64.le_iff_toNat_le.mp hcursor
  have hwidth := sliceNs.toNat_lt
  have hstart := cursor.toNat_lt
  have hsum : (cursor + sliceNs).toNat = (cursor.toNat + sliceNs.toNat) % 2 ^ 64 :=
    UInt64.toNat_add cursor sliceNs
  have hless : ¬cursor + sliceNs > endNs := by
    rw [gt_iff_lt, UInt64.lt_iff_toNat_lt]
    omega
  rw [nextEnd, if_neg hless]
  omega

/-- The cursor behind a slice that does not reach the end. -/
theorem cursor_of_short (hshort : cursor.toNat + sliceNs.toNat < endNs.toNat) :
    (nextEnd endNs sliceNs cursor + 1).toNat = cursor.toNat + sliceNs.toNat + 1 := by
  have hend := endNs.toNat_lt
  have hnext := next_end_of_short hshort
  have hone : (1 : UInt64).toNat = 1 := rfl
  rw [Words.toNat_add_of_lt (by omega), hnext, hone]

/-- With the last slice in front of the top, the loop ends with slices in a row. -/
theorem partition_loop_ends (hcursor : cursor ≤ endNs)
    (hfits : lastStart cursor.toNat endNs.toNat sliceNs.toNat + sliceNs.toNat < 2 ^ 64) :
    ∃ rest, InSlices window cursor endNs rest ∧ ∀ fuel, endNs.toNat - cursor.toNat < fuel →
      ∀ slices, window.partitionLoop endNs sliceNs fuel cursor slices = some (slices ++ rest) := by
  induction hleft : endNs.toNat - cursor.toNat using Nat.strong_induction_on
    generalizing cursor with
  | _ left ih =>
      have hle := UInt64.le_iff_toNat_le.mp hcursor
      by_cases hreached : endNs.toNat ≤ cursor.toNat + sliceNs.toNat
      · -- this slice is the last one
        rw [last_start_of_reached hreached] at hfits
        have hnext := next_end_of_reached hfits hreached
        refine ⟨[window.slice cursor endNs], InSlices.single hcursor, fun fuel hfuel slices => ?_⟩
        obtain ⟨fuel, rfl⟩ := Nat.exists_eq_add_of_lt hfuel
        rw [partition_loop_round hcursor, if_pos hnext, hnext]
      · have hshort := Nat.not_le.mp hreached
        have hnext := next_end_of_short hshort
        have hmoved := cursor_of_short hshort
        have hgoes := next_end_ne_of_short hshort
        rw [← last_start_of_short hshort, ← hmoved] at hfits
        obtain ⟨rest, hrest, hrun⟩ := ih _ (by omega)
          (UInt64.le_iff_toNat_le.mpr (by omega)) hfits rfl
        refine ⟨window.slice cursor (nextEnd endNs sliceNs cursor) :: rest,
          InSlices.cons (by omega) (by omega) hrest, fun fuel hfuel slices => ?_⟩
        obtain ⟨fuel, rfl⟩ := Nat.exists_eq_add_of_lt hfuel
        rw [partition_loop_round hcursor, if_neg hgoes, hrun _ (by omega), List.append_assoc,
          List.singleton_append]

/-- A round that does not end the loop leaves its slice in front of the others. -/
theorem partition_loop_grows {fuel : ℕ}
    (hrun : window.partitionLoop endNs sliceNs fuel cursor slices = some result) :
    ∃ rest, result = slices ++ rest := by
  induction fuel generalizing cursor slices with
  | zero => cases hrun
  | succ fuel ih =>
      by_cases hcursor : cursor ≤ endNs
      · rw [partition_loop_round hcursor] at hrun
        by_cases hlast : nextEnd endNs sliceNs cursor = endNs
        · rw [if_pos hlast] at hrun
          exact ⟨_, (Option.some.inj hrun).symm⟩
        · rw [if_neg hlast] at hrun
          obtain ⟨rest, hrest⟩ := ih hrun
          exact ⟨_, hrest.trans (List.append_assoc _ _ _)⟩
      · have hdone : some slices = some result := (if_neg hcursor).symm.trans hrun
        exact ⟨[], (Option.some.inj hdone).symm.trans (List.append_nil _).symm⟩

/-- The first slice that the loop adds is the one at the cursor. -/
theorem first_of_partition_loop {fuel : ℕ} (hcursor : cursor ≤ endNs) {rest : List SloSlice}
    (hrun : window.partitionLoop endNs sliceNs (fuel + 1) cursor slices = some (slices ++ rest)) :
    ∃ behind, rest = window.slice cursor (nextEnd endNs sliceNs cursor) :: behind := by
  rw [partition_loop_round hcursor] at hrun
  by_cases hlast : nextEnd endNs sliceNs cursor = endNs
  · rw [if_pos hlast] at hrun
    exact ⟨[], (List.append_cancel_left (Option.some.inj hrun)).symm⟩
  · rw [if_neg hlast] at hrun
    obtain ⟨behind, hbehind⟩ := partition_loop_grows hrun
    rw [List.append_assoc] at hbehind
    exact ⟨behind, List.append_cancel_left hbehind⟩

/-- Where the slices of the loop are in a row, the last one is in front of the top. -/
theorem fits_of_partition_loop {fuel : ℕ} (hcursor : cursor ≤ endNs) {rest : List SloSlice}
    (hrun : window.partitionLoop endNs sliceNs fuel cursor slices = some (slices ++ rest))
    (htiles : Tiles SloSlice.first SloSlice.past cursor.toNat (endNs.toNat + 1) rest) :
    lastStart cursor.toNat endNs.toNat sliceNs.toNat + sliceNs.toNat < 2 ^ 64 := by
  induction fuel generalizing cursor slices rest with
  | zero => cases hrun
  | succ fuel ih =>
      have hle := UInt64.le_iff_toNat_le.mp hcursor
      have hend := endNs.toNat_lt
      obtain ⟨behind, rfl⟩ := first_of_partition_loop hcursor hrun
      rw [partition_loop_round hcursor] at hrun
      obtain ⟨-, hpiece, hbehind⟩ := tiles_cons_iff.mp htiles
      rw [SloSlice.first, SloSlice.past, SloWindow.slice_start, SloWindow.slice_end] at hpiece
      rw [SloSlice.past, SloWindow.slice_end] at hbehind
      by_cases hwrap : 2 ^ 64 ≤ cursor.toNat + sliceNs.toNat
      · -- the slice of the sum that wraps ends in front of its start
        have hback := next_end_of_wrap hcursor hwrap
        omega
      · by_cases hreached : endNs.toNat ≤ cursor.toNat + sliceNs.toNat
        · rw [last_start_of_reached hreached]
          exact Nat.not_le.mp hwrap
        · have hshort := Nat.not_le.mp hreached
          have hnext := next_end_of_short hshort
          have hmoved := cursor_of_short hshort
          rw [if_neg (next_end_ne_of_short hshort)] at hrun
          have hrun := hrun.trans (congrArg some (List.append_cons _ _ _))
          rw [← last_start_of_short hshort, ← hmoved]
          refine ih (UInt64.le_iff_toNat_le.mpr (by omega)) hrun ?_
          rw [hmoved, ← hnext]
          exact hbehind

end Loop

/-! ## Partitions of an interval -/

/-- The slices of a partition: in a row, none of them empty, from the start to the end, with every
time of the interval in one slice and no other time in any, and with the counters and weights of the
whole interval. -/
structure Partitions (window : SloWindow) (startNs endNs : UInt64) (slices : List SloSlice) :
    Prop where
  nonempty : ∀ slice ∈ slices, slice.startTimeNs ≤ slice.endTimeNs
  consecutive : slices.IsChain fun left right =>
    right.startTimeNs.toNat = left.endTimeNs.toNat + 1
  head : ∀ slice ∈ slices.head?, slice.startTimeNs = startNs
  last : ∀ slice ∈ slices.getLast?, slice.endTimeNs = endNs
  once : ∀ timeNs, (slices.countP fun slice => slice.covers timeNs) =
    if startNs ≤ timeNs ∧ timeNs ≤ endNs then 1 else 0
  exact : ∀ slice ∈ slices, slice = window.slice slice.startTimeNs slice.endTimeNs
  sums : ∀ field ∈ [SloSlice.goodEvents, SloSlice.badEvents, SloSlice.ignoredEvents,
    SloSlice.totalWeight, SloSlice.badWeight],
    (slices.map field).sum = field (window.slice startNs endNs)

section Partitions

variable {window : SloWindow} {startNs endNs : UInt64} {slices : List SloSlice}

/-- Slices in order partition the window. -/
theorem InSlices.partitions (h : InSlices window startNs endNs slices) :
    Partitions window startNs endNs slices where
  nonempty slice hslice := by
    have hpiece := h.tiles.pieces_lt slice hslice
    exact UInt64.le_iff_toNat_le.mpr (Nat.le_of_lt_succ hpiece)
  consecutive := h.tiles.isChain.imp fun _ _ heq => heq.symm
  head slice hslice := UInt64.toNat_inj.mp (h.tiles.head slice hslice)
  last slice hslice := UInt64.toNat_inj.mp (Nat.succ.inj (h.tiles.getLast slice hslice))
  once := h.countP_covers
  exact := h.exact
  sums field hfield := by
    simp only [List.mem_cons, List.not_mem_nil, or_false] at hfield
    rcases hfield with rfl | rfl | rfl | rfl | rfl
    · exact h.sum_field .goodEvents
    · exact h.sum_field .badEvents
    · exact h.sum_field .ignoredEvents
    · exact h.sum_field .totalWeight
    · exact h.sum_field .badWeight

/-- A partition tiles the window. -/
theorem Partitions.tiles (h : Partitions window startNs endNs slices) (hle : startNs ≤ endNs) :
    Tiles SloSlice.first SloSlice.past startNs.toNat (endNs.toNat + 1) slices := by
  refine Tiles.of_isChain ?_ (fun slice hslice => ?_) (h.consecutive.imp fun _ _ heq => heq.symm)
    (fun slice hslice => congrArg UInt64.toNat (h.head slice hslice))
    (fun slice hslice => congrArg (·.toNat + 1) (h.last slice hslice))
  · rintro rfl
    have honce := h.once startNs
    rw [if_pos ⟨UInt64.le_refl startNs, hle⟩] at honce
    cases honce
  · exact Nat.lt_succ_of_le (UInt64.le_iff_toNat_le.mp (h.nonempty slice hslice))

end Partitions

/-- For every window, interval and width: the loop ends, with slices that partition the interval,
exactly when the last of the slices of that width starts so far in front of the top of the words
that its end does not wrap. -/
theorem partition_iff (window : SloWindow) (startNs endNs sliceNs : UInt64)
    (hle : startNs ≤ endNs) (hslice : 0 < sliceNs) :
    (∃ slices, (∃ rounds, ∀ fuel ≥ rounds,
        window.partition startNs endNs sliceNs fuel = some slices) ∧
        Partitions window startNs endNs slices) ↔
      startNs.toNat + (endNs.toNat - startNs.toNat) / (sliceNs.toNat + 1) * (sliceNs.toNat + 1) +
        sliceNs.toNat < 2 ^ 64 := by
  have hguard : ¬(sliceNs = 0 ∨ endNs < startNs) := by
    rintro (rfl | hless)
    · exact absurd hslice (UInt64.lt_irrefl 0)
    · exact absurd hle (UInt64.not_le.mpr hless)
  have hloop (fuel : ℕ) : window.partition startNs endNs sliceNs fuel =
      window.partitionLoop endNs sliceNs fuel startNs [] := if_neg hguard
  constructor
  · rintro ⟨slices, ⟨rounds, hrun⟩, hpartitions⟩
    have hslices := (hloop rounds).symm.trans (hrun rounds le_rfl)
    exact fits_of_partition_loop hle hslices (hpartitions.tiles hle)
  · intro hfits
    obtain ⟨slices, hslices, hrun⟩ := @partition_loop_ends window endNs sliceNs startNs hle hfits
    refine ⟨slices, ⟨endNs.toNat - startNs.toNat + 1, fun fuel hfuel => ?_⟩, hslices.partitions⟩
    rw [hloop, hrun fuel hfuel []]
    rfl

/-- Slices of four from 0 to 10, the last of them shorter. -/
theorem partition_ten :
    ∃ slices, (∃ rounds, ∀ fuel ≥ rounds,
        ({ events := [{ timeNs := 3 }, { timeNs := 4, kind := .bad }] } : SloWindow).partition
          0 10 3 fuel = some slices) ∧
      Partitions { events := [{ timeNs := 3 }, { timeNs := 4, kind := .bad }] } 0 10 slices :=
  (partition_iff _ 0 10 3 (by decide) (by decide)).mpr (by decide)

/-- The widest slice from 1 on: its end wraps to 0, and the cursor stays where it is. -/
theorem partition_widest_stuck :
    ¬∃ fuel slices, ({} : SloWindow).partition 1 10 18446744073709551615 fuel = some slices := by
  have hstuck : nextEnd 10 18446744073709551615 1 + 1 = 1 := by decide
  have hgoes : nextEnd 10 18446744073709551615 1 ≠ 10 := by decide
  have hloop (fuel : ℕ) (slices : List SloSlice) :
      ({} : SloWindow).partitionLoop 10 18446744073709551615 fuel 1 slices = none := by
    induction fuel generalizing slices with
    | zero => rfl
    | succ fuel ih => rw [partition_loop_round (by decide), if_neg hgoes, hstuck, ih]
  rintro ⟨fuel, slices, hrun⟩
  have hnone : ({} : SloWindow).partition 1 10 18446744073709551615 fuel = none :=
    (if_neg (by decide)).trans (hloop fuel [])
  rw [hnone] at hrun
  cases hrun

end Aethon.Diagnostics
