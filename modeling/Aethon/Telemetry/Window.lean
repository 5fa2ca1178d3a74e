import Aethon.Foundation.FrontEviction
import Aethon.Telemetry.Payload

/-!
# The observation window

`telemetry/window.cpp`: a deque of observations in the order of their arrival. An observation is
put at the back, and the deque then pops its front while that is older than the window and while it
holds too many entries. `entries_add` says so in terms of `FrontEviction`.
-/

namespace Aethon.Telemetry

open FrontEviction

/-- The width of a window, and the most that it holds. -/
structure WindowOptions where
  widthNs : UInt64 := 1000000000
  maxObservations : Nat := 4096
  deriving DecidableEq

/-- An observation with the time by which it ages. -/
structure WindowEntry where
  timeNs : UInt64 := 0
  observation : ScalarObservation
  deriving DecidableEq

/-- The entry of an observation. -/
def WindowEntry.of (observation : ScalarObservation) : WindowEntry :=
  ⟨observation.sampleTimeNs, observation⟩

/-- The observations in the order in which they were added. -/
structure ObservationWindow where
  options : WindowOptions := {}
  entries : List WindowEntry := []
  deriving DecidableEq

namespace ObservationWindow

/-- Drop observations from the front as long as they are before a time. -/
def expireBefore (window : ObservationWindow) (timeNs : UInt64) : ObservationWindow :=
  { window with entries := window.entries.dropWhile (·.timeNs < timeNs) }

/-- Drop from the front what is over the limit. -/
def enforceLimits (window : ObservationWindow) : ObservationWindow :=
  { window with
    entries := window.entries.drop (window.entries.length - window.options.maxObservations) }

/-- Add an observation, drop what its time makes too old, and what is over the limit. -/
def add (window : ObservationWindow) (observation : ScalarObservation) : ObservationWindow :=
  let timeNs := observation.sampleTimeNs
  let window := { window with entries := window.entries ++ [WindowEntry.of observation] }
  let window :=
    if window.options.widthNs ≠ 0 ∧ timeNs ≥ window.options.widthNs then
      window.expireBefore (timeNs - window.options.widthNs)
    else window
  window.enforceLimits

/-- Drop all observations. -/
def clear (window : ObservationWindow) : ObservationWindow :=
  { window with entries := [] }

/-- The observation that was added last. -/
def latest (window : ObservationWindow) : Option WindowEntry :=
  window.entries.getLast?

/-! ## Adding -/

variable (window : ObservationWindow) (observation : ScalarObservation)

/-- The entries that are older than the window which ends at the time. -/
def Stale (options : WindowOptions) (timeNs : UInt64) (entry : WindowEntry) : Bool :=
  options.widthNs ≠ 0 ∧ options.widthNs ≤ timeNs ∧ entry.timeNs < timeNs - options.widthNs

/-- The entries that `add` pops. -/
def popped : List WindowEntry :=
  evicted (Stale window.options observation.sampleTimeNs) window.options.maxObservations
    (window.entries ++ [WindowEntry.of observation])

@[simp] theorem options_add : (window.add observation).options = window.options := by
  unfold add
  dsimp only
  split <;> rfl

/-- A new observation evicts the stale ones, and those beyond the limit. -/
theorem entries_add :
    (window.add observation).entries =
      evict (Stale window.options observation.sampleTimeNs) window.options.maxObservations
        (window.entries ++ [WindowEntry.of observation]) := by
  unfold add evict
  dsimp only
  by_cases hwidth : window.options.widthNs ≠ 0 ∧ observation.sampleTimeNs ≥ window.options.widthNs
  · have hstale : Stale window.options observation.sampleTimeNs = fun entry =>
        decide (entry.timeNs < observation.sampleTimeNs - window.options.widthNs) := by
      funext entry
      simp only [Stale, hwidth.1, hwidth.2, true_and, ne_eq, not_false_eq_true]
    rw [if_pos hwidth, hstale]
    rfl
  · have hstale : Stale window.options observation.sampleTimeNs = fun _ => false := by
      funext entry
      refine decide_eq_false fun h => hwidth ⟨h.1, h.2.1⟩
    rw [if_neg hwidth, hstale]
    have hkeep : ∀ entries : List WindowEntry, entries.dropWhile (fun _ => false) = entries := by
      intro entries
      cases entries <;> rfl
    rw [hkeep]
    rfl

/-- What `add` pops and what it leaves are the entries with the new one behind them. -/
theorem popped_append_entries :
    window.popped observation ++ (window.add observation).entries =
      window.entries ++ [WindowEntry.of observation] := by
  rw [entries_add]
  exact evicted_append_evict

theorem length_entries_add_le :
    (window.add observation).entries.length ≤ window.options.maxObservations := by
  rw [entries_add]
  exact length_evict_le

end ObservationWindow

end Aethon.Telemetry
