import Aethon.Foundation.Runs
import Aethon.Telemetry.Window

/-!
# Ages in the observation window

Entries leave the window at its front, in the order of their arrival, and their ages are those of
their samples. So a late sample stays behind a younger one until that leaves. `sound_iff_along`
says at which additions this happens; in the order of the samples it never does
(`sound_of_sorted`).
-/

namespace Aethon.Telemetry

open FrontEviction Runs ObservationWindow

/-- A window with all that it has popped. -/
structure WindowLog where
  window : ObservationWindow
  dropped : List WindowEntry := []

/-- Add an observation, and log what it drops. -/
def WindowLog.add (log : WindowLog) (observation : ScalarObservation) : WindowLog where
  window := log.window.add observation
  dropped := log.dropped ++ log.window.popped observation

/-- All entries of a log. -/
def WindowLog.held (log : WindowLog) : List WindowEntry :=
  log.dropped ++ log.window.entries

/-- What should hold right after the last of the observations was added to an empty window. -/
def Sound (options : WindowOptions) (front : List ScalarObservation) (last : ScalarObservation) :
    Prop :=
  let log := run WindowLog.add { window := { options } } (front ++ [last])
  (0 < options.widthNs → options.widthNs ≤ last.sampleTimeNs →
    ∀ entry ∈ log.window.entries, last.sampleTimeNs - options.widthNs ≤ entry.timeNs) ∧
  log.window.entries.length ≤ options.maxObservations ∧
  log.dropped ++ log.window.entries = (front ++ [last]).map WindowEntry.of

/-- Every entry older than the window with a younger one in front of it is over the limit. -/
def ObservationWindow.Current (window : ObservationWindow) (observation : ScalarObservation) :
    Prop :=
  InTurn (Stale window.options observation.sampleTimeNs) window.options.maxObservations
    (window.entries ++ [WindowEntry.of observation])

/-! ## Steps and runs -/

variable {options : WindowOptions} {observations : List ScalarObservation}

/-- An addition keeps all entries and puts the new one behind them. -/
theorem held_add (log : WindowLog) (observation : ScalarObservation) :
    (log.add observation).held = log.held ++ [WindowEntry.of observation] := by
  show (log.dropped ++ log.window.popped observation) ++ (log.window.add observation).entries = _
  rw [List.append_assoc, popped_append_entries, ← List.append_assoc]
  rfl

/-- All observations are held by the log. -/
theorem held_run (log : WindowLog) :
    (run WindowLog.add log observations).held =
      log.held ++ observations.map WindowEntry.of := by
  induction observations generalizing log with
  | nil => rw [run_nil, List.map_nil, List.append_nil]
  | cons observation observations ih =>
      rw [run_cons, ih, held_add, List.append_assoc, List.map_cons]
      rfl

/-- The window of a log runs on its own. -/
theorem window_run (log : WindowLog) :
    (run WindowLog.add log observations).window =
      run ObservationWindow.add log.window observations := by
  induction observations generalizing log with
  | nil => rfl
  | cons observation observations ih => exact ih (log.add observation)

theorem options_run (window : ObservationWindow) :
    (run ObservationWindow.add window observations).options = window.options := by
  induction observations generalizing window with
  | nil => rfl
  | cons observation observations ih => rw [run_cons, ih, options_add]

/-- The entries left by an addition are young enough exactly when they are current. -/
theorem ages_add_iff (window : ObservationWindow) (observation : ScalarObservation) :
    (0 < window.options.widthNs → window.options.widthNs ≤ observation.sampleTimeNs →
      ∀ entry ∈ (window.add observation).entries,
        observation.sampleTimeNs - window.options.widthNs ≤ entry.timeNs) ↔
      window.Current observation := by
  rw [ObservationWindow.Current, ← evict_fresh_iff, ← entries_add]
  constructor
  · intro hages entry hentry
    refine decide_eq_false ?_
    rintro ⟨hwidth, htime, hold⟩
    exact UInt64.not_lt.mpr (hages (UInt64.pos_iff_ne_zero.mpr hwidth) htime entry hentry) hold
  · intro hfresh hwidth htime entry hentry
    have hstale := of_decide_eq_false (hfresh entry hentry)
    exact UInt64.not_lt.mp fun hold => hstale ⟨UInt64.pos_iff_ne_zero.mp hwidth, htime, hold⟩

/-- Of what should hold, the ages alone depend on the window. -/
theorem sound_iff_current (options : WindowOptions) (front : List ScalarObservation)
    (last : ScalarObservation) :
    Sound options front last ↔
      (run ObservationWindow.add { options } front).Current last := by
  have hwindow : (run WindowLog.add { window := { options } } (front ++ [last])).window =
      (run ObservationWindow.add { options } front).add last := by
    rw [window_run, run_concat]
  have hoptions : (run ObservationWindow.add { options } front).options = options :=
    options_run _
  rw [← ages_add_iff, ← hwindow, hoptions]
  constructor
  · intro hsound
    exact hsound.1
  · intro hages
    refine ⟨hages, ?_, held_run _⟩
    rw [hwindow]
    exact (length_entries_add_le _ _).trans_eq (congrArg _ hoptions)

/-- For every sequence of additions, in any order of the samples: right after each of them the
window holds no older entry than its width allows and not too many, and nothing is lost, exactly
when each addition finds the old entries in turn. -/
theorem sound_iff_along (options : WindowOptions) (observations : List ScalarObservation) :
    (∀ front last behind, observations = front ++ last :: behind → Sound options front last) ↔
      Along ObservationWindow.add ObservationWindow.Current { options } observations := by
  rw [along_iff_forall_behind]
  exact forall₄_congr fun front last _ _ => sound_iff_current options front last

/-- A window of 10 ns with samples at 100, 50 and 105 ns holds the one at 50 in the end. -/
theorem late_sample_stays :
    let options : WindowOptions := { widthNs := 10 }
    let front : List ScalarObservation := [{ sampleTimeNs := 100 }, { sampleTimeNs := 50 }]
    let last : ScalarObservation := { sampleTimeNs := 105 }
    (run ObservationWindow.add { options } (front ++ [last])).entries.map (·.timeNs) =
        [100, 50, 105] ∧
      ¬Sound options front last := by
  intro options front last
  have hentries : (run ObservationWindow.add { options } (front ++ [last])).entries =
      (front ++ [last]).map WindowEntry.of := by
    decide
  refine ⟨by rw [hentries]; rfl, fun hsound => ?_⟩
  have hmem : WindowEntry.of { sampleTimeNs := 50 } ∈
      (run WindowLog.add { window := { options } } (front ++ [last])).window.entries := by
    rw [window_run, hentries]
    exact List.mem_cons_of_mem _ List.mem_cons_self
  exact absurd (hsound.1 (by decide) (by decide) _ hmem) (by decide)

/-- In the order of the samples every addition is sound. -/
theorem sound_of_sorted {front : List ScalarObservation} {last : ScalarObservation}
    (hsorted : (front ++ [last]).Pairwise fun lhs rhs => lhs.sampleTimeNs ≤ rhs.sampleTimeNs) :
    Sound options front last := by
  rw [sound_iff_current]
  refine in_turn_of_pairwise ?_
  have hheld : (run WindowLog.add { window := { options } } front).held =
      front.map WindowEntry.of := held_run { window := { options } }
  have hentries : (run ObservationWindow.add { options } front).entries.Sublist
      (front.map WindowEntry.of) := by
    rw [← window_run { window := { options } }]
    exact hheld ▸ List.sublist_append_right _ _
  have hall : ((run ObservationWindow.add { options } front).entries ++
      [WindowEntry.of last]).Sublist ((front ++ [last]).map WindowEntry.of) := by
    rw [List.map_append]
    exact hentries.append (List.Sublist.refl _)
  refine List.Pairwise.sublist hall (List.pairwise_map.mpr (hsorted.imp ?_))
  intro lhs rhs hle hstale
  obtain ⟨hwidth, htime, hold⟩ := of_decide_eq_true hstale
  exact decide_eq_true ⟨hwidth, htime, UInt64.lt_of_le_of_lt hle hold⟩

end Aethon.Telemetry
