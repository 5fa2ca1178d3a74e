import Mathlib.Tactic.Common
import Aethon.Foundation.SortedTable

/-!
# Identifier counters

A 64-bit counter that hands out identifiers and is moved past identifiers chosen elsewhere. As
long as it does not wrap it stays above every identifier in use, except the largest one, which
cannot be passed. `Below` is that bound, and `fresh` says what follows for a new identifier.
`Ahead` is the bound for everything in use, given up once the counter has wrapped, and
`Ahead.free_iff` says what is left to ask of the counter before an identifier is taken from it.
-/

namespace IdCounter

/-- An identifier that the counter will not hand out without wrapping. -/
def Below (counter id : UInt64) : Prop :=
  id < counter ∨ id = -1

variable {counter id : UInt64}

/-- The counter itself is not in use, unless handing it out makes the counter wrap. -/
theorem Below.ne_counter (h : Below counter id) (hwrap : counter ≤ counter + 1) : id ≠ counter := by
  unfold Below at h
  grind

/-- The identifier just handed out is passed. -/
theorem below_add_one (hwrap : counter ≤ counter + 1) : Below (counter + 1) counter := by
  unfold Below
  grind

/-- The counter moves past a chosen identifier where it can. -/
theorem below_max (counter id : UInt64) : Below (max counter (id + 1)) id := by
  unfold Below
  grind [UInt64.max_def]

/-- What was passed stays passed. -/
theorem Below.mono {counter' : UInt64} (h : Below counter id) (hle : counter ≤ counter') :
    Below counter' id := by
  unfold Below at *
  grind

/-- An identifier taken from the counter or chosen while not in use is not in use, and the counter
stays above it. -/
theorem fresh {β : Type} {lookup : UInt64 → Option β} {next : UInt64}
    (hknown : ∀ id value, lookup id = some value → Below counter id) (hwrap : counter ≤ next)
    (hid : id = counter ∧ next = counter + 1 ∨ lookup id = none ∧ next = max counter (id + 1)) :
    lookup id = none ∧ Below next id := by
  rcases hid with ⟨rfl, rfl⟩ | ⟨hnone, rfl⟩
  · refine ⟨?_, below_add_one hwrap⟩
    by_contra hsome
    obtain ⟨value, hlookup⟩ := Option.ne_none_iff_exists'.mp hsome
    exact (hknown _ _ hlookup).ne_counter hwrap rfl
  · exact ⟨hnone, below_max counter id⟩

/-! ## Counters that may wrap -/

/-- The counter names something, and nothing in use is there yet. -/
def Free {β : Type} (lookup : UInt64 → Option β) (counter : UInt64) : Prop :=
  counter ≠ 0 ∧ lookup counter = none

/-- As long as the counter has not wrapped, it is above everything in use. -/
structure Ahead {β : Type} (lookup : UInt64 → Option β) (counter : UInt64) (wrapped : Bool) :
    Prop where
  positive : wrapped = false → counter ≠ 0
  known : wrapped = false → ∀ id value, lookup id = some value → Below counter id

section Ahead

variable {β : Type} {lookup lookup' : UInt64 → Option β} {wrapped : Bool}

/-- A counter that has not wrapped is free, or stands at the largest identifier. -/
theorem Ahead.free_iff (h : Ahead lookup counter wrapped) :
    Free lookup counter ↔ (wrapped = true ∨ counter = -1 → Free lookup counter) := by
  refine ⟨fun hfree _ => hfree, fun hfree => ?_⟩
  by_cases hlast : wrapped = true ∨ counter = -1
  · exact hfree hlast
  · rw [not_or, Bool.not_eq_true] at hlast
    refine ⟨h.positive hlast.1, ?_⟩
    by_contra hsome
    obtain ⟨value, hlookup⟩ := Option.ne_none_iff_exists'.mp hsome
    have hbelow := h.known hlast.1 counter value hlookup
    unfold Below at hbelow
    grind

/-- Where nothing is in use a counter can start at one. -/
theorem Ahead.new (h : ∀ id, lookup id = none) : Ahead lookup 1 wrapped := by
  refine ⟨fun _ => by decide, fun _ id value hlookup => ?_⟩
  rw [h id] at hlookup
  cases hlookup

theorem Ahead.of_wrapped (h : wrapped = true) : Ahead lookup counter wrapped :=
  ⟨fun hnot => absurd h (by simp [hnot]), fun hnot => absurd h (by simp [hnot])⟩

/-- A counter that is left alone stays ahead of what was in use before. -/
theorem Ahead.keep {next : UInt64} (h : Ahead lookup counter wrapped) (hnext : next = counter)
    (hknown : ∀ id value, lookup' id = some value → ∃ held, lookup id = some held) :
    Ahead lookup' next (wrapped || !decide (counter ≤ next)) := by
  rw [hnext, decide_eq_true (UInt64.le_refl _), Bool.not_true, Bool.or_false]
  refine ⟨h.positive, fun hnot id value hlookup => ?_⟩
  obtain ⟨held, hheld⟩ := hknown id value hlookup
  exact h.known hnot id held hheld

/-- A new identifier keeps the counter ahead, or the counter has wrapped. -/
theorem Ahead.add {next : UInt64} (h : Ahead lookup counter wrapped)
    (hid : id = counter ∧ next = counter + 1 ∨ lookup id = none ∧ next = max counter (id + 1))
    (hknown : ∀ other value, lookup' other = some value →
      other = id ∨ ∃ held, lookup other = some held) :
    Ahead lookup' next (wrapped || !decide (counter ≤ next)) := by
  by_cases hkept : counter ≤ next
  · rw [decide_eq_true hkept, Bool.not_true, Bool.or_false]
    refine ⟨fun hnot hzero => ?_, fun hnot other value hlookup => ?_⟩
    · have hpositive := h.positive hnot
      rw [hzero] at hkept
      grind
    · rcases hknown other value hlookup with rfl | ⟨held, hheld⟩
      · exact (fresh (h.known hnot) hkept hid).2
      · exact (h.known hnot other held hheld).mono hkept
  · exact .of_wrapped (by rw [decide_eq_false hkept, Bool.not_false, Bool.or_true])

/-- A value that is put into a table under a new identifier keeps the counter ahead of the table, or
the counter has wrapped. -/
theorem Ahead.insert {table : SortedTable UInt64 β} {next : UInt64}
    (h : Ahead table.lookup counter wrapped)
    (hid : id = counter ∧ next = counter + 1 ∨
      table.lookup id = none ∧ next = max counter (id + 1)) (value : β) :
    Ahead (table.insert id value).lookup next (wrapped || !decide (counter ≤ next)) :=
  h.add hid fun _ held hlookup =>
    (SortedTable.lookup_insert_cases hlookup).imp And.left fun hheld => ⟨held, hheld⟩

end Ahead

end IdCounter
