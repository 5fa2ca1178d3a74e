import Mathlib.Tactic.Common

/-!
# Incremental consumers

A consumer looks at a buffer and either waits for more input or consumes a nonempty prefix
with an output. `stable` says that more input never changes a decision already taken. From
that alone, running over a stream in any chunks gives the outputs and the remainder of one run
over the whole stream (`run_append`).
-/

namespace Incremental

/-- A deterministic consumer of a growing buffer. `next buffer = none` means that it waits. -/
structure Consumer (α β : Type) where
  next : List α → Option (Nat × β)
  advances : ∀ {buffer : List α} {n : Nat} {out : β},
    next buffer = some (n, out) → 0 < n ∧ n ≤ buffer.length
  stable : ∀ {buffer : List α} {n : Nat} {out : β} (more : List α),
    next buffer = some (n, out) → next (buffer ++ more) = some (n, out)

namespace Consumer

variable {α β : Type} (c : Consumer α β)

/-- Consume until the consumer waits: the outputs in order and the remaining buffer. -/
def run (buffer : List α) : List β × List α :=
  match _h : c.next buffer with
  | none => ([], buffer)
  | some (n, out) =>
      let rest := run (buffer.drop n)
      (out :: rest.1, rest.2)
termination_by buffer.length
decreasing_by
  have := c.advances _h
  rw [List.length_drop]
  omega

/-- `Reaches buffer outs rest` says that some steps from `buffer` produce `outs` and leave
`rest`. -/
inductive Reaches : List α → List β → List α → Prop
  | refl (buffer : List α) : Reaches buffer [] buffer
  | step {buffer rest : List α} {n : Nat} {out : β} {outs : List β} :
      c.next buffer = some (n, out) → Reaches (buffer.drop n) outs rest →
      Reaches buffer (out :: outs) rest

variable {c}

/-- A buffer that waits is left as it is. -/
theorem run_of_waits {buffer : List α} (h : c.next buffer = none) :
    c.run buffer = ([], buffer) := by
  rw [run]
  split
  · rfl
  · rename_i hsome
    rw [h] at hsome
    cases hsome

/-- A buffer that holds an item is read behind it. -/
theorem run_of_next {buffer : List α} {n : Nat} {out : β} (h : c.next buffer = some (n, out)) :
    c.run buffer = (out :: (c.run (buffer.drop n)).1, (c.run (buffer.drop n)).2) := by
  rw [run]
  split
  · rename_i hnone
    rw [h] at hnone
    cases hnone
  · rename_i hsome
    rw [h] at hsome
    cases hsome
    rfl

/-- A run goes on from any point it passes. -/
theorem Reaches.run_eq {buffer rest : List α} {outs : List β} (h : c.Reaches buffer outs rest) :
    c.run buffer = (outs ++ (c.run rest).1, (c.run rest).2) := by
  induction h with
  | refl => rfl
  | step hnext _ ih => rw [run_of_next hnext, ih, List.cons_append]

/-- A run is a sequence of steps to its remainder. -/
theorem run_reaches (buffer : List α) : c.Reaches buffer (c.run buffer).1 (c.run buffer).2 := by
  fun_induction c.run buffer with
  | case1 buffer => exact .refl buffer
  | case2 buffer n out hnext rest ih => exact .step hnext ih

/-- A run ends where the consumer waits. -/
theorem run_waits (buffer : List α) : c.next (c.run buffer).2 = none := by
  fun_induction c.run buffer with
  | case1 buffer hnext => exact hnext
  | case2 buffer n out hnext rest ih => exact ih

/-- What one run delivers goes in front of what the next delivers. -/
theorem Reaches.trans {first second third : List α} {outs more : List β}
    (h : c.Reaches first outs second) (h' : c.Reaches second more third) :
    c.Reaches first (outs ++ more) third := by
  induction h with
  | refl => exact h'
  | step hnext _ ih => exact .step hnext (ih h')

/-- Steps taken on a buffer are taken on every longer buffer. -/
theorem Reaches.append {buffer rest : List α} {outs : List β} (h : c.Reaches buffer outs rest)
    (more : List α) : c.Reaches (buffer ++ more) outs (rest ++ more) := by
  induction h with
  | refl => exact .refl _
  | step hnext _ ih =>
      have hle := (c.advances hnext).2
      refine .step (c.stable more hnext) ?_
      rw [List.drop_append_of_le_length hle]
      exact ih

/-- Where a run passes is no longer than where it started. -/
theorem Reaches.length_le {buffer rest : List α} {outs : List β} (h : c.Reaches buffer outs rest) :
    rest.length ≤ buffer.length := by
  induction h with
  | refl => exact Nat.le_refl _
  | step _ _ ih =>
      rw [List.length_drop] at ih
      omega

/-- Running over a longer buffer is running over its front first, and then over what that left
together with the rest. -/
theorem run_append (buffer more : List α) :
    c.run (buffer ++ more) =
      ((c.run buffer).1 ++ (c.run ((c.run buffer).2 ++ more)).1,
        (c.run ((c.run buffer).2 ++ more)).2) :=
  ((run_reaches buffer).append more).run_eq

end Consumer

end Incremental
