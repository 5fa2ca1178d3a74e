import Mathlib.Tactic.Common

/-!
# Parsers that invert an encoding

A parser consumes a prefix of a token list and may fail. `Exact p encode good` says that `p`
succeeds on exactly the inputs that begin with the encoding of a good value, returns that
value, and leaves the rest. Both directions of a round trip follow from it: what an encoder
writes is read back, and whatever is read was written that way.

`bind_ok_iff` and its companions turn a successful run of a `do` block into the successful
runs of its steps.
-/

namespace Parsing

/-- A parser over tokens `τ` with errors `ε`: the state is the unread input. -/
abbrev Parser (ε τ α : Type) := StateT (List τ) (Except ε) α

variable {ε τ α β : Type}

/-- A sequence succeeds when its first step does and the rest succeeds on what is left. -/
theorem bind_ok_iff {p : Parser ε τ α} {f : α → Parser ε τ β} {input rest : List τ} {b : β} :
    (p >>= f) input = .ok (b, rest) ↔
      ∃ a middle, p input = .ok (a, middle) ∧ f a middle = .ok (b, rest) := by
  show Except.bind (p input) (fun result => f result.1 result.2) = _ ↔ _
  cases p input with
  | error failure => simp [Except.bind]
  | ok result =>
      obtain ⟨a, middle⟩ := result
      simp [Except.bind]

theorem pure_ok_iff {a b : α} {input rest : List τ} :
    (pure a : Parser ε τ α) input = .ok (b, rest) ↔ a = b ∧ input = rest := by
  show Except.ok (a, input) = _ ↔ _
  simp

/-- A computation without input runs inside a parser and reads nothing. -/
theorem lift_ok_iff {x : Except ε α} {a : α} {input rest : List τ} :
    (liftM x : Parser ε τ α) input = .ok (a, rest) ↔ x = .ok a ∧ input = rest := by
  show (x >>= fun a => Except.ok (a, input)) = _ ↔ _
  cases x with
  | error failure => simp [bind, Except.bind]
  | ok b => simp [bind, Except.bind]

/-- Fail with the given error when the condition holds, as `if (c) throw e;` does. -/
def rejectIf {m : Type → Type} [Monad m] [MonadExceptOf ε m] (c : Prop) [Decidable c]
    (failure : ε) : m Unit :=
  if c then throw failure else pure ()

/-- A check inside a parser succeeds, without reading, when its condition fails. -/
theorem rejectIf_ok_iff {c : Prop} [Decidable c] {failure : ε} {u : Unit}
    {input rest : List τ} :
    (rejectIf c failure : Parser ε τ Unit) input = .ok (u, rest) ↔ ¬ c ∧ input = rest := by
  unfold rejectIf
  by_cases h : c
  · rw [if_pos h]
    show Except.error failure = _ ↔ _
    simp [h]
  · rw [if_neg h, pure_ok_iff]
    simp [h]

/-- In an `Except` computation, a sequence succeeds when both of its steps do. -/
theorem except_bind_ok_iff {x : Except ε α} {f : α → Except ε β} {b : β} :
    (x >>= f) = .ok b ↔ ∃ a, x = .ok a ∧ f a = .ok b := by
  cases x with
  | error failure => simp [bind, Except.bind]
  | ok a => simp [bind, Except.bind]

/-- In an `Except` computation, a check returns when its condition fails. -/
theorem except_rejectIf_ok_iff {c : Prop} [Decidable c] {failure : ε} {u : Unit} :
    (rejectIf c failure : Except ε Unit) = .ok u ↔ ¬ c := by
  unfold rejectIf
  by_cases h : c
  · simp [h, throw, throwThe, MonadExceptOf.throw]
  · simp [h, pure, Except.pure]

theorem except_pure_ok_iff {a b : α} : (pure a : Except ε α) = .ok b ↔ a = b := by
  simp [pure, Except.pure]

/-- `p` accepts exactly the encodings of good values and returns the value encoded. -/
structure Exact (p : Parser ε τ α) (encode : α → List τ) (good : α → Prop) : Prop where
  ok_iff : ∀ (input rest : List τ) (a : α),
    p input = .ok (a, rest) ↔ input = encode a ++ rest ∧ good a

/-- Run a parser a fixed number of times and collect its results in order. -/
def repeatM (p : Parser ε τ α) : Nat → Parser ε τ (List α)
  | 0 => pure []
  | n + 1 => do
      let a ← p
      let tail ← repeatM p n
      pure (a :: tail)

/-- Repeating an exact parser is exact for the concatenated encodings. -/
theorem Exact.repeatM {p : Parser ε τ α} {encode : α → List τ} {good : α → Prop}
    (h : Exact p encode good) (n : Nat) :
    Exact (repeatM p n) (fun items => items.flatMap encode)
      (fun items => items.length = n ∧ ∀ item ∈ items, good item) := by
  refine ⟨?_⟩
  induction n with
  | zero =>
      intro input rest items
      simp only [Parsing.repeatM, pure_ok_iff]
      constructor
      · intro hrun
        obtain ⟨rfl, rfl⟩ := hrun
        simp
      · intro hsplit
        obtain ⟨rfl, hlength, -⟩ := hsplit
        cases List.length_eq_zero_iff.mp hlength
        simp
  | succ n ih =>
      intro input rest items
      simp only [Parsing.repeatM, bind_ok_iff, pure_ok_iff, h.ok_iff, ih]
      constructor
      · intro hrun
        obtain ⟨a, middle, ⟨rfl, ha⟩, tail, last, ⟨rfl, hlength, htail⟩, rfl, rfl⟩ := hrun
        exact ⟨by simp, by simp [hlength], by simpa [ha] using htail⟩
      · intro hsplit
        obtain ⟨rfl, hlength, hall⟩ := hsplit
        obtain _ | ⟨a, tail⟩ := items
        · simp at hlength
        · simp only [List.length_cons, Nat.add_right_cancel_iff] at hlength
          refine ⟨a, tail.flatMap encode ++ rest, ⟨by simp, hall a (by simp)⟩, tail, rest,
            ⟨rfl, hlength, fun item hitem => hall item (by simp [hitem])⟩, rfl, rfl⟩

/-- `p` reads a piece at a time and returns what stands for it. -/
def Reads (p : Parser ε τ α) (encode : β → List τ) (stands : β → α → Prop) : Prop :=
  ∀ (input rest : List τ) (a : α), p input = .ok (a, rest) ↔
    ∃ piece, input = encode piece ++ rest ∧ stands piece a

/-- Repeating a parser of pieces reads them one behind the other. -/
theorem Reads.repeatM {p : Parser ε τ α} {encode : β → List τ} {stands : β → α → Prop}
    (h : Reads p encode stands) (n : Nat) :
    Reads (Parsing.repeatM p n) (fun pieces => pieces.flatMap encode)
      (fun pieces items => pieces.length = n ∧ List.Forall₂ stands pieces items) := by
  unfold Reads at h ⊢
  induction n with
  | zero =>
      intro input rest items
      simp only [Parsing.repeatM, pure_ok_iff]
      constructor
      · intro hrun
        obtain ⟨rfl, rfl⟩ := hrun
        exact ⟨[], rfl, rfl, .nil⟩
      · intro hsplit
        obtain ⟨pieces, rfl, hlength, hstands⟩ := hsplit
        cases List.length_eq_zero_iff.mp hlength
        cases hstands
        exact ⟨rfl, rfl⟩
  | succ n ih =>
      intro input rest items
      simp only [Parsing.repeatM, bind_ok_iff, pure_ok_iff, h, ih]
      constructor
      · intro hrun
        obtain ⟨a, _, ⟨piece, rfl, ha⟩, tail, _, ⟨pieces, rfl, hlength, htail⟩, rfl, rfl⟩ := hrun
        exact ⟨piece :: pieces, by simp, by simp [hlength], .cons ha htail⟩
      · intro hsplit
        obtain ⟨pieces, rfl, hlength, hstands⟩ := hsplit
        cases hstands with
        | nil => cases hlength
        | @cons piece a pieces tail ha htail =>
            exact ⟨a, pieces.flatMap encode ++ rest, ⟨piece, by simp, ha⟩, tail, rest,
              ⟨pieces, rfl, Nat.succ.inj hlength, htail⟩, rfl, rfl⟩

end Parsing
