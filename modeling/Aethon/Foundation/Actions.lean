import Aethon.Foundation.Parsing

/-!
# Computations that keep their state when they throw

An `Action` reads and changes a state and may throw. Unlike a parser it hands back the state in
either case, as an object does whose method throws halfway. `start_bind_ok_iff` and its companions
turn an action that returned into the runs of its steps, and `outcomes` lists what repeated calls
of one action yield.
-/

namespace Actions

open Parsing

/-- A computation over a state `σ` that returns an `α` or throws an `ε`, with the state it
leaves behind. -/
abbrev Action (σ ε α : Type) := ExceptT ε (StateM σ) α

variable {σ τ ε α β : Type}

/-- Run an action from a state: what it yields, and the state it leaves. -/
def start (x : Action σ ε α) (s : σ) : Except ε α × σ :=
  StateT.run (ExceptT.run x) s

/-- A sequence runs its first step and, unless that throws, the rest from the state it leaves. -/
theorem start_bind (x : Action σ ε α) (f : α → Action σ ε β) (s : σ) :
    start (x >>= f) s = match start x s with
      | (.ok a, middle) => start (f a) middle
      | (.error failure, middle) => (.error failure, middle) := by
  show (match start x s with
    | (result, middle) => StateT.run (ExceptT.bindCont f result) middle) = _
  rcases start x s with ⟨failure | a, middle⟩
  · rfl
  · rfl

/-- A sequence returns when its first step does and the rest returns from the state it leaves. -/
theorem start_bind_ok_iff {x : Action σ ε α} {f : α → Action σ ε β} {s s' : σ} {b : β} :
    start (x >>= f) s = (.ok b, s') ↔
      ∃ a middle, start x s = (.ok a, middle) ∧ start (f a) middle = (.ok b, s') := by
  rw [start_bind]
  rcases start x s with ⟨failure | a, middle⟩
  · simp
  · simp

/-! Reading and changing the state never throws, so it can be executed where it stands. -/

@[simp] theorem start_pure (a : α) (s : σ) : start (pure a : Action σ ε α) s = (.ok a, s) := rfl

@[simp] theorem start_modify (f : σ → σ) (s : σ) :
    start (modify f : Action σ ε PUnit) s = (.ok (), f s) := rfl

@[simp] theorem start_get_bind (f : σ → Action σ ε β) (s : σ) :
    start (get >>= f) s = start (f s) s := rfl

@[simp] theorem start_modify_bind (f : σ → σ) (g : PUnit → Action σ ε β) (s : σ) :
    start (modify f >>= g) s = start (g ()) (f s) := rfl

@[simp] theorem start_modifyGet_bind (f : σ → α × σ) (g : α → Action σ ε β) (s : σ) :
    start (modifyGet f >>= g) s = start (g (f s).1) (f s).2 := rfl

/-- A computation without state leaves the state as it is. -/
theorem start_lift_ok_iff {x : Except ε α} {a : α} {s s' : σ} :
    start (liftM x : Action σ ε α) s = (.ok a, s') ↔ x = .ok a ∧ s = s' := by
  show ((x, s) : Except ε α × σ) = _ ↔ _
  simp

/-- A check returns, without touching the state, when its condition fails. -/
theorem start_rejectIf_ok_iff {c : Prop} [Decidable c] {failure : ε} {u : Unit} {s s' : σ} :
    start (rejectIf c failure : Action σ ε Unit) s = (.ok u, s') ↔ ¬ c ∧ s = s' := by
  unfold rejectIf
  by_cases h : c
  · rw [if_pos h]
    show ((Except.error failure, s) : Except ε Unit × σ) = _ ↔ _
    simp [h]
  · rw [if_neg h, start_pure]
    simp [h]

/-- A step that throws ends the sequence. -/
theorem start_bind_of_error {x : Action σ ε α} {f : α → Action σ ε β} {s s' : σ} {failure : ε}
    (h : start x s = (.error failure, s')) : start (x >>= f) s = (.error failure, s') := by
  rw [start_bind, h]

/-- A step that returns is followed by the rest. -/
theorem start_bind_of_ok {x : Action σ ε α} {f : α → Action σ ε β} {s s' : σ} {a : α}
    (h : start x s = (.ok a, s')) : start (x >>= f) s = start (f a) s' := by
  rw [start_bind, h]

/-! A step that leaves the state as it is can be taken out of a sequence. -/

/-- A lifted computation goes on only with the value that it returns. -/
theorem start_lift_bind_ok_iff {x : Except ε α} {f : α → Action σ ε β} {b : β} {s s' : σ} :
    start (liftM x >>= f) s = (.ok b, s') ↔ ∃ a, x = .ok a ∧ start (f a) s = (.ok b, s') := by
  rw [start_bind_ok_iff]
  constructor
  · intro h
    obtain ⟨a, _, hlift, hf⟩ := h
    obtain ⟨hx, rfl⟩ := start_lift_ok_iff.mp hlift
    exact ⟨a, hx, hf⟩
  · intro h
    obtain ⟨a, hx, hf⟩ := h
    exact ⟨a, s, start_lift_ok_iff.mpr ⟨hx, rfl⟩, hf⟩

/-- A rejection goes on only where its condition fails. -/
theorem start_rejectIf_bind_ok_iff {c : Prop} [Decidable c] {failure : ε}
    {f : Unit → Action σ ε β} {b : β} {s s' : σ} :
    start (rejectIf c failure >>= f) s = (.ok b, s') ↔ ¬ c ∧ start (f ()) s = (.ok b, s') := by
  rw [start_bind_ok_iff]
  constructor
  · intro h
    obtain ⟨_, _, hcheck, hf⟩ := h
    obtain ⟨hc, rfl⟩ := start_rejectIf_ok_iff.mp hcheck
    exact ⟨hc, hf⟩
  · intro h
    obtain ⟨hc, hf⟩ := h
    exact ⟨(), s, start_rejectIf_ok_iff.mpr ⟨hc, rfl⟩, hf⟩

/-- Run an action that only matters when it returns: the state it leaves, or what it throws. -/
def execute (x : Action σ ε α) (s : σ) : Except ε σ :=
  match start x s with
  | (.ok _, s') => .ok s'
  | (.error failure, _) => .error failure

/-- An execution ends in a state exactly when the start returns some value there. -/
theorem execute_ok_iff {x : Action σ ε α} {s s' : σ} :
    execute x s = .ok s' ↔ ∃ a, start x s = (.ok a, s') := by
  unfold execute
  rcases start x s with ⟨failure | a, middle⟩
  · simp
  · simp

/-! ## Actions on a component -/

/-- Run an action on a component of the state. -/
def zoom (component : σ → τ) (replace : σ → τ → σ) (x : Action τ ε α) : Action σ ε α :=
  ExceptT.mk fun s =>
    let (result, t) := start x (component s)
    (result, replace s t)

/-- What an action on a component yields, and the state it leaves. -/
theorem start_zoom (component : σ → τ) (replace : σ → τ → σ) (x : Action τ ε α) (s : σ) :
    start (zoom component replace x) s =
      ((start x (component s)).1, replace s (start x (component s)).2) := rfl

/-- An action on a component returns when it does on the component alone. -/
theorem start_zoom_ok_iff {component : σ → τ} {replace : σ → τ → σ} {x : Action τ ε α} {a : α}
    {s s' : σ} :
    start (zoom component replace x) s = (.ok a, s') ↔
      ∃ t, start x (component s) = (.ok a, t) ∧ replace s t = s' := by
  rw [start_zoom]
  rcases start x (component s) with ⟨result, t⟩
  simp only [Prod.mk.injEq]
  constructor
  · intro h
    exact ⟨t, ⟨h.1, rfl⟩, h.2⟩
  · intro h
    obtain ⟨_, ⟨hresult, rfl⟩, hreplace⟩ := h
    exact ⟨hresult, hreplace⟩

/-- A step on a component goes on with the component replaced. -/
theorem start_zoom_bind_ok_iff {component : σ → τ} {replace : σ → τ → σ} {x : Action τ ε α}
    {f : α → Action σ ε β} {b : β} {s s' : σ} :
    start (zoom component replace x >>= f) s = (.ok b, s') ↔
      ∃ a t, start x (component s) = (.ok a, t) ∧ start (f a) (replace s t) = (.ok b, s') := by
  simp only [start_bind_ok_iff, start_zoom_ok_iff]
  constructor
  · intro h
    obtain ⟨a, _, ⟨t, hx, rfl⟩, hf⟩ := h
    exact ⟨a, t, hx, hf⟩
  · intro h
    obtain ⟨a, t, hx, hf⟩ := h
    exact ⟨a, _, ⟨t, hx, rfl⟩, hf⟩

/-! ## Actions with other exceptions -/

/-- An action whose exceptions are passed on as others. -/
def rethrow {ε' : Type} (f : ε → ε') (x : Action σ ε α) : Action σ ε' α :=
  ExceptT.adapt f x

/-- A rethrown action succeeds as the action does. -/
theorem start_rethrow_ok_iff {ε' : Type} {f : ε → ε'} {x : Action σ ε α} {a : α} {s s' : σ} :
    start (rethrow f x) s = (.ok a, s') ↔ start x s = (.ok a, s') := by
  show ((start x s).1.mapError f, (start x s).2) = _ ↔ _
  rcases start x s with ⟨failure | b, middle⟩
  · simp [Except.mapError]
  · simp [Except.mapError]

/-! ## Repeated calls -/

/-- What the first `n` calls of an action yield, each from the state the one before left. -/
def outcomes (x : Action σ ε α) : Nat → σ → List (Except ε α)
  | 0, _ => []
  | n + 1, s => (start x s).1 :: outcomes x n (start x s).2

end Actions
