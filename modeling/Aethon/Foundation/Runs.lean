import Mathlib.Data.List.Nodup
import Mathlib.Tactic.Common

/-!
# Runs of a state machine

A state machine is a step function over states and operations. `run` folds it over a list of
operations, and `Along` says that every step of a run meets a condition on the state before it.
`run_invariant` is the induction behind every invariant, and `run_invariant_along` the one behind
those that some steps break. `states_iff_along` is for a property that some steps break: if from a
good state a step reaches a good one exactly under the condition, then a run has only good states
exactly when all its steps meet the condition, and `states_iff_along_choices` says the same of steps
with choices. `nodup_iff_along` is for a log that grows by an entry at each step. `run_project` is
for a part of the state that only some operations touch: the part runs on its own, over these.
-/

namespace Runs

variable {σ ι : Type} (step : σ → ι → σ)

/-- The state after the operations. -/
def run (s : σ) (ops : List ι) : σ :=
  ops.foldl step s

/-- Every operation of the run meets the condition in the state it is applied to. -/
def Along (cond : σ → ι → Prop) : σ → List ι → Prop
  | _, [] => True
  | s, op :: ops => cond s op ∧ Along cond (step s op) ops

instance decidableAlong (cond : σ → ι → Prop) [∀ s op, Decidable (cond s op)] (s : σ) :
    (ops : List ι) → Decidable (Along step cond s ops)
  | [] => isTrue trivial
  | op :: ops =>
      have := decidableAlong cond (step s op) ops
      inferInstanceAs (Decidable (cond s op ∧ Along step cond (step s op) ops))

variable {step}

@[simp] theorem run_nil (s : σ) : run step s [] = s := rfl

@[simp] theorem run_cons (s : σ) (op : ι) (ops : List ι) :
    run step s (op :: ops) = run step (step s op) ops := rfl

theorem run_concat (s : σ) (ops : List ι) (op : ι) :
    run step s (ops ++ [op]) = step (run step s ops) op := by
  rw [run, List.foldl_append]
  rfl

/-- What holds at the start and is kept by every step holds after every run. -/
theorem run_invariant {inv : σ → Prop} (hstep : ∀ s op, inv s → inv (step s op)) {s : σ}
    (hs : inv s) (ops : List ι) : inv (run step s ops) := by
  induction ops generalizing s with
  | nil => exact hs
  | cons op ops ih => exact ih (hstep s op hs)

/-- What holds at the start and is kept by every step that meets the condition holds after every
run whose steps meet it. -/
theorem run_invariant_along {inv : σ → Prop} {cond : σ → ι → Prop}
    (hstep : ∀ s op, inv s → cond s op → inv (step s op)) {s : σ} (hs : inv s) {ops : List ι}
    (hops : Along step cond s ops) : inv (run step s ops) := by
  induction ops generalizing s with
  | nil => exact hs
  | cons op ops ih => exact ih (hstep s op hs hops.1) hops.2

/-- A condition on the operations alone is met along every run of them. -/
theorem along_of_forall {cond : σ → ι → Prop} {ops : List ι} (h : ∀ op ∈ ops, ∀ s, cond s op)
    (s : σ) : Along step cond s ops := by
  induction ops generalizing s with
  | nil => trivial
  | cons op ops ih =>
      exact ⟨h op List.mem_cons_self s, ih (fun op hop => h op (List.mem_cons_of_mem _ hop)) _⟩

/-- A condition on the operations alone is met along a run exactly when all of them meet it. -/
theorem along_forall_iff {cond : ι → Prop} {s : σ} {ops : List ι} :
    Along step (fun _ op => cond op) s ops ↔ ∀ op ∈ ops, cond op := by
  refine ⟨fun halong => ?_, fun hops => along_of_forall (fun op hop _ => hops op hop) s⟩
  induction ops generalizing s with
  | nil => exact List.forall_mem_nil _
  | cons op ops ih => exact List.forall_mem_cons.mpr ⟨halong.1, ih halong.2⟩

/-- A condition is met along a run exactly when every operation meets it in the state that the
operations in front of it lead to. -/
theorem along_iff_forall_behind {cond : σ → ι → Prop} {s : σ} {ops : List ι} :
    Along step cond s ops ↔
      ∀ front op behind, ops = front ++ op :: behind → cond (run step s front) op := by
  induction ops generalizing s with
  | nil =>
      refine iff_of_true trivial fun front op behind hops => ?_
      exact absurd hops.symm (List.append_ne_nil_of_right_ne_nil _ (List.cons_ne_nil _ _))
  | cons op ops ih =>
      rw [Along, ih]
      constructor
      · rintro ⟨hhead, htail⟩ front other behind hops
        cases front with
        | nil =>
            obtain ⟨rfl, rfl⟩ := List.cons.inj hops
            exact hhead
        | cons first front =>
            obtain ⟨rfl, rfl⟩ := List.cons.inj hops
            exact htail front other behind rfl
      · intro hall
        refine ⟨hall [] op ops rfl, fun front other behind hops => ?_⟩
        exact hall (op :: front) other behind (congrArg (op :: ·) hops)

/-- Conditions that agree in every state that the run can reach are met along the same runs. -/
theorem along_congr {inv : σ → Prop} {cond cond' : σ → ι → Prop}
    (hinv : ∀ s op, inv s → inv (step s op)) (hcond : ∀ s op, inv s → (cond s op ↔ cond' s op))
    {s : σ} (hs : inv s) (ops : List ι) : Along step cond s ops ↔ Along step cond' s ops := by
  induction ops generalizing s with
  | nil => exact Iff.rfl
  | cons op ops ih => exact and_congr (hcond s op hs) (ih (hinv s op hs))

/-- All states of a run are good exactly when all its steps meet the condition under which a step
from a good state reaches a good one. -/
theorem states_iff_along {inv good : σ → Prop} {cond : σ → ι → Prop} {ops : List ι}
    (hinv : ∀ s op, inv s → inv (step s op))
    (hstep : ∀ s, ∀ op ∈ ops, inv s → good s → (good (step s op) ↔ cond s op))
    {s : σ} (hs : inv s) (hgood : good s) :
    (∀ n, good (run step s (ops.take n))) ↔ Along step cond s ops := by
  induction ops generalizing s with
  | nil =>
      refine ⟨fun _ => trivial, fun _ n => ?_⟩
      rw [List.take_nil]
      exact hgood
  | cons op ops ih =>
      have hhead := hstep s op List.mem_cons_self hs hgood
      have htail := ih (fun later other hother => hstep later other (List.mem_cons_of_mem _ hother))
        (hinv s op hs)
      constructor
      · intro hall
        have hnext : good (step s op) := hall 1
        exact ⟨hhead.mp hnext, (htail hnext).mp fun n => hall (n + 1)⟩
      · intro halong n
        obtain ⟨hcond, hrest⟩ := halong
        cases n with
        | zero => exact hgood
        | succ n => exact (htail (hhead.mpr hcond)).mpr hrest n

/-- Where a step has choices, a step from a good state that meets the condition reaches a good one
by every choice, two choices that reach good states reach the same one, and the condition is met
where all choices reach good states. Then all states by all choices are good exactly when the
condition is met along the run of one of them, and all of them run the same. -/
theorem states_iff_along_choices {ρ : Type} {step : ρ → σ → ι → σ} {allowed : ρ → Prop}
    {good : σ → Prop} {cond : σ → ι → Prop}
    (hstep : ∀ r s op, allowed r → good s → cond s op → good (step r s op))
    (hsame : ∀ r r' s op, allowed r → allowed r' → good (step r s op) → good (step r' s op) →
      step r s op = step r' s op)
    (hcond : ∀ s op, good s → (∀ r, allowed r → good (step r s op)) → cond s op)
    {r : ρ} (hr : allowed r) {s : σ} (hgood : good s) (ops : List ι) :
    (∀ r', allowed r' → ∀ n, good (run (step r') s (ops.take n))) ↔
      Along (step r) cond s ops := by
  induction ops generalizing s with
  | nil =>
      refine ⟨fun _ => trivial, fun _ r' _ n => ?_⟩
      rw [List.take_nil]
      exact hgood
  | cons op ops ih =>
      have hnext : ∀ r', allowed r' → cond s op → step r' s op = step r s op := fun r' hr' hop =>
        hsame r' r s op hr' hr (hstep r' s op hr' hgood hop) (hstep r s op hr hgood hop)
      constructor
      · intro hall
        have hop : cond s op := hcond s op hgood fun r' hr' => hall r' hr' 1
        refine ⟨hop, (ih (hstep r s op hr hgood hop)).mp fun r' hr' n => ?_⟩
        rw [← hnext r' hr' hop]
        exact hall r' hr' (n + 1)
      · rintro ⟨hop, hrest⟩ r' hr' n
        cases n with
        | zero => exact hgood
        | succ n =>
            rw [List.take_succ_cons, run_cons, hnext r' hr' hop]
            exact (ih (hstep r s op hr hgood hop)).mpr hrest r' hr' n

/-- In a log to which every step appends an entry, no entry stands twice exactly when each step
appends a new one. -/
theorem nodup_iff_along {κ : Type} {entries : σ → List κ} {entry : σ → ι → κ}
    (hstep : ∀ s op, entries (step s op) = entries s ++ [entry s op]) {s : σ}
    (hs : (entries s).Nodup) (ops : List ι) :
    (entries (run step s ops)).Nodup ↔
      Along step (fun s op => entry s op ∉ entries s) s ops := by
  have hgrows : ∀ s ops, entries s <+: entries (run step s ops) := by
    intro s ops
    induction ops generalizing s with
    | nil => exact List.prefix_rfl
    | cons op ops ih =>
        refine List.IsPrefix.trans ?_ (ih (step s op))
        rw [hstep]
        exact List.prefix_append _ _
  induction ops generalizing s with
  | nil => exact iff_of_true hs trivial
  | cons op ops ih =>
      have hfresh : entry s op ∉ entries s ↔ (entries (step s op)).Nodup := by
        rw [hstep, ← List.concat_eq_append, List.nodup_concat]
        exact ⟨fun hnew => ⟨hnew, hs⟩, And.left⟩
      rw [run_cons, Along, hfresh]
      constructor
      · intro hall
        have hnext := hall.sublist (hgrows (step s op) ops).sublist
        exact ⟨hnext, (ih hnext).mp hall⟩
      · rintro ⟨hnext, hrest⟩
        exact (ih hnext).mpr hrest

/-- A part of the state that the relevant operations alone change, each by a function of the part,
is after a run what the run of the relevant operations on the part leaves. -/
theorem run_project {τ : Type} {stepPart : τ → ι → τ} {inv : σ → Prop} {part : σ → τ}
    {relevant : ι → Bool} (hinv : ∀ s op, inv s → inv (step s op))
    (hpart : ∀ s op, inv s →
      part (step s op) = if relevant op then stepPart (part s) op else part s)
    {s : σ} (hs : inv s) (ops : List ι) :
    part (run step s ops) = run stepPart (part s) (ops.filter relevant) := by
  induction ops generalizing s with
  | nil => rfl
  | cons op ops ih =>
      rw [run_cons, ih (hinv s op hs), hpart s op hs]
      cases hrelevant : relevant op with
      | true => rw [List.filter_cons_of_pos hrelevant, run_cons, if_pos rfl]
      | false =>
          rw [List.filter_cons_of_neg (by rw [hrelevant]; exact Bool.false_ne_true)]
          rfl

end Runs
