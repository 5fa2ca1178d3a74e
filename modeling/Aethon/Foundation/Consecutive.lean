import Mathlib.Data.List.Chain
import Mathlib.Data.List.Defs
import Mathlib.Order.Lattice

/-!
# Neighbours in a list

A loop over the neighbours of a sorted list meets a step from one key to a larger one exactly once
where nothing lies between the two, and not at all where something does: `count_step`. A relation
holds between all neighbours exactly when the list is a chain of it (`chain_iff`), and numbers of
which each is one more than the number before it are those from the first one on (`chain_succ_iff`).
-/

namespace Consecutive

variable {α κ : Type}

theorem consecutive_cons_cons (first second : α) (items : List α) :
    (first :: second :: items).consecutivePairs =
      (first, second) :: (second :: items).consecutivePairs := rfl

theorem map_consecutive (f : α → κ) (items : List α) :
    (items.map f).consecutivePairs = items.consecutivePairs.map (Prod.map f f) := by
  rw [List.consecutivePairs, ← List.map_tail, List.zip_map]

/-- Neighbours come from the list. -/
theorem mem_of_consecutive {items : List α} {pair : α × α} (h : pair ∈ items.consecutivePairs) :
    pair.1 ∈ items ∧ pair.2 ∈ items :=
  ⟨(List.of_mem_zip h).1, List.mem_of_mem_tail (List.of_mem_zip h).2⟩

/-- Neighbours stand in every relation in which the elements of the list stand in their order. -/
theorem rel_of_consecutive {R : α → α → Prop} {items : List α} (hsorted : items.Pairwise R)
    {pair : α × α} (h : pair ∈ items.consecutivePairs) : R pair.1 pair.2 := by
  induction items with
  | nil => exact absurd h List.not_mem_nil
  | cons first items ih =>
      obtain ⟨hfirst, hrest⟩ := List.pairwise_cons.mp hsorted
      cases items with
      | nil => exact absurd h List.not_mem_nil
      | cons second items =>
          rw [consecutive_cons_cons] at h
          rcases List.mem_cons.mp h with rfl | h
          · exact hfirst second List.mem_cons_self
          · exact ih hrest h

/-- No element of a sorted list stands between neighbours. -/
theorem sides_of_consecutive {R : α → α → Prop} {items : List α} (hsorted : items.Pairwise R)
    {pair : α × α} (h : pair ∈ items.consecutivePairs) {item : α} (hitem : item ∈ items) :
    (item = pair.1 ∨ R item pair.1) ∨ item = pair.2 ∨ R pair.2 item := by
  induction items with
  | nil => exact absurd h List.not_mem_nil
  | cons first items ih =>
      obtain ⟨hfirst, hrest⟩ := List.pairwise_cons.mp hsorted
      cases items with
      | nil => exact absurd h List.not_mem_nil
      | cons second items =>
          rw [consecutive_cons_cons] at h
          rcases List.mem_cons.mp h with rfl | hpair
          · rcases List.mem_cons.mp hitem with rfl | hitem
            · exact .inl (.inl rfl)
            · rcases List.mem_cons.mp hitem with rfl | hitem
              · exact .inr (.inl rfl)
              · exact .inr (.inr ((List.pairwise_cons.mp hrest).1 item hitem))
          · rcases List.mem_cons.mp hitem with rfl | hitem
            · exact .inl (.inr (hfirst _ (mem_of_consecutive hpair).1))
            · exact ih hrest hpair hitem

/-- A chain is a relation at all consecutive pairs. -/
theorem chain_iff {R : α → α → Prop} {items : List α} :
    items.IsChain R ↔ ∀ pair ∈ items.consecutivePairs, R pair.1 pair.2 := by
  induction items with
  | nil => exact iff_of_true List.isChain_nil (List.forall_mem_nil _)
  | cons first items ih =>
      cases items with
      | nil => exact iff_of_true (List.isChain_singleton first) (List.forall_mem_nil _)
      | cons second items =>
          rw [consecutive_cons_cons, List.forall_mem_cons, ← ih, List.isChain_cons_cons]

/-- Numbers that grow by one are an interval. -/
theorem chain_succ_iff {numbers : List ℕ} :
    (numbers.IsChain fun previous current => current = previous + 1) ↔
      ∃ start, numbers = List.range' start numbers.length := by
  induction numbers with
  | nil => exact iff_of_true List.isChain_nil ⟨0, rfl⟩
  | cons first numbers ih =>
      cases numbers with
      | nil => exact iff_of_true (List.isChain_singleton first) ⟨first, rfl⟩
      | cons second numbers =>
          rw [List.isChain_cons_cons, ih]
          constructor
          · rintro ⟨rfl, start, hrest⟩
            obtain rfl : first + 1 = start := (List.cons.inj hrest).1
            exact ⟨first, congrArg (first :: ·) hrest⟩
          · rintro ⟨start, hall⟩
            obtain ⟨rfl, hrest⟩ := List.cons.inj hall
            exact ⟨(List.cons.inj hrest).1, first + 1, hrest⟩

/-! ## Sorted keys -/

section Keys

variable [LinearOrder κ]

/-- Both keys are there, and nothing lies between them. -/
def Adjacent (keys : List κ) (low high : κ) : Prop :=
  low ∈ keys ∧ high ∈ keys ∧ ∀ key ∈ keys, key ≤ low ∨ high ≤ key

instance (keys : List κ) (low high : κ) : Decidable (Adjacent keys low high) :=
  inferInstanceAs (Decidable (_ ∧ _ ∧ _))

theorem Adjacent.of_perm {keys keys' : List κ} (hperm : keys.Perm keys') {low high : κ}
    (h : Adjacent keys low high) : Adjacent keys' low high :=
  ⟨hperm.mem_iff.mp h.1, hperm.mem_iff.mp h.2.1, fun key hkey =>
    h.2.2 key (hperm.mem_iff.mpr hkey)⟩

/-- A further smallest key changes nothing, except for the step from it to the next one. -/
theorem adjacent_cons_cons {first second : κ} {keys : List κ} (hle : first ≤ second)
    (hsecond : ∀ key ∈ keys, second ≤ key) {low high : κ} (hlt : low < high) :
    Adjacent (first :: second :: keys) low high ↔
      first = low ∧ second = high ∨ Adjacent (second :: keys) low high := by
  have hrest : ∀ key ∈ second :: keys, second ≤ key := List.forall_mem_cons.mpr ⟨le_rfl, hsecond⟩
  constructor
  · rintro ⟨hlow, hhigh, hnone⟩
    -- the larger key is not the smallest one
    replace hhigh : high ∈ second :: keys := by
      refine (List.mem_cons.mp hhigh).resolve_left fun heq => ?_
      rcases List.mem_cons.mp hlow with hlow | hlow
      · exact absurd (heq.trans hlow.symm) hlt.ne'
      · exact absurd (heq ▸ hle.trans (hrest low hlow)) (not_le_of_gt hlt)
    rcases List.mem_cons.mp hlow with rfl | hlow
    · rcases hnone second (List.mem_cons_of_mem _ List.mem_cons_self) with hbelow | habove
      · obtain rfl : low = second := le_antisymm hle hbelow
        exact .inr ⟨List.mem_cons_self, hhigh, fun key hkey =>
          hnone key (List.mem_cons_of_mem _ hkey)⟩
      · exact .inl ⟨rfl, le_antisymm (hrest high hhigh) habove⟩
    · exact .inr ⟨hlow, hhigh, fun key hkey => hnone key (List.mem_cons_of_mem _ hkey)⟩
  · rintro (⟨rfl, rfl⟩ | ⟨hlow, hhigh, hnone⟩)
    · exact ⟨List.mem_cons_self, List.mem_cons_of_mem _ List.mem_cons_self,
        List.forall_mem_cons.mpr ⟨.inl le_rfl, fun key hkey => .inr (hrest key hkey)⟩⟩
    · exact ⟨List.mem_cons_of_mem _ hlow, List.mem_cons_of_mem _ hhigh,
        List.forall_mem_cons.mpr ⟨.inl (hle.trans (hrest low hlow)), hnone⟩⟩

/-- The neighbours in a sorted list step once from each key to the next larger one. -/
theorem count_step {keys : List κ} (hsorted : keys.Pairwise (· ≤ ·)) {low high : κ}
    (hlt : low < high) :
    keys.consecutivePairs.count (low, high) = if Adjacent keys low high then 1 else 0 := by
  induction keys with
  | nil => rw [if_neg fun h => List.not_mem_nil h.1]; rfl
  | cons first keys ih =>
      cases keys with
      | nil =>
          rw [if_neg fun h => hlt.ne ((List.mem_singleton.mp h.1).trans
            (List.mem_singleton.mp h.2.1).symm)]
          rfl
      | cons second keys =>
          obtain ⟨hfirst, hrest⟩ := List.pairwise_cons.mp hsorted
          have hsecond := (List.pairwise_cons.mp hrest).1
          rw [consecutive_cons_cons, List.count_cons, ih hrest]
          simp only [adjacent_cons_cons (hfirst second List.mem_cons_self) hsecond hlt]
          by_cases hhere : first = low ∧ second = high
          · -- behind the step no key is as small as the lower one
            have hnone : ¬Adjacent (second :: keys) low high := fun h => by
              have hle : second ≤ low :=
                (List.forall_mem_cons.mpr ⟨le_rfl, hsecond⟩ : ∀ key ∈ second :: keys, _) low h.1
              exact absurd (hhere.2 ▸ hle) (not_le_of_gt hlt)
            have hpair : ((first, second) == (low, high)) = true := by
              simpa using hhere
            rw [hpair, if_neg hnone, if_pos rfl, if_pos (Or.inl hhere)]
          · have hpair : ((first, second) == (low, high)) = false := by
              simpa using hhere
            rw [hpair, if_neg Bool.false_ne_true, Nat.add_zero]
            simp only [hhere, false_or]

/-- What a sorted list leaves out between its elements is left out between two neighbours. -/
theorem exists_step_across {keys : List κ} (hsorted : keys.Pairwise (· ≤ ·)) {key low high : κ}
    (hlow : low ∈ keys) (hbelow : low < key) (hhigh : high ∈ keys) (habove : key < high)
    (hnone : key ∉ keys) : ∃ pair ∈ keys.consecutivePairs, pair.1 < key ∧ key < pair.2 := by
  induction keys generalizing low with
  | nil => exact absurd hlow List.not_mem_nil
  | cons first keys ih =>
      obtain ⟨hfirst, hrest⟩ := List.pairwise_cons.mp hsorted
      have hstart : first < key := by
        rcases List.mem_cons.mp hlow with rfl | hlow
        · exact hbelow
        · exact (hfirst low hlow).trans_lt hbelow
      have hhigh : high ∈ keys := (List.mem_cons.mp hhigh).resolve_left fun heq =>
        lt_asymm hstart (heq ▸ habove)
      cases keys with
      | nil => exact absurd hhigh List.not_mem_nil
      | cons second keys =>
          rw [consecutive_cons_cons]
          rcases lt_trichotomy second key with hless | rfl | hmore
          · obtain ⟨pair, hpair, hacross⟩ := ih hrest List.mem_cons_self hless hhigh
              fun hmem => hnone (List.mem_cons_of_mem _ hmem)
            exact ⟨pair, List.mem_cons_of_mem _ hpair, hacross⟩
          · exact absurd (List.mem_cons_of_mem _ List.mem_cons_self) hnone
          · exact ⟨(first, second), List.mem_cons_self, hstart, hmore⟩

end Keys

end Consecutive
