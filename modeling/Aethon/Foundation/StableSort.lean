import Mathlib.Algebra.Order.Group.Nat
import Mathlib.Order.Basic
import Mathlib.Data.List.Basic
import Mathlib.Data.Prod.Lex

/-!
# Stable sorting

`std::stable_sort` by a comparison that compares keys. Elements with equal keys keep their places,
so where the places of a list increase, the sorted list increases by key and place. That order
leaves no choice: `stable_sort_unique` says that any rearrangement in it is the sorted list, and
with it sorting commutes with filtering.
-/

namespace StableSort

variable {α β κ ρ : Type}

/-- `std::stable_sort` with the comparison `less`. -/
def stableSort (less : α → α → Bool) (items : List α) : List α :=
  items.mergeSort fun left right => !less right left

@[simp] theorem stable_sort_nil (less : α → α → Bool) : stableSort less [] = [] :=
  List.mergeSort_nil

/-- What `std::sort` promises: elements that compare equal may come in any order. -/
structure Sorts (less : α → α → Bool) (sort : List α → List α) : Prop where
  perm : ∀ items, (sort items).Perm items
  pairwise : ∀ items, (sort items).Pairwise fun left right => (!less right left) = true

theorem stable_sort_perm (less : α → α → Bool) (items : List α) :
    (stableSort less items).Perm items :=
  List.mergeSort_perm _ _

/-- Sorting commutes with a map that keeps the comparison. -/
theorem map_stable_sort {less : α → α → Bool} {less' : β → β → Bool} {f : α → β}
    (h : ∀ left right, less left right = less' (f left) (f right)) (items : List α) :
    (stableSort less items).map f = stableSort less' (items.map f) :=
  List.map_mergeSort fun left _ right _ => by rw [h]

/-! ## Sorting by a key -/

section Keys

variable [LinearOrder κ] [LinearOrder ρ] {less : α → α → Bool} {key : α → κ} {place : α → ρ}

/-- The comparison compares keys. -/
def Compares (less : α → α → Bool) (key : α → κ) : Prop :=
  ∀ left right, less left right = true ↔ key left < key right

/-- The order by key and then by place. -/
def Before (key : α → κ) (place : α → ρ) (left right : α) : Prop :=
  key left < key right ∨ key left = key right ∧ place left < place right

/-- Nothing stands in front of what stands in front of it. -/
theorem Before.asymm {left right : α} (h : Before key place left right) :
    ¬Before key place right left := by
  rcases h with hkey | ⟨hkey, hplace⟩
  · rintro (hother | ⟨hother, -⟩)
    · exact lt_asymm hkey hother
    · exact hkey.ne hother.symm
  · rintro (hother | ⟨-, hother⟩)
    · exact hother.ne hkey.symm
    · exact lt_asymm hplace hother

/-- Comparisons of the same keys agree. -/
theorem Compares.unique {less' : α → α → Bool} (h : Compares less key)
    (h' : Compares less' key) : less = less' := by
  funext left right
  exact Bool.eq_iff_iff.mpr ((h left right).trans (h' left right).symm)

theorem Compares.not_less_iff (h : Compares less key) {left right : α} :
    (!less right left) = true ↔ key left ≤ key right := by
  rw [Bool.not_eq_true', ← Bool.not_eq_true, h right left, not_lt]

theorem Compares.trans (h : Compares less key) (a b c : α) (hab : (!less b a) = true)
    (hbc : (!less c b) = true) : (!less c a) = true :=
  h.not_less_iff.mpr (le_trans (h.not_less_iff.mp hab) (h.not_less_iff.mp hbc))

theorem Compares.total (h : Compares less key) (a b : α) :
    ((!less b a) || (!less a b)) = true := by
  rw [Bool.or_eq_true, h.not_less_iff, h.not_less_iff]
  exact le_total _ _

theorem Compares.stable_sort_sorts (h : Compares less key) : Sorts less (stableSort less) where
  perm := stable_sort_perm less
  pairwise := List.pairwise_mergeSort h.trans h.total

theorem pairwise_key (h : Compares less key) (items : List α) :
    (stableSort less items).Pairwise fun left right => key left ≤ key right :=
  (h.stable_sort_sorts.pairwise items).imp fun hle => h.not_less_iff.mp hle

/-- A list that is in the order already stays as it is. -/
theorem stable_sort_of_pairwise (h : Compares less key) {items : List α}
    (hsorted : items.Pairwise fun left right => key left ≤ key right) :
    stableSort less items = items :=
  List.mergeSort_of_pairwise (hsorted.imp fun hle => h.not_less_iff.mpr hle)

/-- What is sorted with one more element is what was sorted, the smaller keys in front of it. -/
theorem stable_sort_cons (h : Compares less key) (a : α) (items : List α) :
    stableSort less (a :: items) =
      (stableSort less items).filter (fun b => less b a) ++
        a :: (stableSort less items).filter fun b => !less b a := by
  obtain ⟨front, behind, hsort, hrest, hfront⟩ := List.mergeSort_cons h.trans h.total a items
  have hkeys := pairwise_key h (a :: items)
  rw [stableSort, hsort] at hkeys ⊢
  have hfrontLess : ∀ b ∈ front, less b a = true := fun b hb => by
    have hless := hfront b hb
    rwa [Bool.not_not] at hless
  have hbehindLess : ∀ b ∈ behind, (!less b a) = true := fun b hb =>
    h.not_less_iff.mpr ((List.pairwise_cons.mp (List.pairwise_append.mp hkeys).2.1).1 b hb)
  rw [stableSort, hrest, List.filter_append, List.filter_append,
    List.filter_eq_self.mpr hfrontLess, List.filter_eq_self.mpr hbehindLess,
    List.filter_eq_nil_iff.mpr fun b hb => by simpa using hbehindLess b hb,
    List.filter_eq_nil_iff.mpr fun b hb => by simpa using hfrontLess b hb, List.append_nil,
    List.nil_append]

/-- A part of a list is sorted into a part of the sorted list. -/
theorem sublist_stable_sort (h : Compares less key) {part items : List α}
    (hpart : part.Sublist items) : (stableSort less part).Sublist (stableSort less items) := by
  induction hpart with
  | slnil => exact List.Sublist.refl _
  | cons a _ ih =>
    refine ih.trans ?_
    obtain ⟨front, behind, hsort, hrest, -⟩ := List.mergeSort_cons h.trans h.total a _
    rw [stableSort, stableSort, hsort, hrest]
    exact (List.Sublist.refl front).append (List.sublist_cons_self a behind)
  | cons_cons a _ ih =>
    rw [stable_sort_cons h, stable_sort_cons h]
    exact (ih.filter _).append ((ih.filter _).cons_cons a)

/-- Where the places increase, the sorted list is in the order of key and place. -/
theorem pairwise_stable_sort (h : Compares less key) {items : List α}
    (hplaces : items.Pairwise fun left right => place left < place right) :
    (stableSort less items).Pairwise (Before key place) := by
  induction items with
  | nil =>
    rw [stable_sort_nil]
    exact List.Pairwise.nil
  | cons a items ih =>
    obtain ⟨hfirst, hplaces⟩ := List.pairwise_cons.mp hplaces
    obtain ⟨front, behind, hsort, hrest, hfront⟩ := List.mergeSort_cons h.trans h.total a items
    have hkeys := pairwise_key h (a :: items)
    have hbefore := ih hplaces
    rw [stableSort, hsort] at hkeys ⊢
    rw [stableSort, hrest] at hbefore
    obtain ⟨hbeforeFront, hbeforeBehind, hbetween⟩ := List.pairwise_append.mp hbefore
    have hkeysBehind := (List.pairwise_cons.mp (List.pairwise_append.mp hkeys).2.1).1
    refine List.pairwise_append.mpr ⟨hbeforeFront, List.pairwise_cons.mpr
      ⟨fun b hb => ?_, hbeforeBehind⟩, fun b hb c hc => ?_⟩
    · -- what is sorted behind the first element has no smaller key, and its place is behind
      have hmem : b ∈ items := (List.mergeSort_perm items _).mem_iff.mp
        (hrest ▸ List.mem_append_right front hb)
      exact (hkeysBehind b hb).lt_or_eq.imp_right fun heq => ⟨heq, hfirst b hmem⟩
    · rcases List.mem_cons.mp hc with rfl | hc
      · -- what is sorted in front of it has a smaller key
        have hless := hfront b hb
        rw [Bool.not_not] at hless
        exact .inl ((h b c).mp hless)
      · exact hbetween b hb c hc

theorem compares_lex (h : ∀ left right, less left right = true ↔ Before key place left right) :
    Compares less fun item => toLex (key item, place item) := by
  intro left right
  rw [h left right, Prod.Lex.toLex_lt_toLex]
  rfl

/-- A comparison of keys, and of places where the keys are the same. -/
theorem compares_of_keys (hless : ∀ left right, less left right =
      if key left ≠ key right then decide (key left < key right)
      else decide (place left < place right)) :
    Compares less fun item => toLex (key item, place item) := by
  refine compares_lex fun left right => ?_
  rw [hless, Before]
  by_cases hkey : key left = key right
  · simp [hkey]
  · simp [hkey]

/-- Where a comparison by key and then by place finds nothing out of order and no two elements stand
at one place, the list is in the order of key and place. -/
theorem pairwise_before (h : ∀ left right, less left right = true ↔ Before key place left right)
    {sorted : List α} (hsorted : sorted.Pairwise fun left right => (!less right left) = true)
    (hplaces : sorted.Pairwise fun left right => place left ≠ place right) :
    sorted.Pairwise (Before key place) := by
  have hcompares := compares_lex h
  refine (hsorted.and hplaces).imp ?_
  rintro left right ⟨hle, hne⟩
  have hkeys := hcompares.not_less_iff.mp hle
  refine (h left right).mp ((hcompares left right).mpr (lt_of_le_of_ne hkeys fun heq => hne ?_))
  exact congrArg (fun both => (ofLex both).2) heq

/-- It sorts what stands at different places into that order, whatever order it comes in. -/
theorem pairwise_sort (h : ∀ left right, less left right = true ↔ Before key place left right)
    {items : List α} (hplaces : items.Pairwise fun left right => place left ≠ place right) :
    (stableSort less items).Pairwise (Before key place) := by
  have hcompares := compares_lex h
  exact pairwise_before h (hcompares.stable_sort_sorts.pairwise items)
    (((stable_sort_perm less items).pairwise_iff Ne.symm).mpr hplaces)

theorem Compares.reverse_sorts (h : Compares less key) :
    Sorts less fun items => stableSort less items.reverse where
  perm items := (stable_sort_perm less _).trans items.reverse_perm
  pairwise items := h.stable_sort_sorts.pairwise items.reverse

/-- Every sort brings a list into an order, whatever it does with equal keys, exactly when any two
elements are in the order in which their keys allow them to come. -/
theorem Compares.forall_sorts_iff (h : Compares less key) {R : α → α → Prop} {items : List α} :
    (∀ sort, Sorts less sort → (sort items).Pairwise R) ↔
      items.Pairwise fun left right =>
        (key left ≤ key right → R left right) ∧ (key right ≤ key left → R right left) := by
  constructor
  · intro hall
    rw [List.pairwise_iff_forall_sublist]
    intro left right hsub
    refine ⟨fun hle => ?_, fun hle => ?_⟩
    · -- the stable sort keeps them
      have hkept := List.pair_sublist_mergeSort h.trans h.total (h.not_less_iff.mpr hle) hsub
      exact List.pairwise_iff_forall_sublist.mp (hall _ h.stable_sort_sorts) hkept
    · -- a stable sort of the reversed list exchanges them
      have hturned : [right, left].Sublist items.reverse := hsub.reverse
      have hkept := List.pair_sublist_mergeSort h.trans h.total (h.not_less_iff.mpr hle) hturned
      exact List.pairwise_iff_forall_sublist.mp (hall _ h.reverse_sorts) hkept
  · intro hall sort hsort
    have hsorted := ((hsort.perm items).pairwise_iff fun hboth => hboth.symm).mpr hall
    refine ((hsort.pairwise items).and hsorted).imp ?_
    rintro left right ⟨hle, hboth, -⟩
    exact hboth (h.not_less_iff.mp hle)

/-- Sorting twice is sorting. -/
theorem Sorts.comp {sort sort' : List α → List α} (hsort : Sorts less sort)
    (hsort' : Sorts less sort') : Sorts less fun items => sort' (sort items) where
  perm items := (hsort'.perm _).trans (hsort.perm items)
  pairwise _ := hsort'.pairwise _

/-- The order of key and place is that of one list alone. -/
theorem eq_of_before {left right : List α} (hleft : left.Pairwise (Before key place))
    (hright : right.Pairwise (Before key place)) (hperm : left.Perm right) : left = right :=
  List.Perm.eq_of_pairwise (fun _ _ _ _ hab hba => absurd hba hab.asymm) hleft hright hperm

/-- A sort that is not stable has no choice either where no two elements stand at one place. -/
theorem Sorts.unique {sort : List α → List α} (hsort : Sorts less sort)
    (h : ∀ left right, less left right = true ↔ Before key place left right)
    {items : List α} (hplaces : items.Pairwise fun left right => place left ≠ place right) :
    sort items = stableSort less items :=
  eq_of_before (pairwise_before h (hsort.pairwise items)
      (((hsort.perm items).pairwise_iff Ne.symm).mpr hplaces))
    (pairwise_sort h hplaces) ((hsort.perm items).trans (stable_sort_perm less items).symm)

/-- A list in the order of key and place is the sorted list of what it holds. -/
theorem stable_sort_unique (h : Compares less key) {items sorted : List α}
    (hplaces : items.Pairwise fun left right => place left < place right)
    (hsorted : sorted.Pairwise (Before key place)) (hperm : sorted.Perm items) :
    sorted = stableSort less items :=
  eq_of_before hsorted (pairwise_stable_sort h hplaces)
    (hperm.trans (stable_sort_perm less items).symm)

theorem filter_of_places (h : Compares less key) {items : List α}
    (hplaces : items.Pairwise fun left right => place left < place right) (p : α → Bool) :
    (stableSort less items).filter p = stableSort less (items.filter p) :=
  stable_sort_unique h (hplaces.filter p) ((pairwise_stable_sort h hplaces).filter p)
    ((stable_sort_perm less items).filter p)

/-- Sorting commutes with filtering: the positions in the list serve as places. -/
theorem filter_stable_sort (h : Compares less key) (items : List α) (p : α → Bool) :
    (stableSort less items).filter p = stableSort less (items.filter p) := by
  let less' (left right : α × ℕ) : Bool := less left.1 right.1
  have hless' : Compares less' (fun item => key item.1) := fun left right => h left.1 right.1
  have hmap : ∀ placed : List (α × ℕ),
      (stableSort less' placed).map Prod.fst = stableSort less (placed.map Prod.fst) :=
    map_stable_sort fun _ _ => rfl
  have hplaces : items.zipIdx.Pairwise fun left right => left.2 < right.2 := by
    rw [← List.pairwise_map, List.zipIdx_map_snd]
    exact List.pairwise_lt_range'
  calc (stableSort less items).filter p
      = ((stableSort less' items.zipIdx).map Prod.fst).filter p := by
        rw [hmap, List.zipIdx_map_fst]
    _ = ((stableSort less' items.zipIdx).filter (p ∘ Prod.fst)).map Prod.fst := List.filter_map
    _ = (stableSort less' (items.zipIdx.filter (p ∘ Prod.fst))).map Prod.fst := by
        rw [filter_of_places (ρ := ℕ) hless' hplaces]
    _ = stableSort less ((items.zipIdx.map Prod.fst).filter p) := by
        rw [hmap, List.filter_map]
    _ = stableSort less (items.filter p) := by rw [List.zipIdx_map_fst]

end Keys

end StableSort
