import Aethon.Foundation.Extremum
import Aethon.Foundation.StableSort

/-!
# Selection sort

Taking the first smallest element out of a list again and again gives the list in stable order, so a
queue that is served by `std::min_element` or `std::max_element` is served in the order of one
`std::stable_sort`. Read `stable_sort_of_min_element`: the element found is the head of the sorted
list, and what is left sorts to its tail.
-/

namespace SelectionSort

open Extremum StableSort

variable {α κ : Type} [LinearOrder κ] {less : α → α → Bool} {key : α → κ}

/-! ## The first smallest element -/

/-- An entry of a list before which every key is larger and behind which no key is smaller. -/
structure FirstLeast (key : α → κ) (xs : List α) (found : α × ℕ) : Prop where
  getElem?_eq : xs[found.2]? = some found.1
  least : ∀ x ∈ xs, key found.1 ≤ key x
  first : ∀ x ∈ xs.take found.2, key found.1 < key x

/-- One more entry at the end of the pass. -/
theorem FirstLeast.snoc (h : Compares less key) {xs : List α} {found : α × ℕ}
    (hfound : FirstLeast key xs found) (x : α) :
    FirstLeast key (xs ++ [x]) (if less x found.1 then (x, xs.length) else found) := by
  have hlt : found.2 < xs.length := (List.getElem?_eq_some_iff.mp hfound.getElem?_eq).1
  split
  · rename_i hless
    have hsmaller : key x < key found.1 := (h x found.1).mp hless
    refine ⟨List.getElem?_concat_length, fun other hother => ?_, fun earlier hearlier => ?_⟩
    · rcases List.mem_append.mp hother with hother | hother
      · exact hsmaller.le.trans (hfound.least other hother)
      · rw [List.mem_singleton.mp hother]
    · rw [List.take_left] at hearlier
      exact hsmaller.trans_le (hfound.least earlier hearlier)
  · rename_i hnot
    have hle : key found.1 ≤ key x := not_lt.mp fun hsmaller => hnot ((h x found.1).mpr hsmaller)
    refine ⟨?_, fun other hother => ?_, fun earlier hearlier => ?_⟩
    · rw [List.getElem?_append_left hlt]
      exact hfound.getElem?_eq
    · rcases List.mem_append.mp hother with hother | hother
      · exact hfound.least other hother
      · rw [List.mem_singleton.mp hother]
        exact hle
    · rw [List.take_append_of_le_length hlt.le] at hearlier
      exact hfound.first earlier hearlier

/-- The pass of `minElement` from an element that is the first least of what is behind it. -/
theorem FirstLeast.foldl (h : Compares less key) (behind : List α) {xs : List α} {found : α × ℕ}
    (hfound : FirstLeast key xs found) :
    FirstLeast key (xs ++ behind) ((behind.zipIdx xs.length).foldl
      (fun smallest entry => if less entry.1 smallest.1 then entry else smallest) found) := by
  induction behind generalizing xs found with
  | nil =>
      rw [List.append_nil]
      exact hfound
  | cons x behind ih =>
      have hnext := ih (hfound.snoc h x)
      rw [List.append_assoc, List.singleton_append, List.length_append] at hnext
      exact hnext

/-- Where the comparison compares keys, the element found is the first one of the smallest key. -/
theorem first_least_of_min_element (h : Compares less key) {xs : List α} {found : α × ℕ}
    (hfound : minElement less xs = some found) : FirstLeast key xs found := by
  cases xs with
  | nil => cases hfound
  | cons x behind =>
      rw [← Option.some.inj hfound]
      have hstart : FirstLeast key [x] (x, 0) := by
        refine ⟨rfl, fun other hother => ?_, ?_⟩
        · rw [List.mem_singleton.mp hother]
        · rintro _ ⟨⟩
      exact hstart.foldl h behind

theorem min_element_eq_none {xs : List α} (h : minElement less xs = none) : xs = [] := by
  cases xs with
  | nil => rfl
  | cons x behind => cases h

/-! ## Taking it out -/

/-- The first of the smallest elements heads the sorted list, and the others follow it in their own
order. -/
theorem stable_sort_of_places {ρ : Type} [LinearOrder ρ] {place : α → ρ} (h : Compares less key)
    {front behind : List α} {a : α}
    (hplaces : (front ++ a :: behind).Pairwise fun left right => place left < place right)
    (hfront : ∀ x ∈ front, key a < key x) (hbehind : ∀ x ∈ behind, key a ≤ key x) :
    stableSort less (front ++ a :: behind) = a :: stableSort less (front ++ behind) := by
  obtain ⟨hplacesFront, hplacesBehind, hbetween⟩ := List.pairwise_append.mp hplaces
  obtain ⟨hafter, hplacesBehind⟩ := List.pairwise_cons.mp hplacesBehind
  have hrest : (front ++ behind).Pairwise fun left right => place left < place right :=
    List.pairwise_append.mpr ⟨hplacesFront, hplacesBehind, fun x hx y hy =>
      hbetween x hx y (List.mem_cons_of_mem _ hy)⟩
  symm
  refine stable_sort_unique h hplaces
    (List.pairwise_cons.mpr ⟨fun x hx => ?_, pairwise_stable_sort h hrest⟩)
    (((stable_sort_perm less _).cons a).trans List.perm_middle.symm)
  rcases List.mem_append.mp ((stable_sort_perm less _).mem_iff.mp hx) with hx | hx
  · exact .inl (hfront x hx)
  · exact (hbehind x hx).lt_or_eq.imp_right fun heq => ⟨heq, hafter x hx⟩

/-- The positions in the list serve as places. -/
theorem stable_sort_of_first (h : Compares less key) {front behind : List α} {a : α}
    (hfront : ∀ x ∈ front, key a < key x) (hbehind : ∀ x ∈ behind, key a ≤ key x) :
    stableSort less (front ++ a :: behind) = a :: stableSort less (front ++ behind) := by
  have hplaces : (front ++ a :: behind).zipIdx.Pairwise fun left right => left.2 < right.2 := by
    rw [← List.pairwise_map, List.zipIdx_map_snd]
    exact List.pairwise_lt_range'
  let less' (left right : α × ℕ) : Bool := less left.1 right.1
  have hless' : Compares less' (fun item => key item.1) := fun left right => h left.1 right.1
  have hmap : ∀ placed : List (α × ℕ),
      (stableSort less' placed).map Prod.fst = stableSort less (placed.map Prod.fst) :=
    map_stable_sort fun _ _ => rfl
  rw [List.zipIdx_append, List.zipIdx_cons] at hplaces
  have hsort := congrArg (List.map Prod.fst) (stable_sort_of_places hless' hplaces
    (fun x hx => hfront x.1 (List.fst_mem_of_mem_zipIdx hx))
    (fun x hx => hbehind x.1 (List.fst_mem_of_mem_zipIdx hx)))
  rw [List.map_cons, hmap, hmap] at hsort
  simpa only [List.map_append, List.map_cons, List.zipIdx_map_fst] using hsort

/-- The element found heads the sorted list, and what is left without it sorts to the tail. -/
theorem stable_sort_of_min_element (h : Compares less key) {xs : List α} {found : α × ℕ}
    (hfound : minElement less xs = some found) :
    stableSort less xs = found.1 :: stableSort less (xs.eraseIdx found.2) := by
  obtain ⟨hget, hleast, hfirst⟩ := first_least_of_min_element h hfound
  obtain ⟨hlt, hget⟩ := List.getElem?_eq_some_iff.mp hget
  have hsplit : xs.take found.2 ++ found.1 :: xs.drop (found.2 + 1) = xs := by
    rw [← hget, ← List.drop_eq_getElem_cons hlt, List.take_append_drop]
  have hbehind : ∀ x ∈ xs.drop (found.2 + 1), key found.1 ≤ key x :=
    fun x hx => hleast x (List.mem_of_mem_drop hx)
  have hsort := stable_sort_of_first h hfirst hbehind
  rw [hsplit] at hsort
  rw [hsort, List.eraseIdx_eq_take_drop_succ]

end SelectionSort
