import Mathlib.Data.Set.Lattice
import Mathlib.Order.Interval.Set.Basic
import Mathlib.Order.MinMax

/-!
# Sweeps that join neighbours

A sweep goes through a list in order and joins each element to the last one that it holds, or puts
it behind that one where the two are apart. Where a join covers what its two parts cover, the sweep
covers what the list does: `cover_sweep`. Intervals that touch are joined so. What a sweep holds is
separated where apart elements are: `pairwise_sweep`, and intervals with points between them are the
only ones that cover what they do: `eq_of_cover`.
-/

namespace Sweeping

variable {ι α : Type}

section Sweeps

variable (apart : ι → ι → Bool) (join : ι → ι → ι)

/-- Join a range to the last one, or put it behind it where the two are apart. -/
def push (merged : List ι) (range : ι) : List ι :=
  match merged.getLast? with
  | none => merged ++ [range]
  | some back =>
      if apart back range then merged ++ [range] else merged.dropLast ++ [join back range]

/-- One pass over ranges in order. -/
def sweep (ranges : List ι) : List ι :=
  ranges.foldl (push apart join) []

@[simp] theorem push_nil (range : ι) : push apart join [] range = [range] := rfl

@[simp] theorem push_concat (front : List ι) (back range : ι) :
    push apart join (front ++ [back]) range =
      if apart back range then front ++ [back] ++ [range] else front ++ [join back range] := by
  simp [push]

/-- What holds of the elements and of those that are joined holds of every element of a sweep. -/
theorem forall_mem_foldl_push {p : ι → Prop}
    (hjoin : ∀ back range, apart back range = false → p back → p range → p (join back range))
    {merged ranges : List ι}
    (hmerged : ∀ range ∈ merged, p range) (hranges : ∀ range ∈ ranges, p range) :
    ∀ range ∈ ranges.foldl (push apart join) merged, p range := by
  induction ranges generalizing merged with
  | nil => exact hmerged
  | cons range ranges ih =>
    obtain ⟨hrange, hranges⟩ := List.forall_mem_cons.mp hranges
    refine ih ?_ hranges
    rcases List.eq_nil_or_concat merged with rfl | ⟨front, back, rfl⟩
    · simpa using hrange
    · rw [List.concat_eq_append] at hmerged ⊢
      obtain ⟨hfront, hback⟩ := List.forall_mem_append.mp hmerged
      rw [List.forall_mem_singleton] at hback
      rw [push_concat]
      split
      · exact List.forall_mem_append.mpr ⟨hmerged, List.forall_mem_singleton.mpr hrange⟩
      · next happart =>
        exact List.forall_mem_append.mpr ⟨hfront, List.forall_mem_singleton.mpr
          (hjoin back range (Bool.eq_false_iff.mpr happart) hback hrange)⟩

variable {apart join} {before separated : ι → ι → Prop}

/-- Of elements in order, a join has only to keep what holds of an element and of one behind it. -/
theorem forall_mem_foldl_push_of_sorted {p : ι → Prop}
    (hjoin : ∀ back range, before back range → apart back range = false → p back → p range →
      p (join back range))
    (hkeeps : ∀ back range next, p back → p range → before back next →
      before (join back range) next)
    {merged ranges : List ι} (hmerged : ∀ range ∈ merged, p range)
    (hranges : ∀ range ∈ ranges, p range) (hsorted : ranges.Pairwise before)
    (hlast : ∀ back ∈ merged.getLast?, ∀ range ∈ ranges, before back range) :
    ∀ range ∈ ranges.foldl (push apart join) merged, p range := by
  induction ranges generalizing merged with
  | nil => exact hmerged
  | cons range ranges ih =>
    obtain ⟨hrange, hranges⟩ := List.forall_mem_cons.mp hranges
    obtain ⟨hbefore, hsorted⟩ := List.pairwise_cons.mp hsorted
    rcases List.eq_nil_or_concat merged with rfl | ⟨front, back, rfl⟩
    · refine ih (List.forall_mem_singleton.mpr hrange) hranges hsorted fun last hlast => ?_
      rw [push_nil, List.getLast?_singleton] at hlast
      rw [← Option.some.inj hlast]
      exact hbefore
    · rw [List.concat_eq_append] at hmerged hlast
      obtain ⟨hfront, hback⟩ := List.forall_mem_append.mp hmerged
      rw [List.forall_mem_singleton] at hback
      have hbehind := hlast back (by rw [List.getLast?_concat]; rfl)
      obtain ⟨hthis, hnext⟩ := List.forall_mem_cons.mp hbehind
      rw [List.foldl_cons, List.concat_eq_append, push_concat]
      split
      · refine ih (List.forall_mem_append.mpr ⟨hmerged, List.forall_mem_singleton.mpr hrange⟩)
          hranges hsorted fun last hlast => ?_
        rw [List.getLast?_concat] at hlast
        rw [← Option.some.inj hlast]
        exact hbefore
      · next happart =>
        have hjoined := hjoin back range hthis (Bool.eq_false_iff.mpr happart) hback hrange
        refine ih (List.forall_mem_append.mpr ⟨hfront, List.forall_mem_singleton.mpr hjoined⟩)
          hranges hsorted fun last hlast next hmem => ?_
        rw [List.getLast?_concat] at hlast
        rw [← Option.some.inj hlast]
        exact hkeeps back range next hback hrange (hnext next hmem)

/-- What a sweep of elements in order holds is separated, if elements that are apart are separated
and no join goes back in front of its first part. -/
theorem pairwise_foldl_push
    (happart : ∀ back range, before back range → apart back range = true → separated back range)
    (hbehind : ∀ front back range, separated front back → before back range →
      separated front range)
    (hjoin : ∀ front back range, separated front back → separated front (join back range))
    (hkeeps : ∀ back range next, before back next → before range next →
      before (join back range) next)
    {merged ranges : List ι} (hmerged : merged.Pairwise separated)
    (hsorted : ranges.Pairwise before)
    (hlast : ∀ back ∈ merged.getLast?, ∀ range ∈ ranges, before back range) :
    (ranges.foldl (push apart join) merged).Pairwise separated := by
  induction ranges generalizing merged with
  | nil => exact hmerged
  | cons range ranges ih =>
    obtain ⟨hrange, hsorted⟩ := List.pairwise_cons.mp hsorted
    rcases List.eq_nil_or_concat merged with rfl | ⟨front, back, rfl⟩
    · refine ih (List.pairwise_singleton _ _) hsorted fun last hlast => ?_
      rw [push_nil, List.getLast?_singleton] at hlast
      rw [← Option.some.inj hlast]
      exact hrange
    · rw [List.concat_eq_append] at hmerged hlast
      obtain ⟨hfront, -, hback⟩ := List.pairwise_append.mp hmerged
      have hback : ∀ held ∈ front, separated held back := fun held hheld =>
        hback held hheld back (List.mem_singleton_self back)
      have hbefore := hlast back (by rw [List.getLast?_concat]; rfl)
      rw [List.foldl_cons, List.concat_eq_append, push_concat]
      split
      · next hgap =>
        refine ih (List.pairwise_append.mpr ⟨hmerged, List.pairwise_singleton _ _, ?_⟩) hsorted
          fun last hlast => ?_
        · have hthis := hbefore range List.mem_cons_self
          intro held hheld other hother
          rw [List.mem_singleton.mp hother]
          rcases List.mem_append.mp hheld with hheld | hheld
          · exact hbehind held back range (hback held hheld) hthis
          · rw [List.mem_singleton.mp hheld]
            exact happart back range hthis hgap
        · rw [List.getLast?_concat] at hlast
          rw [← Option.some.inj hlast]
          exact hrange
      · refine ih (List.pairwise_append.mpr ⟨hfront, List.pairwise_singleton _ _, ?_⟩) hsorted
          fun last hlast next hnext => ?_
        · intro held hheld other hother
          rw [List.mem_singleton.mp hother]
          exact hjoin held back range (hback held hheld)
        · rw [List.getLast?_concat] at hlast
          rw [← Option.some.inj hlast]
          exact hkeeps back range next (hbefore next (List.mem_cons_of_mem _ hnext))
            (hrange next hnext)

/-- The swept ranges are separated, when joining keeps what is separated. -/
theorem pairwise_sweep
    (happart : ∀ back range, before back range → apart back range = true → separated back range)
    (hbehind : ∀ front back range, separated front back → before back range →
      separated front range)
    (hjoin : ∀ front back range, separated front back → separated front (join back range))
    (hkeeps : ∀ back range next, before back next → before range next →
      before (join back range) next)
    {ranges : List ι} (hsorted : ranges.Pairwise before) :
    (sweep apart join ranges).Pairwise separated :=
  pairwise_foldl_push happart hbehind hjoin hkeeps List.Pairwise.nil hsorted (by simp)

end Sweeps

/-! ## What a sweep covers -/

/-- The points of the elements of a list. -/
def cover (points : ι → Set α) (ranges : List ι) : Set α :=
  {t | ∃ range ∈ ranges, t ∈ points range}

section Covers

variable {points : ι → Set α}

theorem mem_cover {ranges : List ι} {t : α} :
    t ∈ cover points ranges ↔ ∃ range ∈ ranges, t ∈ points range := Iff.rfl

@[simp] theorem cover_nil : cover points [] = ∅ := by
  simp [cover]

@[simp] theorem cover_singleton (range : ι) : cover points [range] = points range := by
  simp [cover]

theorem cover_append (front behind : List ι) :
    cover points (front ++ behind) = cover points front ∪ cover points behind := by
  ext t
  simp only [mem_cover, Set.mem_union, List.mem_append, or_and_right, exists_or]

/-- The order of the elements does not matter. -/
theorem cover_perm {ranges ranges' : List ι} (h : ranges.Perm ranges') :
    cover points ranges = cover points ranges' := by
  ext t
  simp only [mem_cover, h.mem_iff]

theorem cover_cons (range : ι) (ranges : List ι) :
    cover points (range :: ranges) = points range ∪ cover points ranges := by
  have hcons : cover points ([range] ++ ranges) = _ := cover_append [range] ranges
  rwa [cover_singleton] at hcons

theorem cover_map {κ : Type} (f : κ → ι) (items : List κ) :
    cover points (items.map f) = cover (fun item => points (f item)) items := by
  ext t
  simp only [mem_cover, List.mem_map, exists_exists_and_eq_and]

variable {apart : ι → ι → Bool} {join : ι → ι → ι} {before : ι → ι → Prop}

/-- A sweep loses no points, if no join does. -/
theorem cover_subset_foldl_push
    (hjoin : ∀ back range, points back ∪ points range ⊆ points (join back range))
    (merged ranges : List ι) :
    cover points merged ∪ cover points ranges ⊆
      cover points (ranges.foldl (push apart join) merged) := by
  induction ranges generalizing merged with
  | nil => rw [List.foldl_nil, cover_nil, Set.union_empty]
  | cons range ranges ih =>
    have hpush : cover points merged ∪ points range ⊆
        cover points (push apart join merged range) := by
      rcases List.eq_nil_or_concat merged with rfl | ⟨front, back, rfl⟩
      · rw [push_nil, cover_nil, Set.empty_union, cover_singleton]
      · rw [List.concat_eq_append, push_concat]
        split
        · rw [cover_append (front ++ [back]), cover_singleton]
        · rw [cover_append, cover_append, cover_singleton, cover_singleton, Set.union_assoc]
          exact Set.union_subset_union_right _ (hjoin back range)
    rw [cover_cons, ← Set.union_assoc]
    exact (Set.union_subset_union_left _ hpush).trans (ih _)

/-- A sweep of elements in order covers what they cover, if joining an element to one before it
covers both and stays before what follows. -/
theorem cover_foldl_push
    (hjoin : ∀ back range, before back range → apart back range = false →
      points (join back range) = points back ∪ points range)
    (hkeeps : ∀ back range next, before back next → before (join back range) next)
    {merged ranges : List ι} (hsorted : ranges.Pairwise before)
    (hlast : ∀ back ∈ merged.getLast?, ∀ range ∈ ranges, before back range) :
    cover points (ranges.foldl (push apart join) merged) =
      cover points merged ∪ cover points ranges := by
  induction ranges generalizing merged with
  | nil => rw [List.foldl_nil, cover_nil, Set.union_empty]
  | cons range ranges ih =>
    obtain ⟨hrange, hsorted⟩ := List.pairwise_cons.mp hsorted
    -- what one round covers, and what it leaves at the end
    obtain ⟨hcover, hback⟩ : cover points (push apart join merged range) =
          cover points merged ∪ points range ∧
        ∀ back ∈ (push apart join merged range).getLast?, ∀ next ∈ ranges, before back next := by
      rcases List.eq_nil_or_concat merged with rfl | ⟨front, back, rfl⟩
      · rw [push_nil, cover_nil, Set.empty_union, cover_singleton]
        refine ⟨rfl, fun back hback => ?_⟩
        rw [List.getLast?_singleton] at hback
        rw [← Option.some.inj hback]
        exact hrange
      · rw [List.concat_eq_append] at hlast ⊢
        have hbefore := hlast back (by rw [List.getLast?_concat]; rfl)
        rw [push_concat]
        split
        · rw [cover_append, cover_singleton]
          refine ⟨rfl, fun last hlast => ?_⟩
          rw [List.getLast?_concat] at hlast
          rw [← Option.some.inj hlast]
          exact hrange
        · next happart =>
          rw [cover_append, cover_append, cover_singleton, cover_singleton, Set.union_assoc,
            hjoin back range (hbefore range List.mem_cons_self) (Bool.eq_false_iff.mpr happart)]
          refine ⟨rfl, fun last hlast next hnext => ?_⟩
          rw [List.getLast?_concat] at hlast
          rw [← Option.some.inj hlast]
          exact hkeeps back range next (hbefore next (List.mem_cons_of_mem _ hnext))
    rw [List.foldl_cons, ih hsorted hback, hcover, Set.union_assoc, ← cover_cons]

/-- A sweep of sorted ranges covers what they cover. -/
theorem cover_sweep
    (hjoin : ∀ back range, before back range → apart back range = false →
      points (join back range) = points back ∪ points range)
    (hkeeps : ∀ back range next, before back next → before (join back range) next)
    {ranges : List ι} (hsorted : ranges.Pairwise before) :
    cover points (sweep apart join ranges) = cover points ranges := by
  rw [sweep, cover_foldl_push hjoin hkeeps hsorted (by simp), cover_nil,
    Set.empty_union]

end Covers

/-! ## Intervals -/

section Intervals

variable [LinearOrder α] {a b c d : α}

/-- Two intervals with no point between them make one. -/
theorem Icc_union_of_touching (hstart : a ≤ c) (htouch : ∀ t, b < t → c ≤ t) :
    Set.Icc a (max b d) = Set.Icc a b ∪ Set.Icc c d := by
  ext t
  simp only [Set.mem_union, Set.mem_Icc, le_max_iff]
  constructor
  · rintro ⟨hat, htb | htd⟩
    · exact .inl ⟨hat, htb⟩
    · rcases le_or_gt t b with htb | hbt
      · exact .inl ⟨hat, htb⟩
      · exact .inr ⟨htouch t hbt, htd⟩
  · rintro (⟨hat, htb⟩ | ⟨hct, htd⟩)
    · exact ⟨hat, .inl htb⟩
    · exact ⟨hstart.trans hct, .inr htd⟩

/-- Two intervals that are not empty meet exactly when each starts before the other ends. -/
theorem Icc_meet_iff (hleft : a ≤ b) (hright : c ≤ d) :
    (Set.Icc a b ∩ Set.Icc c d).Nonempty ↔ a ≤ d ∧ c ≤ b := by
  rw [Set.Icc_inter_Icc, Set.nonempty_Icc, sup_le_iff, le_inf_iff, le_inf_iff]
  exact ⟨fun h => ⟨h.1.2, h.2.1⟩, fun h => ⟨⟨hleft, h.1⟩, h.2, hright⟩⟩

variable {lo hi : ι → α}

/-- Behind the first interval stand the points that its end is below. -/
theorem cover_tail {x : ι} {ranges : List ι}
    (hgaps : (x :: ranges).Pairwise fun x y => ∃ t, hi x < t ∧ t < lo y) :
    cover (fun x => Set.Icc (lo x) (hi x)) ranges =
      {t ∈ cover (fun x => Set.Icc (lo x) (hi x)) (x :: ranges) | hi x < t} := by
  ext t
  constructor
  · rintro ⟨y, hy, hlo, hhi⟩
    obtain ⟨gap, hbehind, hfront⟩ := (List.pairwise_cons.mp hgaps).1 y hy
    exact ⟨⟨y, List.mem_cons_of_mem x hy, hlo, hhi⟩, hbehind.trans (hfront.trans_le hlo)⟩
  · rintro ⟨⟨y, hy, hlo, hhi⟩, hbehind⟩
    rcases List.mem_cons.mp hy with rfl | hy
    · exact absurd hhi hbehind.not_ge
    · exact ⟨y, hy, hlo, hhi⟩

/-- No interval starts in front of the first one that covers the same. -/
theorem lo_le_of_cover {x y : ι} {left right : List ι}
    (hgaps : (x :: left).Pairwise fun x y => ∃ t, hi x < t ∧ t < lo y) (hx : lo x ≤ hi x)
    (hy : lo y ≤ hi y)
    (hcover : cover (fun x => Set.Icc (lo x) (hi x)) (y :: right) ⊆
      cover (fun x => Set.Icc (lo x) (hi x)) (x :: left)) : lo x ≤ lo y := by
  obtain ⟨z, hz, hlo, -⟩ := hcover ⟨y, List.mem_cons_self, le_rfl, hy⟩
  rcases List.mem_cons.mp hz with rfl | hz
  · exact hlo
  · obtain ⟨gap, hbehind, hfront⟩ := (List.pairwise_cons.mp hgaps).1 z hz
    exact hx.trans (hbehind.trans (hfront.trans_le hlo)).le

/-- Between the first interval and all of the others stands a point. -/
theorem exists_gap {x y : ι} {ranges : List ι}
    (hgaps : (x :: y :: ranges).Pairwise fun x y => ∃ t, hi x < t ∧ t < lo y)
    (hvalid : lo y ≤ hi y) : ∃ t, hi x < t ∧ ∀ z ∈ y :: ranges, t < lo z := by
  obtain ⟨hx, hgaps⟩ := List.pairwise_cons.mp hgaps
  obtain ⟨t, hbehind, hfront⟩ := hx y List.mem_cons_self
  refine ⟨t, hbehind, List.forall_mem_cons.mpr ⟨hfront, fun z hz => ?_⟩⟩
  obtain ⟨next, hnext, hz⟩ := (List.pairwise_cons.mp hgaps).1 z hz
  exact hfront.trans (hvalid.trans_lt (hnext.trans hz))

/-- No interval that starts in front of the first one's end reaches behind it. -/
theorem hi_le_of_cover {x y : ι} {left right : List ι}
    (hgaps : (x :: left).Pairwise fun x y => ∃ t, hi x < t ∧ t < lo y)
    (hvalid : ∀ z ∈ left, lo z ≤ hi z) (hy : lo y ≤ hi y) (hlo : lo y ≤ hi x)
    (hcover : cover (fun x => Set.Icc (lo x) (hi x)) (y :: right) ⊆
      cover (fun x => Set.Icc (lo x) (hi x)) (x :: left)) : hi y ≤ hi x := by
  by_contra hlong
  rw [not_le] at hlong
  -- the end of `y` is in a later interval, and the point in front of all of these is in `y`
  obtain ⟨z, hz, hstart, hend⟩ := hcover ⟨y, List.mem_cons_self, hy, le_rfl⟩
  rcases List.mem_cons.mp hz with rfl | hz
  · exact absurd hend hlong.not_ge
  · cases left with
    | nil => exact absurd hz List.not_mem_nil
    | cons w left =>
      obtain ⟨t, hbehind, hfront⟩ := exists_gap hgaps (hvalid w List.mem_cons_self)
      have ht : t ∈ Set.Icc (lo y) (hi y) :=
        ⟨hlo.trans hbehind.le, ((hfront z hz).trans_le hstart).le⟩
      obtain ⟨v, hv, hlov, hhiv⟩ := hcover ⟨y, List.mem_cons_self, ht⟩
      rcases List.mem_cons.mp hv with rfl | hv
      · exact absurd hhiv hbehind.not_ge
      · exact absurd hlov (hfront v hv).not_ge

/-- Intervals in order with a point between each two are the only ones that cover what they do. -/
theorem eq_of_cover (hext : ∀ x y, lo x = lo y → hi x = hi y → x = y) {left right : List ι}
    (hleft : left.Pairwise fun x y => ∃ t, hi x < t ∧ t < lo y)
    (hright : right.Pairwise fun x y => ∃ t, hi x < t ∧ t < lo y)
    (hvalid : ∀ x ∈ left, lo x ≤ hi x) (hvalid' : ∀ x ∈ right, lo x ≤ hi x)
    (hcover : cover (fun x => Set.Icc (lo x) (hi x)) left =
      cover (fun x => Set.Icc (lo x) (hi x)) right) : left = right := by
  induction left generalizing right with
  | nil =>
    cases right with
    | nil => rfl
    | cons y right =>
      have hy : lo y ∈ cover (fun x => Set.Icc (lo x) (hi x)) (y :: right) :=
        ⟨y, List.mem_cons_self, le_rfl, hvalid' y List.mem_cons_self⟩
      rw [← hcover] at hy
      obtain ⟨x, hx, -⟩ := hy
      exact absurd hx List.not_mem_nil
  | cons x left ih =>
    cases right with
    | nil =>
      have hx : lo x ∈ cover (fun x => Set.Icc (lo x) (hi x)) (x :: left) :=
        ⟨x, List.mem_cons_self, le_rfl, hvalid x List.mem_cons_self⟩
      rw [hcover] at hx
      obtain ⟨y, hy, -⟩ := hx
      exact absurd hy List.not_mem_nil
    | cons y right =>
      obtain ⟨hx, htail⟩ := List.forall_mem_cons.mp hvalid
      obtain ⟨hy, htail'⟩ := List.forall_mem_cons.mp hvalid'
      have hlo : lo x = lo y := (lo_le_of_cover hleft hx hy hcover.ge).antisymm
        (lo_le_of_cover hright hy hx hcover.le)
      have hhi : hi x = hi y :=
        (hi_le_of_cover hright htail' hx (hlo.trans_le hy) hcover.le).antisymm
          (hi_le_of_cover hleft htail hy (hlo.symm.trans_le hx) hcover.ge)
      have hsame : x = y := hext x y hlo hhi
      subst hsame
      congr 1
      refine ih (List.pairwise_cons.mp hleft).2 (List.pairwise_cons.mp hright).2
        htail htail' ?_
      rw [cover_tail hleft, cover_tail hright, hcover]

end Intervals

end Sweeping
