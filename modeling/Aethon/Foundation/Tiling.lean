import Mathlib.Algebra.BigOperators.Group.List.Basic
import Mathlib.Data.List.Chain
import Mathlib.Order.Interval.Set.LinearOrder
import Aethon.Foundation.Sweeping

/-!
# Tilings of an interval

Pieces in a row, none of them empty, each beginning where the one before it ends. `Tiles.cover` says
that they cover the half-open interval between their ends, and `Tiles.sum_pieces` that what is
added up piece by piece is what is added up over the interval.
-/

namespace Tiling

variable {ι α : Type} [LinearOrder α] {lo hi : ι → α}

/-- The pieces tile the interval from `a` up to `b`. -/
inductive Tiles (lo hi : ι → α) : α → α → List ι → Prop
  | nil (a : α) : Tiles lo hi a a []
  | cons {a b : α} {piece : ι} {rest : List ι} (hlo : lo piece = a) (hpiece : lo piece < hi piece)
      (hrest : Tiles lo hi (hi piece) b rest) : Tiles lo hi a b (piece :: rest)

theorem tiles_cons_iff {a b : α} {piece : ι} {rest : List ι} :
    Tiles lo hi a b (piece :: rest) ↔
      lo piece = a ∧ lo piece < hi piece ∧ Tiles lo hi (hi piece) b rest := by
  constructor
  · intro h
    cases h with
    | cons hlo hpiece hrest => exact ⟨hlo, hpiece, hrest⟩
  · rintro ⟨hlo, hpiece, hrest⟩
    exact .cons hlo hpiece hrest

namespace Tiles

variable {a b : α} {pieces : List ι}

theorem le (h : Tiles lo hi a b pieces) : a ≤ b := by
  induction h with
  | nil => exact le_rfl
  | cons hlo hpiece _ ih => exact (hlo ▸ hpiece.le).trans ih

/-- An interval that is not empty has a piece. -/
theorem ne_nil (h : Tiles lo hi a b pieces) (hlt : a < b) : pieces ≠ [] := by
  rintro rfl
  cases h
  exact lt_irrefl _ hlt

theorem pieces_lt (h : Tiles lo hi a b pieces) : ∀ piece ∈ pieces, lo piece < hi piece := by
  induction h with
  | nil => exact List.forall_mem_nil _
  | cons _ hpiece _ ih => exact List.forall_mem_cons.mpr ⟨hpiece, ih⟩

/-- No piece reaches out of the interval. -/
theorem pieces_within (h : Tiles lo hi a b pieces) :
    ∀ piece ∈ pieces, a ≤ lo piece ∧ hi piece ≤ b := by
  induction h with
  | nil => exact List.forall_mem_nil _
  | cons hlo hpiece hrest ih =>
      refine List.forall_mem_cons.mpr ⟨⟨hlo.ge, hrest.le⟩, fun piece hmem => ?_⟩
      exact ⟨(hlo ▸ hpiece.le).trans (ih piece hmem).1, (ih piece hmem).2⟩

/-- The first tile begins at the start. -/
theorem head (h : Tiles lo hi a b pieces) : ∀ piece ∈ pieces.head?, lo piece = a := by
  cases h with
  | nil => exact fun _ hnone => absurd hnone (Option.not_mem_none _)
  | cons hlo _ _ =>
      intro piece hpiece
      rwa [← Option.some.inj hpiece]

/-- The last tile ends at the end. -/
theorem getLast (h : Tiles lo hi a b pieces) : ∀ piece ∈ pieces.getLast?, hi piece = b := by
  induction h with
  | nil => exact fun _ hnone => absurd hnone (Option.not_mem_none _)
  | @cons _ _ piece rest hlo hpiece hrest ih =>
      intro last hlast
      cases rest with
      | nil =>
          cases hrest
          rw [← Option.some.inj hlast]
          rfl
      | cons next rest =>
          rw [List.getLast?_cons_cons] at hlast
          exact ih last hlast

/-- Each piece begins where the one before it ends. -/
theorem isChain (h : Tiles lo hi a b pieces) :
    pieces.IsChain fun left right => hi left = lo right := by
  induction h with
  | nil => exact List.isChain_nil
  | @cons _ _ piece rest hlo hpiece hrest ih =>
      cases hrest with
      | nil => exact List.isChain_singleton _
      | cons hnext _ _ => exact List.isChain_cons_cons.mpr ⟨hnext.symm, ih⟩

/-- Pieces in a row tile the interval from the start of the first to the end of the last. -/
theorem of_isChain (hne : pieces ≠ []) (hpieces : ∀ piece ∈ pieces, lo piece < hi piece)
    (hchain : pieces.IsChain fun left right => hi left = lo right)
    (hhead : ∀ piece ∈ pieces.head?, lo piece = a)
    (hlast : ∀ piece ∈ pieces.getLast?, hi piece = b) : Tiles lo hi a b pieces := by
  induction pieces generalizing a with
  | nil => exact absurd rfl hne
  | cons piece rest ih =>
      obtain ⟨hpiece, hrest⟩ := List.forall_mem_cons.mp hpieces
      refine .cons (hhead piece rfl) hpiece ?_
      cases rest with
      | nil =>
          rw [hlast piece rfl]
          exact .nil b
      | cons next rest =>
          obtain ⟨hnext, hchain⟩ := List.isChain_cons_cons.mp hchain
          refine ih (List.cons_ne_nil _ _) hrest hchain (fun first hfirst => ?_) hlast
          rw [← Option.some.inj hfirst]
          exact hnext.symm

/-- The pieces are in ascending order. -/
theorem pairwise (h : Tiles lo hi a b pieces) :
    pieces.Pairwise fun left right => hi left ≤ lo right := by
  induction h with
  | nil => exact List.Pairwise.nil
  | cons _ _ hrest ih =>
      exact List.pairwise_cons.mpr ⟨fun piece hmem => (hrest.pieces_within piece hmem).1, ih⟩

/-- The pieces cover the interval. -/
theorem cover (h : Tiles lo hi a b pieces) :
    Sweeping.cover (fun piece => Set.Ico (lo piece) (hi piece)) pieces = Set.Ico a b := by
  induction h with
  | nil => rw [Sweeping.cover_nil, Set.Ico_self]
  | @cons _ _ piece rest hlo hpiece hrest ih =>
      rw [Sweeping.cover_cons, ih, Set.Ico_union_Ico_eq_Ico hpiece.le hrest.le, hlo]

/-! ### Items in the pieces -/

/-- A point lies in one piece where it lies in the interval, and in none elsewhere. -/
theorem countP_pieces (h : Tiles lo hi a b pieces) (x : α) :
    (pieces.countP fun piece => lo piece ≤ x ∧ x < hi piece) = if a ≤ x ∧ x < b then 1 else 0 := by
  induction h with
  | nil a =>
      rw [List.countP_nil, if_neg fun hx => absurd hx.1 hx.2.not_ge]
  | @cons a b piece rest hlo hpiece hrest ih =>
      rw [List.countP_cons, ih, hlo]
      have hle := hrest.le
      by_cases hx : x < hi piece
      · rw [if_neg fun hbehind => absurd hbehind.1 hx.not_ge, Nat.zero_add]
        refine if_congr ?_ rfl rfl
        simp [hx, hx.trans_le hle]
      · have hpast := not_lt.mp hx
        have hfirst : a ≤ x := (hlo ▸ hpiece.le).trans hpast
        simp [hx, hpast, hfirst]

/-- What is in one of two parts that have nothing in common adds up to the sum of both. -/
theorem sum_split {κ β : Type} [AddCommMonoid β] {left right : κ → Bool} (weight : κ → β)
    (hdisjoint : ∀ item, left item = true → right item = false) (items : List κ) :
    ((items.filter fun item => left item || right item).map weight).sum =
      ((items.filter left).map weight).sum + ((items.filter right).map weight).sum := by
  induction items with
  | nil => exact (add_zero _).symm
  | cons item items ih =>
      cases hleft : left item with
      | true =>
          have hright := hdisjoint item hleft
          simp only [List.filter_cons, hleft, hright, Bool.true_or, Bool.false_eq_true, if_true,
            if_false, List.map_cons, List.sum_cons]
          rw [ih, add_assoc]
      | false =>
          cases hright : right item with
          | true =>
              simp only [List.filter_cons, hleft, hright, Bool.or_true, Bool.false_eq_true,
                if_true, if_false, List.map_cons, List.sum_cons]
              rw [ih, add_left_comm]
          | false =>
              simp only [List.filter_cons, hleft, hright, Bool.or_false, Bool.false_eq_true,
                if_false]
              exact ih

/-- The items of the pieces add up to those of the interval. -/
theorem sum_pieces {κ β : Type} [AddCommMonoid β] (h : Tiles lo hi a b pieces) (place : κ → α)
    (weight : κ → β) (items : List κ) :
    (pieces.map fun piece => ((items.filter fun item =>
        lo piece ≤ place item ∧ place item < hi piece).map weight).sum).sum =
      ((items.filter fun item => a ≤ place item ∧ place item < b).map weight).sum := by
  induction h with
  | nil a =>
      have hnone : (items.filter fun item => a ≤ place item ∧ place item < a) = [] :=
        List.filter_eq_nil_iff.mpr fun item _ => by simp
      rw [hnone]
      rfl
  | @cons a b piece rest hlo hpiece hrest ih =>
      have hfirst : a < hi piece := hlo ▸ hpiece
      have hle := hrest.le
      rw [List.map_cons, List.sum_cons, ih, hlo, ← sum_split weight fun item hleft => ?_]
      · congr 2
        refine List.filter_congr fun item _ => ?_
        rw [← Bool.decide_or]
        refine decide_eq_decide.mpr ⟨fun hor => ?_, fun hand => ?_⟩
        · rcases hor with hleft | hright
          · exact ⟨hleft.1, hleft.2.trans_le hle⟩
          · exact ⟨hfirst.le.trans hright.1, hright.2⟩
        · rcases lt_or_ge (place item) (hi piece) with hfront | hback
          · exact Or.inl ⟨hand.1, hfront⟩
          · exact Or.inr ⟨hback, hand.2⟩
      · have hfront := (of_decide_eq_true hleft).2
        exact decide_eq_false fun hright => absurd hright.1 hfront.not_ge

end Tiles

/-- A tiling by naturals has no more pieces than there are numbers. -/
theorem length_le {lo hi : ι → ℕ} {a b : ℕ} {pieces : List ι} (h : Tiles lo hi a b pieces) :
    pieces.length ≤ b - a := by
  induction h with
  | nil => exact Nat.zero_le _
  | cons hlo hpiece hrest ih =>
      have hle := hrest.le
      rw [List.length_cons]
      omega

end Tiling
