import Mathlib.Data.List.Chain

/-!
# Greedy blocks

Items are put at the end of a block until one of them is blocked there, and begins the next block.
The blocks are the items in their order, no block holds an item that was blocked behind those in
front of it, and no block ends early.
-/

namespace GreedyBlocks

variable {α : Type} (blocked : List α → α → Bool)

/-- The blocks of the items behind a block that was begun. -/
def split (current : List α) : List α → List (List α)
  | [] => [current]
  | item :: items =>
      if blocked current item then current :: split [item] items
      else split (current ++ [item]) items

variable {blocked}

/-- No item of a block but the first was blocked behind those in front of it. -/
def Fits (blocked : List α → α → Bool) (block : List α) : Prop :=
  ∀ front item rest, block = front ++ item :: rest → front ≠ [] → blocked front item = false

theorem fits_singleton (item : α) : Fits blocked [item] := by
  intro front other rest hblock hfront
  have hlength := congrArg List.length hblock
  simp only [List.length_append, List.length_cons, List.length_nil] at hlength
  exact absurd (List.length_eq_zero_iff.mp (by omega)) hfront

/-- A block that fits has room for an item that is not blocked. -/
theorem Fits.concat {block : List α} {item : α} (h : Fits blocked block)
    (hitem : blocked block item = false) : Fits blocked (block ++ [item]) := by
  intro front other rest hblock hfront
  rcases rest.eq_nil_or_concat' with rfl | ⟨rest, last, rfl⟩
  · obtain ⟨rfl, hsame⟩ := List.append_inj' hblock rfl
    rwa [← List.singleton_inj.mp hsame]
  · have hsplit : block ++ [item] = (front ++ other :: rest) ++ [last] := by
      rw [hblock, List.append_assoc]
      rfl
    exact h front other rest (List.append_inj' hsplit rfl).1 hfront

/-- The front of a block that fits does. -/
theorem Fits.front {block : List α} {item : α} (h : Fits blocked (block ++ [item])) :
    Fits blocked block := by
  intro front other rest hblock
  exact h front other (rest ++ [item]) (by rw [hblock, List.append_assoc]; rfl)

/-- What holds between an item that is not blocked and the last one in front of it holds between all
neighbours of a block that fits. -/
theorem Fits.isChain {R : α → α → Prop} {block : List α} (h : Fits blocked block)
    (hR : ∀ front item, (front ++ [item]) <+: block → front ≠ [] → blocked front item = false →
      ∀ last ∈ front.getLast?, R last item) : block.IsChain R := by
  induction block using List.reverseRecOn with
  | nil => exact List.isChain_nil
  | append_singleton block item ih =>
      refine List.isChain_append.mpr ⟨ih h.front ?_, List.isChain_singleton _, ?_⟩
      · intro front other hfront
        exact hR front other (hfront.trans (List.prefix_append _ _))
      · intro last hlast first hfirst
        obtain rfl : item = first := Option.some.inj hfirst
        have hnonempty : block ≠ [] := by
          rintro rfl
          cases hlast
        exact hR block item List.prefix_rfl hnonempty (h block item [] rfl hnonempty) last hlast

/-- The blocks are the items in their order. -/
theorem flatten_split (current items : List α) :
    (split blocked current items).flatten = current ++ items := by
  induction items generalizing current with
  | nil => simp [split]
  | cons item items ih =>
      unfold split
      by_cases h : blocked current item = true
      · rw [if_pos h, List.flatten_cons, ih]
        rfl
      · rw [if_neg h, ih, List.append_assoc]
        rfl

/-- What holds of the block that was begun and of every new block, and is kept by an item that is
not blocked, holds of all blocks. -/
theorem forall_mem_split {motive : List α → Prop} (hsingle : ∀ item, motive [item])
    (hconcat : ∀ block item, motive block → blocked block item = false → motive (block ++ [item]))
    {current items : List α} (h : motive current) :
    ∀ block ∈ split blocked current items, motive block := by
  induction items generalizing current with
  | nil => simpa [split] using h
  | cons item items ih =>
      unfold split
      by_cases hitem : blocked current item = true
      · rw [if_pos hitem]
        intro block hblock
        rcases List.mem_cons.mp hblock with rfl | hblock
        · exact h
        · exact ih (hsingle item) block hblock
      · rw [if_neg hitem]
        exact ih (hconcat current item h (Bool.eq_false_iff.mpr hitem))

/-- Every block fits. -/
theorem fits_of_mem_split {current items : List α} (h : Fits blocked current) :
    ∀ block ∈ split blocked current items, Fits blocked block :=
  forall_mem_split fits_singleton (fun _ _ hblock hitem => hblock.concat hitem) h

/-- No block is empty, unless the first one is and stays so. -/
theorem ne_nil_of_mem_split {current items : List α} (h : current ≠ []) :
    ∀ block ∈ split blocked current items, block ≠ [] :=
  forall_mem_split (motive := fun block => block ≠ []) (fun item => List.cons_ne_nil item [])
    (fun _ _ hblock _ => List.append_ne_nil_of_left_ne_nil hblock _) h

/-- The first block begins with the one that was begun. -/
theorem head_split (current items : List α) :
    ∃ more blocks, split blocked current items = (current ++ more) :: blocks := by
  induction items generalizing current with
  | nil => exact ⟨[], [], by simp [split]⟩
  | cons item items ih =>
      unfold split
      by_cases hitem : blocked current item = true
      · exact ⟨[], split blocked [item] items, by rw [if_pos hitem, List.append_nil]⟩
      · obtain ⟨more, blocks, hsplit⟩ := ih (current ++ [item])
        exact ⟨item :: more, blocks, by rw [if_neg hitem, hsplit, List.append_assoc]; rfl⟩

/-- The first item of a block was blocked in the block in front of it. -/
theorem split_boundaries (current items : List α) :
    (split blocked current items).IsChain fun block next =>
      ∃ first rest, next = first :: rest ∧ blocked block first = true := by
  induction items generalizing current with
  | nil => exact List.isChain_singleton _
  | cons item items ih =>
      unfold split
      by_cases hitem : blocked current item = true
      · rw [if_pos hitem]
        obtain ⟨more, blocks, hsplit⟩ := @head_split _ blocked [item] items
        have hrest := ih [item]
        rw [hsplit] at hrest ⊢
        exact List.isChain_cons_cons.mpr ⟨⟨item, more, rfl, hitem⟩, hrest⟩
      · rw [if_neg hitem]
        exact ih _

/-! ## Fewest blocks -/

/-- Items are blocked where the block would lose a property with them that every part of a block
with the property has. -/
structure Hereditary (blocked : List α → α → Bool) (good : List α → Prop) : Prop where
  blocked_iff : ∀ block item, block ≠ [] → (blocked block item = true ↔ ¬good (block ++ [item]))
  front : ∀ front behind, good (front ++ behind) → good front
  behind : ∀ front behind, good (front ++ behind) → good behind

section Fewest

variable {good : List α → Prop}

theorem split_cons (current : List α) (item : α) (items : List α) :
    split blocked current (item :: items) =
      if blocked current item then current :: split blocked [item] items
      else split blocked (current ++ [item]) items := rfl

/-- With less in its first block a split has at most one block less, and no more. -/
theorem Hereditary.split_behind (h : Hereditary blocked good) (front : List α) {behind : List α}
    (hbehind : behind ≠ []) (items : List α) :
    (split blocked behind items).length ≤ (split blocked (front ++ behind) items).length ∧
      (split blocked (front ++ behind) items).length ≤
        (split blocked behind items).length + 1 := by
  induction items generalizing front behind with
  | nil => exact ⟨Nat.le_refl 1, Nat.le_succ 1⟩
  | cons item items ih =>
      have hwhole := h.blocked_iff (front ++ behind) item
        (List.append_ne_nil_of_right_ne_nil _ hbehind)
      have hpart := h.blocked_iff behind item hbehind
      rw [split_cons, split_cons]
      by_cases hitem : blocked behind item = true
      · -- what is blocked behind the part is blocked behind the whole
        have hblocked : blocked (front ++ behind) item = true := by
          refine hwhole.mpr fun hgood => hpart.mp hitem ?_
          rw [List.append_assoc] at hgood
          exact h.behind front _ hgood
        rw [if_pos hitem, if_pos hblocked]
        exact ⟨Nat.le_refl _, Nat.le_succ _⟩
      · rw [if_neg hitem]
        by_cases hblocked : blocked (front ++ behind) item = true
        · rw [if_pos hblocked, List.length_cons]
          obtain ⟨hless, hmore⟩ := ih behind (List.cons_ne_nil item [])
          exact ⟨hmore, Nat.succ_le_succ hless⟩
        · rw [if_neg hblocked, List.append_assoc]
          exact ih front (List.append_ne_nil_of_left_ne_nil hbehind _)

/-- Items that a block has room for all go into it. -/
theorem Hereditary.split_good (h : Hereditary blocked good) {block : List α} (hblock : block ≠ [])
    (more items : List α) (hgood : good (block ++ more)) :
    split blocked block (more ++ items) = split blocked (block ++ more) items := by
  induction more generalizing block with
  | nil => rw [List.append_nil, List.nil_append]
  | cons item more ih =>
      have hroom : ¬blocked block item = true := by
        rw [h.blocked_iff block item hblock, not_not]
        rw [List.append_cons] at hgood
        exact h.front _ more hgood
      rw [List.append_cons] at hgood
      rw [List.cons_append, split_cons, if_neg hroom, List.append_cons block item more]
      exact ih (List.append_ne_nil_of_left_ne_nil hblock _) hgood

/-- No division of the items into good parts has fewer parts than the split. -/
theorem Hereditary.length_split_le (h : Hereditary blocked good) {first : α} {items : List α}
    {parts : List (List α)} (hparts : parts.flatten = first :: items)
    (hgood : ∀ part ∈ parts, good part) : (split blocked [first] items).length ≤ parts.length := by
  induction parts generalizing first items with
  | nil => cases hparts
  | cons part parts ih =>
      obtain ⟨hpart, hothers⟩ := List.forall_mem_cons.mp hgood
      rw [List.flatten_cons] at hparts
      rcases part with _ | ⟨item, part⟩
      · exact (ih hparts hothers).trans (Nat.le_succ _)
      · rw [List.cons_append] at hparts
        obtain ⟨rfl, rfl⟩ := List.cons.inj hparts
        rw [h.split_good (List.cons_ne_nil item []) part parts.flatten hpart]
        rcases hrest : parts.flatten with _ | ⟨next, rest⟩
        · exact Nat.succ_le_succ (Nat.zero_le _)
        · refine le_trans ?_ (Nat.succ_le_succ (ih hrest hothers))
          -- at most one block more than a split that begins behind the part
          rw [split_cons]
          by_cases hnext : blocked ([item] ++ part) next = true
          · rw [if_pos hnext, List.length_cons]
          · rw [if_neg hnext]
            exact (h.split_behind ([item] ++ part) (List.cons_ne_nil next []) rest).2

end Fewest

end GreedyBlocks
