import Mathlib.Algebra.BigOperators.Group.List.Basic
import Mathlib.Data.List.Induction
import Mathlib.Data.List.Nodup

/-!
# Summaries of items by key

A vector of summaries, one for each key, is filled by a loop that looks for the summary of an
item's key, appends a fresh one when there is none, and updates it. `collected` says what such a
loop leaves: no key twice, and for each key of the items the summary of its own items alone.

Where the loop chooses a group by anything else, `Placed` is what it keeps: each group holds the
items that were put at its place.
-/

namespace Grouping

/-- Items and the summaries of those with one key. -/
structure Summary (α γ κ : Type) where
  key : α → κ
  groupKey : γ → κ
  fresh : κ → γ
  update : γ → α → γ
  groupKey_fresh : ∀ k, groupKey (fresh k) = k
  groupKey_update : ∀ group item, groupKey (update group item) = groupKey group

namespace Summary

variable {α γ κ : Type} [DecidableEq κ] (s : Summary α γ κ)

/-- Update the first summary of the item's key, or append one. -/
def add (item : α) : List γ → List γ
  | [] => [s.update (s.fresh (s.key item)) item]
  | group :: groups =>
      if s.groupKey group = s.key item then s.update group item :: groups
      else group :: add item groups

/-- The groups after every item has been added to its group. -/
def collect (items : List α) : List γ :=
  items.foldl (fun groups item => s.add item groups) []

/-- The summary of the items with a key. -/
def groupOf (items : List α) (k : κ) : γ :=
  (items.filter fun item => s.key item = k).foldl s.update (s.fresh k)

/-- The group of a key has that key. -/
theorem groupKey_groupOf (items : List α) (k : κ) : s.groupKey (s.groupOf items k) = k := by
  have hall (group : γ) (items : List α) :
      s.groupKey (items.foldl s.update group) = s.groupKey group := by
    induction items generalizing group with
    | nil => rfl
    | cons item items ih => rw [List.foldl_cons, ih, s.groupKey_update]
  rw [groupOf, hall, s.groupKey_fresh]

theorem collect_concat (items : List α) (item : α) :
    s.collect (items ++ [item]) = s.add item (s.collect items) := by
  simp [collect]

theorem groupOf_concat (items : List α) (item : α) (k : κ) :
    s.groupOf (items ++ [item]) k =
      if s.key item = k then s.update (s.groupOf items k) item else s.groupOf items k := by
  by_cases h : s.key item = k
  · simp [groupOf, h]
  · simp [groupOf, h]

/-- A key that no item has begins a fresh group. -/
theorem groupOf_of_key_not_mem {items : List α} {k : κ} (h : k ∉ items.map s.key) :
    s.groupOf items k = s.fresh k := by
  have hnone : items.filter (fun item => s.key item = k) = [] := by
    rw [List.filter_eq_nil_iff]
    intro item hitem hkey
    exact h (List.mem_map.mpr ⟨item, hitem, by simpa using hkey⟩)
  rw [groupOf, hnone]
  rfl

/-- An item brings its key, once. -/
theorem keys_add (item : α) (groups : List γ) :
    (s.add item groups).map s.groupKey =
      if s.key item ∈ groups.map s.groupKey then groups.map s.groupKey
      else groups.map s.groupKey ++ [s.key item] := by
  induction groups with
  | nil => simp [add, s.groupKey_update, s.groupKey_fresh]
  | cons group groups ih =>
      unfold add
      by_cases h : s.groupKey group = s.key item
      · simp [h, s.groupKey_update]
      · rw [if_neg h, List.map_cons, ih]
        by_cases hmem : s.key item ∈ groups.map s.groupKey
        · rw [if_pos hmem, List.map_cons, if_pos (List.mem_cons_of_mem _ hmem)]
        · rw [if_neg hmem, List.map_cons, if_neg (by simpa [Ne.symm h] using hmem)]
          rfl

/-- The summaries behind an item: the others, and the updated or fresh one of its key. -/
theorem mem_add {item : α} {groups : List γ} {group : γ}
    (hnodup : (groups.map s.groupKey).Nodup) (h : group ∈ s.add item groups) :
    (group ∈ groups ∧ s.groupKey group ≠ s.key item) ∨
      (∃ old ∈ groups, s.groupKey old = s.key item ∧ group = s.update old item) ∨
      (s.key item ∉ groups.map s.groupKey ∧ group = s.update (s.fresh (s.key item)) item) := by
  induction groups with
  | nil => exact Or.inr (Or.inr ⟨by simp, List.mem_singleton.mp h⟩)
  | cons first groups ih =>
      rw [List.map_cons, List.nodup_cons] at hnodup
      unfold add at h
      by_cases hfirst : s.groupKey first = s.key item
      · rw [if_pos hfirst] at h
        rcases List.mem_cons.mp h with rfl | hrest
        · exact Or.inr (Or.inl ⟨first, List.mem_cons_self, hfirst, rfl⟩)
        · refine Or.inl ⟨List.mem_cons_of_mem _ hrest, fun hkey => hnodup.1 ?_⟩
          exact List.mem_map.mpr ⟨group, hrest, hkey.trans hfirst.symm⟩
      · rw [if_neg hfirst] at h
        rcases List.mem_cons.mp h with rfl | hrest
        · exact Or.inl ⟨List.mem_cons_self, hfirst⟩
        · rcases ih hnodup.2 hrest with ⟨hmem, hne⟩ | ⟨old, hold, hkey, rfl⟩ | ⟨hnew, rfl⟩
          · exact Or.inl ⟨List.mem_cons_of_mem _ hmem, hne⟩
          · exact Or.inr (Or.inl ⟨old, List.mem_cons_of_mem _ hold, hkey, rfl⟩)
          · exact Or.inr (Or.inr ⟨by simpa [Ne.symm hfirst] using hnew, rfl⟩)

/-- What the loop leaves of the items. -/
structure Collected (items : List α) (groups : List γ) : Prop where
  nodup : (groups.map s.groupKey).Nodup
  keys : ∀ k, k ∈ groups.map s.groupKey ↔ k ∈ items.map s.key
  exact : ∀ group ∈ groups, group = s.groupOf items (s.groupKey group)

/-- A further item keeps the groups collected. -/
theorem Collected.concat {items : List α} {groups : List γ} (h : s.Collected items groups)
    (item : α) : s.Collected (items ++ [item]) (s.add item groups) := by
  refine ⟨?_, ?_, ?_⟩
  · rw [keys_add]
    by_cases hmem : s.key item ∈ groups.map s.groupKey
    · rw [if_pos hmem]
      exact h.nodup
    · rw [if_neg hmem]
      exact List.nodup_append.mpr ⟨h.nodup, List.nodup_singleton _, fun k hk other hother => by
        rw [List.mem_singleton.mp hother]
        rintro rfl
        exact hmem hk⟩
  · intro k
    rw [keys_add, List.map_append, List.mem_append, ← h.keys k]
    by_cases hmem : s.key item ∈ groups.map s.groupKey
    · rw [if_pos hmem]
      refine ⟨Or.inl, fun hk => hk.elim id fun hk => ?_⟩
      rwa [List.mem_singleton.mp hk]
    · rw [if_neg hmem, List.mem_append]
      rfl
  · intro group hgroup
    rw [groupOf_concat]
    rcases s.mem_add h.nodup hgroup with ⟨hold, hne⟩ | ⟨old, hold, hkey, rfl⟩ | ⟨hnew, rfl⟩
    · rw [if_neg (Ne.symm hne)]
      exact h.exact group hold
    · rw [s.groupKey_update, if_pos hkey.symm, ← h.exact old hold]
    · have hfresh : s.groupOf items (s.key item) = s.fresh (s.key item) :=
        s.groupOf_of_key_not_mem fun hmem => hnew ((h.keys _).mpr hmem)
      rw [s.groupKey_update, s.groupKey_fresh, if_pos rfl, hfresh]

/-- The groups of a list are collected. -/
theorem collected (items : List α) : s.Collected items (s.collect items) := by
  induction items using List.reverseRecOn with
  | nil => exact ⟨List.nodup_nil, by simp [collect], by simp [collect]⟩
  | append_singleton items item ih =>
      rw [collect_concat]
      exact ih.concat s item

/-- The summary of a key is the only one with it. -/
theorem Collected.filter_key {items : List α} {groups : List γ} (h : s.Collected items groups)
    {k : κ} (hk : k ∈ items.map s.key) :
    groups.filter (fun group => s.groupKey group = k) = [s.groupOf items k] := by
  have hcount : (groups.filter fun group => s.groupKey group = k).length = 1 := by
    have hone := List.count_eq_one_of_mem h.nodup ((h.keys k).mpr hk)
    rw [List.count, List.countP_map, List.countP_eq_length_filter] at hone
    rw [← hone]
    congr 1
  refine (List.eq_replicate_iff.mpr ⟨hcount, fun group hgroup => ?_⟩).trans List.replicate_one
  obtain ⟨hmem, hkey⟩ := List.mem_filter.mp hgroup
  rw [h.exact group hmem, of_decide_eq_true hkey]

/-- The items of the keys of a list without repetitions are all items, each once. -/
theorem sum_by_key {M : Type} [AddCommMonoid M] {keys : List κ} (hnodup : keys.Nodup)
    (cost : α → M) {items : List α} (hkeys : ∀ item ∈ items, s.key item ∈ keys) :
    (keys.map fun k => ((items.filter fun item => s.key item = k).map cost).sum).sum =
      (items.map cost).sum := by
  induction items with
  | nil => simp
  | cons item items ih =>
      obtain ⟨hitem, hitems⟩ := List.forall_mem_cons.mp hkeys
      have hsplit (k : κ) :
          (((item :: items).filter fun item => s.key item = k).map cost).sum =
            (if s.key item = k then cost item else 0) +
              ((items.filter fun item => s.key item = k).map cost).sum := by
        by_cases h : s.key item = k
        · simp [h]
        · simp [h]
      -- the cost of the first item is counted at its key alone
      have hfirst : (keys.map fun k => if s.key item = k then cost item else 0).sum =
          cost item := by
        rw [List.sum_map_eq_nsmul_single (s.key item) _ fun k hk _ => if_neg (Ne.symm hk),
          List.count_eq_one_of_mem hnodup hitem, one_nsmul, if_pos rfl]
      simp only [hsplit, List.sum_map_add, ih hitems, hfirst, List.map_cons, List.sum_cons]

end Summary

/-! ## Groups at places -/

section Places

variable {α β : Type}

/-- Put an item into the group at a place, or into a new one behind all groups. -/
def putAt (groups : List (List α)) (position : ℕ) (item : α) : List (List α) :=
  if position < groups.length then groups.modify position (· ++ [item]) else groups ++ [[item]]

variable (place : β → ℕ) (item : β → α)

/-- The items of the entries at a place. -/
def itemsAt (entries : List β) (position : ℕ) : List α :=
  (entries.filter fun entry => place entry = position).map item

/-- Each group holds the items at its place, and there are no others. -/
structure Placed (entries : List β) (groups : List (List α)) : Prop where
  place_lt : ∀ entry ∈ entries, place entry < groups.length
  group_eq : ∀ position group, groups[position]? = some group →
    group = itemsAt place item entries position

theorem items_at_concat (entries : List β) (entry : β) (position : ℕ) :
    itemsAt place item (entries ++ [entry]) position =
      itemsAt place item entries position ++
        if place entry = position then [item entry] else [] := by
  by_cases h : place entry = position
  · simp [itemsAt, h]
  · simp [itemsAt, h]

/-- No group is lost when an item is put. -/
theorem length_put_at_ge (groups : List (List α)) (position : ℕ) (item : α) :
    groups.length ≤ (putAt groups position item).length := by
  unfold putAt
  split
  · exact Nat.le_of_eq (List.length_modify ..).symm
  · rw [List.length_append]
    exact Nat.le_add_right _ _

variable {place item} {entries : List β} {groups : List (List α)}

variable (place item) in
theorem Placed.nil : Placed place item [] [] :=
  ⟨List.forall_mem_nil _, fun _ _ hgroup => nomatch hgroup⟩

theorem Placed.items_at_length (h : Placed place item entries groups) :
    itemsAt place item entries groups.length = [] := by
  rw [itemsAt, List.map_eq_nil_iff, List.filter_eq_nil_iff]
  intro entry hentry hplace
  exact Nat.ne_of_lt (h.place_lt entry hentry) (of_decide_eq_true hplace)

/-- A further entry, at a group that exists or the next, keeps the entries placed. -/
theorem Placed.concat (h : Placed place item entries groups) (entry : β)
    (hplace : place entry ≤ groups.length) :
    Placed place item (entries ++ [entry]) (putAt groups (place entry) (item entry)) := by
  constructor
  · intro other hother
    rcases List.mem_append.mp hother with hother | hother
    · exact Nat.lt_of_lt_of_le (h.place_lt other hother) (length_put_at_ge ..)
    · rw [List.mem_singleton.mp hother]
      unfold putAt
      split
      · next hlt => rwa [List.length_modify]
      · rw [List.length_append]
        exact Nat.lt_succ_of_le hplace
  · intro position group hgroup
    rw [items_at_concat]
    unfold putAt at hgroup
    split at hgroup
    · next hlt =>
      rw [List.getElem?_modify, Option.map_eq_map, Option.map_eq_some_iff] at hgroup
      obtain ⟨old, hold, rfl⟩ := hgroup
      rw [← h.group_eq position old hold]
      split
      · rfl
      · rw [List.append_nil]
    · next hlt =>
      -- the new group is the last one, where nothing was put before
      have hlast : place entry = groups.length := Nat.le_antisymm hplace (Nat.not_lt.mp hlt)
      rw [List.getElem?_append] at hgroup
      split at hgroup
      · next hposition =>
        rw [if_neg (hlast.trans_ne (Nat.ne_of_gt hposition)), List.append_nil]
        exact h.group_eq position group hgroup
      · next hposition =>
        have hzero := (List.getElem?_eq_some_iff.mp hgroup).1
        rw [List.length_singleton] at hzero
        obtain rfl : position = groups.length := by omega
        rw [Nat.sub_self, List.getElem?_cons_zero] at hgroup
        rw [if_pos hlast, h.items_at_length, ← Option.some.inj hgroup]
        rfl

/-- The placed groups are the items of each position. -/
theorem Placed.groups_eq (h : Placed place item entries groups) :
    groups = (List.range groups.length).map (itemsAt place item entries) := by
  refine List.ext_getElem? fun position => ?_
  rw [List.getElem?_map]
  cases hgroup : groups[position]? with
  | none =>
    rw [List.getElem?_eq_none_iff] at hgroup
    rw [List.getElem?_eq_none (by rwa [List.length_range])]
    rfl
  | some group =>
    have hlt := (List.getElem?_eq_some_iff.mp hgroup).1
    rw [List.getElem?_range hlt, Option.map_some, ← h.group_eq position group hgroup]

/-- No group has more items than there are tags, where its items all have different ones. -/
theorem length_items_at_le {tag : β → ℕ} {n : ℕ} (htag : ∀ entry ∈ entries, tag entry < n)
    (hnodup : (entries.map fun entry => (tag entry, place entry)).Nodup) (position : ℕ) :
    (itemsAt place item entries position).length ≤ n := by
  have htags : ((entries.filter fun entry => place entry = position).map tag).Nodup := by
    rw [List.Nodup, List.pairwise_map] at hnodup ⊢
    refine (hnodup.filter _).imp_of_mem fun hleft hright hne htag => hne ?_
    have hleft := of_decide_eq_true (List.mem_filter.mp hleft).2
    have hright := of_decide_eq_true (List.mem_filter.mp hright).2
    rw [htag, hleft, hright]
  have hrange : ((entries.filter fun entry => place entry = position).map tag) ⊆ List.range n := by
    intro found hfound
    obtain ⟨entry, hentry, rfl⟩ := List.mem_map.mp hfound
    exact List.mem_range.mpr (htag entry (List.mem_of_mem_filter hentry))
  have hlength := (List.subperm_of_subset htags hrange).length_le
  rwa [List.length_map, List.length_range, ← List.length_map item] at hlength

end Places

end Grouping
