import Aethon.Foundation.SortedTable
import Mathlib.Data.List.Basic

/-!
# Differences of sorted tables

The difference of two tables goes through the keys of both in order, and says of each key whether
its value was added, removed or changed. It is empty exactly for equal tables: `diff_eq_nil_iff`.
Where the entries have opposites, the difference the other way holds the opposites: `diff_swap`.
Tables are also filled from lists of values that carry their keys (`ofValues`), and sets are tables
of keys alone (`setOf`).
-/

namespace SortedTable

variable {κ β ε : Type} [LT κ] [LE κ] [DecidableEq κ] [DecidableLT κ] [Std.LawfulOrderLT κ]
  [Std.IsLinearOrder κ]

/-! ## Tables of values and of keys -/

/-- The values under their keys, later ones in place of earlier ones. -/
def ofValues (key : β → κ) (values : List β) : SortedTable κ β :=
  values.foldl (fun table value => table.insert (key value) value) ∅

/-- The keys of a list, each once. -/
def setOf (keys : List κ) : SortedTable κ Unit :=
  keys.foldl (fun table key => table.insert key ()) ∅

omit [LE κ] [DecidableLT κ] [Std.LawfulOrderLT κ] [Std.IsLinearOrder κ] in
@[simp] theorem lookup_empty (key : κ) : (∅ : SortedTable κ β).lookup key = none := rfl

/-- A table of values with distinct keys has each value under its key. -/
theorem lookup_foldl_insert {key : β → κ} {values : List β} (hnodup : (values.map key).Nodup)
    (table : SortedTable κ β) {k : κ} {value : β} :
    (values.foldl (fun table value => table.insert (key value) value) table).lookup k =
        some value ↔
      value ∈ values ∧ key value = k ∨ k ∉ values.map key ∧ table.lookup k = some value := by
  induction values generalizing table with
  | nil => simp
  | cons first values ih =>
      obtain ⟨hfirst, hnodup⟩ := List.nodup_cons.mp hnodup
      rw [List.foldl_cons, ih hnodup, lookup_insert, List.map_cons, List.mem_cons, List.mem_cons]
      by_cases hk : k = key first
      · have hnone : ∀ value ∈ values, key value ≠ key first := fun value hvalue hsame =>
          hfirst (hsame ▸ List.mem_map_of_mem hvalue)
        subst hk
        simp only [hfirst, not_false_eq_true, if_true, Option.some.injEq, true_and, not_true,
          false_and, or_false]
        constructor
        · rintro (⟨hvalue, hsame⟩ | rfl)
          · exact absurd hsame (hnone value hvalue)
          · exact ⟨.inl rfl, rfl⟩
        · rintro ⟨rfl | hvalue, hsame⟩
          · exact .inr rfl
          · exact absurd hsame (hnone value hvalue)
      · rw [if_neg hk]
        constructor
        · rintro (⟨hvalue, hsame⟩ | ⟨hnot, hfound⟩)
          · exact .inl ⟨.inr hvalue, hsame⟩
          · exact .inr ⟨by simp [hk, hnot], hfound⟩
        · rintro (⟨rfl | hvalue, hsame⟩ | ⟨hnot, hfound⟩)
          · exact absurd hsame.symm hk
          · exact .inl ⟨hvalue, hsame⟩
          · exact .inr ⟨fun hmem => hnot (.inr hmem), hfound⟩

/-- Values of different keys are found under these. -/
theorem lookup_ofValues {key : β → κ} {values : List β} (hnodup : (values.map key).Nodup) {k : κ}
    {value : β} : (ofValues key values).lookup k = some value ↔ value ∈ values ∧ key value = k := by
  rw [ofValues, lookup_foldl_insert hnodup]
  simp

/-- Tables of values of different keys are equal exactly if the same values are in both. -/
theorem ofValues_eq_iff {key : β → κ} {left right : List β} (hleft : (left.map key).Nodup)
    (hright : (right.map key).Nodup) :
    (∀ k, (ofValues key left).lookup k = (ofValues key right).lookup k) ↔
      ∀ value, value ∈ left ↔ value ∈ right := by
  constructor
  · intro h value
    have hvalue : (ofValues key left).lookup (key value) = some value ↔ _ := lookup_ofValues hleft
    rw [h, lookup_ofValues hright] at hvalue
    simpa using hvalue.symm
  · intro h k
    refine Option.ext fun value => ?_
    rw [lookup_ofValues hleft, lookup_ofValues hright, h]

omit [DecidableLT κ] [Std.IsLinearOrder κ] in
theorem mem_keys_iff {table : SortedTable κ β} {key : κ} :
    key ∈ table.keys ↔ ∃ value, table.lookup key = some value := by
  simp only [keys, List.mem_map, Prod.exists, exists_and_right, exists_eq_right, mem_entries_iff]

@[simp] theorem mem_keys_setOf {keys : List κ} {key : κ} :
    key ∈ (setOf keys).keys ↔ key ∈ keys := by
  have hall (table : SortedTable κ Unit) :
      key ∈ (keys.foldl (fun table key => table.insert key ()) table).keys ↔
        key ∈ table.keys ∨ key ∈ keys := by
    induction keys generalizing table with
    | nil => simp
    | cons first keys ih =>
        rw [List.foldl_cons, ih, mem_keys_iff, mem_keys_iff, List.mem_cons, ← or_assoc]
        refine or_congr_left ?_
        rw [lookup_insert]
        by_cases hkey : key = first
        · simp [hkey]
        · simp [hkey]
  rw [setOf, hall]
  simp [mem_keys_iff]

/-- Equal sets come in the same order. -/
theorem keys_setOf_congr {left right : List κ} (h : ∀ key, key ∈ left ↔ key ∈ right) :
    (setOf left).keys = (setOf right).keys := by
  refine congrArg keys (ext_lookup fun key => Option.ext fun mark => ?_)
  have hmem : key ∈ (setOf left).keys ↔ key ∈ (setOf right).keys := by
    rw [mem_keys_setOf, mem_keys_setOf, h]
  rw [mem_keys_iff, mem_keys_iff] at hmem
  exact ⟨fun hleft => (hmem.mp ⟨mark, hleft⟩).elim fun _ hright => hright,
    fun hright => (hmem.mpr ⟨mark, hright⟩).elim fun _ hleft => hleft⟩

/-! ## Differences -/

section Differences

variable (added removed : κ → β → ε) (changed : κ → β → β → Option ε)

/-- What is said of a key. -/
def diffAt (before after : SortedTable κ β) (key : κ) : List ε :=
  match before.lookup key, after.lookup key with
  | none, none => []
  | none, some value => [added key value]
  | some value, none => [removed key value]
  | some value, some value' => (changed key value value').toList

/-- The differences of two tables in the order of the keys of both. -/
def diff (before after : SortedTable κ β) : List ε :=
  (setOf (before.keys ++ after.keys)).keys.flatMap (diffAt added removed changed before after)

variable {added removed changed} {before after : SortedTable κ β}

/-- There is no difference exactly when the tables agree everywhere. -/
theorem diff_eq_nil_iff
    (hchanged : ∀ key value value', before.lookup key = some value →
      after.lookup key = some value' → (changed key value value' = none ↔ value = value')) :
    diff added removed changed before after = [] ↔
      ∀ key, before.lookup key = after.lookup key := by
  have hkey (key : κ) : diffAt added removed changed before after key = [] ↔
      before.lookup key = after.lookup key := by
    unfold diffAt
    split
    · next hbefore hafter => simp [hbefore, hafter]
    · next hbefore hafter => simp [hbefore, hafter]
    · next hbefore hafter => simp [hbefore, hafter]
    · next value value' hbefore hafter =>
        rw [hbefore, hafter, Option.toList_eq_nil_iff, hchanged key value value' hbefore hafter,
          Option.some.injEq]
  rw [diff, List.flatMap_eq_nil_iff]
  constructor
  · intro h key
    by_cases hmem : key ∈ (setOf (before.keys ++ after.keys)).keys
    · exact (hkey key).mp (h key hmem)
    · rw [mem_keys_setOf, List.mem_append, mem_keys_iff, mem_keys_iff, not_or, not_exists,
        not_exists] at hmem
      rw [Option.eq_none_iff_forall_ne_some.mpr hmem.1,
        Option.eq_none_iff_forall_ne_some.mpr hmem.2]
  · exact fun h key _ => (hkey key).mpr (h key)

/-- What holds of the entries for all values that are found holds of the difference. -/
theorem forall_mem_diff {p : ε → Prop}
    (hadded : ∀ key value, after.lookup key = some value → p (added key value))
    (hremoved : ∀ key value, before.lookup key = some value → p (removed key value))
    (hchanged : ∀ key value value', before.lookup key = some value →
      after.lookup key = some value' → ∀ entry ∈ changed key value value', p entry) :
    ∀ entry ∈ diff added removed changed before after, p entry := by
  intro entry hentry
  obtain ⟨key, -, hentry⟩ := List.mem_flatMap.mp hentry
  unfold diffAt at hentry
  split at hentry
  · exact absurd hentry List.not_mem_nil
  · next value _ hafter => exact List.mem_singleton.mp hentry ▸ hadded key value hafter
  · next value hbefore _ => exact List.mem_singleton.mp hentry ▸ hremoved key value hbefore
  · next value value' hbefore hafter =>
      exact hchanged key value value' hbefore hafter entry (Option.mem_toList.mp hentry)

/-- The difference the other way holds the opposite entries in the same order. -/
theorem diff_swap {flip : ε → ε} (hadded : ∀ key value, added key value = flip (removed key value))
    (hremoved : ∀ key value, removed key value = flip (added key value))
    (hchanged : ∀ key value value',
      changed key value' value = (changed key value value').map flip) :
    diff added removed changed after before =
      (diff added removed changed before after).map flip := by
  have hkeys : (setOf (after.keys ++ before.keys)).keys =
      (setOf (before.keys ++ after.keys)).keys :=
    keys_setOf_congr fun key => by rw [List.mem_append, List.mem_append, or_comm]
  rw [diff, diff, hkeys, List.map_flatMap]
  refine List.flatMap_congr fun key _ => ?_
  unfold diffAt
  cases before.lookup key <;> cases after.lookup key
  · rfl
  · next value => exact congrArg List.singleton (hremoved key value)
  · next value => exact congrArg List.singleton (hadded key value)
  · next value value' =>
      simp only [hchanged key value value']
      cases changed key value value' <;> rfl

end Differences

end SortedTable
