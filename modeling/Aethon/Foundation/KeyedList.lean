import Mathlib.Data.List.Induction
import Mathlib.Data.List.Nodup
import Mathlib.Data.List.Perm.Basic

/-!
# Lists looked up by key

A vector of items in which an item is found by its key, and an item is put where the first of its
key stands, or at the end when there is none. `find_put_all` says what a loop that puts one item
after another leaves under each key, and `find_perm` that the order does not matter to what is
found where no key stands twice.
-/

namespace KeyedList

variable {α κ : Type} [DecidableEq κ] (key : α → κ)

/-- The first item of a key. -/
def find (items : List α) (k : κ) : Option α :=
  items.find? fun item => key item = k

/-- Replace the first item of the same key, or append. -/
def put (items : List α) (item : α) : List α :=
  match items.findIdx? fun other => key other = key item with
  | none => items ++ [item]
  | some index => items.set index item

/-- Put the elements of one list over those of another, by their keys. -/
def putAll (items overlay : List α) : List α :=
  overlay.foldl (put key) items

@[simp] theorem put_nil (item : α) : put key [] item = [item] :=
  rfl

theorem put_cons (other : α) (items : List α) (item : α) :
    put key (other :: items) item =
      if key other = key item then item :: items else other :: put key items item := by
  unfold put
  rw [List.findIdx?_cons]
  by_cases h : key other = key item
  · simp only [h, decide_true, if_true, List.set_cons_zero]
  · simp only [h, decide_false, Bool.false_eq_true, if_false]
    cases items.findIdx? fun other => key other = key item with
    | none => rfl
    | some index => rfl

theorem put_all_concat (items overlay : List α) (item : α) :
    putAll key items (overlay ++ [item]) = put key (putAll key items overlay) item := by
  simp [putAll]

/-- An item brings its key, once. -/
theorem keys_put (items : List α) (item : α) :
    (put key items item).map key =
      if key item ∈ items.map key then items.map key else items.map key ++ [key item] := by
  induction items with
  | nil => simp
  | cons other items ih =>
    rw [put_cons]
    by_cases h : key other = key item
    · simp [h]
    · have h' : key item ≠ key other := fun heq => h heq.symm
      rw [if_neg h, List.map_cons, ih]
      by_cases hmem : key item ∈ items.map key
      · simp [hmem]
      · simp [hmem, h']

/-- Putting an item keeps the keys distinct. -/
theorem nodup_put {items : List α} (h : (items.map key).Nodup) (item : α) :
    ((put key items item).map key).Nodup := by
  rw [keys_put]
  split
  · exact h
  · next hmem => exact List.nodup_append.mpr ⟨h, List.nodup_singleton _, by grind⟩

/-- Putting many items keeps the keys distinct. -/
theorem nodup_put_all {items : List α} (h : (items.map key).Nodup) (overlay : List α) :
    ((putAll key items overlay).map key).Nodup := by
  induction overlay using List.reverseRecOn with
  | nil => exact h
  | append_singleton overlay item ih =>
    rw [put_all_concat]
    exact nodup_put key ih item

/-! ## What is found -/

theorem find_cons (item : α) (items : List α) (k : κ) :
    find key (item :: items) k = if key item = k then some item else find key items k := by
  unfold find
  rw [List.find?_cons]
  by_cases h : key item = k
  · simp [h]
  · simp [h]

/-- Nothing is found under a key that no item has. -/
theorem find_eq_none_iff {items : List α} {k : κ} :
    find key items k = none ↔ k ∉ items.map key := by
  unfold find
  rw [List.find?_eq_none, List.mem_map]
  refine ⟨fun h => ?_, fun h item hitem hkey => h ⟨item, hitem, by simpa using hkey⟩⟩
  rintro ⟨item, hitem, hkey⟩
  exact h item hitem (by simpa using hkey)

/-- Where no key stands twice, what is found under a key is the item of that key. -/
theorem find_eq_some_iff {items : List α} (h : (items.map key).Nodup) {k : κ} {item : α} :
    find key items k = some item ↔ item ∈ items ∧ key item = k := by
  constructor
  · intro hfind
    exact ⟨List.mem_of_find?_eq_some hfind, by simpa using List.find?_some hfind⟩
  · rintro ⟨hmem, rfl⟩
    cases hfind : find key items (key item) with
    | none => exact absurd (List.mem_map_of_mem hmem) ((find_eq_none_iff key).mp hfind)
    | some found =>
      have hkey : key found = key item := by simpa using List.find?_some hfind
      have hfound : found ∈ items := List.mem_of_find?_eq_some hfind
      rw [List.inj_on_of_nodup_map h hfound hmem hkey]

/-- Where no key stands twice, a rearrangement finds the same. -/
theorem find_perm {items others : List α} (h : (items.map key).Nodup) (hperm : others.Perm items)
    (k : κ) : find key others k = find key items k := by
  have h' : (others.map key).Nodup := (hperm.map key).nodup_iff.mpr h
  refine Option.ext fun item => ?_
  rw [find_eq_some_iff key h', find_eq_some_iff key h, hperm.mem_iff]

/-- An item that was put is found, and the others as before. -/
theorem find_put (items : List α) (item : α) (k : κ) :
    find key (put key items item) k = if key item = k then some item else find key items k := by
  induction items with
  | nil => rw [put_nil, find_cons]
  | cons other items ih =>
    rw [put_cons]
    by_cases h : key other = key item
    · rw [if_pos h, find_cons, find_cons, h]
      split
      · rfl
      · rfl
    · rw [if_neg h, find_cons, ih, find_cons]
      by_cases hkey : key item = k
      · rw [if_pos hkey, if_pos hkey, if_neg fun hother => h (hother.trans hkey.symm)]
      · rw [if_neg hkey, if_neg hkey]

/-- The last item of a key that is put is found under it, and what was there where none is. -/
theorem find_put_all (items overlay : List α) (k : κ) :
    find key (putAll key items overlay) k =
      (find key overlay.reverse k).or (find key items k) := by
  induction overlay using List.reverseRecOn with
  | nil => rfl
  | append_singleton overlay item ih =>
    rw [put_all_concat, find_put, ih, List.reverse_concat, find_cons]
    by_cases h : key item = k
    · rw [if_pos h, if_pos h, Option.some_or]
    · rw [if_neg h, if_neg h]

/-- Where no key is put twice, the item of a key that is put is found under it. -/
theorem find_put_all_of_nodup (items : List α) {overlay : List α} (h : (overlay.map key).Nodup)
    (k : κ) :
    find key (putAll key items overlay) k = (find key overlay k).or (find key items k) := by
  rw [find_put_all, find_perm key h overlay.reverse_perm]

end KeyedList
