import Mathlib.Tactic.Common

/-!
# Lookups in ordered maps

`std::map` as `Std.ExtTreeMap`: what a lookup finds after an insertion or a removal, by equality of
keys, and what a traversal meets of one key.
-/

namespace OrderedMap

variable {κ β : Type} [Ord κ] [Std.TransOrd κ] [Std.LawfulEqOrd κ] [DecidableEq κ]

/-- A lookup after an insertion. -/
theorem getElem?_insert (map : Std.ExtTreeMap κ β) (key other : κ) (value : β) :
    (map.insert key value)[other]? = if other = key then some value else map[other]? := by
  by_cases h : other = key
  · rw [h, Std.ExtTreeMap.getElem?_insert_self, if_pos rfl]
  · have hkey : ¬ compare key other = .eq := fun heq =>
      h (Std.LawfulEqCmp.compare_eq_iff_eq.mp heq).symm
    rw [Std.ExtTreeMap.getElem?_insert, if_neg hkey, if_neg h]

/-- A lookup after a removal. -/
theorem getElem?_erase (map : Std.ExtTreeMap κ β) (key other : κ) :
    (map.erase key)[other]? = if other = key then none else map[other]? := by
  by_cases h : other = key
  · rw [h, Std.ExtTreeMap.getElem?_erase_self, if_pos rfl]
  · have hkey : ¬ compare key other = .eq := fun heq =>
      h (Std.LawfulEqCmp.compare_eq_iff_eq.mp heq).symm
    rw [Std.ExtTreeMap.getElem?_erase, if_neg hkey, if_neg h]

/-! ## Traversals -/

omit [Ord κ] [Std.TransOrd κ] [Std.LawfulEqOrd κ] in
/-- Among entries with distinct keys one alone has a given key. -/
theorem filter_key_eq_singleton {entries : List (κ × β)}
    (hdistinct : entries.Pairwise fun lhs rhs => lhs.1 ≠ rhs.1) {key : κ} {value : β}
    (hmem : (key, value) ∈ entries) :
    (entries.filter fun entry => entry.1 = key) = [(key, value)] := by
  induction entries with
  | nil => exact absurd hmem List.not_mem_nil
  | cons head tail ih =>
      obtain ⟨hhead, htail⟩ := List.pairwise_cons.mp hdistinct
      rcases List.mem_cons.mp hmem with hhere | hthere
      · have hothers : (tail.filter fun entry => entry.1 = key) = [] := by
          refine List.filter_eq_nil_iff.mpr fun entry hentry => ?_
          have hne := hhead entry hentry
          rw [← hhere] at hne
          simpa using hne.symm
        rw [List.filter_cons_of_pos (by simp [← hhere]), hothers, ← hhere]
      · have hne : head.1 ≠ key := hhead _ hthere
        rw [List.filter_cons_of_neg (by simpa using hne), ih htail hthere]

/-- A traversal meets the entry of a key once. -/
theorem filter_toList_key (map : Std.ExtTreeMap κ β) (key : κ) :
    (map.toList.filter fun entry => entry.1 = key) =
      (map[key]?.map fun value => (key, value)).toList := by
  cases hvalue : map[key]? with
  | none =>
      refine List.filter_eq_nil_iff.mpr fun entry hentry => ?_
      intro hkey
      have hfound := Std.ExtTreeMap.mem_toList_iff_getElem?_eq_some.mp hentry
      rw [of_decide_eq_true hkey, hvalue] at hfound
      exact Option.some_ne_none _ hfound.symm
  | some value =>
      have hdistinct : map.toList.Pairwise fun lhs rhs => lhs.1 ≠ rhs.1 :=
        Std.ExtTreeMap.distinct_keys_toList.imp fun hne heq =>
          hne (Std.LawfulEqCmp.compare_eq_iff_eq.mpr heq)
      exact filter_key_eq_singleton hdistinct
        (Std.ExtTreeMap.mem_toList_iff_getElem?_eq_some.mpr hvalue)

omit [Ord κ] [Std.TransOrd κ] [Std.LawfulEqOrd κ] in
/-- Where every entry emits items of its own key, the items of one key are those that the entries
with this key emit. -/
theorem filter_flatMap_owner {ε : Type} {items : β → List ε} {owner : ε → κ}
    {entries : List (κ × β)}
    (howner : ∀ entry ∈ entries, ∀ item ∈ items entry.2, owner item = entry.1) (key : κ) :
    ((entries.flatMap fun entry => items entry.2).filter fun item => owner item = key) =
      (entries.filter fun entry => entry.1 = key).flatMap fun entry => items entry.2 := by
  induction entries with
  | nil => rfl
  | cons head tail ih =>
      have htail := ih fun entry hentry => howner entry (List.mem_cons_of_mem _ hentry)
      have hhead := howner head List.mem_cons_self
      rw [List.flatMap_cons, List.filter_append, htail]
      by_cases hkey : head.1 = key
      · have hkept : ((items head.2).filter fun item => owner item = key) = items head.2 :=
          List.filter_eq_self.mpr fun item hitem =>
            decide_eq_true ((hhead item hitem).trans hkey)
        rw [List.filter_cons_of_pos (by simpa using hkey), List.flatMap_cons, hkept]
      · have hdropped : ((items head.2).filter fun item => owner item = key) = [] := by
          refine List.filter_eq_nil_iff.mpr fun item hitem => ?_
          rw [hhead item hitem]
          simpa using hkey
        rw [List.filter_cons_of_neg (by simpa using hkey), hdropped, List.nil_append]

/-- Where every entry emits items of its own key, the items of one key in a traversal are what its
value emits. -/
theorem filter_flatMap_toList {ε : Type} (map : Std.ExtTreeMap κ β) {items : β → List ε}
    {owner : ε → κ} (howner : ∀ key value, map[key]? = some value →
      ∀ item ∈ items value, owner item = key) (key : κ) :
    ((map.toList.flatMap fun entry => items entry.2).filter fun item => owner item = key) =
      (map[key]?.map items).getD [] := by
  rw [filter_flatMap_owner fun entry hentry =>
    howner entry.1 entry.2 (Std.ExtTreeMap.mem_toList_iff_getElem?_eq_some.mp hentry),
    filter_toList_key]
  cases map[key]? with
  | none => rfl
  | some value => exact List.append_nil _

end OrderedMap
