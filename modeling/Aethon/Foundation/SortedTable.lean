import Mathlib.Tactic.Common
import Mathlib.Data.List.Nodup
import Mathlib.Data.List.Perm.Basic
import Mathlib.Algebra.GroupWithZero.Nat
import Mathlib.Algebra.BigOperators.Group.List.Basic

/-!
# Tables sorted by key

A finite map that is traversed in ascending order of its keys, as a list of entries that carries
the proof of its order. `lookup_insert`, `lookup_erase` and `lookup_filter` say what a change does
to the lookups, and `total_insert`, `total_erase` and `total_filter` what it does to a sum over
the values: the sum changes by what the change adds and what it replaces. Counting the values of
a kind is such a sum (`count_eq_total`).
-/

/-- A finite map in ascending order of its keys. -/
structure SortedTable (κ β : Type) [LT κ] where
  entries : List (κ × β)
  sorted : entries.Pairwise fun lhs rhs => lhs.1 < rhs.1

namespace SortedTable

variable {κ β : Type} [LT κ]

/-! ## Operations -/

instance : EmptyCollection (SortedTable κ β) :=
  ⟨⟨[], .nil⟩⟩

/-- Tables with the same entries are the same. -/
theorem ext_entries {table table' : SortedTable κ β} (h : table.entries = table'.entries) :
    table = table' := by
  obtain ⟨entries, _⟩ := table
  obtain ⟨entries', _⟩ := table'
  obtain rfl : entries = entries' := h
  rfl

instance [DecidableEq κ] [DecidableEq β] : DecidableEq (SortedTable κ β) :=
  fun table table' => decidable_of_iff (table.entries = table'.entries)
    ⟨ext_entries, congrArg entries⟩

/-- The keys in ascending order. -/
def keys (table : SortedTable κ β) : List κ :=
  table.entries.map Prod.fst

/-- The values in ascending order of their keys. -/
def values (table : SortedTable κ β) : List β :=
  table.entries.map Prod.snd

/-- The number of entries. -/
def size (table : SortedTable κ β) : Nat :=
  table.entries.length

/-- A sum over the values. -/
def total (table : SortedTable κ β) (weight : β → Nat) : Nat :=
  (table.values.map weight).sum

/-- The number of values of a kind. -/
def count (table : SortedTable κ β) (kind : β → Bool) : Nat :=
  table.values.countP kind

/-- The entries whose key and value satisfy the predicate. -/
def filter (table : SortedTable κ β) (keep : κ → β → Bool) : SortedTable κ β where
  entries := table.entries.filter fun entry => keep entry.1 entry.2
  sorted := table.sorted.filter _

/-- Every value changed by a function. -/
def map (table : SortedTable κ β) (change : β → β) : SortedTable κ β where
  entries := table.entries.map fun entry => (entry.1, change entry.2)
  sorted := List.pairwise_map.mpr table.sorted

variable [DecidableEq κ]

/-- The value under a key. -/
def lookup (table : SortedTable κ β) (key : κ) : Option β :=
  table.entries.lookup key

/-- Remove a key. -/
def erase (table : SortedTable κ β) (key : κ) : SortedTable κ β :=
  table.filter fun other _ => other ≠ key

omit [DecidableEq κ] in
/-- A count is a sum of ones. -/
theorem count_eq_total (table : SortedTable κ β) (kind : β → Bool) :
    table.count kind = table.total fun value => if kind value then 1 else 0 := by
  unfold count total
  induction table.values with
  | nil => rfl
  | cons value values ih => rw [List.countP_cons, List.map_cons, List.sum_cons, ih, Nat.add_comm]

omit [DecidableEq κ] in
theorem size_eq_count (table : SortedTable κ β) : table.size = table.count fun _ => true := by
  simp [size, count, values]

/-- The keys of the values of a kind, in ascending order. -/
def keysOf (table : SortedTable κ β) (kind : β → Bool) : List κ :=
  (table.entries.filter fun entry => kind entry.2).map Prod.fst

/-- Remove the first `n` values of a kind, one key at a time. -/
def dropFirst (table : SortedTable κ β) (kind : β → Bool) (n : Nat) : SortedTable κ β :=
  ((table.keysOf kind).take n).foldl erase table

/-- A lookup after a change of all values. -/
theorem lookup_map (table : SortedTable κ β) (change : β → β) (key : κ) :
    (table.map change).lookup key = (table.lookup key).map change := by
  show (table.entries.map _).lookup key = (table.entries.lookup key).map change
  induction table.entries with
  | nil => rfl
  | cons entry entries ih =>
      rw [List.map_cons, List.lookup_cons, List.lookup_cons, ih]
      cases key == entry.1 <;> rfl

omit [DecidableEq κ] in
theorem values_map (table : SortedTable κ β) (change : β → β) :
    (table.map change).values = table.values.map change := by
  rw [values, values, map, List.map_map, List.map_map]
  rfl

omit [DecidableEq κ] in
theorem total_map (table : SortedTable κ β) (change : β → β) (weight : β → Nat) :
    (table.map change).total weight = table.total fun value => weight (change value) := by
  rw [total, total, values_map, List.map_map]
  rfl

omit [DecidableEq κ] in
/-- Sums of two weights. -/
theorem total_add (table : SortedTable κ β) (first second : β → Nat) :
    table.total (fun value => first value + second value) =
      table.total first + table.total second := by
  unfold total
  induction table.values with
  | nil => rfl
  | cons value values ih =>
      simp only [List.map_cons, List.sum_cons, ih]
      omega

omit [DecidableEq κ] in
/-- A larger weight gives a larger total. -/
theorem total_le (table : SortedTable κ β) {first second : β → Nat}
    (h : ∀ value, first value ≤ second value) : table.total first ≤ table.total second := by
  unfold total
  induction table.values with
  | nil => exact Nat.le_refl _
  | cons value values ih =>
      simp only [List.map_cons, List.sum_cons]
      exact Nat.add_le_add (h value) ih

variable [LE κ] [Std.LawfulOrderLT κ]

/-! ## Lookups determine a table -/

/-- The keys are different, so the entries are what the lookups find. -/
theorem mem_entries_iff {table : SortedTable κ β} {key : κ} {value : β} :
    (key, value) ∈ table.entries ↔ table.lookup key = some value := by
  obtain ⟨entries, hsorted⟩ := table
  show (key, value) ∈ entries ↔ entries.lookup key = some value
  induction entries with
  | nil => simp
  | cons head entries ih =>
      obtain ⟨hhead, hrest⟩ := List.pairwise_cons.mp hsorted
      obtain ⟨first, held⟩ := head
      rw [List.mem_cons, List.lookup_cons]
      by_cases hkey : key = first
      · subst hkey
        have hnot : (key, value) ∉ entries := fun hmem =>
          Std.lt_irrefl (hhead (key, value) hmem)
        simp [hnot, eq_comm]
      · have hbeq : (key == first) = false := by simpa using hkey
        simp [hkey, hbeq, ih hrest]

theorem mem_values_iff {table : SortedTable κ β} {value : β} :
    value ∈ table.values ↔ ∃ key, table.lookup key = some value := by
  simp only [values, List.mem_map, Prod.exists, exists_eq_right, mem_entries_iff]

omit [DecidableEq κ] in
/-- No key is met twice. -/
theorem nodup_keys (table : SortedTable κ β) : table.keys.Nodup := by
  refine List.pairwise_map.mpr (table.sorted.imp fun hlt heq => ?_)
  rw [heq] at hlt
  exact Std.lt_irrefl hlt

omit [DecidableEq κ] in
theorem nodup_entries (table : SortedTable κ β) : table.entries.Nodup :=
  List.Nodup.of_map Prod.fst table.nodup_keys

/-- A lookup after a filter. -/
theorem lookup_filter (table : SortedTable κ β) (keep : κ → β → Bool) (key : κ) :
    (table.filter keep).lookup key = (table.lookup key).filter (keep key) := by
  apply Option.ext
  intro value
  rw [← mem_entries_iff, Option.filter_eq_some_iff, ← mem_entries_iff]
  exact List.mem_filter

/-- A lookup after a removal. -/
theorem lookup_erase (table : SortedTable κ β) (key other : κ) :
    (table.erase key).lookup other = if other = key then none else table.lookup other := by
  rw [erase, lookup_filter]
  by_cases h : other = key
  · simp [h]
  · cases table.lookup other <;> simp [h]

/-- Tables with the same lookups hold the same entries in the same order. -/
theorem ext_lookup {table table' : SortedTable κ β}
    (h : ∀ key, table.lookup key = table'.lookup key) : table = table' := by
  have hperm : table.entries.Perm table'.entries := by
    refine (List.perm_ext_iff_of_nodup table.nodup_entries table'.nodup_entries).mpr fun entry => ?_
    obtain ⟨key, value⟩ := entry
    rw [mem_entries_iff, mem_entries_iff, h]
  exact ext_entries (hperm.eq_of_pairwise
    (fun _ _ _ _ hlt hgt => absurd hgt (Std.not_gt_of_lt hlt)) table.sorted table'.sorted)

/-! ## Dropping the first values of a kind -/

theorem mem_keysOf_iff {table : SortedTable κ β} {kind : β → Bool} {key : κ} :
    key ∈ table.keysOf kind ↔ ∃ value, table.lookup key = some value ∧ kind value := by
  simp only [keysOf, List.mem_map, List.mem_filter, Prod.exists, exists_and_right, exists_eq_right,
    mem_entries_iff]

omit [DecidableEq κ] [LE κ] [Std.LawfulOrderLT κ] in
theorem sorted_keysOf (table : SortedTable κ β) (kind : β → Bool) :
    (table.keysOf kind).Pairwise (· < ·) :=
  List.pairwise_map.mpr (table.sorted.filter _)

omit [DecidableEq κ] [LE κ] [Std.LawfulOrderLT κ] in
theorem length_keysOf (table : SortedTable κ β) (kind : β → Bool) :
    (table.keysOf kind).length = table.count kind := by
  rw [keysOf, List.length_map, count, values, List.countP_map, List.countP_eq_length_filter]
  rfl

/-- After many erasures, nothing stands under the erased keys. -/
theorem lookup_foldl_erase (table : SortedTable κ β) (removed : List κ) (key : κ) :
    (removed.foldl erase table).lookup key =
      if key ∈ removed then none else table.lookup key := by
  induction removed generalizing table with
  | nil => rfl
  | cons first removed ih =>
      rw [List.foldl_cons, ih, lookup_erase]
      by_cases hfirst : key = first
      · simp [hfirst]
      · simp [hfirst]

/-- `table'` is `table` without `n` values of the kind, and those have the lowest keys. -/
def DropsLowest (kind : β → Bool) (n : Nat) (table table' : SortedTable κ β) : Prop :=
  ∃ removed : List κ, removed.Nodup ∧ removed.length = n ∧
    (∀ key ∈ removed, ∃ value, table.lookup key = some value ∧ kind value) ∧
    (∀ key ∈ removed, ∀ other value, table.lookup other = some value → kind value →
      other ∉ removed → key < other) ∧
    ∀ key, table'.lookup key = if key ∈ removed then none else table.lookup key

/-- Dropping the first values of a kind drops as many as there are, at most `n`. -/
theorem dropFirst_drops (table : SortedTable κ β) (kind : β → Bool) (n : Nat) :
    DropsLowest kind (min n (table.count kind)) table (table.dropFirst kind n) := by
  have hsorted := table.sorted_keysOf kind
  refine ⟨(table.keysOf kind).take n, ?_, ?_, fun key hkey => ?_, fun key hkey other value hother
    hkind hkept => ?_, table.lookup_foldl_erase _⟩
  · exact (table.nodup_keys.sublist (List.filter_sublist.map Prod.fst)).sublist
      (List.take_sublist _ _)
  · rw [List.length_take, length_keysOf]
  · exact mem_keysOf_iff.mp (List.mem_of_mem_take hkey)
  · have hmem : other ∈ table.keysOf kind := mem_keysOf_iff.mpr ⟨value, hother, hkind⟩
    rw [← List.take_append_drop n (table.keysOf kind), List.mem_append] at hmem
    rw [← List.take_append_drop n (table.keysOf kind), List.pairwise_append] at hsorted
    exact hsorted.2.2 key hkey other (hmem.resolve_left hkept)

/-- Dropping as many values of a kind as there are values too many. -/
theorem dropFirst_to_size (table : SortedTable κ β) (kind : β → Bool) (keep : Nat) :
    DropsLowest kind (min (table.count kind) (table.size - keep)) table
      (if table.size ≤ keep then table else table.dropFirst kind (table.size - keep)) := by
  rw [Nat.min_comm]
  split_ifs with hfew
  · rw [Nat.sub_eq_zero_of_le hfew, Nat.zero_min]
    exact ⟨[], .nil, rfl, by simp, by simp, by simp⟩
  · exact table.dropFirst_drops kind _

/-! ## Sums over the values -/

/-- The value under a key can be put in front of the others. -/
theorem values_perm {table : SortedTable κ β} {key : κ} {value : β}
    (h : table.lookup key = some value) :
    table.values.Perm (value :: (table.erase key).values) := by
  have hperm : table.entries.Perm ((key, value) :: (table.erase key).entries) := by
    have hnodup : ((key, value) :: (table.erase key).entries).Nodup := by
      refine List.nodup_cons.mpr ⟨?_, nodup_entries _⟩
      rw [mem_entries_iff, lookup_erase]
      simp
    refine (List.perm_ext_iff_of_nodup table.nodup_entries hnodup).mpr fun entry => ?_
    obtain ⟨other, held⟩ := entry
    rw [List.mem_cons, mem_entries_iff, mem_entries_iff, lookup_erase, Prod.mk.injEq]
    by_cases hkey : other = key
    · simp [hkey, h, eq_comm]
    · simp [hkey]
  exact hperm.map Prod.snd

/-- The value under a key can be taken out of the sum. -/
theorem total_of_lookup {table : SortedTable κ β} {key : κ} {value : β}
    (h : table.lookup key = some value) (weight : β → Nat) :
    table.total weight = weight value + (table.erase key).total weight := by
  have hsum := ((values_perm h).map weight).sum_nat
  rwa [List.map_cons, List.sum_cons] at hsum

/-- Removing a key that is not there changes nothing. -/
theorem erase_of_lookup {table : SortedTable κ β} {key : κ} (h : table.lookup key = none) :
    table.erase key = table := by
  refine ext_lookup fun other => ?_
  rw [lookup_erase]
  split_ifs with hkey
  · rw [hkey, h]
  · rfl

/-- A removal takes the weight of the removed value. -/
theorem total_erase (table : SortedTable κ β) (key : κ) (weight : β → Nat) :
    (table.erase key).total weight + (table.lookup key).elim 0 weight = table.total weight := by
  cases h : table.lookup key with
  | none => rw [erase_of_lookup h, Option.elim_none, Nat.add_zero]
  | some value => rw [total_of_lookup h, Option.elim_some, Nat.add_comm]

/-- Dropping the first values of a kind keeps the number of values of a kind that excludes it. -/
theorem count_dropFirst {table : SortedTable κ β} {kind other : β → Bool} {n : Nat}
    (h : ∀ value, kind value = true → other value = false) :
    (table.dropFirst kind n).count other = table.count other := by
  have hremoved : ∀ key ∈ (table.keysOf kind).take n, ∀ value,
      table.lookup key = some value → other value = false := by
    intro key hkey value hlookup
    obtain ⟨held, hheld, hkind⟩ := mem_keysOf_iff.mp (List.mem_of_mem_take hkey)
    obtain rfl : held = value := Option.some.inj (hheld.symm.trans hlookup)
    exact h held hkind
  unfold dropFirst
  generalize (table.keysOf kind).take n = removed at hremoved
  induction removed generalizing table with
  | nil => rfl
  | cons first removed ih =>
      have herase := table.total_erase first fun value => if other value then 1 else 0
      rw [List.foldl_cons, ih, count_eq_total, count_eq_total, ← herase]
      · cases hfirst : table.lookup first with
        | none => rfl
        | some value => simp [hremoved first List.mem_cons_self value hfirst]
      · intro key hkey value hlookup
        rw [lookup_erase] at hlookup
        split_ifs at hlookup
        exact hremoved key (List.mem_cons_of_mem first hkey) value hlookup

omit [DecidableEq κ] [LE κ] [Std.LawfulOrderLT κ] in
/-- Dropping values without weight keeps the sum. -/
theorem total_filter {table : SortedTable κ β} {keep : κ → β → Bool} {weight : β → Nat}
    (h : ∀ key value, keep key value = false → weight value = 0) :
    (table.filter keep).total weight = table.total weight := by
  show (((table.entries.filter _).map _).map _).sum = ((table.entries.map _).map _).sum
  induction table.entries with
  | nil => rfl
  | cons entry entries ih =>
      rw [List.filter_cons]
      split_ifs with hkeep
      · simp only [List.map_cons, List.sum_cons, ih]
      · have hweight := h entry.1 entry.2 (by simpa using hkeep)
        rw [ih, List.map_cons, List.map_cons, List.sum_cons, hweight, Nat.zero_add]

omit [DecidableEq κ] [LE κ] [Std.LawfulOrderLT κ] in
/-- Dropping values that are not of the kind keeps their number. -/
theorem count_filter {table : SortedTable κ β} {keep : κ → β → Bool} {kind : β → Bool}
    (h : ∀ key value, keep key value = false → kind value = false) :
    (table.filter keep).count kind = table.count kind := by
  rw [count_eq_total, count_eq_total]
  exact total_filter fun key value hdrop => by rw [h key value hdrop]; rfl

omit [DecidableEq κ] [LE κ] [Std.LawfulOrderLT κ] in
theorem size_filter_le (table : SortedTable κ β) (keep : κ → β → Bool) :
    (table.filter keep).size ≤ table.size :=
  List.length_filter_le _ _

omit [LE κ] [Std.LawfulOrderLT κ] in
/-- Dropping the first entries makes no table larger. -/
theorem size_dropFirst_le (table : SortedTable κ β) (kind : β → Bool) (n : Nat) :
    (table.dropFirst kind n).size ≤ table.size := by
  unfold dropFirst
  generalize (table.keysOf kind).take n = removed
  induction removed generalizing table with
  | nil => exact Nat.le_refl _
  | cons first removed ih => exact Nat.le_trans (ih _) (table.size_filter_le _)

variable [DecidableLT κ] [Std.IsLinearOrder κ]

/-! ## Insertions -/

/-- Put a value under its key, in place of the one that was there. -/
def insertEntry (key : κ) (value : β) : List (κ × β) → List (κ × β)
  | [] => [(key, value)]
  | entry :: entries =>
      if key < entry.1 then (key, value) :: entry :: entries
      else if key = entry.1 then (key, value) :: entries
      else entry :: insertEntry key value entries

omit [LE κ] [Std.IsLinearOrder κ] [Std.LawfulOrderLT κ] in
/-- An entry of the list is the one that was put in, or was there. -/
theorem mem_insertEntry {key : κ} {value : β} {entry : κ × β} {entries : List (κ × β)}
    (h : entry ∈ insertEntry key value entries) : entry = (key, value) ∨ entry ∈ entries := by
  induction entries with
  | nil => exact .inl (List.mem_singleton.mp h)
  | cons head entries ih =>
      unfold insertEntry at h
      split_ifs at h
      · rcases List.mem_cons.mp h with h | h
        · exact .inl h
        · exact .inr h
      · rcases List.mem_cons.mp h with h | h
        · exact .inl h
        · exact .inr (List.mem_cons_of_mem head h)
      · rcases List.mem_cons.mp h with h | h
        · exact .inr (h ▸ List.mem_cons_self)
        · exact (ih h).imp id (List.mem_cons_of_mem head)

/-- The list stays in the order of its keys. -/
theorem pairwise_insertEntry {key : κ} {value : β} {entries : List (κ × β)}
    (h : entries.Pairwise fun lhs rhs => lhs.1 < rhs.1) :
    (insertEntry key value entries).Pairwise fun lhs rhs => lhs.1 < rhs.1 := by
  induction entries with
  | nil => exact List.pairwise_singleton _ _
  | cons head entries ih =>
      obtain ⟨hhead, hrest⟩ := List.pairwise_cons.mp h
      unfold insertEntry
      split_ifs with hlt heq
      · refine List.pairwise_cons.mpr ⟨fun entry hentry => ?_, h⟩
        rcases List.mem_cons.mp hentry with rfl | hentry
        · exact hlt
        · exact Std.lt_trans hlt (hhead entry hentry)
      · exact List.pairwise_cons.mpr ⟨fun entry hentry => heq ▸ hhead entry hentry, hrest⟩
      · have hgt : head.1 < key := by grind
        refine List.pairwise_cons.mpr ⟨fun entry hentry => ?_, ih hrest⟩
        rcases mem_insertEntry hentry with rfl | hentry
        · exact hgt
        · exact hhead entry hentry

/-- `table[key] = value`. -/
def insert (table : SortedTable κ β) (key : κ) (value : β) : SortedTable κ β where
  entries := insertEntry key value table.entries
  sorted := pairwise_insertEntry table.sorted

/-- A lookup after an insertion. -/
theorem lookup_insert (table : SortedTable κ β) (key other : κ) (value : β) :
    (table.insert key value).lookup other =
      if other = key then some value else table.lookup other := by
  show (insertEntry key value table.entries).lookup other =
    if other = key then some value else table.entries.lookup other
  induction table.entries with
  | nil => simp [insertEntry, List.lookup_cons]; grind
  | cons head entries ih =>
      unfold insertEntry
      split_ifs <;> simp_all [List.lookup_cons] <;> grind

/-- What is found after an insertion was put there or found before. -/
theorem lookup_insert_cases {table : SortedTable κ β} {key other : κ} {value found : β}
    (h : (table.insert key value).lookup other = some found) :
    other = key ∧ found = value ∨ table.lookup other = some found := by
  rw [lookup_insert] at h
  split_ifs at h with hkey
  · exact .inl ⟨hkey, (Option.some.inj h).symm⟩
  · exact .inr h

/-- What is found is still found when a new key is inserted. -/
theorem lookup_insert_of_fresh {table : SortedTable κ β} {key other : κ} {value found : β}
    (hfresh : table.lookup key = none) (hfound : table.lookup other = some found) :
    (table.insert key value).lookup other = some found := by
  have hother : other ≠ key := by
    rintro rfl
    rw [hfresh] at hfound
    cases hfound
  rw [lookup_insert, if_neg hother, hfound]

theorem erase_insert (table : SortedTable κ β) (key : κ) (value : β) :
    (table.insert key value).erase key = table.erase key := by
  refine ext_lookup fun other => ?_
  rw [lookup_erase, lookup_erase, lookup_insert]
  split_ifs <;> rfl

/-- An insertion adds the weight of the value and takes that of the value it replaces. -/
theorem total_insert (table : SortedTable κ β) (key : κ) (value : β) (weight : β → Nat) :
    (table.insert key value).total weight + (table.lookup key).elim 0 weight =
      table.total weight + weight value := by
  have hself : (table.insert key value).lookup key = some value := by simp [lookup_insert]
  have hold := total_erase table key weight
  rw [total_of_lookup hself, erase_insert]
  omega

/-- The same for the number of values of a kind. -/
theorem count_insert (table : SortedTable κ β) (key : κ) (value : β) (kind : β → Bool) :
    (table.insert key value).count kind +
        (table.lookup key).elim 0 (fun held => if kind held then 1 else 0) =
      table.count kind + if kind value then 1 else 0 := by
  rw [count_eq_total, count_eq_total]
  exact total_insert table key value _

/-- A new key adds one entry, a known one none. -/
theorem size_insert (table : SortedTable κ β) (key : κ) (value : β) :
    (table.insert key value).size + (table.lookup key).elim 0 (fun _ => 1) = table.size + 1 := by
  rw [size_eq_count, size_eq_count]
  exact count_insert table key value fun _ => true

/-! ## Tables filled from items -/

/-- `change(table[key])`, which puts a value under a key that has none. -/
def update (table : SortedTable κ β) (key : κ) (change : Option β → β) : SortedTable κ β :=
  table.insert key (change (table.lookup key))

/-- Under a key stand the changes of the items of that key alone. -/
theorem lookup_foldl_update {α : Type} (key : α → κ) (change : α → Option β → β)
    (items : List α) (table : SortedTable κ β) (k : κ) :
    (items.foldl (fun table item => table.update (key item) (change item)) table).lookup k =
      (items.filter fun item => key item = k).foldl (fun held item => some (change item held))
        (table.lookup k) := by
  induction items generalizing table with
  | nil => rfl
  | cons item items ih =>
      rw [List.foldl_cons, ih, update, lookup_insert, List.filter_cons]
      by_cases hkey : key item = k
      · rw [if_pos hkey.symm, if_pos (by simpa using hkey), List.foldl_cons, hkey]
      · rw [if_neg (Ne.symm hkey), if_neg (by simpa using hkey)]

/-- Where each item adds its amount to the weight of the value under its key, the weights add up to
the amounts of all items. The values may rely on what all changes keep of the values and keys. -/
theorem sum_foldl_update {α M : Type} [AddCommMonoid M] {key : α → κ} {change : α → Option β → β}
    {good : κ → β → Prop} {weight : β → M} {amount : α → M}
    (hgood : ∀ item held, (∀ value ∈ held, good (key item) value) →
      good (key item) (change item held))
    (hchange : ∀ item held, (∀ value ∈ held, good (key item) value) →
      weight (change item held) = held.elim 0 weight + amount item)
    (items : List α) {table : SortedTable κ β}
    (htable : ∀ key value, table.lookup key = some value → good key value) :
    ((items.foldl (fun table item => table.update (key item) (change item)) table).values.map
        weight).sum = (table.values.map weight).sum + (items.map amount).sum := by
  induction items generalizing table with
  | nil => rw [List.foldl_nil, List.map_nil, List.sum_nil, add_zero]
  | cons item items ih =>
      have hheld : ∀ value ∈ table.lookup (key item), good (key item) value := fun value hvalue =>
        htable (key item) value hvalue
      have hself : (table.update (key item) (change item)).lookup (key item) =
          some (change item (table.lookup (key item))) := by simp [update, lookup_insert]
      have hnext : ∀ other value, (table.update (key item) (change item)).lookup other =
          some value → good other value := by
        intro other value hlookup
        rcases lookup_insert_cases hlookup with ⟨rfl, rfl⟩ | hold
        · exact hgood item _ hheld
        · exact htable other value hold
      have hupdate := ((values_perm hself).map weight).sum_eq
      have hold : (table.values.map weight).sum = (table.lookup (key item)).elim 0 weight +
          ((table.erase (key item)).values.map weight).sum := by
        cases hfound : table.lookup (key item) with
        | none => rw [erase_of_lookup hfound, Option.elim_none, zero_add]
        | some value => exact ((values_perm hfound).map weight).sum_eq
      rw [List.map_cons, List.sum_cons, hchange item _ hheld, update, erase_insert] at hupdate
      rw [List.foldl_cons, ih hnext, update, hupdate, hold, List.map_cons, List.sum_cons,
        add_right_comm _ (amount item), add_assoc]

omit [DecidableLT κ] [Std.IsLinearOrder κ] in
/-- What all entries give of one key is what the value under the key gives. -/
theorem filter_flatMap_entries {α : Type} {give : κ → β → List α} {tag : α → κ}
    (table : SortedTable κ β)
    (htag : ∀ entry ∈ table.entries, ∀ item ∈ give entry.1 entry.2, tag item = entry.1) (key : κ) :
    (table.entries.flatMap fun entry => give entry.1 entry.2).filter (tag · = key) =
      (table.lookup key).elim [] (give key) := by
  obtain ⟨entries, hsorted⟩ := table
  show (entries.flatMap _).filter _ = (entries.lookup key).elim [] (give key)
  induction entries with
  | nil => rfl
  | cons entry entries ih =>
      obtain ⟨hfirst, hrest⟩ := List.pairwise_cons.mp hsorted
      obtain ⟨hhere, hthere⟩ := List.forall_mem_cons.mp htag
      rw [List.flatMap_cons, List.filter_append, ih hrest hthere, List.lookup_cons]
      by_cases hkey : entry.1 = key
      · -- the other keys are larger
        have hnone : entries.lookup key = none := by
          refine List.lookup_eq_none_iff.mpr fun other hother => ?_
          have hlt := hfirst other hother
          rw [hkey] at hlt
          simpa using fun heq : key = other.1 => Std.lt_irrefl (heq ▸ hlt)
        have hall : (give entry.1 entry.2).filter (tag · = key) = give entry.1 entry.2 :=
          List.filter_eq_self.mpr fun item hitem => decide_eq_true ((hhere item hitem).trans hkey)
        have hbeq : (key == entry.1) = true := beq_iff_eq.mpr hkey.symm
        rw [hall, hnone, hbeq, Option.elim_none, List.append_nil, hkey]
        rfl
      · have hnone : (give entry.1 entry.2).filter (tag · = key) = [] :=
          List.filter_eq_nil_iff.mpr fun item hitem htagged =>
            hkey ((hhere item hitem).symm.trans (of_decide_eq_true htagged))
        have hbeq : (key == entry.1) = false := beq_eq_false_iff_ne.mpr (Ne.symm hkey)
        rw [hnone, hbeq, List.nil_append]

omit [DecidableLT κ] [Std.IsLinearOrder κ] in
/-- What the values give can be told apart by its tags. -/
theorem filter_flatMap_values {α : Type} {give : β → List α} {tag : α → κ}
    (table : SortedTable κ β)
    (htag : ∀ entry ∈ table.entries, ∀ item ∈ give entry.2, tag item = entry.1) (key : κ) :
    (table.values.flatMap give).filter (tag · = key) = (table.lookup key).elim [] give := by
  have hall := @filter_flatMap_entries κ β _ _ _ _ α (fun _ value => give value) tag table htag key
  rw [values, List.flatMap_map]
  exact hall

end SortedTable
