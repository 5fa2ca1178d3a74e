import Mathlib.Data.List.Induction
import Mathlib.Order.Lattice
import Mathlib.Tactic.Common

/-!
# First extremal element

`std::min_element` and `std::max_element` with a comparison: the element and its position, by one
pass that replaces the element held only by a strictly better one. `nearest` is such a pass over the
elements within a limit of a target, and `nearest_avoids_iff` says when the position it ends with is
none of some given ones. A pass that starts with a bound and no element is `keepSmaller`; what it
ends with is the first smallest element (`smallest_foldl`).
-/

namespace Extremum

variable {α : Type} (less : α → α → Bool)

/-- The first element that no later one was found less than, with its position. -/
def minElement (xs : List α) : Option (α × Nat) :=
  match xs.zipIdx with
  | [] => none
  | first :: rest =>
      some (rest.foldl (fun smallest entry => if less entry.1 smallest.1 then entry else smallest)
        first)

/-- The first element that was found less than no later one, with its position. -/
def maxElement (xs : List α) : Option (α × Nat) :=
  minElement (fun entry largest => less largest entry) xs

variable {less}

/-- A pass that at each entry keeps what it holds or takes the entry ends with what it held at first
or with an entry. -/
theorem foldl_choose {β γ : Type} {choose : γ → β → γ} {held : γ} {wrap : β → γ}
    (hchoose : ∀ held entry, choose held entry = held ∨ choose held entry = wrap entry)
    (entries : List β) :
    entries.foldl choose held = held ∨
      ∃ entry ∈ entries, entries.foldl choose held = wrap entry := by
  induction entries generalizing held with
  | nil => exact .inl rfl
  | cons entry entries ih =>
      rw [List.foldl_cons]
      rcases ih with hheld | ⟨later, hlater, heq⟩
      · rw [hheld]
        rcases hchoose held entry with hkeep | htake
        · exact .inl hkeep
        · exact .inr ⟨entry, List.mem_cons_self, htake⟩
      · exact .inr ⟨later, List.mem_cons_of_mem _ hlater, heq⟩

/-- The element found is at the position found. -/
theorem getElem?_of_min_element {xs : List α} {found : α × Nat}
    (h : minElement less xs = some found) : xs[found.2]? = some found.1 := by
  unfold minElement at h
  split at h
  · cases h
  · rename_i first rest hentries
    rw [← List.mk_mem_zipIdx_iff_getElem?, hentries, ← Option.some.inj h]
    have hchoose : ∀ held entry : α × Nat, (if less entry.1 held.1 then entry else held) = held ∨
        (if less entry.1 held.1 then entry else held) = entry := by
      intro held entry
      split
      · exact .inr rfl
      · exact .inl rfl
    rcases foldl_choose hchoose rest with hheld | ⟨entry, hentry, heq⟩
    · rw [hheld]
      exact List.mem_cons_self
    · rw [heq]
      exact List.mem_cons_of_mem _ hentry

/-- The element found is at the position found. -/
theorem getElem?_of_max_element {xs : List α} {found : α × Nat}
    (h : maxElement less xs = some found) : xs[found.2]? = some found.1 :=
  getElem?_of_min_element h

/-! ## The element a pass holds at the end -/

/-- The element that is held after a pass that takes what supersedes the element held. -/
def lastHeld (supersedes : α → α → Bool) (xs : List α) : Option α :=
  xs.foldl (fun held entry => match held with
    | none => some entry
    | some old => if supersedes entry old then some entry else some old) none

section LastHeld

variable {supersedes : α → α → Bool}

theorem last_held_concat (xs : List α) (entry : α) :
    lastHeld supersedes (xs ++ [entry]) = match lastHeld supersedes xs with
      | none => some entry
      | some old => if supersedes entry old then some entry else some old := by
  rw [lastHeld, List.foldl_append]
  rfl

/-- Where an element supersedes those that it is after, the one held is after all others. -/
theorem last_held_spec (After : α → α → Prop) (hrefl : ∀ entry, After entry entry)
    (htrans : ∀ a b c, After a b → After b c → After a c)
    (htake : ∀ entry old, supersedes entry old = true → After old entry)
    (hkeep : ∀ entry old, supersedes entry old = false → After entry old) {xs : List α}
    (hne : xs ≠ []) :
    ∃ found ∈ xs, lastHeld supersedes xs = some found ∧ ∀ entry ∈ xs, After entry found := by
  induction xs using List.reverseRecOn with
  | nil => exact absurd rfl hne
  | append_singleton xs entry ih =>
      rw [last_held_concat]
      by_cases hxs : xs = []
      · subst hxs
        exact ⟨entry, by simp, rfl, by simpa using hrefl entry⟩
      · obtain ⟨old, hold, hheld, hafter⟩ := ih hxs
        rw [hheld]
        cases hsupersedes : supersedes entry old with
        | true =>
            refine ⟨entry, by simp, if_pos hsupersedes, fun other hother => ?_⟩
            rcases List.mem_append.mp hother with hother | hother
            · exact htrans other old entry (hafter other hother) (htake entry old hsupersedes)
            · rw [List.mem_singleton.mp hother]
              exact hrefl entry
        | false =>
            refine ⟨old, List.mem_append_left _ hold, by simp [hsupersedes], fun other hother => ?_⟩
            rcases List.mem_append.mp hother with hother | hother
            · exact hafter other hother
            · rw [List.mem_singleton.mp hother]
              exact hkeep entry old hsupersedes

end LastHeld

/-! ## Nearest within a limit -/

section Nearest

variable {κ : Type} [LinearOrder κ] (distance : α → κ) (limit start : κ)

/-- The position held with its distance, after an element at a position. -/
def closer (held : Option Nat × κ) (entry : α × Nat) : Option Nat × κ :=
  if distance entry.1 ≤ limit ∧ distance entry.1 < held.2 then (some entry.2, distance entry.1)
  else held

/-- The position of the first of the nearest elements within the limit, by a pass that starts with
a distance over the limit. -/
def nearest (xs : List α) : Option Nat :=
  (xs.zipIdx.foldl (closer distance limit) (none, start)).1

/-- The order by distance and then by position. -/
def Nearer (left right : α × Nat) : Prop :=
  distance left.1 < distance right.1 ∨ distance left.1 = distance right.1 ∧ left.2 < right.2

instance decidableNearer (left right : α × Nat) : Decidable (Nearer distance left right) :=
  inferInstanceAs (Decidable (_ ∨ _))

/-- What the pass holds after some entries. -/
inductive Held (entries : List (α × Nat)) : Option Nat × κ → Prop
  | far (h : ∀ entry ∈ entries, limit < distance entry.1) : Held entries (none, start)
  | near {entry : α × Nat} (hmem : entry ∈ entries) (hwithin : distance entry.1 ≤ limit)
      (hfirst : ∀ other ∈ entries, ¬Nearer distance other entry) :
      Held entries (some entry.2, distance entry.1)

variable {distance limit start}

theorem Nearer.irrefl (entry : α × Nat) : ¬Nearer distance entry entry := by
  rintro (hless | ⟨-, hless⟩)
  · exact lt_irrefl _ hless
  · exact Nat.lt_irrefl _ hless

/-- None is nearer than the last one where it has the least distance. -/
theorem not_nearer_last {entries : List (α × Nat)} {next : α × Nat}
    (h : ∀ entry ∈ entries, distance next.1 < distance entry.1) :
    ∀ entry ∈ entries ++ [next], ¬Nearer distance entry next := by
  intro entry hentry
  rcases List.mem_append.mp hentry with hentry | hentry
  · rintro (hnearer | ⟨hnearer, -⟩)
    · exact lt_asymm (h entry hentry) hnearer
    · exact (h entry hentry).ne hnearer.symm
  · rw [List.mem_singleton.mp hentry]
    exact Nearer.irrefl next

/-- A further entry keeps what is known of the held one. -/
theorem held_closer (hstart : limit < start) {entries : List (α × Nat)} {held : Option Nat × κ}
    (h : Held distance limit start entries held) {next : α × Nat}
    (hnext : ∀ entry ∈ entries, entry.2 < next.2) :
    Held distance limit start (entries ++ [next]) (closer distance limit held next) := by
  have hlast : next ∈ entries ++ [next] := List.mem_append_right _ List.mem_cons_self
  unfold closer
  cases h with
  | far hfar =>
    split
    · next hcloser =>
      refine .near hlast hcloser.1 (not_nearer_last fun entry hentry => ?_)
      exact lt_of_le_of_lt hcloser.1 (hfar entry hentry)
    · next hcloser =>
      refine .far fun entry hentry => ?_
      rcases List.mem_append.mp hentry with hentry | hentry
      · exact hfar entry hentry
      · rw [List.mem_singleton.mp hentry]
        exact lt_of_not_ge fun hle => hcloser ⟨hle, lt_of_le_of_lt hle hstart⟩
  | @near entry hmem hwithin hfirst =>
    split
    · next hcloser =>
      refine .near hlast hcloser.1 (not_nearer_last fun other hother => ?_)
      exact lt_of_lt_of_le hcloser.2 (le_of_not_gt fun hless => hfirst other hother (.inl hless))
    · next hcloser =>
      refine .near (List.mem_append_left _ hmem) hwithin fun other hother => ?_
      rcases List.mem_append.mp hother with hother | hother
      · exact hfirst other hother
      · rw [List.mem_singleton.mp hother]
        rintro (hnearer | ⟨-, hnearer⟩)
        · exact hcloser ⟨hnearer.le.trans hwithin, hnearer⟩
        · exact Nat.lt_asymm hnearer (hnext entry hmem)

/-- After a pass over the list the held entry is the nearest. -/
theorem held_nearest (hstart : limit < start) (xs : List α) :
    Held distance limit start xs.zipIdx
      (xs.zipIdx.foldl (closer distance limit) (none, start)) := by
  induction xs using List.reverseRecOn with
  | nil => exact .far fun entry hentry => absurd hentry List.not_mem_nil
  | append_singleton xs x ih =>
    rw [List.zipIdx_append, List.foldl_append]
    refine held_closer hstart ih fun entry hentry => ?_
    rw [Nat.zero_add]
    exact List.snd_lt_of_mem_zipIdx hentry

/-- The nearest entry is in the list. -/
theorem nearest_lt_length (hstart : limit < start) {xs : List α} {position : Nat}
    (h : nearest distance limit start xs = some position) : position < xs.length := by
  have hheld : Held distance limit start xs.zipIdx _ := held_nearest hstart xs
  unfold nearest at h
  generalize xs.zipIdx.foldl (closer distance limit) (none, start) = held at h hheld
  cases hheld with
  | far hfar => cases h
  | @near best hmem hwithin hfirst =>
    obtain rfl : best.2 = position := Option.some.inj h
    simpa using List.snd_lt_of_mem_zipIdx hmem

/-- The pass avoids the positions taken exactly when each of them is over the limit or one that is
not taken is nearer. -/
theorem nearest_avoids_iff (hstart : limit < start) (xs : List α) (taken : Nat → Prop) :
    (∀ position, nearest distance limit start xs = some position → ¬taken position) ↔
      ∀ entry ∈ xs.zipIdx, taken entry.2 →
        limit < distance entry.1 ∨
          ∃ other ∈ xs.zipIdx, ¬taken other.2 ∧ Nearer distance other entry := by
  have hheld : Held distance limit start xs.zipIdx _ := held_nearest hstart xs
  unfold nearest
  generalize xs.zipIdx.foldl (closer distance limit) (none, start) = held at hheld
  cases hheld with
  | far hfar =>
    refine iff_of_true (fun position h => ?_) fun entry hentry _ => .inl (hfar entry hentry)
    cases h
  | @near best hmem hwithin hfirst =>
    constructor
    · intro havoids entry hentry htaken
      have hbest : ¬taken best.2 := havoids best.2 rfl
      refine .inr ⟨best, hmem, hbest, ?_⟩
      have hnearer := hfirst entry hentry
      have hle : distance best.1 ≤ distance entry.1 :=
        le_of_not_gt fun hless => hnearer (.inl hless)
      rcases hle.lt_or_eq with hless | heq
      · exact .inl hless
      · refine .inr ⟨heq, Nat.lt_of_le_of_ne (Nat.not_lt.mp fun hless => ?_) fun hsame => ?_⟩
        · exact hnearer (.inr ⟨heq.symm, hless⟩)
        · exact hbest (hsame ▸ htaken)
    · intro hclear position hposition htaken
      obtain rfl : best.2 = position := Option.some.inj hposition
      rcases hclear best hmem htaken with hover | ⟨other, hother, -, hnearer⟩
      · exact absurd hwithin (not_le_of_gt hover)
      · exact hfirst other hother hnearer

end Nearest

/-! ## Smallest below a bound -/

section Bounded

variable {κ : Type} [LinearOrder κ] (measure : α → κ) (bound : κ)

/-- The element held with its measure, after an element that is taken if it measures less. -/
def keepSmaller (held : Option α × κ) (item : α) : Option α × κ :=
  if measure item < held.2 then (some item, measure item) else held

/-- What the pass holds after some elements. -/
inductive Smallest (items : List α) : Option α × κ → Prop
  | missing (h : ∀ item ∈ items, bound ≤ measure item) : Smallest items (none, bound)
  | found {front behind : List α} {item : α} (hitems : items = front ++ item :: behind)
      (hbound : measure item < bound) (hfront : ∀ other ∈ front, measure item < measure other)
      (hbehind : ∀ other ∈ behind, measure item ≤ measure other) :
      Smallest items (some item, measure item)

variable {measure bound}

/-- A further item keeps what is known of the smallest. -/
theorem Smallest.snoc {items : List α} {held : Option α × κ}
    (h : Smallest measure bound items held) (next : α) :
    Smallest measure bound (items ++ [next]) (keepSmaller measure held next) := by
  unfold keepSmaller
  cases h with
  | missing hfar =>
    split
    · next hless =>
      exact .found rfl hless (fun other hother => lt_of_lt_of_le hless (hfar other hother))
        (List.forall_mem_nil _)
    · next hless =>
      exact .missing (List.forall_mem_append.mpr
        ⟨hfar, List.forall_mem_singleton.mpr (not_lt.mp hless)⟩)
  | @found front behind item hitems hbound hfront hbehind =>
    subst hitems
    split
    · next hless =>
      have hbehind' : ∀ other ∈ item :: behind, measure next < measure other :=
        List.forall_mem_cons.mpr
          ⟨hless, fun other hother => lt_of_lt_of_le hless (hbehind other hother)⟩
      exact .found rfl (hless.trans hbound) (List.forall_mem_append.mpr
        ⟨fun other hother => hless.trans (hfront other hother), hbehind'⟩) (List.forall_mem_nil _)
    · next hless =>
      refine .found (List.append_assoc _ _ _) hbound hfront (List.forall_mem_append.mpr
        ⟨hbehind, List.forall_mem_singleton.mpr (not_lt.mp hless)⟩)

end Bounded

end Extremum
