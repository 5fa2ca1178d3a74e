import Mathlib.Data.List.TakeWhile
import Mathlib.Tactic.Common

/-!
# Scanning a list

A scanner takes elements of a class off the front of a list, up to the first one that is not of the
class. `takeWhile_of_stops` and `dropWhile_of_stops` say where it stops, and `trim_padded` says what
is left of a list between elements that are stripped from both ends.
-/

namespace Scanning

variable {α : Type} {p : α → Bool}

/-- The list does not begin with an element of the class. -/
def Stops (p : α → Bool) (rest : List α) : Prop :=
  ∀ a ∈ rest.head?, p a = false

theorem stops_nil : Stops p [] :=
  fun _ ha => absurd ha.symm (Option.some_ne_none _)

theorem stops_cons {a : α} {rest : List α} (h : p a = false) : Stops p (a :: rest) :=
  fun _ hb => Option.some.inj hb ▸ h

/-- What begins with an element outside the class may be followed by anything. -/
theorem stops_append {front : List α} (h : front.head?.any (fun a => !p a) = true)
    (rest : List α) : Stops p (front ++ rest) := by
  cases front with
  | nil => cases h
  | cons a front => exact stops_cons (by simpa using h)

theorem Stops.dropWhile_eq {rest : List α} (h : Stops p rest) : rest.dropWhile p = rest := by
  cases rest with
  | nil => rfl
  | cons a rest => rw [List.dropWhile_cons_of_neg (by rw [h a rfl]; exact Bool.false_ne_true)]

theorem Stops.takeWhile_eq {rest : List α} (h : Stops p rest) : rest.takeWhile p = [] := by
  cases rest with
  | nil => rfl
  | cons a rest => rw [List.takeWhile_cons_of_neg (by rw [h a rfl]; exact Bool.false_ne_true)]

theorem takeWhile_of_stops {front rest : List α} (hfront : ∀ a ∈ front, p a = true)
    (hrest : Stops p rest) : (front ++ rest).takeWhile p = front := by
  rw [List.takeWhile_append_of_pos hfront, hrest.takeWhile_eq, List.append_nil]

theorem dropWhile_of_stops {front rest : List α} (hfront : ∀ a ∈ front, p a = true)
    (hrest : Stops p rest) : (front ++ rest).dropWhile p = rest := by
  rw [List.dropWhile_append_of_pos hfront, hrest.dropWhile_eq]

/-- Strip the elements of the class from both ends. -/
def trim (p : α → Bool) (items : List α) : List α :=
  ((items.dropWhile p).reverse.dropWhile p).reverse

/-- What is stripped from both ends of a list that neither begins nor ends with the class is what
surrounds it. -/
theorem trim_padded {front core back : List α} (hfront : ∀ a ∈ front, p a = true)
    (hback : ∀ a ∈ back, p a = true) (hnonempty : core ≠ []) (hfirst : Stops p core)
    (hlast : Stops p core.reverse) : trim p (front ++ core ++ back) = core := by
  have hrest : Stops p (core ++ back) := by
    cases core with
    | nil => exact absurd rfl hnonempty
    | cons a core => exact stops_cons (hfirst a rfl)
  rw [trim, List.append_assoc, dropWhile_of_stops hfront hrest, List.reverse_append,
    dropWhile_of_stops (fun a ha => hback a (List.mem_reverse.mp ha)) hlast, List.reverse_reverse]

end Scanning
