import Mathlib.Algebra.GroupWithZero.Nat
import Mathlib.Algebra.Order.Ring.Int
import Aethon.Foundation.Scanning

/-!
# Text

Strings as lists of characters, with a character for each byte, and the functions of `<cctype>` and
`<charconv>` that the parsers of the library use. The classifications are those of the C locale.
`from_chars_decimal` is the round trip of numbers through their decimal text.
-/

namespace Aethon

/-- A text is the list of its characters. -/
abbrev Text := List Char

namespace Text

instance : LawfulBEq Text :=
  inferInstanceAs (LawfulBEq (List Char))

/-- `std::isspace`. -/
def isSpace (ch : Char) : Bool :=
  ch ∈ [' ', '\t', '\n', Char.ofNat 11, Char.ofNat 12, '\r']

/-- `std::tolower` on every character. -/
def lower (text : Text) : Text :=
  text.map Char.toLower

/-- The text of a number on a stream. -/
def decimal (n : Nat) : Text :=
  Nat.toDigits 10 n

/-- The text of a signed number on a stream. -/
def signedDecimal (n : ℤ) : Text :=
  if n < 0 then '-' :: decimal n.natAbs else decimal n.natAbs

/-- `std::from_chars` for a 64-bit unsigned number: the value of the digits at the front and the
text behind them. There is none without a digit or when the value is out of range. -/
def fromChars (text : Text) : Option (UInt64 × Text) :=
  let digits := text.takeWhile Char.isDigit
  if digits = [] then none
  else if Nat.ofDigitChars 10 digits 0 ≥ 2 ^ 64 then none
  else some (UInt64.ofNat (Nat.ofDigitChars 10 digits 0), text.dropWhile Char.isDigit)

/-- `std::from_chars` for an `int`, with a minus sign in front or not. -/
def fromCharsInt (text : Text) : Option (Int32 × Text) :=
  let negative : Bool := text.head? = some '-'
  let rest := if negative then text.tail else text
  let digits := rest.takeWhile Char.isDigit
  let magnitude : ℤ := Nat.ofDigitChars 10 digits 0
  let value := if negative then -magnitude else magnitude
  if digits = [] then none
  else if -2 ^ 31 ≤ value ∧ value < 2 ^ 31 then
    some (Int32.ofInt value, rest.dropWhile Char.isDigit)
  else none

theorem toList_ne_nil {string : String} (h : string ≠ "") : string.toList ≠ [] :=
  String.toList_eq_nil_iff.not.mpr h

theorem isDigit_of_mem_decimal {n : Nat} {ch : Char} (h : ch ∈ decimal n) : ch.isDigit = true :=
  Nat.isDigit_of_mem_toDigits (by decide) (by decide) h

theorem decimal_ne_nil (n : Nat) : decimal n ≠ [] :=
  Nat.toDigits_ne_nil

/-- A digit is no space. -/
theorem isSpace_of_isDigit {ch : Char} (h : ch.isDigit = true) : isSpace ch = false := by
  by_contra hspace
  simp only [isSpace, Bool.not_eq_false, decide_eq_true_eq, List.mem_cons, List.not_mem_nil,
    or_false] at hspace
  rcases hspace with rfl | rfl | rfl | rfl | rfl | rfl
  all_goals exact absurd h (by decide)

theorem takeWhile_decimal (n : Nat) : (decimal n).takeWhile Char.isDigit = decimal n := by
  have htake := Scanning.takeWhile_of_stops (fun ch => @isDigit_of_mem_decimal n ch)
    Scanning.stops_nil
  rwa [List.append_nil] at htake

theorem dropWhile_decimal (n : Nat) : (decimal n).dropWhile Char.isDigit = [] := by
  have hdrop := Scanning.dropWhile_of_stops (fun ch => @isDigit_of_mem_decimal n ch)
    Scanning.stops_nil
  rwa [List.append_nil] at hdrop

theorem ofDigitChars_decimal (n : Nat) : Nat.ofDigitChars 10 (decimal n) 0 = n :=
  Nat.ofDigitChars_ten_toDigits

/-- The decimal text of a 64-bit number is read back whole. -/
theorem from_chars_decimal (n : UInt64) : fromChars (decimal n.toNat) = some (n, []) := by
  unfold fromChars
  dsimp only
  rw [takeWhile_decimal, dropWhile_decimal, ofDigitChars_decimal, if_neg (decimal_ne_nil _),
    if_neg (Nat.not_le.mpr n.toNat_lt), UInt64.ofNat_toNat]

/-- The decimal text of an integer is read back when it is in the range of an `int`. -/
theorem from_chars_int_decimal (n : ℤ) :
    fromCharsInt (signedDecimal n) =
      if -2 ^ 31 ≤ n ∧ n < 2 ^ 31 then some (Int32.ofInt n, []) else none := by
  unfold fromCharsInt signedDecimal
  by_cases hnegative : n < 0
  · have hvalue : -(n.natAbs : ℤ) = n := by omega
    simp only [hnegative, if_true, List.head?_cons, List.tail_cons, decide_true,
      takeWhile_decimal, dropWhile_decimal, ofDigitChars_decimal, decimal_ne_nil, if_false, hvalue]
  · have hvalue : (n.natAbs : ℤ) = n := by omega
    have hhead : (decimal n.natAbs).head? ≠ some '-' := fun hhead =>
      absurd (isDigit_of_mem_decimal (List.mem_of_head? hhead)) (by decide)
    simp only [hnegative, if_false, hhead, decide_false, Bool.false_eq_true,
      takeWhile_decimal, dropWhile_decimal, ofDigitChars_decimal, decimal_ne_nil, hvalue]

/-- The text of a number ends in front of a text that does not begin with a digit. -/
theorem decimal_append_inj {m n : Nat} {left right : Text}
    (hleft : Scanning.Stops Char.isDigit left) (hright : Scanning.Stops Char.isDigit right)
    (h : decimal m ++ left = decimal n ++ right) : m = n ∧ left = right := by
  have hdigits : ∀ k, ∀ ch ∈ decimal k, ch.isDigit = true := fun _ _ => isDigit_of_mem_decimal
  have hfront := congrArg (List.takeWhile Char.isDigit) h
  have hbehind := congrArg (List.dropWhile Char.isDigit) h
  rw [Scanning.takeWhile_of_stops (hdigits m) hleft,
    Scanning.takeWhile_of_stops (hdigits n) hright] at hfront
  rw [Scanning.dropWhile_of_stops (hdigits m) hleft,
    Scanning.dropWhile_of_stops (hdigits n) hright] at hbehind
  refine ⟨?_, hbehind⟩
  have hvalue := congrArg (Nat.ofDigitChars 10 · 0) hfront
  simpa only [decimal, Nat.ofDigitChars_ten_toDigits] using hvalue

example : fromChars "18446744073709551616".toList = none := by decide

example : fromChars "42ns".toList = some (42, "ns".toList) := by decide

end Text

end Aethon
