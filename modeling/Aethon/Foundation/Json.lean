import Mathlib.Data.List.Basic
import Mathlib.Tactic.Common

/-!
# JSON

The grammar of JSON texts, with a character for each byte. `decode` reads what stands between the
quotes of a string, and `Spells` relates a value to the texts that spell it. An escaping that
`decode` undoes at every character is undone as a whole (`decode_flatMap`), and no text spells a
value with a control byte in it that is not white space (`Spells.control`).
-/

namespace Json

/-! ## Strings -/

/-- The characters that follow a backslash, besides the code units. -/
def escaped : Char → Option Char
  | '"' => some '"'
  | '\\' => some '\\'
  | '/' => some '/'
  | 'b' => some (Char.ofNat 8)
  | 'f' => some (Char.ofNat 12)
  | 'n' => some '\n'
  | 'r' => some '\r'
  | 't' => some '\t'
  | _ => none

/-- The value of a hexadecimal digit. -/
def hexValue (ch : Char) : Option ℕ :=
  if '0' ≤ ch ∧ ch ≤ '9' then some (ch.toNat - '0'.toNat)
  else if 'a' ≤ ch ∧ ch ≤ 'f' then some (ch.toNat - 'a'.toNat + 10)
  else if 'A' ≤ ch ∧ ch ≤ 'F' then some (ch.toNat - 'A'.toNat + 10)
  else none

/-- The code unit of four hexadecimal digits. -/
def codeUnit (first second third fourth : Char) : Option ℕ := do
  let first ← hexValue first
  let second ← hexValue second
  let third ← hexValue third
  let fourth ← hexValue fourth
  pure (((first * 16 + second) * 16 + third) * 16 + fourth)

/-- A byte of a string, or a code unit that stands for one or for a part of some. -/
inductive Piece where
  | byte (ch : Char)
  | unit (n : ℕ)
  deriving DecidableEq, Repr

/-- The characters and code units of the body of a string. -/
def pieces : List Char → Option (List Piece)
  | [] => some []
  | ch :: rest =>
    if ch = '\\' then
      match rest with
      | 'u' :: first :: second :: third :: fourth :: rest =>
        (codeUnit first second third fourth).bind fun unit =>
          (pieces rest).map (.unit unit :: ·)
      | letter :: rest => (escaped letter).bind fun ch => (pieces rest).map (.byte ch :: ·)
      | [] => none
    else if ch = '"' ∨ ch.toNat < 0x20 then none
    else (pieces rest).map (.byte ch :: ·)

/-- The bytes of a code point in UTF-8. -/
def utf8 (n : ℕ) : List Char :=
  if n < 0x80 then [Char.ofNat n]
  else if n < 0x800 then [Char.ofNat (0xC0 + n / 64), Char.ofNat (0x80 + n % 64)]
  else if n < 0x10000 then
    [Char.ofNat (0xE0 + n / 4096), Char.ofNat (0x80 + n / 64 % 64), Char.ofNat (0x80 + n % 64)]
  else
    [Char.ofNat (0xF0 + n / 262144), Char.ofNat (0x80 + n / 4096 % 64),
      Char.ofNat (0x80 + n / 64 % 64), Char.ofNat (0x80 + n % 64)]

/-- A high surrogate stands for a code point together with the low one behind it. -/
def assemble : List Piece → Option (List Char)
  | [] => some []
  | .byte ch :: rest => (assemble rest).map (ch :: ·)
  | .unit n :: rest =>
    if 0xD800 ≤ n ∧ n < 0xDC00 then
      match rest with
      | .unit low :: rest =>
        if 0xDC00 ≤ low ∧ low < 0xE000 then
          (assemble rest).map (utf8 (0x10000 + (n - 0xD800) * 0x400 + (low - 0xDC00)) ++ ·)
        else none
      | _ => none
    else if 0xDC00 ≤ n ∧ n < 0xE000 then none
    else (assemble rest).map (utf8 n ++ ·)

/-- What the text between the quotes of a string stands for. -/
def decode (body : List Char) : Option (List Char) :=
  (pieces body).bind assemble

section Decode

variable {ch : Char} {body rest : List Char}

theorem pieces_plain (hslash : ch ≠ '\\') (hquote : ch ≠ '"') (hcontrol : ¬ch.toNat < 0x20) :
    pieces (ch :: rest) = (pieces rest).map (.byte ch :: ·) := by
  rw [pieces.eq_def]
  exact (if_neg hslash).trans (if_neg (not_or.mpr ⟨hquote, hcontrol⟩))

/-- An escaped letter is one piece. -/
theorem pieces_escaped {letter : Char} (h : escaped letter = some ch) :
    pieces ('\\' :: letter :: rest) = (pieces rest).map (.byte ch :: ·) := by
  rw [pieces.eq_def]
  refine (if_pos rfl).trans ?_
  split
  · next heq =>
    obtain rfl := (List.cons.inj heq).1
    cases h
  · next heq =>
    obtain ⟨rfl, rfl⟩ := List.cons.inj heq
    rw [h]
    rfl
  · next heq => cases heq

/-- Four digits behind a `u` are one unit. -/
theorem pieces_unit {first second third fourth : Char} {n : ℕ}
    (h : codeUnit first second third fourth = some n) :
    pieces ('\\' :: 'u' :: first :: second :: third :: fourth :: rest) =
      (pieces rest).map (.unit n :: ·) := by
  rw [pieces.eq_def]
  refine (if_pos rfl).trans ?_
  show (codeUnit first second third fourth).bind _ = _
  rw [h]
  rfl

/-- A piece that stands for bytes of its own is decoded by itself. -/
theorem bind_assemble {piece : Piece} {front : List Char}
    (h : ∀ behind, assemble (piece :: behind) = (assemble behind).map (front ++ ·))
    (behind : Option (List Piece)) :
    (behind.map (piece :: ·)).bind assemble = (behind.bind assemble).map (front ++ ·) := by
  cases behind with
  | none => rfl
  | some behind => exact h behind

/-- A byte that needs no escape stands for itself. -/
theorem decode_plain (hslash : ch ≠ '\\') (hquote : ch ≠ '"') (hcontrol : ¬ch.toNat < 0x20) :
    decode (ch :: rest) = (decode rest).map (ch :: ·) := by
  rw [decode, pieces_plain hslash hquote hcontrol]
  exact @bind_assemble (.byte ch) [ch] (fun _ => rfl) (pieces rest)

theorem decode_escaped {letter : Char} (h : escaped letter = some ch) :
    decode ('\\' :: letter :: rest) = (decode rest).map (ch :: ·) := by
  rw [decode, pieces_escaped h]
  exact @bind_assemble (.byte ch) [ch] (fun _ => rfl) (pieces rest)

/-- A unit below 128 is read as its character. -/
theorem decode_unit {first second third fourth : Char} {n : ℕ}
    (h : codeUnit first second third fourth = some n) (hn : n < 0x80) :
    decode ('\\' :: 'u' :: first :: second :: third :: fourth :: rest) =
      (decode rest).map (Char.ofNat n :: ·) := by
  rw [decode, pieces_unit h]
  refine @bind_assemble (.unit n) [Char.ofNat n] (fun behind => ?_) (pieces rest)
  rw [assemble.eq_def]
  have hutf8 : utf8 n = [Char.ofNat n] := if_pos hn
  exact (if_neg (by omega)).trans ((if_neg (by omega)).trans (by rw [hutf8]))

/-- An escaping of characters one by one is undone. -/
theorem decode_flatMap {escape : Char → List Char} {text : List Char}
    (h : ∀ ch ∈ text, ∀ rest, decode (escape ch ++ rest) = (decode rest).map (ch :: ·)) :
    decode (text.flatMap escape) = some text := by
  induction text with
  | nil => rfl
  | cons ch text ih =>
    rw [List.flatMap_cons, h ch List.mem_cons_self,
      ih fun other hother => h other (List.mem_cons_of_mem ch hother)]
    rfl

/-! A character of a string is a control byte in no part of its text. -/

/-- A digit of base sixteen is no control character. -/
theorem not_control_of_hex {n : ℕ} (h : hexValue ch = some n) : 0x20 ≤ ch.toNat := by
  unfold hexValue at h
  simp only [Char.le_def, UInt32.le_iff_toNat_le] at h
  show 0x20 ≤ ch.val.toNat
  have hzero : '0'.val.toNat = 48 := rfl
  have ha : 'a'.val.toNat = 97 := rfl
  have hA : 'A'.val.toNat = 65 := rfl
  split_ifs at h <;> omega

/-- A letter that may be escaped is no control character. -/
theorem not_control_of_escaped {letter : Char} (h : escaped letter = some ch) :
    0x20 ≤ letter.toNat := by
  unfold escaped at h
  split at h
  case h_9 => cases h
  all_goals decide

/-- The digits of a unit are no control characters. -/
theorem not_control_of_unit {first second third fourth : Char} {n : ℕ}
    (h : codeUnit first second third fourth = some n) :
    0x20 ≤ first.toNat ∧ 0x20 ≤ second.toNat ∧ 0x20 ≤ third.toNat ∧ 0x20 ≤ fourth.toNat := by
  simp only [codeUnit, Option.bind_eq_bind, Option.bind_eq_some_iff] at h
  obtain ⟨_, hfirst, _, hsecond, _, hthird, _, hfourth, -⟩ := h
  exact ⟨not_control_of_hex hfirst, not_control_of_hex hsecond, not_control_of_hex hthird,
    not_control_of_hex hfourth⟩

/-- The body of a string holds no control character. -/
theorem not_control_of_pieces {read : List Piece} (h : pieces body = some read) :
    ∀ ch ∈ body, 0x20 ≤ ch.toNat := by
  fun_induction pieces body generalizing read with
  | case1 => simp
  | case2 first second third fourth rest ih =>
    obtain ⟨unit, hunit, hrest⟩ := Option.bind_eq_some_iff.mp h
    obtain ⟨behind, hbehind, -⟩ := Option.map_eq_some_iff.mp hrest
    obtain ⟨hfirst, hsecond, hthird, hfourth⟩ := not_control_of_unit hunit
    have hfront : 0x20 ≤ '\\'.toNat ∧ 0x20 ≤ 'u'.toNat := by decide
    simp only [List.forall_mem_cons]
    exact ⟨hfront.1, hfront.2, hfirst, hsecond, hthird, hfourth, ih hbehind⟩
  | case3 letter rest hnot ih =>
    obtain ⟨ch, hescaped, hrest⟩ := Option.bind_eq_some_iff.mp h
    obtain ⟨behind, hbehind, -⟩ := Option.map_eq_some_iff.mp hrest
    have hfront : 0x20 ≤ '\\'.toNat := by decide
    simp only [List.forall_mem_cons]
    exact ⟨hfront, not_control_of_escaped hescaped, ih hbehind⟩
  | case4 => cases h
  | case5 => cases h
  | case6 ch rest hslash hplain ih =>
    obtain ⟨behind, hbehind, -⟩ := Option.map_eq_some_iff.mp h
    exact List.forall_mem_cons.mpr ⟨Nat.le_of_not_lt (not_or.mp hplain).2, ih hbehind⟩

theorem not_control_of_decode {text : List Char} (h : decode body = some text) :
    ∀ ch ∈ body, 0x20 ≤ ch.toNat := by
  obtain ⟨read, hread, -⟩ := Option.bind_eq_some_iff.mp h
  exact not_control_of_pieces hread

end Decode

/-! ## Values -/

/-- A number is kept as it is spelled. -/
inductive Value where
  | null
  | bool (b : Bool)
  | number (spelling : List Char)
  | string (text : List Char)
  | array (items : List Value)
  | object (members : List (List Char × Value))

/-- One or more decimal digits. -/
def Digits (text : List Char) : Prop :=
  text ≠ [] ∧ ∀ ch ∈ text, ch.isDigit = true

/-- The integer part of a number has no needless zero. -/
def IntegerPart (text : List Char) : Prop :=
  text = ['0'] ∨ Digits text ∧ text.head? ≠ some '0'

/-- Nothing, or a point and digits behind it. -/
def FractionPart (text : List Char) : Prop :=
  text = [] ∨ ∃ digits, Digits digits ∧ text = '.' :: digits

/-- Nothing, or an exponent with or without a sign. -/
def ExponentPart (text : List Char) : Prop :=
  text = [] ∨ ∃ letter sign digits, letter ∈ ['e', 'E'] ∧ sign ∈ [[], ['+'], ['-']] ∧
    Digits digits ∧ text = letter :: (sign ++ digits)

/-- A text is a number of the grammar. -/
def IsNumber (text : List Char) : Prop :=
  ∃ sign integer fraction exponent, sign ∈ [[], ['-']] ∧ IntegerPart integer ∧
    FractionPart fraction ∧ ExponentPart exponent ∧
    text = sign ++ integer ++ fraction ++ exponent

/-- A text of blanks, tabs and line ends only. -/
def IsSpace (text : List Char) : Prop :=
  ∀ ch ∈ text, ch ∈ [' ', '\t', '\n', '\r']

/-- A body between quotes. -/
def quoted (body : List Char) : List Char :=
  '"' :: (body ++ ['"'])

/-- Items with a comma between each two. -/
def commaSeparated (items : List (List Char)) : List Char :=
  List.intercalate [','] items

/-- A value in a text, between white space. -/
structure Element where
  front : List Char := []
  value : Value
  text : List Char
  behind : List Char := []

/-- The text of an element with the space around it. -/
def Element.padded (element : Element) : List Char :=
  element.front ++ element.text ++ element.behind

/-- Only space stands around an element. -/
def Element.Spaced (element : Element) : Prop :=
  IsSpace element.front ∧ IsSpace element.behind

/-- A member of an object in a text. -/
structure Member where
  front : List Char := []
  name : List Char
  body : List Char
  behind : List Char := []
  element : Element

/-- The text of a member with the space around its parts. -/
def Member.padded (member : Member) : List Char :=
  member.front ++ quoted member.body ++ member.behind ++ ':' :: member.element.padded

/-- Only space stands around the parts of a member, and its body is decoded to its name. -/
structure Member.Named (member : Member) : Prop where
  front : IsSpace member.front
  name : decode member.body = some member.name
  behind : IsSpace member.behind
  element : member.element.Spaced

/-- The text spells the value. -/
inductive Spells : Value → List Char → Prop where
  | null : Spells .null "null".toList
  | true : Spells (.bool true) "true".toList
  | false : Spells (.bool false) "false".toList
  | number {text : List Char} (hnumber : IsNumber text) : Spells (.number text) text
  | string {text body : List Char} (hdecode : decode body = some text) :
      Spells (.string text) (quoted body)
  | array {gap : List Char} {elements : List Element} (hgap : IsSpace gap)
      (hspaced : ∀ element ∈ elements, element.Spaced)
      (hvalues : ∀ element ∈ elements, Spells element.value element.text) :
      Spells (.array (elements.map Element.value))
        ('[' :: (gap ++ commaSeparated (elements.map Element.padded) ++ [']']))
  | object {gap : List Char} {members : List Member} (hgap : IsSpace gap)
      (hnamed : ∀ member ∈ members, member.Named)
      (hvalues : ∀ member ∈ members, Spells member.element.value member.element.text) :
      Spells (.object (members.map fun member => (member.name, member.element.value)))
        ('{' :: (gap ++ commaSeparated (members.map Member.padded) ++ ['}']))

/-- A text of a value of its own. -/
def Document (value : Value) (text : List Char) : Prop :=
  ∃ front core behind, IsSpace front ∧ Spells value core ∧ IsSpace behind ∧
    text = front ++ core ++ behind

/-! ## Characters of numbers -/

/-- A character that can stand in a number. -/
def numberChar : Char → Bool
  | '-' | '+' | '.' | 'e' | 'E' => true
  | ch => ch.isDigit

/-- A digit is a character of numbers. -/
theorem number_of_digits {text : List Char} (h : Digits text) :
    ∀ ch ∈ text, numberChar ch = true := by
  intro ch hch
  unfold numberChar
  split
  case h_6 => exact h.2 ch hch
  all_goals rfl

/-- A number consists of characters of numbers. -/
theorem IsNumber.all {text : List Char} (h : IsNumber text) :
    ∀ ch ∈ text, numberChar ch = true := by
  obtain ⟨sign, integer, fraction, exponent, hsign, hinteger, hfraction, hexponent, rfl⟩ := h
  have hsigns : ∀ sign ∈ [[], ['+'], ['-']], sign.all numberChar = true := by decide
  simp only [List.all_eq_true] at hsigns
  simp only [List.forall_mem_append]
  refine ⟨⟨⟨hsigns sign ?_, ?_⟩, ?_⟩, ?_⟩
  · revert sign
    decide
  · rcases hinteger with rfl | ⟨hdigits, -⟩
    · exact List.forall_mem_singleton.mpr rfl
    · exact number_of_digits hdigits
  · rcases hfraction with rfl | ⟨digits, hdigits, rfl⟩
    · exact List.forall_mem_nil _
    · exact List.forall_mem_cons.mpr ⟨by decide, number_of_digits hdigits⟩
  · rcases hexponent with rfl | ⟨letter, sign, digits, hletter, hsign, hdigits, rfl⟩
    · exact List.forall_mem_nil _
    · refine List.forall_mem_cons.mpr ⟨?_, List.forall_mem_append.mpr
        ⟨hsigns sign hsign, number_of_digits hdigits⟩⟩
      rcases List.mem_pair.mp hletter with rfl | rfl
      · decide
      · decide

/-! ## Control bytes -/

/-- What may stand between the values of a text, of the control bytes. -/
def Tame (text : List Char) : Prop :=
  ∀ ch ∈ text, ch.toNat < 0x20 → ch ∈ ['\t', '\n', '\r']

instance (text : List Char) : Decidable (Tame text) :=
  List.decidableBAll _ text

section Tame

variable {text front behind : List Char}

theorem tame_append : Tame (front ++ behind) ↔ Tame front ∧ Tame behind :=
  List.forall_mem_append

theorem tame_cons {ch : Char} (hch : 0x20 ≤ ch.toNat) : Tame (ch :: text) ↔ Tame text := by
  unfold Tame
  rw [List.forall_mem_cons]
  exact and_iff_right fun hcontrol => absurd hcontrol (Nat.not_lt.mpr hch)

theorem tame_nil : Tame [] := by
  intro ch hch
  cases hch

theorem tame_of_not_control (h : ∀ ch ∈ text, 0x20 ≤ ch.toNat) : Tame text :=
  fun ch hch hcontrol => absurd hcontrol (Nat.not_lt.mpr (h ch hch))

/-- Blanks are tame. -/
theorem IsSpace.tame (h : IsSpace text) : Tame text := by
  intro ch hch hcontrol
  have hspace := h ch hch
  rw [List.mem_cons] at hspace
  rcases hspace with rfl | hspace
  · exact absurd hcontrol (by decide)
  · exact hspace

/-- Tame items are tame with commas between them. -/
theorem tame_comma_separated {items : List (List Char)} (h : ∀ item ∈ items, Tame item) :
    Tame (commaSeparated items) := by
  induction items with
  | nil => exact tame_nil
  | cons item items ih =>
    obtain ⟨hitem, hitems⟩ := List.forall_mem_cons.mp h
    cases items with
    | nil => simpa [commaSeparated] using hitem
    | cons next items =>
      rw [commaSeparated, List.intercalate_cons_cons, tame_append, tame_append]
      exact ⟨⟨hitem, (tame_cons (by decide)).mpr tame_nil⟩, ih hitems⟩

/-- A digit is no control character. -/
theorem not_control_of_digit {ch : Char} (h : ch.isDigit = true) : 0x20 ≤ ch.toNat := by
  simp only [Char.isDigit, Bool.and_eq_true, decide_eq_true_eq, ge_iff_le,
    UInt32.le_iff_toNat_le] at h
  have hzero : '0'.val.toNat = 48 := rfl
  show 0x20 ≤ ch.val.toNat
  omega

theorem not_control_of_number {ch : Char} (h : numberChar ch = true) : 0x20 ≤ ch.toNat := by
  unfold numberChar at h
  split at h
  case h_6 => exact not_control_of_digit h
  all_goals decide

theorem IsNumber.tame (h : IsNumber text) : Tame text :=
  tame_of_not_control fun ch hch => not_control_of_number (h.all ch hch)

theorem tame_quoted {body decoded : List Char} (h : decode body = some decoded) :
    Tame (quoted body) :=
  (tame_cons (by decide)).mpr (tame_append.mpr
    ⟨tame_of_not_control (not_control_of_decode h), by decide⟩)

/-- Only white space is a control byte in the text of a value. -/
theorem Spells.control {value : Value} (h : Spells value text) : Tame text := by
  induction h with
  | null => decide
  | true => decide
  | false => decide
  | number hnumber => exact hnumber.tame
  | string hdecode => exact tame_quoted hdecode
  | array hgap hspaced _ ih =>
    refine (tame_cons (by decide)).mpr ?_
    rw [tame_append, tame_append]
    refine ⟨⟨hgap.tame, tame_comma_separated ?_⟩, by decide⟩
    simp only [List.forall_mem_map, Element.padded, tame_append]
    exact fun element helement =>
      ⟨⟨(hspaced element helement).1.tame, ih element helement⟩, (hspaced element helement).2.tame⟩
  | object hgap hnamed _ ih =>
    refine (tame_cons (by decide)).mpr ?_
    rw [tame_append, tame_append]
    refine ⟨⟨hgap.tame, tame_comma_separated ?_⟩, by decide⟩
    simp only [List.forall_mem_map, Member.padded, Element.padded, tame_append]
    intro member hmember
    have h := hnamed member hmember
    refine ⟨⟨⟨h.front.tame, tame_quoted h.name⟩, h.behind.tame⟩, (tame_cons (by decide)).mpr ?_⟩
    simp only [tame_append]
    exact ⟨⟨h.element.1.tame, ih member hmember⟩, h.element.2.tame⟩

theorem Document.control {value : Value} (h : Document value text) : Tame text := by
  obtain ⟨front, core, behind, hfront, hspells, hbehind, rfl⟩ := h
  rw [tame_append, tame_append]
  exact ⟨⟨hfront.tame, hspells.control⟩, hbehind.tame⟩

end Tame

/-! ## Texts without white space -/

/-- A positive number does not begin with a zero. -/
theorem head_toDigits {n : ℕ} (h : 0 < n) : (Nat.toDigits 10 n).head? ≠ some '0' := by
  induction n using Nat.strongRecOn with
  | _ n ih =>
    by_cases hsmall : n < 10
    · rw [Nat.toDigits_of_lt_base hsmall]
      have hdigits : ∀ n < 10, 0 < n → [Nat.digitChar n].head? ≠ some '0' := by decide
      exact hdigits n hsmall h
    · rw [Nat.toDigits_of_base_le (by decide) (Nat.le_of_not_lt hsmall),
        List.head?_append_of_ne_nil _ Nat.toDigits_ne_nil]
      exact ih (n / 10) (by omega) (by omega)

theorem integer_part_toDigits (n : ℕ) : IntegerPart (Nat.toDigits 10 n) := by
  rcases Nat.eq_zero_or_pos n with rfl | hpos
  · exact .inl rfl
  · refine .inr ⟨⟨Nat.toDigits_ne_nil, fun ch hch => ?_⟩, head_toDigits hpos⟩
    exact Nat.isDigit_of_mem_toDigits (by decide) (by decide) hch

/-- The decimal text of a natural number, or of a negative one. -/
theorem is_number_toDigits {sign : List Char} (hsign : sign ∈ [[], ['-']]) (n : ℕ) :
    IsNumber (sign ++ Nat.toDigits 10 n) :=
  ⟨sign, _, [], [], hsign, integer_part_toDigits n, .inl rfl, .inl rfl, by simp⟩

/-- A member without white space. -/
def Member.compact (name body : List Char) (value : Value) (text : List Char) : Member :=
  { name, body, element := { value, text } }

theorem Member.padded_compact (name body : List Char) (value : Value) (text : List Char) :
    (compact name body value text).padded = quoted body ++ ':' :: text := by
  simp [compact, padded, Element.padded]

theorem isSpace_nil : IsSpace [] := by
  intro ch hch
  cases hch

theorem Member.named_compact {name body : List Char} (h : decode body = some name) (value : Value)
    (text : List Char) : (compact name body value text).Named :=
  ⟨isSpace_nil, h, isSpace_nil, isSpace_nil, isSpace_nil⟩

/-- A text of bytes that need no escape stands for itself. -/
theorem decode_of_plain {text : List Char}
    (h : ∀ ch ∈ text, ch ≠ '\\' ∧ ch ≠ '"' ∧ ¬ch.toNat < 0x20) : decode text = some text := by
  have hdecode := @decode_flatMap (fun ch => [ch]) text fun ch hch rest =>
    decode_plain (h ch hch).1 (h ch hch).2.1 (h ch hch).2.2
  rwa [List.flatMap_singleton'] at hdecode

theorem Document.of_spells {value : Value} {text : List Char} (h : Spells value text) :
    Document value text :=
  ⟨[], text, [], isSpace_nil, h, isSpace_nil, by simp⟩

end Json
