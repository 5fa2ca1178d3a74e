import Aethon.Foundation.Json
import Aethon.Foundation.Scanning

/-!
# Reading JSON

A text is the text of one value at most: `Document.unique`. A reader that goes from left to right
knows the kind of a value by its first character, ends a number in front of the first character that
can be in none, a string at the first quote that is not escaped, and an array or an object at the
character that closes it.
-/

namespace Json

open Scanning

/-! ## Strings -/

/-- Whether the text ends with a backslash that escapes what is behind it, from whether what comes
first is escaped. There is nothing for a text with a quote that is not escaped. -/
def pending : Bool → List Char → Option Bool
  | held, [] => some held
  | true, _ :: rest => pending false rest
  | false, ch :: rest => if ch = '"' then none else pending (ch = '\\') rest

theorem pending_plain {ch : Char} {rest : List Char} (hslash : ch ≠ '\\') (hquote : ch ≠ '"') :
    pending false (ch :: rest) = pending false rest := by
  rw [pending, if_neg hquote, decide_eq_false hslash]

theorem pending_escaped (letter : Char) (rest : List Char) :
    pending false ('\\' :: letter :: rest) = pending false rest := by
  rw [pending, if_neg (by decide), decide_eq_true rfl, pending]

/-- A digit of base sixteen neither escapes nor ends a string. -/
theorem plain_of_hex {ch : Char} {n : ℕ} (h : hexValue ch = some n) :
    ch ≠ '\\' ∧ ch ≠ '"' := by
  constructor
  · rintro rfl
    cases h
  · rintro rfl
    cases h

/-- The body of a string has no quote and no backslash that is left over. -/
theorem pending_of_pieces {body : List Char} {read : List Piece} (h : pieces body = some read) :
    pending false body = some false := by
  fun_induction pieces body generalizing read with
  | case1 => rfl
  | case2 first second third fourth rest ih =>
    obtain ⟨unit, hunit, hrest⟩ := Option.bind_eq_some_iff.mp h
    obtain ⟨behind, hbehind, -⟩ := Option.map_eq_some_iff.mp hrest
    simp only [codeUnit, Option.bind_eq_bind, Option.bind_eq_some_iff] at hunit
    obtain ⟨_, hfirst, _, hsecond, _, hthird, _, hfourth, -⟩ := hunit
    have hfirst := plain_of_hex hfirst
    have hsecond := plain_of_hex hsecond
    have hthird := plain_of_hex hthird
    have hfourth := plain_of_hex hfourth
    rw [pending_escaped, pending_plain hfirst.1 hfirst.2, pending_plain hsecond.1 hsecond.2,
      pending_plain hthird.1 hthird.2, pending_plain hfourth.1 hfourth.2]
    exact ih hbehind
  | case3 letter rest hnot ih =>
    obtain ⟨ch, -, hrest⟩ := Option.bind_eq_some_iff.mp h
    obtain ⟨behind, hbehind, -⟩ := Option.map_eq_some_iff.mp hrest
    rw [pending_escaped]
    exact ih hbehind
  | case4 => cases h
  | case5 => cases h
  | case6 ch rest hslash hplain ih =>
    obtain ⟨behind, hbehind, -⟩ := Option.map_eq_some_iff.mp h
    rw [pending_plain hslash fun hquote => hplain (Or.inl hquote)]
    exact ih hbehind

theorem pending_of_decode {body text : List Char} (h : decode body = some text) :
    pending false body = some false := by
  obtain ⟨read, hread, -⟩ := Option.bind_eq_some_iff.mp h
  exact pending_of_pieces hread

/-- The first quote that is not escaped ends the string. -/
theorem body_unique {held : Bool} {body body' rest rest' : List Char}
    (h : pending held body = some false) (h' : pending held body' = some false)
    (heq : body ++ '"' :: rest = body' ++ '"' :: rest') : body = body' ∧ rest = rest' := by
  induction body generalizing held body' with
  | nil =>
    obtain rfl : held = false := Option.some.inj h
    cases body' with
    | nil => exact ⟨rfl, (List.cons.inj heq).2⟩
    | cons ch body' =>
      -- the other body would begin with the quote behind this one
      rw [← (List.cons.inj heq).1, pending, if_pos rfl] at h'
      cases h'
  | cons ch body ih =>
    cases body' with
    | nil =>
      obtain rfl : held = false := Option.some.inj h'
      rw [(List.cons.inj heq).1, pending, if_pos rfl] at h
      cases h
    | cons ch' body' =>
      obtain ⟨rfl, hbodies⟩ := List.cons.inj heq
      cases held with
      | true =>
        obtain ⟨rfl, hrest⟩ := ih h h' hbodies
        exact ⟨rfl, hrest⟩
      | false =>
        rw [pending] at h h'
        by_cases hquote : ch = '"'
        · rw [if_pos hquote] at h
          cases h
        · rw [if_neg hquote] at h h'
          obtain ⟨rfl, hrest⟩ := ih h h' hbodies
          exact ⟨rfl, hrest⟩

/-! ## White space and numbers -/

/-- The four characters that may stand between tokens. -/
def spaceChar : Char → Bool
  | ' ' | '\t' | '\n' | '\r' => true
  | _ => false

/-- Blanks consist of blanks. -/
theorem IsSpace.all {text : List Char} (h : IsSpace text) :
    ∀ ch ∈ text, spaceChar ch = true := by
  intro ch hch
  have hspace := h ch hch
  simp only [List.mem_cons, List.not_mem_nil, or_false] at hspace
  rcases hspace with rfl | rfl | rfl | rfl
  · rfl
  · rfl
  · rfl
  · rfl

/-- A blank is no character of a number. -/
theorem not_number_of_space {ch : Char} (h : spaceChar ch = true) : numberChar ch = false := by
  unfold spaceChar at h
  split at h
  · rfl
  · rfl
  · rfl
  · rfl
  · cases h

theorem isSpace_append {front behind : List Char} (h : IsSpace front) (h' : IsSpace behind) :
    IsSpace (front ++ behind) :=
  List.forall_mem_append.mpr ⟨h, h'⟩

/-- White space in front of anything else is found. -/
theorem space_unique {front front' rest rest' : List Char} (h : IsSpace front) (h' : IsSpace front')
    (hrest : Stops spaceChar rest) (hrest' : Stops spaceChar rest')
    (heq : front ++ rest = front' ++ rest') : rest = rest' := by
  rw [← dropWhile_of_stops h.all hrest, heq, dropWhile_of_stops h'.all hrest']

/-- White space does not go on with a number. -/
theorem stops_number_of_space {front rest : List Char} (h : IsSpace front)
    (hrest : Stops numberChar rest) : Stops numberChar (front ++ rest) := by
  cases front with
  | nil => exact hrest
  | cons ch front => exact stops_cons (not_number_of_space (h.all ch List.mem_cons_self))

/-! ## Items between commas -/

/-- How items of an array or of an object stand in a text. -/
structure Layout (ι β : Type) where
  front : ι → List Char
  core : ι → List Char
  behind : ι → List Char
  value : ι → β

/-- What closes the items. -/
structure Closes (close : Char) : Prop where
  space : spaceChar close = false
  number : numberChar close = false
  comma : close ≠ ','

namespace Layout

variable {ι β : Type} (layout : Layout ι β) (close : Char)

/-- An item between its white space. -/
def text (item : ι) : List Char :=
  layout.front item ++ layout.core item ++ layout.behind item

/-- The items behind another one, each behind a comma, and what closes them. -/
def textBehind (rest : List Char) (items : List ι) : List Char :=
  (items.flatMap fun item => ',' :: layout.text item) ++ close :: rest

/-- The text of the items up to what closes them. -/
def textOf (rest : List Char) (items : List ι) : List Char :=
  commaSeparated (items.map layout.text) ++ close :: rest

/-- An item has white space around a core that begins with neither that nor what closes. -/
structure Fits (item : ι) : Prop where
  front : IsSpace (layout.front item)
  behind : IsSpace (layout.behind item)
  opens : ∃ ch rest, layout.core item = ch :: rest ∧ spaceChar ch = false ∧ ch ≠ close

/-- Where the cores of the items begin one text, they have one value and leave the same. -/
def Read (item item' : ι) : Prop :=
  ∀ rest rest', Stops numberChar rest → Stops numberChar rest' →
    layout.core item ++ rest = layout.core item' ++ rest' →
      layout.value item = layout.value item' ∧ rest = rest'

theorem textOf_cons (rest : List Char) (item : ι) (items : List ι) :
    layout.textOf close rest (item :: items) =
      layout.text item ++ layout.textBehind close rest items := by
  unfold textOf
  induction items generalizing item with
  | nil => simp [textBehind, commaSeparated]
  | cons next items ih =>
    rw [textBehind, List.flatMap_cons, List.append_assoc, ← textBehind, List.cons_append, ← ih,
      List.map_cons, List.map_cons, commaSeparated, List.intercalate_cons_cons, ← commaSeparated,
      List.append_assoc, List.append_assoc]
    rfl

variable {layout close} {rest rest' : List Char}

theorem stops_textBehind {p : Char → Bool} (hcomma : p ',' = false) (hp : p close = false)
    (items : List ι) : Stops p (layout.textBehind close rest items) := by
  cases items with
  | nil => exact stops_cons hp
  | cons item items => exact stops_cons hcomma

theorem Fits.stops_core {item : ι} (h : layout.Fits close item) (behind : List Char) :
    Stops spaceChar (layout.core item ++ behind) := by
  obtain ⟨ch, rest, hcore, hspace, -⟩ := h.opens
  rw [hcore]
  exact stops_cons hspace

theorem read_cons {item item' : ι} {items items' : List ι}
    (h : ∀ first ∈ item :: items, ∀ second ∈ item' :: items', layout.Read first second) :
    layout.Read item item' ∧ ∀ first ∈ items, ∀ second ∈ items', layout.Read first second :=
  ⟨h item List.mem_cons_self item' List.mem_cons_self, fun first hfirst second hsecond =>
    h first (List.mem_cons_of_mem _ hfirst) second (List.mem_cons_of_mem _ hsecond)⟩

section Unique

variable (hclose : Closes close) {gap gap' : List Char} (hgap : IsSpace gap) (hgap' : IsSpace gap')

include hclose

include hgap hgap' in
/-- An item in front of others is read, and these are left. -/
theorem item_unique {item item' : ι} (h : layout.Fits close item) (h' : layout.Fits close item')
    (hread : layout.Read item item') {items items' : List ι}
    (heq : gap ++ (layout.text item ++ layout.textBehind close rest items) =
      gap' ++ (layout.text item' ++ layout.textBehind close rest' items')) :
    layout.value item = layout.value item' ∧
      layout.textBehind close rest items = layout.textBehind close rest' items' := by
  have hspace (rest : List Char) (items : List ι) :
      Stops spaceChar (layout.textBehind close rest items) :=
    stops_textBehind (by decide) hclose.space items
  have hnumber (rest : List Char) (items : List ι) :
      Stops numberChar (layout.textBehind close rest items) :=
    stops_textBehind (by decide) hclose.number items
  -- the gap and the white space of the item are one stretch
  simp only [text, List.append_assoc] at heq
  rw [← List.append_assoc, ← List.append_assoc gap'] at heq
  have hcores := space_unique (isSpace_append hgap h.front) (isSpace_append hgap' h'.front)
    (h.stops_core _) (h'.stops_core _) heq
  obtain ⟨hvalue, hbehind⟩ := hread _ _ (stops_number_of_space h.behind (hnumber _ _))
    (stops_number_of_space h'.behind (hnumber _ _)) hcores
  exact ⟨hvalue, space_unique h.behind h'.behind (hspace _ _) (hspace _ _) hbehind⟩

/-- Lists of items whose texts agree are read alike, and so is what is left. -/
theorem behind_unique {items items' : List ι} (h : ∀ item ∈ items, layout.Fits close item)
    (h' : ∀ item ∈ items', layout.Fits close item)
    (hread : ∀ item ∈ items, ∀ item' ∈ items', layout.Read item item')
    (heq : layout.textBehind close rest items = layout.textBehind close rest' items') :
    items.map layout.value = items'.map layout.value ∧ rest = rest' := by
  induction items generalizing items' with
  | nil =>
    cases items' with
    | nil => exact ⟨rfl, (List.cons.inj heq).2⟩
    | cons item' items' => exact absurd (List.cons.inj heq).1 hclose.comma
  | cons item items ih =>
    cases items' with
    | nil => exact absurd (List.cons.inj heq).1.symm hclose.comma
    | cons item' items' =>
      obtain ⟨hitem, hitems⟩ := List.forall_mem_cons.mp h
      obtain ⟨hitem', hitems'⟩ := List.forall_mem_cons.mp h'
      obtain ⟨hreadItem, hreadItems⟩ := read_cons hread
      rw [textBehind, textBehind, List.flatMap_cons, List.flatMap_cons, List.append_assoc,
        List.append_assoc] at heq
      obtain ⟨hvalue, hbehind⟩ := item_unique hclose isSpace_nil isSpace_nil hitem hitem' hreadItem
        (List.cons.inj heq).2
      obtain ⟨hvalues, hrest⟩ := ih hitems hitems' hreadItems hbehind
      exact ⟨by rw [List.map_cons, List.map_cons, hvalue, hvalues], hrest⟩

include hgap hgap'

/-- What closes is no item. -/
theorem textOf_nil_ne {item : ι} (h : layout.Fits close item) (items : List ι) :
    gap ++ layout.textOf close rest [] ≠ gap' ++ layout.textOf close rest' (item :: items) := by
  intro heq
  rw [textOf_cons, text, List.append_assoc, List.append_assoc, ← List.append_assoc gap'] at heq
  have hcores := space_unique hgap (isSpace_append hgap' h.front) (stops_cons hclose.space)
    (h.stops_core _) heq
  obtain ⟨ch, behind, hcore, -, hne⟩ := h.opens
  rw [hcore] at hcores
  exact hne (List.cons.inj hcores).1.symm

/-- The items up to what closes them are read. -/
theorem items_unique {items items' : List ι} (h : ∀ item ∈ items, layout.Fits close item)
    (h' : ∀ item ∈ items', layout.Fits close item)
    (hread : ∀ item ∈ items, ∀ item' ∈ items', layout.Read item item')
    (heq : gap ++ layout.textOf close rest items = gap' ++ layout.textOf close rest' items') :
    items.map layout.value = items'.map layout.value ∧ rest = rest' := by
  cases items with
  | nil =>
    cases items' with
    | nil =>
      have hrests := space_unique hgap hgap' (stops_cons hclose.space) (stops_cons hclose.space) heq
      exact ⟨rfl, (List.cons.inj hrests).2⟩
    | cons item' items' =>
      exact absurd heq (textOf_nil_ne hclose hgap hgap' (h' item' List.mem_cons_self) items')
  | cons item items =>
    cases items' with
    | nil =>
      exact absurd heq.symm (textOf_nil_ne hclose hgap' hgap (h item List.mem_cons_self) items)
    | cons item' items' =>
      obtain ⟨hitem, hitems⟩ := List.forall_mem_cons.mp h
      obtain ⟨hitem', hitems'⟩ := List.forall_mem_cons.mp h'
      obtain ⟨hreadItem, hreadItems⟩ := read_cons hread
      rw [textOf_cons, textOf_cons] at heq
      obtain ⟨hvalue, hbehind⟩ := item_unique hclose hgap hgap' hitem hitem' hreadItem heq
      obtain ⟨hvalues, hrest⟩ := behind_unique hclose hitems hitems' hreadItems hbehind
      exact ⟨by rw [List.map_cons, List.map_cons, hvalue, hvalues], hrest⟩

end Unique

end Layout

/-! ## Values -/

/-- The kinds of values, which their first character tells apart. -/
inductive Kind where
  | null
  | true
  | false
  | string
  | array
  | object
  | number
  deriving DecidableEq

/-- The kind of a value. -/
def kind : Value → Kind
  | .null => .null
  | .bool true => .true
  | .bool false => .false
  | .number _ => .number
  | .string _ => .string
  | .array _ => .array
  | .object _ => .object

/-- The kind of the values that begin with the character. -/
def kindOf (ch : Char) : Kind :=
  if ch = 'n' then .null
  else if ch = 't' then .true
  else if ch = 'f' then .false
  else if ch = '"' then .string
  else if ch = '[' then .array
  else if ch = '{' then .object
  else .number

/-- A character that may begin a value. -/
def Begins (ch : Char) : Prop :=
  spaceChar ch = false ∧ ch ≠ ']' ∧ ch ≠ '}'

instance (ch : Char) : Decidable (Begins ch) :=
  inferInstanceAs (Decidable (_ ∧ _))

/-- A digit begins a number. -/
theorem begins_of_digit {ch : Char} (h : ch.isDigit = true) :
    kindOf ch = .number ∧ Begins ch := by
  have hne (other : Char) (hother : other.isDigit = false) : ch ≠ other := by
    rintro rfl
    rw [h] at hother
    cases hother
  refine ⟨?_, ?_, hne ']' rfl, hne '}' rfl⟩
  · rw [kindOf, if_neg (hne 'n' rfl), if_neg (hne 't' rfl), if_neg (hne 'f' rfl),
      if_neg (hne '"' rfl), if_neg (hne '[' rfl), if_neg (hne '{' rfl)]
  · have hnumber := number_of_digits ⟨List.cons_ne_nil ch [], List.forall_mem_singleton.mpr h⟩
    refine Bool.eq_false_iff.mpr fun hspace => ?_
    rw [List.forall_mem_singleton, not_number_of_space hspace] at hnumber
    cases hnumber

theorem Digits.begins {text : List Char} (h : Digits text) :
    ∃ ch rest, text = ch :: rest ∧ kindOf ch = .number ∧ Begins ch := by
  cases text with
  | nil => exact absurd rfl h.1
  | cons ch rest => exact ⟨ch, rest, rfl, begins_of_digit (h.2 ch List.mem_cons_self)⟩

/-- A number begins as numbers do. -/
theorem IsNumber.begins {text : List Char} (h : IsNumber text) :
    ∃ ch rest, text = ch :: rest ∧ kindOf ch = .number ∧ Begins ch := by
  obtain ⟨sign, integer, fraction, exponent, hsign, hinteger, -, -, rfl⟩ := h
  rcases List.mem_pair.mp hsign with rfl | rfl
  · have hdigits : Digits integer := by
      rcases hinteger with rfl | ⟨hdigits, -⟩
      · exact ⟨List.cons_ne_nil _ _, List.forall_mem_singleton.mpr rfl⟩
      · exact hdigits
    obtain ⟨ch, rest, rfl, hbegins⟩ := hdigits.begins
    exact ⟨ch, rest ++ fraction ++ exponent, rfl, hbegins⟩
  · exact ⟨'-', integer ++ fraction ++ exponent, rfl, by decide⟩

/-- A value is of the kind that its text begins with. -/
theorem Spells.begins {value : Value} {text : List Char} (h : Spells value text) :
    ∃ ch rest, text = ch :: rest ∧ kindOf ch = kind value ∧ Begins ch := by
  cases h with
  | null => exact ⟨'n', ['u', 'l', 'l'], rfl, by decide⟩
  | true => exact ⟨'t', ['r', 'u', 'e'], rfl, by decide⟩
  | false => exact ⟨'f', ['a', 'l', 's', 'e'], rfl, by decide⟩
  | number hnumber => exact hnumber.begins
  | string hdecode => exact ⟨'"', _, rfl, rfl, by decide⟩
  | array => exact ⟨'[', _, rfl, rfl, by decide⟩
  | object => exact ⟨'{', _, rfl, rfl, by decide⟩

theorem Spells.stops_space {value : Value} {text : List Char} (h : Spells value text)
    (rest : List Char) : Stops spaceChar (text ++ rest) := by
  obtain ⟨ch, behind, rfl, -, hspace, -⟩ := h.begins
  exact stops_cons hspace

/-- Two values that begin one text are of one kind. -/
theorem kind_eq {value value' : Value} {text text' rest rest' : List Char}
    (h : Spells value text) (h' : Spells value' text') (heq : text ++ rest = text' ++ rest') :
    kind value = kind value' := by
  obtain ⟨ch, behind, rfl, hkind, -⟩ := h.begins
  obtain ⟨ch', behind', rfl, hkind', -⟩ := h'.begins
  rw [← hkind, ← hkind', (List.cons.inj heq).1]

/-- A number ends in front of the first character that can be in none. -/
theorem number_unique {text text' rest rest' : List Char} (h : IsNumber text) (h' : IsNumber text')
    (hrest : Stops numberChar rest) (hrest' : Stops numberChar rest')
    (heq : text ++ rest = text' ++ rest') : text = text' ∧ rest = rest' := by
  have htexts : text = text' := by
    rw [← takeWhile_of_stops h.all hrest, heq, takeWhile_of_stops h'.all hrest']
  rw [htexts] at heq
  exact ⟨htexts, List.append_cancel_left heq⟩

/-- Two strings that begin one text are the same, with the same rest. -/
theorem quoted_unique {body body' text text' rest rest' : List Char}
    (h : decode body = some text) (h' : decode body' = some text')
    (heq : quoted body ++ rest = quoted body' ++ rest') : text = text' ∧ rest = rest' := by
  rw [quoted, quoted, List.cons_append, List.cons_append, List.append_assoc,
    List.append_assoc] at heq
  obtain ⟨rfl, hrest⟩ := body_unique (pending_of_decode h) (pending_of_decode h')
    (List.cons.inj heq).2
  exact ⟨Option.some.inj (h.symm.trans h'), hrest⟩

/-- Elements of an array. -/
def elementLayout : Layout Element Value where
  front := Element.front
  core := Element.text
  behind := Element.behind
  value := Element.value

/-- Members of an object. -/
def memberLayout : Layout Member (List Char × Value) where
  front := Member.front
  core member :=
    quoted member.body ++ (member.behind ++ ':' :: (member.element.front ++ member.element.text))
  behind member := member.element.behind
  value member := (member.name, member.element.value)

theorem text_elementLayout : elementLayout.text = Element.padded := rfl

theorem text_memberLayout : memberLayout.text = Member.padded := by
  funext member
  simp [memberLayout, Layout.text, Member.padded, Element.padded]

theorem closes_array : Closes ']' :=
  ⟨rfl, rfl, by decide⟩

theorem closes_object : Closes '}' :=
  ⟨rfl, rfl, by decide⟩

theorem element_fits {element : Element} (hspaced : element.Spaced)
    (hvalue : Spells element.value element.text) : elementLayout.Fits ']' element := by
  obtain ⟨ch, rest, htext, -, hspace, hne, -⟩ := hvalue.begins
  exact ⟨hspaced.1, hspaced.2, ch, rest, htext, hspace, hne⟩

theorem member_fits {member : Member} (hnamed : member.Named) : memberLayout.Fits '}' member :=
  ⟨hnamed.front, hnamed.element.2, '"', _, rfl, rfl, by decide⟩

theorem text_array (gap : List Char) (elements : List Element) (rest : List Char) :
    '[' :: (gap ++ commaSeparated (elements.map Element.padded) ++ [']']) ++ rest =
      '[' :: (gap ++ elementLayout.textOf ']' rest elements) := by
  simp [Layout.textOf, text_elementLayout]

theorem text_object (gap : List Char) (members : List Member) (rest : List Char) :
    '{' :: (gap ++ commaSeparated (members.map Member.padded) ++ ['}']) ++ rest =
      '{' :: (gap ++ memberLayout.textOf '}' rest members) := by
  simp [Layout.textOf, text_memberLayout]

/-- A member is read where its value is. -/
theorem member_read {member member' : Member} (hnamed : member.Named) (hnamed' : member'.Named)
    (hvalue : Spells member.element.value member.element.text)
    (hvalue' : Spells member'.element.value member'.element.text)
    (hread : elementLayout.Read member.element member'.element) :
    memberLayout.Read member member' := by
  intro rest rest' hrest hrest' heq
  simp only [memberLayout, List.append_assoc, List.cons_append] at heq
  -- the name, then the colon, then the value
  obtain ⟨hname, hbehind⟩ := quoted_unique hnamed.name hnamed'.name heq
  have hcolon := space_unique hnamed.behind hnamed'.behind (stops_cons rfl) (stops_cons rfl) hbehind
  have htext := space_unique hnamed.element.1 hnamed'.element.1
    (hvalue.stops_space rest) (hvalue'.stops_space rest') (List.cons.inj hcolon).2
  obtain ⟨hvalues, hrests⟩ := hread rest rest' hrest hrest' htext
  exact ⟨Prod.ext hname hvalues, hrests⟩

/-- No text of a value begins another one, and it has one value. -/
theorem Spells.unique {value : Value} {text : List Char} (h : Spells value text) :
    ∀ {value' : Value} {text' : List Char}, Spells value' text' → ∀ rest rest',
      Stops numberChar rest → Stops numberChar rest' → text ++ rest = text' ++ rest' →
        value = value' ∧ rest = rest' := by
  -- over the first of the values; the other one is of its kind
  induction h with
  | null =>
    intro value' text' h' rest rest' _ _ heq
    have hkind := kind_eq .null h' heq
    cases h' with
    | null => exact ⟨rfl, List.append_cancel_left heq⟩
    | _ => cases hkind
  | true =>
    intro value' text' h' rest rest' _ _ heq
    have hkind := kind_eq .true h' heq
    cases h' with
    | true => exact ⟨rfl, List.append_cancel_left heq⟩
    | _ => cases hkind
  | false =>
    intro value' text' h' rest rest' _ _ heq
    have hkind := kind_eq .false h' heq
    cases h' with
    | false => exact ⟨rfl, List.append_cancel_left heq⟩
    | _ => cases hkind
  | number hnumber =>
    intro value' text' h' rest rest' hrest hrest' heq
    have hkind := kind_eq (.number hnumber) h' heq
    cases h' with
    | number hnumber' =>
      obtain ⟨rfl, hrests⟩ := number_unique hnumber hnumber' hrest hrest' heq
      exact ⟨rfl, hrests⟩
    | _ => cases hkind
  | string hdecode =>
    intro value' text' h' rest rest' _ _ heq
    have hkind := kind_eq (.string hdecode) h' heq
    cases h' with
    | string hdecode' =>
      obtain ⟨rfl, hrests⟩ := quoted_unique hdecode hdecode' heq
      exact ⟨rfl, hrests⟩
    | _ => cases hkind
  | @array gap elements hgap hspaced hvalues ih =>
    intro value' text' h' rest rest' _ _ heq
    have hkind := kind_eq (.array hgap hspaced hvalues) h' heq
    cases h' with
    | @array gap' elements' hgap' hspaced' hvalues' =>
      rw [text_array, text_array] at heq
      obtain ⟨helements, hrests⟩ := Layout.items_unique closes_array hgap hgap'
        (fun element h => element_fits (hspaced element h) (hvalues element h))
        (fun element h => element_fits (hspaced' element h) (hvalues' element h))
        (fun element h element' h' => ih element h (hvalues' element' h'))
        (List.cons.inj heq).2
      exact ⟨congrArg Value.array helements, hrests⟩
    | _ => cases hkind
  | @object gap members hgap hnamed hvalues ih =>
    intro value' text' h' rest rest' _ _ heq
    have hkind := kind_eq (.object hgap hnamed hvalues) h' heq
    cases h' with
    | @object gap' members' hgap' hnamed' hvalues' =>
      rw [text_object, text_object] at heq
      obtain ⟨hmembers, hrests⟩ := Layout.items_unique closes_object hgap hgap'
        (fun member h => member_fits (hnamed member h))
        (fun member h => member_fits (hnamed' member h))
        (fun member h member' h' => member_read (hnamed member h) (hnamed' member' h')
          (hvalues member h) (hvalues' member' h') (ih member h (hvalues' member' h')))
        (List.cons.inj heq).2
      exact ⟨congrArg Value.object hmembers, hrests⟩
    | _ => cases hkind

/-- A text is the text of one value. -/
theorem Document.unique {value value' : Value} {text : List Char} (h : Document value text)
    (h' : Document value' text) : value = value' := by
  obtain ⟨front, core, behind, hfront, hspells, hbehind, rfl⟩ := h
  obtain ⟨front', core', behind', hfront', hspells', hbehind', heq⟩ := h'
  rw [List.append_assoc, List.append_assoc] at heq
  have hcores := space_unique hfront hfront' (hspells.stops_space behind)
    (hspells'.stops_space behind') heq
  have hstops {behind : List Char} (h : IsSpace behind) : Stops numberChar behind :=
    List.append_nil behind ▸ stops_number_of_space h stops_nil
  exact (hspells.unique hspells' behind behind' (hstops hbehind) (hstops hbehind') hcores).1

end Json
