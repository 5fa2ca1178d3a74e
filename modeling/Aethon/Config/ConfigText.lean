import Mathlib.Data.List.Basic
import Aethon.Config.ConfigParser

/-!
# The text of a configuration is read back

A written entry is a key and any value between quotes, with blanks around both and a comment behind
them. The four scanners agree on where the value begins and ends: `strip_comment_written`,
`trim_written`, `split_written` and `unquote_quote` are one lemma for each. `parse_written` is the
whole text.
-/

namespace Aethon.Config

open Text

/-! ## Written entries -/

/-- Newline, tab, backslash and double quote are escaped. -/
def escapeChar (ch : Char) : Text :=
  if ch = '\n' then ['\\', 'n']
  else if ch = '\t' then ['\\', 't']
  else if ch = '\\' ∨ ch = '"' then ['\\', ch]
  else [ch]

/-- A text with every special character escaped. -/
def escapeText (value : Text) : Text :=
  value.flatMap escapeChar

/-- A text between quotes. -/
def quote (value : Text) : Text :=
  '"' :: (escapeText value ++ ['"'])

/-- White space inside a line. -/
def isBlank (ch : Char) : Bool :=
  isSpace ch && ch != '\n'

/-- An entry and how it is written on its line. -/
structure WrittenEntry where
  key : Text
  value : Text
  lead : Text := []
  afterKey : Text := []
  beforeValue : Text := []
  trail : Text := []
  comment : Option Text := none
  key_valid : validKey key = true
  blanks : ∀ ch ∈ lead ++ afterKey ++ beforeValue ++ trail, isBlank ch = true
  comment_line : ∀ text ∈ comment, '\n' ∉ text

namespace WrittenEntry

variable (entry : WrittenEntry)

/-- The comment behind an entry, with its `#`. -/
def commentText : Text :=
  entry.comment.elim [] ('#' :: ·)

/-- What stands in front of the quoted value. -/
def beforeQuote : Text :=
  entry.lead ++ entry.key ++ entry.afterKey ++ '=' :: entry.beforeValue

/-- What stands behind the equals sign of an entry. -/
def text : Text :=
  entry.beforeQuote ++ quote entry.value ++ (entry.trail ++ entry.commentText)

end WrittenEntry

/-! ## Classes of characters -/

/-- A valid key consists of characters of keys. -/
theorem is_key_char_of_mem {key : Text} (h : validKey key = true) :
    ∀ ch ∈ key, isKeyChar ch = true := by
  rw [validKey] at h
  split at h
  · exact absurd h Bool.false_ne_true
  · exact List.all_eq_true.mp h

theorem valid_key_ne_nil {key : Text} (h : validKey key = true) : key ≠ [] := by
  rintro rfl
  exact absurd h (by decide)

/-- A character with a meaning to one of the scanners is not in a key. -/
theorem not_is_key_char {ch : Char} (h : isKeyChar ch = true) :
    isSpace ch = false ∧ ch ≠ '=' ∧ ch ≠ '"' ∧ ch ≠ '#' := by
  refine ⟨?_, ?_, ?_, ?_⟩
  · by_contra hspace
    simp only [isSpace, Bool.not_eq_false, decide_eq_true_eq, List.mem_cons, List.not_mem_nil,
      or_false] at hspace
    rcases hspace with rfl | rfl | rfl | rfl | rfl | rfl
    all_goals exact absurd h (by decide)
  all_goals
    rintro rfl
    exact absurd h (by decide)

theorem not_is_space {ch : Char} (h : isSpace ch = true) : ch ≠ '=' ∧ ch ≠ '"' ∧ ch ≠ '#' := by
  refine ⟨?_, ?_, ?_⟩
  all_goals
    rintro rfl
    exact absurd h (by decide)

theorem is_space_of_blank {ch : Char} (h : isBlank ch = true) : isSpace ch = true := by
  rw [isBlank, Bool.and_eq_true] at h
  exact h.1

/-- An escape is read back as its character, and a character without one has no meaning inside
quotes. -/
theorem escape_char_cases (ch : Char) :
    (∃ mark, escapeChar ch = ['\\', mark] ∧ mark ≠ '\n' ∧ unescape mark = some ch) ∨
      escapeChar ch = [ch] ∧ ch ≠ '\\' ∧ ch ≠ '"' ∧ ch ≠ '\n' := by
  unfold escapeChar
  split
  · next hnewline => exact .inl ⟨'n', rfl, by decide, by rw [hnewline]; rfl⟩
  · next hnewline =>
    split
    · next htab => exact .inl ⟨'t', rfl, by decide, by rw [htab]; rfl⟩
    · split
      · next hspecial =>
        rcases hspecial with rfl | rfl
        · exact .inl ⟨'\\', rfl, by decide, rfl⟩
        · exact .inl ⟨'"', rfl, by decide, rfl⟩
      · next hspecial =>
        obtain ⟨hslash, hquote⟩ := not_or.mp hspecial
        exact .inr ⟨rfl, hslash, hquote, hnewline⟩

theorem escape_text_cons (ch : Char) (value : Text) :
    escapeText (ch :: value) = escapeChar ch ++ escapeText value :=
  List.flatMap_cons

theorem quote_ne_nil (value : Text) : quote value ≠ [] :=
  List.cons_ne_nil _ _

/-! ## Comments -/

/-- A plain text stays where comments are stripped. -/
theorem strip_plain {plain : Text} (h : ∀ ch ∈ plain, ch ≠ '"' ∧ ch ≠ '#') (rest : Text) :
    stripLoop false false (plain ++ rest) = plain ++ stripLoop false false rest := by
  induction plain with
  | nil => rfl
  | cons ch plain ih =>
    obtain ⟨hquote, hcomment⟩ := h ch List.mem_cons_self
    rw [List.cons_append, stripLoop, if_neg (fun h => Bool.false_ne_true h.2), if_neg hquote,
      if_neg (fun h => hcomment h.1),
      ih fun other hother => h other (List.mem_cons_of_mem _ hother)]
    rfl

/-- A quoted value is passed over whole, whatever it holds. -/
theorem strip_escaped (value rest : Text) :
    stripLoop true false (escapeText value ++ rest) =
      escapeText value ++ stripLoop true false rest := by
  induction value with
  | nil => rfl
  | cons ch value ih =>
    rw [escape_text_cons, List.append_assoc, List.append_assoc, ← ih]
    rcases escape_char_cases ch with ⟨mark, hescape, -⟩ | ⟨hescape, hslash, hquote, -⟩
    · rw [hescape]
      rfl
    · rw [hescape, List.singleton_append, List.singleton_append, stripLoop,
        if_neg (fun h => hslash h.1), if_neg hquote,
        if_neg (fun h => Bool.false_ne_true (by simpa using h.2))]

/-- A quoted value stays where comments are stripped, whatever it holds. -/
theorem strip_quote (value rest : Text) :
    stripLoop false false (quote value ++ rest) = quote value ++ stripLoop false false rest := by
  show '"' :: stripLoop true false (escapeText value ++ ['"'] ++ rest) = _
  rw [List.append_assoc, strip_escaped]
  show _ = '"' :: (escapeText value ++ ['"'] ++ stripLoop false false rest)
  rw [List.append_assoc]
  rfl

/-- Only the end of a line is taken off. -/
theorem chomp_append (front : Text) {rest : Text} (h : rest ≠ []) :
    chomp (front ++ rest) = front ++ chomp rest := by
  unfold chomp
  rw [List.getLast?_append_of_ne_nil front h]
  split
  · exact List.dropLast_append_of_ne_nil h
  · rfl

theorem chomp_cons {ch : Char} (h : ch ≠ '\r') (rest : Text) :
    chomp (ch :: rest) = ch :: chomp rest := by
  cases rest with
  | nil => exact if_neg fun heq => h (Option.some.inj heq)
  | cons next rest => exact chomp_append [ch] (List.cons_ne_nil next rest)

/-- A quoted value stays where the end of a line is taken off. -/
theorem chomp_quote (value rest : Text) :
    chomp (quote value ++ rest) = quote value ++ chomp rest := by
  have hquote : ∀ rest, quote value ++ rest = '"' :: escapeText value ++ '"' :: rest := by
    intro rest
    rw [quote, ← List.cons_append, List.append_assoc, List.singleton_append]
  rw [hquote, hquote, chomp_append _ (List.cons_ne_nil _ _), chomp_cons (by decide)]

theorem mem_of_mem_chomp {ch : Char} {raw : Text} (h : ch ∈ chomp raw) : ch ∈ raw := by
  unfold chomp at h
  split at h
  · exact (List.dropLast_sublist raw).subset h
  · exact h

/-- What is left behind the quoted value: blanks. -/
theorem strip_tail {trail : Text} (htrail : ∀ ch ∈ trail, isSpace ch = true)
    (comment : Option Text) :
    ∀ ch ∈ stripLoop false false (chomp (trail ++ comment.elim [] ('#' :: ·))),
      isSpace ch = true := by
  have hplain : ∀ ch ∈ trail, ch ≠ '"' ∧ ch ≠ '#' := fun ch hch =>
    (not_is_space (htrail ch hch)).2
  intro ch hch
  cases comment with
  | none =>
    simp only [Option.elim_none, List.append_nil] at hch
    have hchomped : ∀ ch ∈ chomp trail, ch ≠ '"' ∧ ch ≠ '#' := fun ch hch =>
      hplain ch (mem_of_mem_chomp hch)
    have hrest := strip_plain hchomped []
    rw [List.append_nil] at hrest
    rw [hrest, stripLoop, List.append_nil] at hch
    exact htrail ch (mem_of_mem_chomp hch)
  | some comment =>
    rw [Option.elim_some, chomp_append trail (List.cons_ne_nil _ _), chomp_cons (by decide),
      strip_plain hplain] at hch
    have hch : ch ∈ trail ++ [] := hch
    rw [List.append_nil] at hch
    exact htrail ch hch

/-! ## Values -/

/-- An escaped value is unescaped to itself. -/
theorem unquote_escaped (value rest out : Text) :
    unquoteLoop false (escapeText value ++ rest) out = unquoteLoop false rest (out ++ value) := by
  induction value generalizing out with
  | nil => rw [List.append_nil]; rfl
  | cons ch value ih =>
    rw [escape_text_cons, List.append_assoc, List.append_cons out ch value]
    rcases escape_char_cases ch with ⟨mark, hescape, -, hmark⟩ | ⟨hescape, hslash, -⟩
    · rw [hescape]
      show unquoteLoop true (mark :: (escapeText value ++ rest)) out = _
      rw [unquoteLoop, hmark]
      exact ih (out ++ [ch])
    · rw [hescape, List.singleton_append, unquoteLoop, if_neg hslash]
      exact ih (out ++ [ch])

/-- A quoted value is unquoted to itself. -/
theorem unquote_quote (value : Text) (line : UInt32) : unquote (quote value) line = .ok value := by
  have hlast : (quote value).getLast? = some '"' := by
    rw [quote, ← List.cons_append, List.getLast?_concat]
  have hmiddle : (quote value).tail.dropLast = escapeText value := List.dropLast_concat
  have hfront : ¬((quote value).length < 2 ∨ (quote value).head? ≠ some '"') := by
    rintro (hshort | hhead)
    · rw [quote, List.length_cons, List.length_append] at hshort
      exact absurd hshort (Nat.not_lt.mpr (Nat.succ_le_succ (Nat.le_add_left 1 _)))
    · exact hhead rfl
  rw [unquote, if_neg hfront, if_neg (fun h => h hlast), hmiddle]
  have hloop := unquote_escaped value [] []
  rw [List.append_nil] at hloop
  rw [hloop]
  rfl

/-! ## A line -/

section Line

variable (entry : WrittenEntry)

theorem blank_of_mem_lead {ch : Char} (h : ch ∈ entry.lead) : isSpace ch = true :=
  is_space_of_blank (entry.blanks ch (by simp [h]))

theorem blank_of_mem_after_key {ch : Char} (h : ch ∈ entry.afterKey) : isSpace ch = true :=
  is_space_of_blank (entry.blanks ch (by simp [h]))

theorem blank_of_mem_before_value {ch : Char} (h : ch ∈ entry.beforeValue) : isSpace ch = true :=
  is_space_of_blank (entry.blanks ch (by simp [h]))

theorem blank_of_mem_trail {ch : Char} (h : ch ∈ entry.trail) : isSpace ch = true :=
  is_space_of_blank (entry.blanks ch (by simp [h]))

/-- There is neither a quote nor a comment in front of the value. -/
theorem before_quote_plain : ∀ ch ∈ entry.beforeQuote, ch ≠ '"' ∧ ch ≠ '#' := by
  intro ch hch
  simp only [WrittenEntry.beforeQuote, List.mem_append, List.mem_cons] at hch
  rcases hch with ((hlead | hkey) | hafter) | (rfl | hbefore)
  · exact (not_is_space (blank_of_mem_lead entry hlead)).2
  · exact (not_is_key_char (is_key_char_of_mem entry.key_valid ch hkey)).2.2
  · exact (not_is_space (blank_of_mem_after_key entry hafter)).2
  · decide
  · exact (not_is_space (blank_of_mem_before_value entry hbefore)).2

/-- The comment ends behind the quoted value. -/
theorem strip_comment_written :
    ∃ back, (∀ ch ∈ back, isSpace ch = true) ∧
      stripComment (chomp entry.text) = entry.beforeQuote ++ quote entry.value ++ back := by
  refine ⟨_, strip_tail (fun ch => blank_of_mem_trail entry) entry.comment, ?_⟩
  have hchomp : chomp entry.text = entry.beforeQuote ++ (quote entry.value ++
      chomp (entry.trail ++ entry.commentText)) := by
    rw [WrittenEntry.text, List.append_assoc,
      chomp_append _ (List.append_ne_nil_of_left_ne_nil (quote_ne_nil entry.value) _), chomp_quote]
  rw [stripComment, hchomp, strip_plain (before_quote_plain entry), strip_quote,
    ← List.append_assoc]
  rfl

/-- What is left of the line when it is stripped and trimmed. -/
def WrittenEntry.core : Text :=
  entry.key ++ entry.afterKey ++ '=' :: (entry.beforeValue ++ quote entry.value)

theorem core_ne_nil : entry.core ≠ [] :=
  List.append_ne_nil_of_right_ne_nil _ (List.cons_ne_nil _ _)

/-- A key stops the blanks in front of it. -/
theorem stops_key (rest : Text) : Scanning.Stops isSpace (entry.key ++ rest) := by
  obtain ⟨first, letters, hkey⟩ := List.exists_cons_of_ne_nil (valid_key_ne_nil entry.key_valid)
  have hfirst : isKeyChar first = true :=
    is_key_char_of_mem entry.key_valid first (by rw [hkey]; exact List.mem_cons_self)
  rw [hkey]
  exact Scanning.stops_cons (not_is_key_char hfirst).1

theorem stops_quote_reverse (front value : Text) :
    Scanning.Stops isSpace (front ++ quote value).reverse := by
  rw [quote, ← List.cons_append, ← List.append_assoc, List.reverse_append]
  exact Scanning.stops_cons (by decide)

/-- Without its comment and its blanks, a written line is its core. -/
theorem trim_written :
    trim (stripComment (chomp entry.text)) = entry.core := by
  obtain ⟨back, hback, hstrip⟩ := strip_comment_written entry
  have hshape : entry.beforeQuote ++ quote entry.value = entry.lead ++ entry.core := by
    simp only [WrittenEntry.beforeQuote, WrittenEntry.core, List.append_assoc, List.cons_append]
  have hlast : Scanning.Stops isSpace entry.core.reverse := by
    rw [WrittenEntry.core, ← List.cons_append, ← List.append_assoc]
    exact stops_quote_reverse _ _
  have hfirst : Scanning.Stops isSpace entry.core := by
    rw [WrittenEntry.core, List.append_assoc]
    exact stops_key entry _
  rw [hstrip, hshape, trim]
  exact Scanning.trim_padded (fun ch => blank_of_mem_lead entry) hback (core_ne_nil entry) hfirst
    hlast

/-- The first equals sign of a line is the one behind its key. -/
theorem split_written :
    entry.core.takeWhile (· != '=') = entry.key ++ entry.afterKey ∧
      entry.core.dropWhile (· != '=') = '=' :: (entry.beforeValue ++ quote entry.value) := by
  have hfront : ∀ ch ∈ entry.key ++ entry.afterKey, (ch != '=') = true := by
    intro ch hch
    rw [bne_iff_ne]
    rcases List.mem_append.mp hch with hkey | hafter
    · exact (not_is_key_char (is_key_char_of_mem entry.key_valid ch hkey)).2.1
    · exact (not_is_space (blank_of_mem_after_key entry hafter)).1
  have hsign : Scanning.Stops (· != '=') ('=' :: (entry.beforeValue ++ quote entry.value)) :=
    Scanning.stops_cons (by decide)
  exact ⟨Scanning.takeWhile_of_stops hfront hsign, Scanning.dropWhile_of_stops hfront hsign⟩

/-- Without the blanks behind it, a key is itself. -/
theorem trim_key : trim (entry.key ++ entry.afterKey) = entry.key := by
  have hlast : Scanning.Stops isSpace entry.key.reverse := by
    intro ch hch
    have hmem : ch ∈ entry.key := List.mem_reverse.mp (List.mem_of_mem_head? hch)
    exact (not_is_key_char (is_key_char_of_mem entry.key_valid ch hmem)).1
  have hfirst := stops_key entry []
  rw [List.append_nil] at hfirst
  show Scanning.trim isSpace ([] ++ entry.key ++ entry.afterKey) = entry.key
  exact Scanning.trim_padded (fun _ h => absurd h List.not_mem_nil)
    (fun ch => blank_of_mem_after_key entry) (valid_key_ne_nil entry.key_valid) hfirst hlast

theorem trim_value : trim (entry.beforeValue ++ quote entry.value) = quote entry.value := by
  have hlast := stops_quote_reverse [] entry.value
  rw [← List.append_nil (entry.beforeValue ++ quote entry.value)]
  exact Scanning.trim_padded (fun ch => blank_of_mem_before_value entry)
    (fun _ h => absurd h List.not_mem_nil) (quote_ne_nil _) (Scanning.stops_cons (by decide)) hlast

/-- A written entry adds its key and value to the configuration. -/
theorem parse_line_written {parser : ConfigParser} {config : ParsedConfig} (lineNo : UInt32)
    (hlength : (chomp entry.text).length ≤ parser.maxLineLength)
    (hroom : config.entries.length < parser.maxEntries) :
    parser.parseLine entry.text lineNo config =
      .ok { entries := config.entries ++ [⟨entry.key, entry.value, lineNo⟩]
            values := config.values.insert entry.key entry.value } := by
  have hcore : entry.core.isEmpty = false := by
    rw [List.isEmpty_eq_false_iff]
    exact core_ne_nil entry
  unfold ConfigParser.parseLine
  dsimp only
  rw [if_neg (Nat.not_lt.mpr hlength), trim_written, hcore, (split_written entry).1,
    (split_written entry).2, trim_key, if_neg Bool.false_ne_true]
  dsimp only
  rw [trim_value, entry.key_valid, unquote_quote, if_neg (Nat.not_le.mpr hroom)]
  rfl

end Line

/-! ## The whole text -/

/-- One line for each entry, the last of them with or without a newline behind it. -/
def render (written : List WrittenEntry) (finalNewline : Bool) : Text :=
  List.intercalate ['\n'] (written.map WrittenEntry.text ++ if finalNewline then [[]] else [])

/-- A written line is one line. -/
theorem newline_not_mem_written (entry : WrittenEntry) : '\n' ∉ entry.text := by
  have hblank : ∀ ch ∈ entry.lead ++ entry.afterKey ++ entry.beforeValue ++ entry.trail,
      ch ≠ '\n' := by
    rintro ch hch rfl
    exact absurd (entry.blanks _ hch) (by decide)
  have hescape : '\n' ∉ escapeText entry.value := by
    intro h
    obtain ⟨ch, -, hch⟩ := List.mem_flatMap.mp h
    rcases escape_char_cases ch with ⟨mark, hescape, hmark, -⟩ | ⟨hescape, -, -, hplain⟩
    · rw [hescape] at hch
      simp only [List.mem_cons, List.not_mem_nil, or_false] at hch
      exact hch.elim (by decide) fun h => hmark h.symm
    · rw [hescape, List.mem_singleton] at hch
      exact hplain hch.symm
  have hcomment : '\n' ∉ entry.commentText := by
    rw [WrittenEntry.commentText]
    cases hsome : entry.comment with
    | none => exact List.not_mem_nil
    | some comment =>
      rw [Option.elim_some, List.mem_cons, not_or]
      exact ⟨by decide, entry.comment_line comment hsome⟩
  have hkey : '\n' ∉ entry.key := fun h =>
    absurd (is_key_char_of_mem entry.key_valid _ h) (by decide)
  simp only [WrittenEntry.text, WrittenEntry.beforeQuote, quote, List.mem_append, List.mem_cons,
    List.not_mem_nil, or_false, not_or]
  refine ⟨⟨⟨⟨⟨?_, hkey⟩, ?_⟩, by decide, ?_⟩, by decide, hescape, by decide⟩, ?_, hcomment⟩
  all_goals
    intro h
    exact hblank _ (by simp [h]) rfl

/-- The lines of the text are the written entries and perhaps an empty one. -/
theorem render_pieces (written : List WrittenEntry) (finalNewline : Bool) :
    ∃ rest, (∀ piece ∈ rest, piece = []) ∧
      (render written finalNewline).splitOn '\n' = written.map WrittenEntry.text ++ rest := by
  have hpieces : ∀ rest : List Text, (∀ piece ∈ rest, piece = []) →
      written.map WrittenEntry.text ++ rest ≠ [] →
      (List.intercalate ['\n'] (written.map WrittenEntry.text ++ rest)).splitOn '\n' =
        written.map WrittenEntry.text ++ rest := by
    intro rest hrest hne
    refine List.splitOn_intercalate '\n' ?_ hne
    intro piece hpiece
    rcases List.mem_append.mp hpiece with hentry | hempty
    · obtain ⟨entry, -, rfl⟩ := List.mem_map.mp hentry
      exact newline_not_mem_written entry
    · rw [hrest piece hempty]
      exact List.not_mem_nil
  cases finalNewline with
  | true =>
    have hrest : ∀ piece ∈ [([] : Text)], piece = [] := fun piece h => List.mem_singleton.mp h
    exact ⟨[[]], hrest, hpieces [[]] hrest
      (List.append_ne_nil_of_right_ne_nil _ (List.cons_ne_nil _ _))⟩
  | false =>
    cases written with
    | nil => exact ⟨[[]], fun piece h => List.mem_singleton.mp h, rfl⟩
    | cons entry written =>
      have hrest : ∀ piece ∈ ([] : List Text), piece = [] := fun _ h => absurd h List.not_mem_nil
      exact ⟨[], hrest, hpieces [] hrest (List.cons_ne_nil _ _)⟩

/-- An empty line leaves the configuration as it is. -/
theorem parse_lines_empty (parser : ConfigParser) {pieces : List Text}
    (h : ∀ piece ∈ pieces, piece = []) (lineNo : UInt32) (config : ParsedConfig) :
    parser.parseLines pieces lineNo config = .ok config := by
  induction pieces generalizing lineNo with
  | nil => rfl
  | cons piece pieces ih =>
    rw [h piece List.mem_cons_self]
    exact ih (fun other hother => h other (List.mem_cons_of_mem _ hother)) (lineNo + 1)

/-- The entries of the written lines behind a line number. -/
def numbered (written : List WrittenEntry) (lineNo : UInt32) : List ConfigEntry :=
  written.mapIdx fun i entry => ⟨entry.key, entry.value, lineNo + UInt32.ofNat (i + 1)⟩

theorem numbered_cons (entry : WrittenEntry) (written : List WrittenEntry) (lineNo : UInt32) :
    numbered (entry :: written) lineNo =
      ⟨entry.key, entry.value, lineNo + 1⟩ :: numbered written (lineNo + 1) := by
  have hline : ∀ i : Nat,
      lineNo + UInt32.ofNat (i + 1 + 1) = lineNo + 1 + UInt32.ofNat (i + 1) := by
    intro i
    rw [UInt32.ofNat_add, UInt32.add_assoc, UInt32.add_comm (UInt32.ofNat (i + 1))]
    rfl
  rw [numbered, List.mapIdx_cons, numbered]
  congr 1
  apply List.mapIdx_eq_mapIdx_iff.mpr
  intro i hi
  rw [hline]

/-- The written lines add their entries in order, and each value replaces the one before it. -/
theorem parse_lines_written (parser : ConfigParser) {written : List WrittenEntry}
    {rest : List Text} (hrest : ∀ piece ∈ rest, piece = []) (lineNo : UInt32)
    (config : ParsedConfig)
    (hlines : ∀ entry ∈ written, (chomp entry.text).length ≤ parser.maxLineLength)
    (hroom : config.entries.length + written.length ≤ parser.maxEntries) :
    parser.parseLines (written.map WrittenEntry.text ++ rest) lineNo config =
      .ok { entries := config.entries ++ numbered written lineNo
            values := written.foldl (fun values entry => values.insert entry.key entry.value)
              config.values } := by
  induction written generalizing lineNo config with
  | nil =>
    rw [List.map_nil, List.nil_append, parse_lines_empty parser hrest, numbered, List.mapIdx_nil,
      List.append_nil]
    rfl
  | cons entry written ih =>
    rw [List.length_cons] at hroom
    have hline : parser.parseLine entry.text (lineNo + 1) config = _ :=
      parse_line_written entry (lineNo + 1) (hlines entry List.mem_cons_self) (by omega)
    have hnext := ih (lineNo + 1)
      { entries := config.entries ++ [⟨entry.key, entry.value, lineNo + 1⟩]
        values := config.values.insert entry.key entry.value }
      (fun other h => hlines other (List.mem_cons_of_mem _ h))
      (by rw [List.length_append, List.length_singleton]; omega)
    rw [List.map_cons, List.cons_append, ConfigParser.parseLines, hline]
    refine hnext.trans ?_
    rw [numbered_cons, List.append_assoc, List.singleton_append, List.foldl_cons]

/-- The map holds the last value of each key, and what it held before for the other keys. -/
theorem foldl_insert_values (written : List WrittenEntry) (values : Std.ExtTreeMap Text Text)
    (key : Text) :
    (written.foldl (fun values entry => values.insert entry.key entry.value) values)[key]? =
      (((written.filter (·.key = key)).getLast?).map (·.value)).or values[key]? := by
  induction written generalizing values with
  | nil => rfl
  | cons entry written ih =>
    rw [List.foldl_cons, ih, OrderedMap.getElem?_insert]
    by_cases hkey : key = entry.key
    · rw [if_pos hkey, List.filter_cons_of_pos (by simpa using hkey.symm), List.getLast?_cons]
      cases (written.filter (·.key = key)).getLast? <;> rfl
    · rw [if_neg hkey, List.filter_cons_of_neg (by simpa using fun h => hkey h.symm)]

/-- The parser reads back what was written: the entries in order with their line numbers, and for
each key its last value. -/
theorem parse_written (parser : ConfigParser) (written : List WrittenEntry) (finalNewline : Bool)
    (hentries : written.length ≤ parser.maxEntries)
    (hlines : ∀ entry ∈ written, (chomp entry.text).length ≤ parser.maxLineLength) :
    ∃ config, parser.parse (render written finalNewline) = .ok config ∧
      config.entries =
        written.mapIdx (fun i entry => ⟨entry.key, entry.value, UInt32.ofNat (i + 1)⟩) ∧
      ∀ key : Text,
        config.values[key]? = ((written.filter (·.key = key)).getLast?).map (·.value) := by
  obtain ⟨rest, hrest, hpieces⟩ := render_pieces written finalNewline
  have hparse := parse_lines_written parser hrest 0 {} hlines
    (by rw [List.length_nil, Nat.zero_add]; exact hentries)
  refine ⟨_, (congrArg (parser.parseLines · 0 {}) hpieces).trans hparse, ?_, ?_⟩
  · show numbered written 0 = _
    apply List.mapIdx_eq_mapIdx_iff.mpr
    intro i hi
    rw [UInt32.zero_add]
  · intro key
    rw [foldl_insert_values, Std.ExtTreeMap.getElem?_empty, Option.or_none]

/-- A value with every character that the scanners look for, between a comment and blanks. -/
def primaryEntry : WrittenEntry where
  key := "collector.name".toList
  value := "east = \"#1\"\n".toList
  lead := "  ".toList
  afterKey := " ".toList
  beforeValue := " ".toList
  trail := " ".toList
  comment := some " id".toList
  key_valid := by decide
  blanks := List.all_eq_true.mp (by decide)
  comment_line := by decide

/-- Two lines that set one key are parsed as two entries, of which a query finds the later. -/
theorem parse_written_primary :
    ∃ config, ConfigParser.parse {} (render [primaryEntry, primaryEntry] true) = .ok config ∧
      config.entries =
        [primaryEntry, primaryEntry].mapIdx
          (fun i entry => ⟨entry.key, entry.value, UInt32.ofNat (i + 1)⟩) ∧
      ∀ key : Text,
        config.values[key]? =
          (([primaryEntry, primaryEntry].filter (·.key = key)).getLast?).map (·.value) :=
  parse_written {} [primaryEntry, primaryEntry] true (by decide) (by decide)

end Aethon.Config
