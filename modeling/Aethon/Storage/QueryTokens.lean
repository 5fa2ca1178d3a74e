import Aethon.Foundation.Scanning
import Aethon.Storage.QueryParser

/-!
# The tokens of a query

A query is written as pairs between spaces, with spaces around the equals signs or not and with the
values between quotes or bare. `next_token_pair` is one round of the tokenizer on such a text, and
`tokenize_written` is the whole loop: it ends on every text, and what it pushes for a written query
are its pairs.
-/

namespace Aethon.Storage

open Text

/-! ## Written queries -/

/-- A name that the tokenizer reads as one word. -/
def IsName (name : Text) : Prop :=
  name ≠ [] ∧ ∀ ch ∈ name, isWord ch = true

instance (name : Text) : Decidable (IsName name) :=
  decidable_of_iff (name.isEmpty = false ∧ name.all isWord = true)
    (and_congr List.isEmpty_eq_false_iff List.all_eq_true)

/-- A value that needs no quotes. -/
def IsBareValue (value : Text) : Prop :=
  value ≠ [] ∧ (∀ ch ∈ value, isSpace ch = false) ∧ value.head? ≠ some '"'

instance (value : Text) : Decidable (IsBareValue value) :=
  inferInstanceAs (Decidable (_ ∧ _ ∧ _))

/-- A value as it stands between quotes. -/
def escapeValue (value : Text) : Text :=
  value.flatMap fun ch => if ch = '\\' ∨ ch = '"' then ['\\', ch] else [ch]

/-- A pair and how it is written: with or without quotes, behind which spaces and with which ones
around its equals sign. -/
structure WrittenPair where
  key : Text
  value : Text
  quoted : Bool := true
  lead : Text := []
  beforeSign : Text := []
  afterSign : Text := []
  key_name : IsName key
  bare_value : quoted = false → IsBareValue value
  spaces : ∀ ch ∈ lead ++ beforeSign ++ afterSign, isSpace ch = true

namespace WrittenPair

variable (pair : WrittenPair)

/-- The token of a pair. -/
def token : QueryToken :=
  ⟨pair.key, pair.value⟩

/-- The value as it is written, in quotes or without. -/
def valueText : Text :=
  if pair.quoted then '"' :: (escapeValue pair.value ++ ['"']) else pair.value

/-- The pair as it is written. -/
def text : Text :=
  pair.lead ++ pair.key ++ pair.beforeSign ++ '=' :: (pair.afterSign ++ pair.valueText)

end WrittenPair

/-- Pairs with spaces between them, and spaces behind them or not. -/
structure WrittenQuery where
  pairs : List WrittenPair
  trail : Text := []
  separated : ∀ pair ∈ pairs.tail, pair.lead ≠ []
  trail_spaces : ∀ ch ∈ trail, isSpace ch = true

namespace WrittenQuery

variable (query : WrittenQuery)

/-- The query as it is written. -/
def text : Text :=
  query.pairs.flatMap WrittenPair.text ++ query.trail

/-- The tokens of a written query. -/
def tokens : List QueryToken :=
  query.pairs.map WrittenPair.token

end WrittenQuery

/-- The rounds of the loop of `tokenize_query`, with the tokens they push. -/
inductive Rounds : Text → List QueryToken → Prop where
  | done {expression : Text} (h : nextToken expression = none) : Rounds expression []
  | next {expression rest : Text} {token : QueryToken} {tokens : List QueryToken}
      (h : nextToken expression = some (token, rest)) (hrest : Rounds rest tokens) :
      Rounds expression (token :: tokens)

/-! ## Values -/

theorem skip_space_of_stops {rest : Text} (h : Scanning.Stops isSpace rest) :
    skipSpace rest = rest :=
  h.dropWhile_eq

theorem skip_space_append {front rest : Text} (hfront : ∀ ch ∈ front, isSpace ch = true)
    (hrest : Scanning.Stops isSpace rest) : skipSpace (front ++ rest) = rest :=
  Scanning.dropWhile_of_stops hfront hrest

theorem is_space_of_word {ch : Char} (h : isWord ch = true) : isSpace ch = false := by
  rw [isWord, Bool.and_eq_true, Bool.not_eq_true'] at h
  exact h.1

theorem IsName.stops_space {name : Text} (h : IsName name) (rest : Text) :
    Scanning.Stops isSpace (name ++ rest) := by
  obtain ⟨first, letters, rfl⟩ := List.exists_cons_of_ne_nil h.1
  exact Scanning.stops_cons (is_space_of_word (h.2 first List.mem_cons_self))

theorem parse_word_name {name rest : Text} (h : IsName name)
    (hrest : Scanning.Stops isWord rest) : parseWord (name ++ rest) = (name, rest) := by
  rw [parseWord, Scanning.takeWhile_of_stops h.2 hrest, Scanning.dropWhile_of_stops h.2 hrest]

theorem IsBareValue.stops_space {value : Text} (h : IsBareValue value) (rest : Text) :
    Scanning.Stops isSpace (value ++ rest) := by
  obtain ⟨first, chars, rfl⟩ := List.exists_cons_of_ne_nil h.1
  exact Scanning.stops_cons (h.2.1 first List.mem_cons_self)

/-- Spaces end a bare value, and so does the end of the text. -/
theorem stops_bare_of_spaces {front rest : Text} (hfront : ∀ ch ∈ front, isSpace ch = true)
    (hrest : front = [] → rest = []) : Scanning.Stops isBare (front ++ rest) := by
  cases front with
  | nil =>
    rw [hrest rfl]
    exact Scanning.stops_nil
  | cons first front =>
    refine Scanning.stops_cons ?_
    rw [isBare, hfront first List.mem_cons_self]
    rfl

/-- A value without quotes is parsed up to the next blank. -/
theorem parse_value_bare {value rest : Text} (h : IsBareValue value)
    (hrest : Scanning.Stops isBare rest) : parseValue (value ++ rest) = (value, rest) := by
  have hbare : ∀ ch ∈ value, isBare ch = true := by
    intro ch hch
    rw [isBare, h.2.1 ch hch]
    rfl
  have hvalue : parseValue (value ++ rest) = parseBare (value ++ rest) := by
    obtain ⟨first, chars, rfl⟩ := List.exists_cons_of_ne_nil h.1
    unfold parseValue
    split
    · next heq =>
      have hquote : first = '"' := (List.cons.inj heq).1
      exact absurd (congrArg some hquote) h.2.2
    · rfl
  rw [hvalue, parseBare, Scanning.takeWhile_of_stops hbare hrest,
    Scanning.dropWhile_of_stops hbare hrest]

/-- A plain character of a quoted value is taken as it is. -/
theorem parse_quoted_plain {ch : Char} (hslash : ch ≠ '\\') (hquote : ch ≠ '"') (rest out : Text) :
    parseQuoted (ch :: rest) out = parseQuoted rest (out ++ [ch]) := by
  rw [parseQuoted]
  · exact hquote
  · exact fun _ heq => absurd heq hslash
  · exact fun _ heq => absurd heq hslash
  · exact fun _ _ heq => absurd heq hslash

/-- The escaped characters of the value are taken off one by one, up to the closing quote. -/
theorem parse_quoted_escaped (value rest out : Text) :
    parseQuoted (escapeValue value ++ '"' :: rest) out = (some (out ++ value), rest) := by
  induction value generalizing out with
  | nil => rw [List.append_nil]; rfl
  | cons ch value ih =>
    rw [List.append_cons out ch value, ← ih (out ++ [ch]), escapeValue, List.flatMap_cons,
      List.append_assoc]
    by_cases hslash : ch = '\\'
    · subst hslash
      rfl
    by_cases hquote : ch = '"'
    · subst hquote
      rfl
    · rw [if_neg (not_or.mpr ⟨hslash, hquote⟩)]
      exact parse_quoted_plain hslash hquote _ out

/-- A quoted value is parsed, whatever it holds. -/
theorem parse_value_quoted (value rest : Text) :
    parseValue ('"' :: (escapeValue value ++ ['"']) ++ rest) = (value, rest) := by
  rw [List.cons_append, List.append_assoc, List.singleton_append]
  show ((parseQuoted (escapeValue value ++ '"' :: rest) []).1.getD [],
    (parseQuoted (escapeValue value ++ '"' :: rest) []).2) = (value, rest)
  rw [parse_quoted_escaped]
  rfl

/-! ## Rounds -/

/-- A round on a key, an equals sign and the text of a value, with spaces in front of each. -/
theorem next_token_pair {lead key before after text value rest : Text}
    (hlead : ∀ ch ∈ lead, isSpace ch = true) (hkey : IsName key)
    (hbefore : ∀ ch ∈ before, isSpace ch = true) (hafter : ∀ ch ∈ after, isSpace ch = true)
    (htext : Scanning.Stops isSpace (text ++ rest))
    (hvalue : parseValue (text ++ rest) = (value, rest)) :
    nextToken (lead ++ key ++ before ++ '=' :: (after ++ text) ++ rest) =
      some (⟨key, value⟩, rest) := by
  have hsign : Scanning.Stops isSpace ('=' :: (after ++ text ++ rest)) :=
    Scanning.stops_cons (by decide)
  have hstop : Scanning.Stops isWord (before ++ '=' :: (after ++ text ++ rest)) := by
    cases before with
    | nil => exact Scanning.stops_cons (by decide)
    | cons first before =>
      refine Scanning.stops_cons ?_
      rw [isWord, hbefore first List.mem_cons_self]
      rfl
  have hskip : skipSpace (lead ++ key ++ before ++ '=' :: (after ++ text) ++ rest) =
      key ++ (before ++ '=' :: (after ++ text ++ rest)) := by
    rw [List.append_assoc, List.append_assoc, List.append_assoc, List.cons_append]
    exact skip_space_append hlead (hkey.stops_space _)
  have hword := parse_word_name hkey hstop
  have hequals : skipSpace (before ++ '=' :: (after ++ text ++ rest)) =
      '=' :: (after ++ text ++ rest) := skip_space_append hbefore hsign
  have hbehind : skipSpace (after ++ text ++ rest) = text ++ rest := by
    rw [List.append_assoc]
    exact skip_space_append hafter htext
  obtain ⟨first, letters, rfl⟩ := List.exists_cons_of_ne_nil hkey.1
  rw [List.cons_append] at hskip hword
  simp only [nextToken, hskip, hword, hequals, hbehind, hvalue]

theorem WrittenPair.lead_spaces (pair : WrittenPair) : ∀ ch ∈ pair.lead, isSpace ch = true :=
  fun ch hch => pair.spaces ch (by simp [hch])

/-- A written pair is the next token. -/
theorem next_token_written (pair : WrittenPair) {rest : Text}
    (hrest : Scanning.Stops isBare rest) :
    nextToken (pair.text ++ rest) = some (pair.token, rest) := by
  have hbefore : ∀ ch ∈ pair.beforeSign, isSpace ch = true :=
    fun ch hch => pair.spaces ch (by simp [hch])
  have hafter : ∀ ch ∈ pair.afterSign, isSpace ch = true :=
    fun ch hch => pair.spaces ch (by simp [hch])
  rw [WrittenPair.text, WrittenPair.valueText]
  cases hquoted : pair.quoted with
  | false =>
    have hbare := pair.bare_value hquoted
    exact next_token_pair pair.lead_spaces pair.key_name hbefore hafter (hbare.stops_space rest)
      (parse_value_bare hbare hrest)
  | true =>
    exact next_token_pair pair.lead_spaces pair.key_name hbefore hafter
      (Scanning.stops_cons (by decide)) (parse_value_quoted pair.value rest)

theorem tokenize_of_some {expression rest : Text} {token : QueryToken}
    (h : nextToken expression = some (token, rest)) :
    tokenizeQuery expression = token :: tokenizeQuery rest := by
  rw [tokenizeQuery]
  split
  · next hnone => exact absurd (hnone ▸ h).symm (Option.some_ne_none _)
  · next hsome =>
    cases hsome.symm.trans h
    rfl

theorem tokenize_of_none {expression : Text} (h : nextToken expression = none) :
    tokenizeQuery expression = [] := by
  rw [tokenizeQuery]
  split
  · rfl
  · next hsome => exact absurd (h.symm.trans hsome).symm (Option.some_ne_none _)

theorem Rounds.tokens_eq {expression : Text} {tokens : List QueryToken}
    (h : Rounds expression tokens) : tokens = tokenizeQuery expression := by
  induction h with
  | done h => exact (tokenize_of_none h).symm
  | next h _ ih => rw [tokenize_of_some h, ih]

/-- Each round leaves less to read than the one before. -/
theorem rounds_tokenize (expression : Text) :
    Rounds expression (tokenizeQuery expression) ∧
      (tokenizeQuery expression).length ≤ expression.length := by
  fun_induction tokenizeQuery expression with
  | case1 expression h => exact ⟨.done h, Nat.zero_le _⟩
  | case2 expression token rest h ih =>
    have hshorter := next_token_shorter h
    refine ⟨.next h ih.1, ?_⟩
    rw [List.length_cons]
    omega

/-- There is no token among blanks. -/
theorem tokenize_spaces {trail : Text} (h : ∀ ch ∈ trail, isSpace ch = true) :
    tokenizeQuery trail = [] := by
  have hskip : skipSpace (trail ++ []) = [] := skip_space_append h Scanning.stops_nil
  rw [List.append_nil] at hskip
  apply tokenize_of_none
  rw [nextToken, hskip]

/-- What stands behind a pair ends a bare value. -/
theorem stops_pairs {pairs : List WrittenPair} {trail : Text}
    (hpairs : ∀ pair ∈ pairs, pair.lead ≠ []) (htrail : ∀ ch ∈ trail, isSpace ch = true) :
    Scanning.Stops isBare (pairs.flatMap WrittenPair.text ++ trail) := by
  cases pairs with
  | nil =>
    have hstops := stops_bare_of_spaces htrail fun _ => rfl
    rwa [List.append_nil] at hstops
  | cons pair pairs =>
    rw [List.flatMap_cons, WrittenPair.text, List.append_assoc, List.append_assoc,
      List.append_assoc, List.append_assoc]
    exact stops_bare_of_spaces pair.lead_spaces fun hnil =>
      absurd hnil (hpairs pair List.mem_cons_self)

/-- Written pairs are their tokens. -/
theorem tokenize_pairs {pairs : List WrittenPair} {trail : Text}
    (hpairs : ∀ pair ∈ pairs.tail, pair.lead ≠ []) (htrail : ∀ ch ∈ trail, isSpace ch = true) :
    tokenizeQuery (pairs.flatMap WrittenPair.text ++ trail) = pairs.map WrittenPair.token := by
  induction pairs with
  | nil => exact tokenize_spaces htrail
  | cons pair pairs ih =>
    rw [List.tail_cons] at hpairs
    rw [List.flatMap_cons, List.append_assoc,
      tokenize_of_some (next_token_written pair (stops_pairs hpairs htrail)),
      ih fun pair hmem => hpairs pair (List.mem_of_mem_tail hmem), List.map_cons]

/-- Every list of pairs with names for keys can be written. -/
theorem exists_pairs {tokens : List QueryToken} (h : ∀ token ∈ tokens, IsName token.key) :
    ∃ pairs : List WrittenPair, (∀ pair ∈ pairs, pair.lead ≠ []) ∧
      pairs.map WrittenPair.token = tokens := by
  induction tokens with
  | nil => exact ⟨[], List.forall_mem_nil _, rfl⟩
  | cons token tokens ih =>
    obtain ⟨hname, hnames⟩ := List.forall_mem_cons.mp h
    obtain ⟨pairs, hpairs, rfl⟩ := ih hnames
    exact ⟨{ key := token.key, value := token.value, lead := [' '], key_name := hname
             bare_value := fun hbare => absurd hbare (by decide)
             spaces := by simp [isSpace] } :: pairs,
      List.forall_mem_cons.mpr ⟨List.cons_ne_nil _ _, hpairs⟩, rfl⟩

/-- The loop ends on every text, after no more rounds than the text has characters, and pushes the
pairs of a written query in their order. -/
theorem tokenize_written :
    (∀ expression tokens, Rounds expression tokens ↔ tokens = tokenizeQuery expression) ∧
    (∀ expression, (tokenizeQuery expression).length ≤ expression.length) ∧
    (∀ tokens : List QueryToken, (∀ token ∈ tokens, IsName token.key) →
      ∃ query : WrittenQuery, query.tokens = tokens) ∧
    ∀ query : WrittenQuery, tokenizeQuery query.text = query.tokens := by
  refine ⟨fun expression tokens => ⟨Rounds.tokens_eq, ?_⟩,
    fun expression => (rounds_tokenize expression).2, ?_,
    fun query => tokenize_pairs query.separated query.trail_spaces⟩
  · rintro rfl
    exact (rounds_tokenize expression).1
  · intro tokens hnames
    obtain ⟨pairs, hpairs, htokens⟩ := exists_pairs hnames
    exact ⟨{ pairs, separated := fun pair hmem => hpairs pair (List.mem_of_mem_tail hmem)
             trail_spaces := List.forall_mem_nil _ }, htokens⟩

end Aethon.Storage
