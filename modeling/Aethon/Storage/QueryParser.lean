import Aethon.Common.Text
import Aethon.Storage.Query

/-!
# The query parser

A query is written as `key=value` pairs between spaces, after `storage/query_parser.cpp`. The
tokenizer splits the text, and each token sets one filter of the query or leaves a diagnostic.
`next_token_shorter` is why the tokenizer ends.
-/

namespace Aethon.Storage

open Protocol Text

/-- A key and its value in an expression. -/
structure QueryToken where
  key : Text
  value : Text
  deriving DecidableEq, Repr

/-- What is wrong with a token. -/
structure QueryParseDiagnostic where
  token : Text
  message : String
  deriving DecidableEq, Repr

/-- The query of an expression, its tokens, and what is wrong with them. -/
structure ParsedArchiveQuery where
  query : ArchiveQuery := {}
  tokens : List QueryToken := []
  diagnostics : List QueryParseDiagnostic := []
  deriving DecidableEq, Repr

/-- Nothing is wrong with the expression. -/
def ParsedArchiveQuery.ok (parsed : ParsedArchiveQuery) : Bool :=
  parsed.diagnostics.isEmpty

/-! ## Values -/

/-- A decimal number of 64 bits, and nothing behind it. -/
def parseU64 (value : Text) : Option UInt64 :=
  match fromChars value with
  | some (out, []) => some out
  | _ => none

/-- A size, read like a number. -/
def parseSize (value : Text) : Option UInt64 :=
  parseU64 value

/-- A kind by its name or its number. -/
def parseKind (value : Text) : Option PacketKind :=
  let name := lower value
  if name = "heartbeat".toList ∨ name = "1".toList then some PacketKind.heartbeat
  else if name = "observation".toList ∨ name = "2".toList then some PacketKind.observation
  else if name = "spectrum".toList ∨ name = "3".toList then some PacketKind.spectrum
  else if name = "control".toList ∨ name = "4".toList then some PacketKind.control
  else if name = "capabilities".toList ∨ name = "5".toList then some PacketKind.capabilities
  else none

/-! ## Tokens -/

/-- The expression behind its blanks. -/
def skipSpace (expression : Text) : Text :=
  expression.dropWhile isSpace

/-- The loop of `parse_quoted` behind the opening quote. Without a closing quote there is no value
and nothing is left to read. -/
def parseQuoted : Text → Text → Option Text × Text
  | [], _ => (none, [])
  | '"' :: rest, out => (some out, rest)
  | '\\' :: 'n' :: rest, out => parseQuoted rest (out ++ ['\n'])
  | '\\' :: 't' :: rest, out => parseQuoted rest (out ++ ['\t'])
  | '\\' :: escaped :: rest, out => parseQuoted rest (out ++ [escaped])
  | ch :: rest, out => parseQuoted rest (out ++ [ch])

/-- A character of a value without quotes. -/
def isBare (ch : Char) : Bool :=
  !isSpace ch

/-- A character of a key. -/
def isWord (ch : Char) : Bool :=
  !isSpace ch && ch != '='

/-- A value without quotes, and what follows it. -/
def parseBare (expression : Text) : Text × Text :=
  (expression.takeWhile isBare, expression.dropWhile isBare)

/-- A key, and what follows it. -/
def parseWord (expression : Text) : Text × Text :=
  (expression.takeWhile isWord, expression.dropWhile isWord)

/-- A value with quotes or without, and what follows it. -/
def parseValue (expression : Text) : Text × Text :=
  match expression with
  | '"' :: rest =>
      let (value, rest) := parseQuoted rest []
      (value.getD [], rest)
  | expression => parseBare expression

/-- One round of the loop of `tokenize_query`: the next token and the text behind it. -/
def nextToken (expression : Text) : Option (QueryToken × Text) :=
  match skipSpace expression with
  | [] => none
  | ch :: rest =>
      let (key, rest) := parseWord (ch :: rest)
      match skipSpace rest with
      | '=' :: rest =>
          let (value, rest) := parseValue (skipSpace rest)
          some (⟨key, value⟩, rest)
      | rest => some (⟨key, []⟩, rest)

theorem skip_space_length (expression : Text) :
    (skipSpace expression).length ≤ expression.length :=
  (List.dropWhile_suffix isSpace).length_le

/-- Reading a quoted value makes no text longer. -/
theorem parse_quoted_length (expression out : Text) :
    (parseQuoted expression out).2.length ≤ expression.length := by
  fun_induction parseQuoted expression out with
  | case1 => exact le_rfl
  | case2 => exact Nat.le_succ _
  | case3 rest out ih => exact Nat.le_add_right_of_le (k := 2) ih
  | case4 rest out ih => exact Nat.le_add_right_of_le (k := 2) ih
  | case5 escaped rest out _ _ ih => exact Nat.le_add_right_of_le (k := 2) ih
  | case6 ch rest out _ _ _ _ ih => exact Nat.le_succ_of_le ih

/-- Reading a value makes no text longer. -/
theorem parse_value_length (expression : Text) :
    (parseValue expression).2.length ≤ expression.length := by
  unfold parseValue
  split
  · exact Nat.le_succ_of_le (parse_quoted_length _ _)
  · exact (List.dropWhile_suffix isBare).length_le

/-- A round of the tokenizer reads something: the word, or else the equals sign behind it. -/
theorem next_token_shorter {expression : Text} {token : QueryToken} {rest : Text}
    (h : nextToken expression = some (token, rest)) : rest.length < expression.length := by
  unfold nextToken at h
  split at h
  · exact absurd h.symm (Option.some_ne_none _)
  · next ch tail hskip =>
    have hstart : isSpace ch = false := by
      have := List.head?_dropWhile_not isSpace expression
      rw [show expression.dropWhile isSpace = ch :: tail from hskip] at this
      simpa using this
    have hlength : (ch :: tail).length ≤ expression.length := hskip ▸ skip_space_length expression
    dsimp only [parseWord] at h
    split at h
    · next rest' hword =>
      cases h
      have hsign := skip_space_length ((ch :: tail).dropWhile isWord)
      rw [hword] at hsign
      have hdrop := (List.dropWhile_suffix isWord (l := ch :: tail)).length_le
      have hvalue := (parse_value_length (skipSpace rest')).trans (skip_space_length rest')
      rw [List.length_cons] at hsign
      omega
    · next hsign =>
      cases h
      by_cases hword : isWord ch = true
      · have hdrop := (List.dropWhile_suffix isWord (l := tail)).length_le
        have hskip' := skip_space_length ((ch :: tail).dropWhile isWord)
        rw [List.dropWhile_cons_of_pos hword] at hskip' ⊢
        rw [List.length_cons] at hlength
        omega
      · -- a character that neither is a space nor belongs to a word is the equals sign
        have heq : ch = '=' := by simpa [isWord, hstart] using hword
        rw [List.dropWhile_cons_of_neg hword, skipSpace,
          List.dropWhile_cons_of_neg (by rw [hstart]; exact Bool.false_ne_true)] at hsign
        exact absurd (heq ▸ rfl) (hsign tail)

/-- The tokens of an expression, in their order. -/
def tokenizeQuery (expression : Text) : List QueryToken :=
  match _h : nextToken expression with
  | none => []
  | some (token, rest) => token :: tokenizeQuery rest
termination_by expression.length
decreasing_by exact next_token_shorter _h

/-! ## Applying the tokens -/

/-- Add a complaint about a token. -/
def addDiagnostic (parsed : ParsedArchiveQuery) (token : Text) (message : String) :
    ParsedArchiveQuery :=
  { parsed with diagnostics := parsed.diagnostics ++ [⟨token, message⟩] }

/-- Set a filter to the value of a token, or say what its value must be. -/
def assign {α : Type} (parsed : ParsedArchiveQuery) (token : QueryToken) (value : Option α)
    (set : ArchiveQuery → α → ArchiveQuery) (message : String) : ParsedArchiveQuery :=
  match value with
  | some value => { parsed with query := set parsed.query value }
  | none => addDiagnostic parsed token.key message

/-- Put the value of a token where its key says. -/
def applyToken (parsed : ParsedArchiveQuery) (token : QueryToken) : ParsedArchiveQuery :=
  let key := lower token.key
  if key ∈ ["start".toList, "start_time".toList, "start_time_ns".toList] then
    assign parsed token (parseU64 token.value)
      (fun query value => { query with startTimeNs := some value })
      "start time must be an unsigned integer"
  else if key ∈ ["end".toList, "end_time".toList, "end_time_ns".toList] then
    assign parsed token (parseU64 token.value)
      (fun query value => { query with endTimeNs := some value })
      "end time must be an unsigned integer"
  else if key ∈ ["device".toList, "device_id".toList] then
    assign parsed token (parseU64 token.value)
      (fun query value => { query with device := some value })
      "device must be an unsigned integer"
  else if key ∈ ["kind".toList, "packet_kind".toList] then
    assign parsed token (parseKind token.value)
      (fun query value => { query with kind := some value })
      "packet kind is not recognized"
  else if key ∈ ["min_payload".toList, "min_payload_size".toList] then
    assign parsed token (parseSize token.value)
      (fun query value => { query with minPayloadSize := some value })
      "minimum payload size must be an unsigned integer"
  else if key ∈ ["max_payload".toList, "max_payload_size".toList] then
    assign parsed token (parseSize token.value)
      (fun query value => { query with maxPayloadSize := some value })
      "maximum payload size must be an unsigned integer"
  else if key = "limit".toList then
    assign parsed token (parseSize token.value)
      (fun query value => { query with limit := value })
      "limit must be an unsigned integer"
  else addDiagnostic parsed token.key "unknown query key"

/-- The complaints about bounds that leave nothing between them. -/
def validateQueryRanges (parsed : ParsedArchiveQuery) : ParsedArchiveQuery :=
  let parsed :=
    match parsed.query.startTimeNs, parsed.query.endTimeNs with
    | some start, some stop =>
        if start > stop then addDiagnostic parsed "time".toList "start time is after end time"
        else parsed
    | _, _ => parsed
  match parsed.query.minPayloadSize, parsed.query.maxPayloadSize with
  | some least, some most =>
      if least > most then
        addDiagnostic parsed "payload".toList "minimum payload size exceeds maximum payload size"
      else parsed
  | _, _ => parsed

/-- The loop body of `parse_archive_query`. -/
def considerToken (parsed : ParsedArchiveQuery) (token : QueryToken) : ParsedArchiveQuery :=
  if token.key = [] then addDiagnostic parsed token.key "query key is empty"
  else if token.value = [] then addDiagnostic parsed token.key "query value is empty"
  else applyToken parsed token

/-- Parse an expression: its tokens one by one, then the bounds. -/
def parseArchiveQuery (expression : String) : ParsedArchiveQuery :=
  let tokens := tokenizeQuery expression.toList
  validateQueryRanges (tokens.foldl considerToken { tokens })

end Aethon.Storage
