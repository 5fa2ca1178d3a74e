import Aethon.Common.Error
import Aethon.Common.Text
import Aethon.Foundation.OrderedMap

/-!
# The configuration parser

One `key = value` entry on a line, with quoted values and `#` comments, after
`config/config_parser.cpp`. A line goes through four scanners: the comment is stripped, the line is
trimmed and split at its first equals sign, and the value loses its quotes.
-/

namespace Aethon.Config

open Text

/-- A key with its value and the line that they were on. -/
structure ConfigEntry where
  key : Text
  value : Text
  line : UInt32 := 0
  deriving DecidableEq, Repr

/-- The entries in their order, and the value that each key has last. -/
structure ParsedConfig where
  entries : List ConfigEntry := []
  values : Std.ExtTreeMap Text Text := ∅

namespace ParsedConfig

/-- The value of a key. -/
def get (config : ParsedConfig) (key : Text) : Option Text :=
  config.values[key]?

/-- The value must be a number to its end. -/
def getInt (config : ParsedConfig) (key : Text) (fallback : Int32) : Int32 :=
  match config.get key with
  | none => fallback
  | some value =>
      match fromCharsInt value with
      | some (out, []) => out
      | _ => fallback

/-- A value that is true in one of three spellings; any other is false. -/
def getBool (config : ParsedConfig) (key : Text) (fallback : Bool) : Bool :=
  match config.get key with
  | none => fallback
  | some value => value = "true".toList ∨ value = "1".toList ∨ value = "yes".toList

/-- A number read under a key, by the value that the text of the key stands for. -/
theorem get_int_of_decimal {config : ParsedConfig} {key : Text} {n : ℤ}
    (h : config.get key = some (signedDecimal n)) (fallback : Int32) :
    config.getInt key fallback = if -2 ^ 31 ≤ n ∧ n < 2 ^ 31 then Int32.ofInt n else fallback := by
  unfold getInt
  rw [h]
  dsimp only
  rw [from_chars_int_decimal]
  by_cases hrange : -2 ^ 31 ≤ n ∧ n < 2 ^ 31
  · simp only [if_pos hrange]
  · simp only [if_neg hrange]

end ParsedConfig

/-- The limits of a parser. -/
structure ConfigParser where
  maxLineLength : Nat := 8192
  maxEntries : Nat := 4096
  deriving DecidableEq, Repr

/-! ## The scanners -/

/-- A text without the space around it. -/
def trim (value : Text) : Text :=
  Scanning.trim isSpace value

/-- A letter, a digit, a point, an underscore or a hyphen. -/
def isKeyChar (ch : Char) : Bool :=
  ch.isAlphanum || ch == '.' || ch == '_' || ch == '-'

/-- A key of 1 to 128 such characters. -/
def validKey (key : Text) : Bool :=
  if key.isEmpty || key.length > 128 then false
  else key.all isKeyChar

/-- The character that an escape stands for. -/
def unescape (ch : Char) : Option Char :=
  if ch = 'n' then some '\n'
  else if ch = 't' then some '\t'
  else if ch = '\\' ∨ ch = '"' then some ch
  else none

/-- The loop of `unquote` between the quotes, after a backslash or not. -/
def unquoteLoop : Bool → Text → Text → Except Error Text
  | false, [], out => .ok out
  | true, [], _ => .error ⟨.malformedPacket, "dangling escape in config value"⟩
  | true, ch :: rest, out =>
      match unescape ch with
      | some plain => unquoteLoop false rest (out ++ [plain])
      | none => .error ⟨.malformedPacket, "invalid escape in config value"⟩
  | false, ch :: rest, out =>
      if ch = '\\' then unquoteLoop true rest out
      else unquoteLoop false rest (out ++ [ch])

/-- The text between quotes with its escapes resolved, or a text as it is. -/
def unquote (value : Text) (line : UInt32) : Except Error Text :=
  if value.length < 2 ∨ value.head? ≠ some '"' then .ok value
  else if value.getLast? ≠ some '"' then
    .error ⟨.malformedPacket, "unterminated quoted config value at line " ++ toString line⟩
  else unquoteLoop false value.tail.dropLast []

/-- The loop of `strip_comment`, inside quotes or not and after a backslash or not. A backslash
escapes inside quotes only. -/
def stripLoop : Bool → Bool → Text → Text
  | _, _, [] => []
  | quoted, true, ch :: rest => ch :: stripLoop quoted false rest
  | quoted, false, ch :: rest =>
      if ch = '\\' ∧ quoted then ch :: stripLoop quoted true rest
      else if ch = '"' then ch :: stripLoop (!quoted) false rest
      else if ch = '#' ∧ !quoted then []
      else ch :: stripLoop quoted false rest

/-- A line up to the first `#` outside of quotes. -/
def stripComment (line : Text) : Text :=
  stripLoop false false line

/-! ## Lines -/

/-- A line without the carriage return at its end. -/
def chomp (raw : Text) : Text :=
  if raw.getLast? = some '\r' then raw.dropLast else raw

/-- The loop body of `ConfigParser::parse` on one line. -/
def ConfigParser.parseLine (parser : ConfigParser) (piece : Text) (lineNo : UInt32)
    (config : ParsedConfig) : Except Error ParsedConfig := do
  let raw := chomp piece
  if raw.length > parser.maxLineLength then
    throw ⟨.malformedPacket, "configuration line is too long"⟩
  let line := trim (stripComment raw)
  if line.isEmpty then return config
  match line.dropWhile (· != '=') with
  | [] => throw ⟨.malformedPacket, "missing '=' in configuration entry"⟩
  | _ :: behind =>
      let key := trim (line.takeWhile (· != '='))
      let value := trim behind
      if !validKey key then throw ⟨.malformedPacket, "invalid configuration key"⟩
      if config.entries.length ≥ parser.maxEntries then
        throw ⟨.malformedPacket, "too many configuration entries"⟩
      let value ← unquote value lineNo
      pure { entries := config.entries ++ [⟨key, value, lineNo⟩]
             values := config.values.insert key value }

/-- The lines one after another, with their numbers. -/
def ConfigParser.parseLines (parser : ConfigParser) :
    List Text → UInt32 → ParsedConfig → Except Error ParsedConfig
  | [], _, config => pure config
  | piece :: pieces, lineNo, config => do
      let lineNo := lineNo + 1
      let config ← parser.parseLine piece lineNo config
      parser.parseLines pieces lineNo config

/-- The lines are the pieces between newlines, also an empty one behind the last newline. -/
def ConfigParser.parse (parser : ConfigParser) (text : Text) : Except Error ParsedConfig :=
  parser.parseLines (text.splitOn '\n') 0 {}

/-- Every byte but nul is a character of the text. -/
def ConfigParser.parseBytes (parser : ConfigParser) (bytes : Bytes) :
    Except Error ParsedConfig :=
  if 0 ∈ bytes then .error ⟨.malformedPacket, "configuration contains nul byte"⟩
  else parser.parse (bytes.map fun byte => Char.ofNat byte.toNat)

example : (ConfigParser.parse {} "collector.name = \"east \\\"primary\\\"\" # id".toList).map
    (·.entries) = .ok [⟨"collector.name".toList, "east \"primary\"".toList, 1⟩] := by
  decide

end Aethon.Config
