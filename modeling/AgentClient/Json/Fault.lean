/-!
# Json/Fault — why a text is no JSON document

A complaint is found at a place of the text: a line, a column and an offset, all counted in
characters. Two more faults have no place: a document nested too deep, and a whole number of too
many digits. -/

namespace AgentClient.Json

/-- What a reader complains about. -/
inductive Complaint where
  | byteOrderMark
  | noValue
  | noName
  | noColon
  | noComma
  | extraData
  | unterminatedText
  | controlCharacter
  | badEscape
  | badCodeEscape
  deriving DecidableEq, Repr

/-- The words of a complaint. -/
def Complaint.words : Complaint → String
  | .byteOrderMark => "Unexpected UTF-8 BOM (decode using utf-8-sig)"
  | .noValue => "Expecting value"
  | .noName => "Expecting property name enclosed in double quotes"
  | .noColon => "Expecting ':' delimiter"
  | .noComma => "Expecting ',' delimiter"
  | .extraData => "Extra data"
  | .unterminatedText => "Unterminated string starting at"
  | .controlCharacter => "Invalid control character at"
  | .badEscape => "Invalid \\escape"
  | .badCodeEscape => "Invalid \\uXXXX escape"

/-- A place in a text. Lines and columns count from one, offsets from zero. -/
structure Place where
  line : Nat
  column : Nat
  offset : Nat
  deriving DecidableEq, Repr

/-- The place behind some characters. -/
def Place.after (cs : List Char) : Place :=
  { line := cs.count '\n' + 1
    column := (cs.reverse.takeWhile (· ≠ '\n')).length + 1
    offset := cs.length }

/-- The two kinds of values that hold others. -/
inductive Nest where
  | array
  | object
  deriving DecidableEq, Repr

/-- Why a text is no JSON document. -/
inductive Fault where
  | malformed (what : Complaint) (place : Place)
  | tooDeep (nest : Nest)
  | tooManyDigits (count : Nat)
  deriving DecidableEq, Repr

/-- The text of a fault. -/
def Fault.message : Fault → String
  | .malformed what place =>
    what.words ++ ": line " ++ toString place.line ++ " column " ++ toString place.column
      ++ " (char " ++ toString place.offset ++ ")"
  | .tooDeep .array =>
    "maximum recursion depth exceeded while decoding a JSON array from a unicode string"
  | .tooDeep .object =>
    "maximum recursion depth exceeded while decoding a JSON object from a unicode string"
  | .tooManyDigits count =>
    "Exceeds the limit (4300 digits) for integer string conversion: value has " ++ toString count
      ++ " digits; use sys.set_int_max_str_digits() to increase the limit"

end AgentClient.Json
