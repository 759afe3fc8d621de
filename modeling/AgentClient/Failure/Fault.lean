import AgentClient.Json.Fault
import AgentClient.Json.Writer
import AgentClient.Number.Reading
import AgentClient.Text.Quoted

/-!
# Failure/Fault — what can be wrong with a value, a text or the machine

A fault is a cause that does not belong to the client: a value of the wrong type, a member that is
not there, a number that cannot be, an answer of the operating system. Its kind decides whether the
reader of wire lines reports it as a malformed event or lets it through. A fault of too many calls
says what was gone through when there was one too many; a copy takes calls of several kinds, so its
fault has the text that the machine gives it. -/

namespace AgentClient

/-- The kinds of faults. -/
inductive FaultKind where
  | lookup
  | type
  | value
  | decoding
  | overflow
  | recursion
  | attribute
  | encoding
  | system (label : String)
  deriving DecidableEq, Repr

/-- The name of a kind, as messages have it. -/
def FaultKind.label : FaultKind → String
  | .lookup => "KeyError"
  | .type => "TypeError"
  | .value => "ValueError"
  | .decoding => "JSONDecodeError"
  | .overflow => "OverflowError"
  | .recursion => "RecursionError"
  | .attribute => "AttributeError"
  | .encoding => "UnicodeEncodeError"
  | .system label => label

/-- A refusal of the operating system: its number, its text and the file it is about. -/
structure SystemError where
  number : Int
  text : String
  file : Option String
  deriving DecidableEq, Repr

namespace SystemError

/-- The names of the refusals that have one of their own. -/
def labels : List (Int × String) :=
  [(1, "PermissionError"), (2, "FileNotFoundError"), (3, "ProcessLookupError"),
   (4, "InterruptedError"), (10, "ChildProcessError"), (11, "BlockingIOError"),
   (13, "PermissionError"), (17, "FileExistsError"), (20, "NotADirectoryError"),
   (21, "IsADirectoryError"), (32, "BrokenPipeError"), (103, "ConnectionAbortedError"),
   (104, "ConnectionResetError"), (108, "BrokenPipeError"), (110, "TimeoutError"),
   (111, "ConnectionRefusedError"), (114, "BlockingIOError"), (115, "BlockingIOError")]

/-- The name of a refusal. -/
def label (e : SystemError) : String :=
  (labels.lookup e.number).getD "OSError"

/-- The text of a refusal. -/
def message (e : SystemError) : String :=
  "[Errno " ++ Number.intText e.number ++ "] " ++ e.text
    ++ (match e.file with | none => "" | some file => ": " ++ Text.quoted file)

end SystemError

/-- What can be wrong with a value, a text or the machine. -/
inductive Fault where
  /-- A text is no JSON document. -/
  | json (fault : Json.Fault)
  /-- A value has no JSON document. -/
  | unwritable (fault : Json.WriteFault)
  /-- A table has no entry of a name. -/
  | missing (name : String)
  /-- An item is no table. -/
  | itemNotTable (typeName : String)
  /-- A member that has to be a table is something else. -/
  | memberNotTable (name typeName : String)
  /-- A value of this type has no entries to look up by name. -/
  | notIndexable (typeName : String)
  /-- A value of this type has no members to go through. -/
  | notIterable (typeName : String)
  /-- A value of this type cannot be looked up. -/
  | notHashable (typeName : String)
  /-- A value of this type is no number. -/
  | notNumeric (typeName : String)
  /-- A text is no whole number. -/
  | notInteger (text : WireText)
  /-- A text is a whole number of too many digits. -/
  | overlongText (digits : Nat)
  /-- A whole number has too many digits for a text. -/
  | overlongInt
  /-- What is not a number has no whole part. -/
  | wholeOfNan
  /-- Infinity has no whole part. -/
  | wholeOfInfinity
  /-- A whole number is beyond all floating-point numbers. -/
  | beyondFloat
  /-- An event is of a type that has no meaning. -/
  | unknownEvent (shown : String)
  /-- An entry of an input is neither a text nor an image. -/
  | badEntry (shown : String)
  /-- A value of this type is no number of seconds. -/
  | notSeconds (typeName : String)
  /-- A value of this type cannot be written as a number. -/
  | notFormattable (typeName : String)
  /-- A text cannot be written as a number. -/
  | textNotFormattable
  /-- A word of a command is of this type, not a text. -/
  | badWord (index : Nat) (typeName : String)
  /-- A value of this type is no path. -/
  | notPath (typeName : String)
  /-- A member of a sequence of pairs has no members itself. -/
  | notPair (index : Nat)
  /-- A member of a sequence of pairs has not two members but this many. -/
  | badPair (index length : Nat)
  /-- A value of this type is no text that could be divided at a sign. -/
  | notDivisible (typeName : String)
  /-- A path has the character of number zero in it. -/
  | zeroInPath
  /-- Options were given in two ways at once. -/
  | optionsTwice
  /-- A value is nested too deep to be copied part by part. -/
  | tooDeepToCopy (text : String)
  /-- A value is nested too deep to be shown on one line. -/
  | tooDeepToShow
  /-- A text has these halves of surrogate pairs behind so many characters, so it has no bytes. -/
  | unencodable (start : Nat) (halves : List Nat)
  /-- The operating system refused something. -/
  | system (error : SystemError)
  /-- Nothing happens any more, and there is no deadline that would end the wait. -/
  | stalled
  /-- A fault of another origin with a text of its own. -/
  | other (kind : FaultKind) (text : String)
  deriving DecidableEq, Repr

namespace Fault

/-- The words for a whole number of too many digits, where `detail` may give their count. -/
def digitLimit (detail : String) : String :=
  "Exceeds the limit (4300 digits) for integer string conversion" ++ detail
    ++ "; use sys.set_int_max_str_digits() to increase the limit"

/-- The types whose values have entries by number only, with the word that messages have for them.
-/
def sequenceWords : List (String × String) :=
  [("list", "list"), ("tuple", "tuple"), ("bytes", "byte"), ("bytearray", "bytearray"),
   ("range", "range")]

/-- The kind of a fault. -/
def kind : Fault → FaultKind
  | .json (.malformed ..) => .decoding
  | .json (.tooDeep _) => .recursion
  | .json (.tooManyDigits _) | .unwritable .tooManyDigits => .value
  | .unwritable _ => .type
  | .missing _ => .lookup
  | .itemNotTable _ | .memberNotTable .. | .notIndexable _ | .notIterable _ | .notHashable _
  | .notNumeric _ | .badEntry _ | .notSeconds _ | .notFormattable _
  | .badWord .. | .notPath _ | .notPair _ | .optionsTwice => .type
  | .notInteger _ | .overlongText _ | .overlongInt | .wholeOfNan | .unknownEvent _
  | .textNotFormattable | .badPair .. | .zeroInPath => .value
  | .notDivisible _ => .attribute
  | .tooDeepToCopy _ | .tooDeepToShow => .recursion
  | .unencodable .. => .encoding
  | .wholeOfInfinity | .beyondFloat => .overflow
  | .system error => .system error.label
  | .stalled => .system "Stalled"
  | .other kind _ => kind

/-- The halves of surrogate pairs that follow one another in a text, and their places. -/
def halvesText (start : Nat) : List Nat → String
  | [half] =>
    "character '\\u" ++ String.ofList (Text.hexDigits 4 half) ++ "' in position " ++ toString start
  | halves =>
    "characters in position " ++ toString start ++ "-" ++ toString (start + halves.length - 1)

/-- What a fault says of itself. -/
def text : Fault → String
  | .json fault => fault.message
  | .unwritable (.badKey typeName) =>
    "keys must be str, int, float, bool or None, not " ++ typeName
  | .unwritable (.badValue typeName) => "Object of type " ++ typeName ++ " is not JSON serializable"
  | .unwritable .tooManyDigits | .overlongInt => digitLimit ""
  | .missing name => name
  | .itemNotTable typeName => "Item must be an object, got " ++ typeName
  | .memberNotTable name typeName =>
    Text.quoted name ++ " must be an object, got " ++ typeName
  | .notIndexable "str" => "string indices must be integers, not 'str'"
  | .notIndexable typeName =>
    match sequenceWords.lookup typeName with
    | some word => word ++ " indices must be integers or slices, not str"
    | none => "'" ++ typeName ++ "' object is not subscriptable"
  | .notIterable typeName => "'" ++ typeName ++ "' object is not iterable"
  | .notHashable typeName => "unhashable type: '" ++ typeName ++ "'"
  | .notNumeric typeName =>
    "int() argument must be a string, a bytes-like object or a real number, not '" ++
      typeName ++ "'"
  | .notInteger text =>
    "invalid literal for int() with base 10: "
      ++ String.ofList (text.quotedChars.take 200)
  | .overlongText digits => digitLimit (": value has " ++ toString digits ++ " digits")
  | .wholeOfNan => "cannot convert float NaN to integer"
  | .wholeOfInfinity => "cannot convert float infinity to integer"
  | .beyondFloat => "int too large to convert to float"
  | .unknownEvent shown => "unknown event type " ++ shown
  | .badEntry shown => "Unsupported input entry: " ++ shown
  | .notSeconds typeName =>
    "unsupported operand type(s) for +: 'float' and '" ++ typeName ++ "'"
  | .notFormattable typeName =>
    "unsupported format string passed to " ++ typeName ++ ".__format__"
  | .textNotFormattable => "Unknown format code 'g' for object of type 'str'"
  | .badWord index typeName =>
    "sequence item " ++ toString index ++ ": expected str instance, " ++ typeName ++ " found"
  | .notPath typeName => "expected str, bytes or os.PathLike object, not " ++ typeName
  | .notPair index =>
    "cannot convert dictionary update sequence element #" ++ toString index ++ " to a sequence"
  | .badPair index length =>
    "dictionary update sequence element #" ++ toString index ++ " has length " ++ toString length
      ++ "; 2 is required"
  | .notDivisible typeName => "'" ++ typeName ++ "' object has no attribute 'partition'"
  | .zeroInPath => "embedded null byte"
  | .optionsTwice => "Pass either a TrillOptions or keyword options, not both"
  | .tooDeepToCopy text => text
  | .tooDeepToShow => "maximum recursion depth exceeded while getting the repr of an object"
  | .unencodable start halves =>
    "'utf-8' codec can't encode " ++ halvesText start halves ++ ": surrogates not allowed"
  | .system error => error.message
  | .stalled => "no answer, and no deadline"
  | .other _ text => text

/-- The message of a fault. What is missing is shown in quotation marks. -/
def message (f : Fault) : String :=
  match f.kind with
  | .lookup => Text.quoted f.text
  | _ => f.text

/-- A fault inside another message: its kind, and what it says in quotation marks. -/
def shown (f : Fault) : String :=
  f.kind.label ++ "(" ++ Text.quoted f.text ++ ")"

end Fault

end AgentClient
