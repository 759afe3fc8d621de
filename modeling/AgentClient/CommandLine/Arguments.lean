import AgentClient.Number.Reading
import AgentClient.Text.Pieces
import AgentClient.Text.Quoted

/-!
# CommandLine/Arguments — words of a command line as options and arguments

A grammar lists the options of a command and the one argument it may have besides. A word that
begins with a dash is an option, with these exceptions: a dash alone, a negative number, a word with
a blank that is no option, and everything behind a double dash. Long options may be shortened as
long as they stay apart from each other; a value may be attached with an equals sign, or directly to
a short option; short options without values may share one dash, also behind an equals sign.

First every word is classified, then the options act in their order. What ends the reading early — a
request for help, an error — is a `Halt`.
-/

namespace AgentClient.CommandLine

/-- What an option does. -/
inductive OptionAction where
  /-- Show the help text and end. -/
  | help
  /-- Show the version and end. -/
  | version
  /-- Set a mark. -/
  | flag
  /-- Take any text. -/
  | text
  /-- Take one of some texts. -/
  | choice (choices : List String)
  /-- Take a number. -/
  | number
  deriving DecidableEq, Repr

/-- An option: its names, in the order in which messages have them, and what it does. -/
structure OptionSpec where
  names : List String
  action : OptionAction
  deriving DecidableEq, Repr

/-- The argument that a command may have besides its options. -/
inductive ArgumentSpec where
  | none
  /-- One text, which has to be there. -/
  | required (name : String)
  /-- The name of a command and all the words behind it. -/
  | command (name : String) (choices : List String)
  deriving DecidableEq, Repr

/-- The grammar of a command. -/
structure Grammar where
  /-- The words that the command is called by. -/
  program : String
  options : List OptionSpec
  argument : ArgumentSpec
  deriving DecidableEq, Repr

/-- What ends the reading of a command line early. -/
inductive Halt where
  | help (program : String)
  | version
  /-- The words make no sense to a command. -/
  | usage (program text : String)
  deriving DecidableEq, Repr

namespace OptionAction

/-- Whether an option takes a value. -/
def takesValue : OptionAction → Bool
  | .text | .choice _ | .number => true
  | _ => false

end OptionAction

/-! ## Classifying words -/

/-- A word of a command line by what it is. -/
inductive Token where
  /-- The double dash. -/
  | dashes
  | argument (word : String)
  /-- An option, by the name that it was found under, with what is attached to it. -/
  | option (spec : OptionSpec) (name : String) (attached : Option (List Char))
  /-- An option that the grammar does not have. -/
  | unknown (word : String)
  deriving DecidableEq, Repr

namespace Grammar

/-- The names of all options, each with its option, in the order of the grammar. -/
def names (g : Grammar) : List (String × OptionSpec) :=
  g.options.flatMap fun o => o.names.map fun name => (name, o)

/-- The option of a name. -/
def find? (g : Grammar) (name : String) : Option OptionSpec :=
  g.names.lookup name

/-- The parts of a word before and after the first equals sign; without one there is no second. -/
def atEquals (word : List Char) : List Char × Option (List Char) :=
  match Text.cut? '=' word with
  | some (name, value) => (name, some value)
  | none => (word, none)

/-- An option that a word may be, by the name that it is found under, with what is attached to it.
-/
abbrev Match := OptionSpec × String × Option (List Char)

/-- The long options that a word may be short for. -/
def longMatches (g : Grammar) (word : List Char) : List Match :=
  let (start, attached) := atEquals word
  g.names.filterMap fun (name, o) =>
    if start.isPrefixOf name.toList then some (o, name, attached) else none

/-- The options that a word with a single dash may be: a short one with a value directly behind it,
or one that the word begins. -/
def shortMatches (g : Grammar) (word : List Char) : List Match :=
  g.names.filterMap fun (name, o) =>
    if name.toList = word.take 2 then some (o, name, some (word.drop 2))
    else if word.isPrefixOf name.toList then some (o, name, none)
    else none

/-- Whether a word is a negative number: a dash and digits, with a point before the last of them or
without one. A line feed may follow. -/
def isNegativeNumber (word : List Char) : Bool :=
  let isDigit (c : Char) : Bool := (Text.digitValue? c).isSome
  match word with
  | '-' :: rest =>
    let body := if rest.getLast? = some '\n' then rest.dropLast else rest
    let fraction := body.dropWhile isDigit
    (fraction.isEmpty && !body.isEmpty)
      || (fraction.head? = some '.' && !fraction.tail.isEmpty && fraction.tail.all isDigit)
  | _ => false

/-- What a word is when the double dash has not come yet. -/
def classifyWord (g : Grammar) (word : String) : Except Halt Token :=
  let cs := word.toList
  if cs.head? ≠ some '-' then .ok (.argument word)
  else match g.find? word with
  | some o => .ok (.option o word none)
  | none =>
    if cs.length = 1 then .ok (.argument word)
    else
      let (start, attached) := atEquals cs
      match attached, g.find? (String.ofList start) with
      | some value, some o => .ok (.option o (String.ofList start) (some value))
      | _, _ =>
        let found := if (cs.drop 1).head? = some '-' then g.longMatches cs else g.shortMatches cs
        match found with
        | [(o, name, attached)] => .ok (.option o name attached)
        | _ :: _ :: _ =>
          .error (.usage g.program ("ambiguous option: " ++ word ++ " could match "
            ++ Text.join ", " (found.map fun m => m.2.1)))
        | [] =>
          if isNegativeNumber cs || cs.contains ' ' then .ok (.argument word)
          else .ok (.unknown word)

/-- What the words of a command line are. -/
def classify (g : Grammar) : List String → Except Halt (List Token)
  | [] => .ok []
  | word :: words =>
    if word = "--" then .ok (.dashes :: words.map .argument)
    else do
      let token ← g.classifyWord word
      let tokens ← g.classify words
      return token :: tokens

end Grammar

/-! ## Acting -/

/-- What an option that takes a value was given. -/
inductive Given where
  | text (s : String)
  /-- A double dash attached to the option, which is no text but stands for no words at all. -/
  | nothing
  deriving DecidableEq, Repr

/-- What an option was given by a word. -/
def Given.ofWord (word : String) : Given :=
  if word = "--" then .nothing else .text word

/-- What an option has set: its names and what it was given, if it takes a value. -/
structure Setting where
  names : List String
  value : Option Given
  deriving DecidableEq, Repr

/-- What was read of a command line. -/
structure Reading where
  settings : List Setting := []
  /-- The argument, with the words behind it if it is the name of a command. -/
  argument : Option (List String) := none
  /-- The words that nothing was found for. -/
  extras : List String := []
  deriving DecidableEq, Repr

namespace Grammar

/-- An error about an option or argument. -/
def complain (g : Grammar) (what text : String) : Halt :=
  .usage g.program ("argument " ++ what ++ ": " ++ text)

/-- The name of an option in messages. -/
def title (o : OptionSpec) : String :=
  Text.join "/" o.names

/-- The complaint about a text that is none of some choices. -/
def choiceText (value : String) (choices : List String) : String :=
  "invalid choice: " ++ Text.quoted value ++ " (choose from "
    ++ Text.join ", " (choices.map Text.quoted) ++ ")"

/-- What is wrong with a value of an option. No words at all are never wrong. -/
def valueFault? : Given → OptionAction → Option String
  | .text value, .choice choices =>
    if choices.contains value then none else some (choiceText value choices)
  | .text value, .number =>
    if (Number.readFloat? value).isSome then none
    else some ("invalid float value: " ++ Text.quoted value)
  | _, _ => none

/-- Let an option act. -/
def act (g : Grammar) (r : Reading) (o : OptionSpec) (word : Option String) :
    Except Halt Reading :=
  let value := word.map Given.ofWord
  match o.action with
  | .help => .error (.help g.program)
  | .version => .error .version
  | action =>
    match value.bind fun v => valueFault? v action with
    | some text => .error (g.complain (title o) text)
    | none => .ok { r with settings := r.settings ++ [⟨o.names, value⟩] }

/-- Let several options act in their order. -/
def actAll (g : Grammar) (r : Reading) : List (OptionSpec × Option String) → Except Halt Reading
  | [] => .ok r
  | (o, word) :: rest => do
    let r ← g.act r o word
    g.actAll r rest

/-- A value that an option without values has attached to it. -/
def ignored (g : Grammar) (o : OptionSpec) (value : List Char) : Halt :=
  g.complain (title o) ("ignored explicit argument " ++ Text.quoted (String.ofList value))

/-- The options that share one dash, from one whose letter has just been read, each with its value
if the word has it, and the last of them apart if it still wants one. -/
def group (g : Grammar) (o : OptionSpec) :
    List Char → Except Halt (List (OptionSpec × Option String) × Option OptionSpec)
  | [] => .ok (if o.action.takesValue then ([], some o) else ([(o, none)], none))
  | c :: cs =>
    if o.action.takesValue then .ok ([(o, some (String.ofList (c :: cs)))], none)
    else
      match g.find? (String.ofList ['-', c]) with
      | none => .error (g.ignored o (c :: cs))
      | some next => do
        let (others, last) ← g.group next cs
        return ((o, none) :: others, last)

/-- What is attached to an option: the value of it, or the letters of options that share its dash. A
long option without values has nothing attached, nor is the attachment empty unless it is a value.
-/
def attachments (g : Grammar) (o : OptionSpec) (name : String) :
    Option (List Char) → Except Halt (List (OptionSpec × Option String) × Option OptionSpec)
  | none => g.group o []
  | some value =>
    if o.action.takesValue then .ok ([(o, some (String.ofList value))], none)
    else if value.isEmpty || "--".toList.isPrefixOf name.toList then .error (g.ignored o value)
    else g.group o value

/-- The value of an option from the next token, which has to be an argument. -/
def wantValue (g : Grammar) (o : OptionSpec) : Option Token → Except Halt String
  | some (.argument word) => .ok word
  | _ => .error (g.complain (title o) "expected one argument")

/-- Take an option, with a look at the next token. The flag says whether that one is used up. -/
def takeOption (g : Grammar) (r : Reading) (o : OptionSpec) (name : String)
    (attached : Option (List Char)) (next : Option Token) : Except Halt (Reading × Bool) := do
  let (actions, last) ← g.attachments o name attached
  match last with
  | none => return (← g.actAll r actions, false)
  | some last => do
    let value ← g.wantValue last next
    return (← g.actAll r (actions ++ [(last, some value)]), true)

/-- Put a word with those that nothing was found for. -/
def leave (r : Reading) (word : String) : Reading :=
  { r with extras := r.extras ++ [word] }

/-- Take an argument, or the double dash. The result says whether the next token is used up, or is
`none` if all of them are. An argument takes a double dash next to it along; the name of a command
takes all the words behind it. -/
def takeArgument (g : Grammar) (r : Reading) (word : String) (isDashes : Bool)
    (rest : List (String × Token)) : Except Halt (Reading × Option Bool) :=
  match g.argument, r.argument with
  | .none, _ | _, some _ => .ok (leave r word, some false)
  | .required _, none =>
    if isDashes then
      match rest with
      | [] => .ok (leave r word, some false)
      | (next, _) :: _ => .ok ({ r with argument := some [next] }, some true)
    else .ok ({ r with argument := some [word] }, some (rest.head?.map (·.2) = some .dashes))
  | .command name choices, none =>
    if isDashes && rest.isEmpty then .ok (leave r word, some false)
    else if choices.contains word then
      .ok ({ r with argument := some (word :: rest.map (·.1)) }, none)
    else .error (g.complain name (choiceText word choices))

/-- Take tokens one after another; the flag says whether the first of them is used up. -/
def scan (g : Grammar) : (used : Bool) → List (String × Token) → Reading → Except Halt Reading
  | _, [], r => .ok r
  | true, _ :: rest, r => g.scan false rest r
  | false, (word, token) :: rest, r =>
    match token with
    | .unknown _ => g.scan false rest (leave r word)
    | .option o name attached => do
      let (r, used) ← g.takeOption r o name attached (rest.head?.map (·.2))
      g.scan used rest r
    | token => do
      let (r, used?) ← g.takeArgument r word (token = .dashes) rest
      match used? with
      | none => return r
      | some used => g.scan used rest r

/-- The argument that is missing. -/
def missing? (g : Grammar) (r : Reading) : Option String :=
  match g.argument, r.argument with
  | .required name, none => some name
  | _, _ => none

/-- **Read a command line.** -/
def read (g : Grammar) (words : List String) : Except Halt Reading := do
  let tokens ← g.classify words
  let r ← g.scan false (words.zip tokens) {}
  match g.missing? r with
  | some name => throw (.usage g.program ("the following arguments are required: " ++ name))
  | none => return r

end Grammar

/-! ## Results -/

namespace Reading

/-- What an option has set, every time that it was given. -/
def valuesOf (r : Reading) (name : String) : List (Option Given) :=
  (r.settings.filter fun s => s.names.contains name).map (·.value)

/-- Whether an option was given. -/
def has (r : Reading) (name : String) : Bool :=
  !(r.valuesOf name).isEmpty

/-- All that an option was given. -/
def all (r : Reading) (name : String) : List Given :=
  (r.valuesOf name).filterMap id

/-- The last that an option was given. -/
def last? (r : Reading) (name : String) : Option Given :=
  (r.all name).getLast?

end Reading

end AgentClient.CommandLine
