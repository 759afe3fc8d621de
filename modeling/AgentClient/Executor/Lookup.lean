import AgentClient.Failure.ClientError
import AgentClient.Text.Pieces
import AgentClient.Value.Nesting
import AgentClient.Value.Table

/-!
# Executor/Lookup — finding the executable

A command with a slash in it is a path and names the file itself. Any other command is looked for in
the directories of the search path, in their order. What is found is returned as it was put
together, not cleaned up. -/

namespace AgentClient

/-- What a path of the file tree may lead to. -/
inductive FileKind where
  | directory
  | executable
  | plain
  deriving DecidableEq, Repr

/-- A file tree: the names on the way to each file and directory, with what is there. The way begins
in the working directory, which is not listed itself, or at the root, whose name is a slash. -/
abbrev FileTree := List (List String × FileKind)

namespace FileTree

/-- The name of the root. -/
def root : String := "/"

/-- The name of what is above the working directory. -/
def above : String := ".."

/-- What stands at the end of some names. The working directory, what is above it and the root are
always there. -/
def kindAt (tree : FileTree) (names : List String) : Option FileKind :=
  if names = [] || names = [root] || names = [above] then some .directory else tree.lookup names

/-- The names on the way to a file with a path that does not go up. -/
def namesOf (path : String) : List String :=
  let names := (Text.split '/' path).filter fun name => name ≠ "" && name ≠ "."
  if path.toList.head? = some '/' then root :: names else names

/-- A file with the directories on the way to it. -/
def ofFile (names : List String) (kind : FileKind) : FileTree :=
  ((List.range names.length).drop 1).map (fun n => (names.take n, .directory)) ++ [(names, kind)]

/-- Where a path leads. -/
inductive Destination where
  /-- To a file or directory. -/
  | found (names : List String) (kind : FileKind)
  /-- To nothing. -/
  | missing
  /-- Through a file that is no directory. -/
  | blocked
  /-- To nothing, for the path or a name in it is too long. -/
  | overlong
  deriving DecidableEq, Repr

/-- How many bytes a name in a path may have. -/
def maxNameBytes : Nat := 255

/-- How many bytes a path may have. -/
def maxPathBytes : Nat := 4095

/-- Where a path leads, step by step from a place. Every step is taken in a directory, also one that
stays there or goes up. Of what is above the working directory no more is known than that it is a
directory, and all that is above it counts as the same one. -/
def walk (tree : FileTree) (place : List String) : List String → Destination
  | [] =>
    match tree.kindAt place with
    | some kind => .found place kind
    | none => .missing
  | step :: steps =>
    match tree.kindAt place with
    | none => .missing
    | some .directory =>
      if maxNameBytes < step.utf8ByteSize then .overlong
      else if step = "" || step = "." then walk tree place steps
      else if step = ".." then
        if place = [] then walk tree [above] steps
        else if place = [root] || place = [above] then walk tree place steps
        else walk tree place.dropLast steps
      else walk tree (place ++ [step]) steps
    | some _ => .blocked

/-- Where a path leads: from the root if it begins with a slash, else from the working directory. -/
def follow (tree : FileTree) (path : String) : Destination :=
  if path = "" then .missing
  else if maxPathBytes < path.utf8ByteSize then .overlong
  else tree.walk (if path.toList.head? = some '/' then [root] else []) (Text.split '/' path)

/-- Whether a path leads to an executable file. -/
def isExecutable (tree : FileTree) (path : String) : Bool :=
  match tree.follow path with
  | .found _ .executable => true
  | _ => false

end FileTree

/-- What every operation sees around it. -/
structure Surroundings where
  /-- The environment variables of the host. -/
  environment : List (String × String)
  /-- The files and directories. -/
  files : FileTree
  /-- The texts of some of its files, by the names on the way to them. -/
  texts : List (List String × String) := []
  /-- The directory that schemas are written into. -/
  schemaDirectory : String
  /-- What the machine copies. -/
  copyLimits : CopyLimits := {}

namespace Surroundings

/-- The value of an environment variable. -/
def valueOf? (s : Surroundings) (name : String) : Option String :=
  s.environment.lookup name

/-- The text of a file with all its line ends made line feeds. -/
def plainLines : List Char → List Char
  | [] => []
  | '\r' :: '\n' :: cs => '\n' :: plainLines cs
  | '\r' :: cs => '\n' :: plainLines cs
  | c :: cs => c :: plainLines cs

/-- The text of a file, or why it cannot be had. -/
def readFile (s : Surroundings) (path : String) : Except Fault String :=
  if path.toList.contains (Char.ofNat 0) then .error .zeroInPath
  else
    match s.files.follow path with
    | .missing => .error (.system ⟨2, "No such file or directory", some path⟩)
    | .blocked => .error (.system ⟨20, "Not a directory", some path⟩)
    | .overlong => .error (.system ⟨36, "File name too long", some path⟩)
    | .found _ .directory => .error (.system ⟨21, "Is a directory", some path⟩)
    | .found names _ => .ok (String.ofList (plainLines ((s.texts.lookup names).getD "").toList))

end Surroundings

/-- A name in a directory. An empty directory adds nothing, and a slash is not doubled. -/
def pathIn (directory name : String) : String :=
  if directory = "" then name
  else if directory.toList.getLast? = some '/' then directory ++ name
  else directory ++ "/" ++ name

/-- The search path of an environment that has none. -/
def defaultSearchPath : String := "/bin:/usr/bin"

/-- The directories of the search path. An empty one has none, which is not the same as one empty
directory. -/
def Surroundings.searchPath (s : Surroundings) : List String :=
  let path := (s.valueOf? "PATH").getD defaultSearchPath
  if path = "" then [] else Text.split ':' path

/-- The path that a command leads to. -/
def Surroundings.which? (s : Surroundings) (command : String) : Option String :=
  if command.toList.contains '/' then
    if s.files.isExecutable command then some command else none
  else (s.searchPath.map fun d => pathIn d command).find? s.files.isExecutable

/-- The name of the executable when none is given. -/
def defaultExecutable : String := "trill"

/-- **The executable of a client**: the one given, or the one found on the search path. -/
def resolveExecutable (s : Surroundings) (given : Value) : Except Failure String :=
  if given.isTruthy then
    match given with
    | .str command =>
      match s.which? command with
      | some path => .ok path
      | none => .error (.client (.executableNotFound (some command)))
    | v => .error (.fault (.notPath v.typeName))
  else
    match s.which? defaultExecutable with
    | some path => .ok path
    | none => .error (.client (.executableNotFound none))

end AgentClient
