import AgentClient.CommandLine.Run

/-!
# Main — the program

The program reads the world it runs in, hands it to `CommandLine.run`, and shows the outcome. It
starts no processes itself: what a child writes is taken from a recording, the file that the
environment variable `AGENT_CLIENT_RECORDING` names. Without one, every start is refused. -/

namespace AgentClient.CommandLine

/-- The environment variable that names the recording. -/
def recordingVariable : String := "AGENT_CLIENT_RECORDING"

/-- What a child does when there is no recording. -/
def noChild : Script :=
  { refusal := some ⟨38, "Function not implemented", none⟩ }

/-- What a child does that writes a recording and exits with zero. -/
def recordedChild (recording : ByteArray) : Script :=
  { output := [.bytes recording.toList] }

/-- The environment variables with these names, as far as they are set. -/
def readEnvironment : List String → IO (List (String × String))
  | [] => return []
  | name :: names => do
    let rest ← readEnvironment names
    match ← IO.getEnv name with
    | some v => return (name, v) :: rest
    | none => return rest

/-- The bytes of a file, if it can be read. -/
def readBytes? (path : String) : IO (Option ByteArray) := do
  try return some (← IO.FS.readBinFile path) catch _ => return none

/-- The files with these paths, as far as they can be read. -/
def readFiles (kind : FileKind) : List String → IO (FileTree × List (List String × String))
  | [] => return ([], [])
  | path :: paths => do
    let (tree, texts) ← readFiles kind paths
    match ← readBytes? path with
    | some bytes =>
      let names := FileTree.namesOf path
      return (FileTree.ofFile names kind ++ tree,
        (names, String.ofList (Text.Utf8.decode bytes.toList)) :: texts)
    | none => return (tree, texts)

/-- The paths at which the executable may be. -/
def executablePaths (s : Surroundings) (given : Value) : List String :=
  let command := if given.isTruthy then given.asText.toString else defaultExecutable
  if command.toList.contains '/' then [command]
  else s.searchPath.map fun d => pathIn d command

/-- The world that a turn runs in. -/
def readWorld (a : RunArguments) : IO World := do
  let environment ← readEnvironment ["PATH", "CODEX_EXECUTABLE", recordingVariable]
  let bare : Surroundings := { environment, files := [], schemaDirectory := "output-schema" }
  let (executables, _) ←
    readFiles .executable (executablePaths bare (executableOf bare a))
  let (plain, texts) ← readFiles .plain
    (if a.schema.isTruthy then [a.schema.asText.toString] else [])
  let recording ← (bare.valueOf? recordingVariable).bindM readBytes?
  let stdin ← if a.prompt = "-" then (← IO.getStdin).readToEnd else pure ""
  return { surroundings := { bare with files := executables ++ plain, texts }
           stdin
           scripts := [match recording with | some r => recordedChild r | none => noChild] }

end AgentClient.CommandLine

open AgentClient.CommandLine in
/-- The program. -/
def main (words : List String) : IO UInt32 := do
  let world ← match invocation words with
    | .ok (.run a) => readWorld a
    | _ => pure ⟨{ environment := [], files := [], schemaDirectory := "" }, "", []⟩
  let outcome := run world words
  (← IO.getStdout).putStr outcome.stdout
  (← IO.getStderr).putStr outcome.stderr
  return outcome.code.toUInt32
