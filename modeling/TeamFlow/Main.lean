import TeamFlow.Console
import TeamFlow.Demo

/-! The command line: the demonstration on the request that the arguments make. The answers of the
models are read from the standard input, and the workspace is the directory that the settings
name. -/

namespace TeamFlow.CommandLine

partial def readLines (input : IO.FS.Stream) : IO (List String) := do
  let line ← input.getLine
  if line.isEmpty then return []
  return String.ofList (line.toList.takeWhile (· != '\n')) :: (← readLines input)

/-- The files below a place, as they are on disk. -/
partial def load (place : Place) (t : FileTree) : IO FileTree := do
  let directory := (← IO.currentDir) / Place.text place
  if !(← directory.isDir) then return t
  let mut tree := t.put place .directory
  for e in ← directory.readDir do
    let here := place ++ [e.fileName]
    if ← e.path.isDir then tree ← load here tree
    else tree := tree.put here (.file (Content.ofBytes (← IO.FS.readBinFile e.path).toList))
  return tree

/-- Write the directory at a place, and the texts below it, to disk. -/
def save (place : Place) (t : FileTree) : IO Unit := do
  if t.isDirectory place then IO.FS.createDirAll (Place.text place)
  for (names, content) in t.filesBelow place do
    match content with
    | .text s => do
      IO.FS.createDirAll (Place.text (place ++ names).dropLast)
      IO.FS.writeFile (Place.text (place ++ names)) s
    | .undecodable _ => pure ()

def run (arguments : List String) : IO UInt32 := do
  let settings : Settings := {
    stepLimit := ← IO.getEnv StepLimit.settingName
    apiKey := ← IO.getEnv "GEMINI_API_KEY"
    workspace := ← IO.getEnv "TEAMGRAPH_WORKSPACE"
    supervisorModel := ← IO.getEnv "SUPERVISOR_MODEL"
    workerModel := ← IO.getEnv "WORKER_MODEL"
    searchModel := ← IO.getEnv "SEARCH_MODEL" }
  let here := Place.follow [] (← IO.currentDir).toString
  let place := settings.workspacePlace here
  let input ← readLines (← IO.getStdin)
  let site : Site Console.Input := ⟨settings, here, ← load place FileTree.empty, input⟩
  let w : Workspace := ⟨place⟩
  match Demo.demonstrate (Console.hierarchy w) w arguments (site, "") with
  | (result, (site, printed)) => do
    IO.print printed
    save place site.files
    match result with
    | .ok code => return code.toUInt32
    | .error why => do
      IO.eprintln (why.name ++ ": " ++ why.message)
      return 1

end TeamFlow.CommandLine

def main (arguments : List String) : IO UInt32 := TeamFlow.CommandLine.run arguments
