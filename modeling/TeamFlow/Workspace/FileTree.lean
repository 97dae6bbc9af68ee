import TeamFlow.Act
import TeamFlow.Workspace.Content
import TeamFlow.Workspace.Place

/-! Trees of files. A tree says which places hold a directory or a file; the top is always a
directory. Reaching a place takes a directory at each place above it. -/

namespace TeamFlow

inductive FileNode where
  | directory
  | file (content : Content)

structure FileTree where
  nodes : List (Place × FileNode)

/-- Why a place cannot be used. -/
inductive FileFault where
  | notFound | present | notDirectory | isDirectory | nameTooLong
deriving DecidableEq

namespace FileFault

def kind : FileFault → FaultKind
  | notFound => .notFound
  | present => .present
  | notDirectory => .notDirectory
  | isDirectory => .isDirectory
  | nameTooLong => .system

def number : FileFault → Nat
  | notFound => 2
  | present => 17
  | notDirectory => 20
  | isDirectory => 21
  | nameTooLong => 36

def words : FileFault → String
  | notFound => "No such file or directory"
  | present => "File exists"
  | notDirectory => "Not a directory"
  | isDirectory => "Is a directory"
  | nameTooLong => "File name too long"

/-- The failure that reports a fault at a path. -/
def atPath (fault : FileFault) (path : String) : Failure :=
  .plain fault.kind (s!"[Errno {fault.number}] " ++ fault.words ++ ": " ++ Text.quoted path)

end FileFault

namespace FileTree

def empty : FileTree := ⟨[]⟩

def node? (t : FileTree) : Place → Option FileNode
  | [] => some .directory
  | place => (t.nodes.find? fun n => n.1 == place).map Prod.snd

def put (t : FileTree) (place : Place) (node : FileNode) : FileTree :=
  ⟨t.nodes.filter (fun n => n.1 != place) ++ [(place, node)]⟩

/-- A tree with nothing but a directory and those above it. -/
def ofDirectory (place : Place) : FileTree :=
  ⟨(List.range place.length).map fun n => (place.take (n + 1), .directory)⟩

/-- The greatest number of bytes in a name. -/
def longestName : Nat := 255

/-- Walk from a directory along names, each of which has to lead to a directory. -/
def enter (t : FileTree) (here : Place) : List String → Except FileFault Place
  | [] => .ok here
  | name :: rest =>
    if name = ".." then t.enter here.dropLast rest
    else if longestName < name.utf8ByteSize then .error .nameTooLong
    else match t.node? (here ++ [name]) with
      | some .directory => t.enter (here ++ [name]) rest
      | some (.file _) => .error .notDirectory
      | none => .error .notFound

/-- A path has fewer bytes than this. -/
def pathBytes : Nat := 4096

/-- The place that the last of some steps leads to, once the others have led to a directory. -/
def reach (t : FileTree) (steps : List String) : Except FileFault Place := do
  if pathBytes ≤ (Place.text steps).utf8ByteSize then throw .nameTooLong
  let here ← t.enter [] steps.dropLast
  match steps.getLast? with
  | none => .ok here
  | some name =>
    if name ≠ ".." ∧ longestName < name.utf8ByteSize then .error .nameTooLong
    else .ok (here.step name)

/-- What the steps lead to. -/
def look (t : FileTree) (steps : List String) : Except FileFault FileNode := do
  match t.node? (← t.reach steps) with
  | some n => .ok n
  | none => .error .notFound

def isDirectory (t : FileTree) (steps : List String) : Bool :=
  match t.look steps with
  | .ok .directory => true
  | _ => false

def read (t : FileTree) (place : Place) : Except FileFault Content := do
  match ← t.look place with
  | .file c => .ok c
  | .directory => .error .isDirectory

def write (t : FileTree) (steps : List String) (c : Content) : Except FileFault FileTree := do
  let place ← t.reach steps
  match t.node? place with
  | some .directory => .error .isDirectory
  | _ => .ok (t.put place (.file c))

def makeDirectory (t : FileTree) (steps : List String) : Except FileFault FileTree := do
  let place ← t.reach steps
  match t.node? place with
  | some _ => .error .present
  | none => .ok (t.put place .directory)

/-- Make a directory and those that it needs above it, nearest first; the steps are given in
reverse. A directory that is there already will do. Those made before a fault remain, and the fault
comes with the steps to where it arose. -/
def makeDirectories : List String → FileTree → Except (FileFault × List String) Unit × FileTree
  | [], t => (.ok (), t)
  | name :: above, t =>
    let steps := (name :: above).reverse
    let settle (t : FileTree) : Except (FileFault × List String) Unit × FileTree :=
      match t.makeDirectory steps with
      | .ok t => (.ok (), t)
      | .error f => (if t.isDirectory steps then .ok () else .error (f, steps), t)
    match t.makeDirectory steps with
    | .error .notFound => match makeDirectories above t with
      | (.ok (), t) => settle t
      | (.error f, t) => (.error f, t)
    | _ => settle t

/-- Make a directory where nothing is, and those above it that are missing. -/
def makePath (steps : List String) (t : FileTree) :
    Except (FileFault × List String) Unit × FileTree :=
  let once (t : FileTree) : Except (FileFault × List String) Unit × FileTree :=
    match t.makeDirectory steps with
    | .ok t => (.ok (), t)
    | .error f => (.error (f, steps), t)
  match t.makeDirectory steps with
  | .error .notFound => match makeDirectories steps.dropLast.reverse t with
    | (.ok (), t) => once t
    | (.error f, t) => (.error f, t)
  | _ => once t

/-- The files below a place, with their names relative to it, in the order of their names. -/
def filesBelow (t : FileTree) (root : Place) : List (Place × Content) :=
  let found := t.nodes.filterMap fun (place, node) => match node with
    | .file c => if root.covers place then some (place.drop root.length, c) else none
    | .directory => none
  found.mergeSort fun a b => a.1.precedes b.1

def fileNames (t : FileTree) (directory : Place) : List String :=
  (t.filesBelow directory).filterMap fun (place, _) => match place with
    | [name] => some name
    | _ => none

end FileTree

end TeamFlow
