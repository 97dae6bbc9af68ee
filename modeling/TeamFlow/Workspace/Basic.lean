import TeamFlow.Text.Basic
import TeamFlow.Value.Shown
import TeamFlow.Workspace.FileTree

/-! Workspaces. A workspace is a directory in which documents are written and read. A file name is
followed from the directory and has to lead back into it.

Documents are lists of lines. Reading takes a range of the lines; inserting puts texts at line
numbers counted from 1, the lowest number first, and gives up at the first number out of range. -/

namespace TeamFlow

namespace Document

/-- An offset within `size` lines: below zero it counts from the end, and it never leaves the
lines. -/
def clamp (size : Nat) (offset : Int) : Nat :=
  if offset < 0 then (offset + size).toNat else min offset.toNat size

/-- The lines between two offsets; without them, from the first line on and to the last. -/
def range (lines : List String) (first last : Option Int) : List String :=
  let low := clamp lines.length (first.getD 0)
  let high := (last.map (clamp lines.length)).getD lines.length
  (lines.take high).drop low

def insertAt (lines : List String) (number : Int) (text : String) : Except Int (List String) :=
  if number < 1 ∨ (lines.length : Int) + 1 < number then .error number
  else .ok (lines.take (number - 1).toNat ++ text :: lines.drop (number - 1).toNat)

/-- Insert texts in the given order; the number that is out of range, if one is. -/
def insertInOrder (lines : List String) : List (Int × String) → Except Int (List String)
  | [] => .ok lines
  | (number, text) :: rest => do insertInOrder (← insertAt lines number text) rest

def inOrder (inserts : List (Int × String)) : List (Int × String) :=
  inserts.mergeSort fun a b => decide (a.1 ≤ b.1)

def insertAll (lines : List String) (inserts : List (Int × String)) : Except Int (List String) :=
  insertInOrder lines (inOrder inserts)

/-- Points as numbered lines, from `number` on. -/
def numberedFrom (number : Nat) : List String → List String
  | [] => []
  | point :: points => s!"{number}. {point}" :: numberedFrom (number + 1) points

end Document

/-- A workspace, by the steps that lead to its directory. -/
structure Workspace where
  steps : List String

namespace Workspace

def ofPath (here : Place) (path : String) : Workspace := ⟨Place.extend here path⟩

def root (w : Workspace) : Place := Place.walk [] w.steps

def path (w : Workspace) : String := Place.text w.steps

def nullByte : Failure := .badValue "embedded null byte"

/-- Where a file name leads; names that lead out of the workspace are refused. -/
def locate (w : Workspace) (fileName : String) : Except Failure Place :=
  if !Place.isSound w.steps || fileName.toList.contains '\x00' then .error nullByte
  else
    let place := w.root.follow fileName
    if w.root.covers place then .ok place
    else .error (.badValue
      ("File name " ++ Text.quoted fileName ++ " points outside the workspace"))

def reported {α : Type} (path : String) (r : Except FileFault α) : Except Failure α :=
  match r with
  | .ok a => .ok a
  | .error f => .error (f.atPath path)

def ensure (w : Workspace) : Act FileTree Unit := fun t =>
  if !Place.isSound w.steps then (.error nullByte, t)
  else match t.makeDirectories w.steps.reverse with
  | (.ok (), t) => (.ok (), t)
  | (.error (f, steps), t) => (.error (f.atPath (Place.text steps)), t)

/-- The sorted names of the files in the directory; none if there is no directory. -/
def listFiles (w : Workspace) : Act FileTree (List String) := fun t =>
  if !Place.isSound w.steps then (.ok [], t)
  else match t.look w.steps with
  | .ok .directory => (.ok (t.fileNames w.root), t)
  | .ok (.file _) => (.error (FileFault.notDirectory.atPath w.path), t)
  | .error .nameTooLong => (.error (FileFault.nameTooLong.atPath w.path), t)
  | .error _ => (.ok [], t)

def listing (files : List String) : String :=
  match files with
  | [] => "No files written."
  | _ => "\nBelow are files your team has written to the directory:\n" ++
    Text.joinLines (files.map (" - " ++ ·))

def describeFiles (w : Workspace) : Act FileTree String := do
  return listing (← w.listFiles)

def store (w : Workspace) (fileName text : String) : Act FileTree Unit := do
  let place ← w.locate fileName
  let t ← Act.get
  let t ← reported (Place.text place) (t.write place (.text text))
  Act.modify fun _ => t

def fetch (w : Workspace) (fileName : String) : Act FileTree String := do
  let place ← w.locate fileName
  let t ← Act.get
  match ← reported (Place.text place) (t.read place) with
  | .text s => return Text.lineFeeds s
  | .undecodable _ => Act.fail (.unworded .undecodable)

def writeDocument (w : Workspace) (content fileName : String) : Act FileTree String := do
  w.ensure
  w.store fileName content
  return "Document saved to " ++ fileName

def readDocument (w : Workspace) (fileName : String) (first last : Option Int) :
    Act FileTree String := do
  let text ← w.fetch fileName
  return Text.joinLines (Document.range (Text.lines text) first last)

/-- What is said of a line number that is out of range; the number has to be written for it. -/
def outOfRange (number : Int) : Except Failure String := do
  return "Error: Line number " ++ (← (Value.int number).written) ++ " is out of range."

def editDocument (w : Workspace) (fileName : String) (inserts : List (Int × String)) :
    Act FileTree String := do
  let text ← w.fetch fileName
  match Document.insertAll (Text.lines text) inserts with
  | .error number => Act.ofExcept (outOfRange number)
  | .ok lines => do
    w.store fileName (Text.joinLines lines)
    return "Document edited and saved to " ++ fileName

def createOutline (w : Workspace) (points : List String) (fileName : String) :
    Act FileTree String := do
  w.ensure
  w.store fileName (Text.joinLines (Document.numberedFrom 1 points))
  return "Outline saved to " ++ fileName

end Workspace

end TeamFlow
