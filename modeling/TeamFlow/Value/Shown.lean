import TeamFlow.Failure
import TeamFlow.Text.Digit

/-! Showing values where that can fail: numbers that are too long are not written. Leaves are what a
value is made of at the bottom, from left to right: numbers, texts and what is nothing. The names in
messages and records are not among them. -/

namespace TeamFlow.Value

mutual

def leaves : Value → List Value
  | list xs => allLeaves xs
  | tuple xs => allLeaves xs
  | set _ xs => allLeaves xs
  | mapping es => entryLeaves es
  | message m => messageLeaves m
  | record _ fs => fieldLeaves fs
  | v => [v]

def allLeaves : List Value → List Value
  | [] => []
  | x :: xs => leaves x ++ allLeaves xs

def entryLeaves : List (Value × Value) → List Value
  | [] => []
  | (k, v) :: es => leaves k ++ leaves v ++ entryLeaves es

def fieldLeaves : List (String × Value) → List Value
  | [] => []
  | (_, v) :: fs => leaves v ++ fieldLeaves fs

def messageLeaves : MessageOf Value → List Value
  | ⟨role, content, _⟩ => roleLeaves role ++ leaves content

def roleLeaves : RoleOf Value → List Value
  | .ai calls => callLeaves calls
  | _ => []

def callLeaves : List (ToolCallOf Value) → List Value
  | [] => []
  | ⟨_, args, _⟩ :: calls => fieldLeaves args ++ callLeaves calls

end

/-- The floating-point values in a value. -/
def doubles (v : Value) : List Double :=
  v.leaves.filterMap fun
    | float x => some x
    | _ => none

def isWritable (v : Value) : Bool :=
  v.leaves.all fun
    | int n => Text.isWritable n
    | _ => true

theorem isWritable_int (n : Int) : (int n).isWritable = Text.isWritable n := by
  simp [isWritable, leaves]

/-- The text, unless a number in the value is too long. -/
def unlessLong (v : Value) (text : Value → String) : Except Failure String :=
  if v.isWritable then .ok (text v) else .error (.badValue Text.notWritable)

def written (v : Value) : Except Failure String := v.unlessLong literal

/-- The form in which a text stands for itself. -/
def shown (v : Value) : Except Failure String := v.unlessLong display

theorem written_eq (v : Value) : v.written =
    if v.isWritable then .ok v.literal else .error (.badValue Text.notWritable) := rfl

theorem written_of_isWritable {v : Value} (h : v.isWritable = true) : v.written = .ok v.literal :=
  if_pos h

theorem written_of_not_isWritable {v : Value} (h : v.isWritable = false) :
    v.written = .error (.badValue Text.notWritable) := by
  rw [written_eq, h]
  rfl

def allShown (vs : List Value) : Except Failure (List String) := vs.mapM shown

end TeamFlow.Value

namespace TeamFlow.Failure

/-- Whether the text of a failure can be written; that of a missing key is the exact form of the
key. -/
def isWritable : Failure → Bool
  | missingKey key => key.isWritable
  | _ => true

def written (f : Failure) : Except Failure String :=
  if f.isWritable then .ok f.message else .error (.badValue Text.notWritable)

/-- A run error whose wording needs a text, if that text can be written. -/
def ifWritable (writable : Bool) (e : RunError) : Failure :=
  if writable then .run e else .badValue Text.notWritable

end TeamFlow.Failure
