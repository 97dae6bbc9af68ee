import TeamFlow.Number.Double

/-! Values. A state maps channel names to values of any shape, collaborators answer with values of
any shape, and mappings keep their entries in the order in which keys were first added. -/

namespace TeamFlow

/-- A request of a chat model to run a tool. -/
structure ToolCallOf (V : Type) where
  name : String
  args : List (String × V)
  id : Option String

/-- Who speaks: a model's answer may ask for tools, a tool's report says which call it answers. -/
inductive RoleOf (V : Type) where
  | human
  | system
  | ai (calls : List (ToolCallOf V))
  | tool (callId : String) (failed : Bool)

/-- A chat message; its content is text or a list of blocks. -/
structure MessageOf (V : Type) where
  role : RoleOf V
  content : V
  name : Option String

/-- How the members of a set sit: the size of a ring of seats and, member by member, the seat that
it takes. In a ring of no size the members stand in the order in which they came. -/
structure Ring where
  size : Nat
  seats : List Nat
deriving DecidableEq

inductive Value where
  | null
  | bool (b : Bool)
  | int (n : Int)
  | float (x : Double)
  | str (s : String)
  | list (items : List Value)
  | tuple (items : List Value)
  | set (ring : Ring) (items : List Value)
  | mapping (entries : List (Value × Value))
  | message (m : MessageOf Value)
  | record (form : String) (fields : List (String × Value))

abbrev ToolCall := ToolCallOf Value
abbrev Role := RoleOf Value
abbrev Message := MessageOf Value

instance : Inhabited Value := ⟨.null⟩

/-- The name of a role as it is written in a transcript. -/
def RoleOf.label {V : Type} : RoleOf V → String
  | .human => "human"
  | .system => "system"
  | .ai _ => "ai"
  | .tool _ _ => "tool"

namespace Value

/-- The name of the kind of a value, as reports on unexpected values give it. -/
def kindName : Value → String
  | null => "NoneType"
  | bool _ => "bool"
  | int _ => "int"
  | float _ => "float"
  | str _ => "str"
  | list _ => "list"
  | tuple _ => "tuple"
  | set _ _ => "set"
  | mapping _ => "dict"
  | message m => match m.role with
    | .human => "HumanMessage"
    | .system => "SystemMessage"
    | .ai _ => "AIMessage"
    | .tool _ _ => "ToolMessage"
  | record form _ => form

/-- Whether a value counts as present: zeros, empty collections and empty text do not. -/
def isTruthy : Value → Bool
  | null => false
  | bool b => b
  | int n => n != 0
  | float x => !x.isZero
  | str s => !s.isEmpty
  | list xs => !xs.isEmpty
  | tuple xs => !xs.isEmpty
  | set _ xs => !xs.isEmpty
  | mapping es => !es.isEmpty
  | message _ => true
  | record _ _ => true

/-- The value itself when it is present, else the other one. -/
def orElse (v other : Value) : Value := if v.isTruthy then v else other

def text? : Value → Option String
  | str s => some s
  | _ => none

/-- Booleans count as the numbers 0 and 1. -/
def ofFlag (b : Bool) : Int := if b then 1 else 0

def ofText (ss : List String) : Value := list (ss.map str)

def ofText? (s : Option String) : Value :=
  match s with
  | some s => str s
  | none => null

end Value

end TeamFlow
