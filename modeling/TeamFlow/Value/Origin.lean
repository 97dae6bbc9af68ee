import TeamFlow.Value.Mapping
import TeamFlow.Value.Shown

/-! Origins. Values that are not numbers are told apart by where they come from. Whatever a
collaborator answers comes from its answer, except for what it found in the state that it read. -/

namespace TeamFlow.Value

mutual

/-- Change the floating-point values in a value. -/
def mapDoubles (f : Double → Double) : Value → Value
  | float x => float (f x)
  | list xs => list (mapAll f xs)
  | tuple xs => tuple (mapAll f xs)
  | set ring xs => set ring (mapAll f xs)
  | mapping es => mapping (mapEntries f es)
  | message m => message (mapMessage f m)
  | record form fs => record form (mapFields f fs)
  | v => v

def mapAll (f : Double → Double) : List Value → List Value
  | [] => []
  | x :: xs => mapDoubles f x :: mapAll f xs

def mapEntries (f : Double → Double) : List (Value × Value) → List (Value × Value)
  | [] => []
  | (k, v) :: es => (mapDoubles f k, mapDoubles f v) :: mapEntries f es

def mapFields (f : Double → Double) : List (String × Value) → List (String × Value)
  | [] => []
  | (name, v) :: fs => (name, mapDoubles f v) :: mapFields f fs

def mapMessage (f : Double → Double) : MessageOf Value → MessageOf Value
  | ⟨role, content, name⟩ => ⟨mapRole f role, mapDoubles f content, name⟩

def mapRole (f : Double → Double) : RoleOf Value → RoleOf Value
  | .human => .human
  | .system => .system
  | .ai calls => .ai (mapCalls f calls)
  | .tool callId failed => .tool callId failed

def mapCalls (f : Double → Double) : List (ToolCallOf Value) → List (ToolCallOf Value)
  | [] => []
  | ⟨name, args, id⟩ :: calls => ⟨name, mapFields f args, id⟩ :: mapCalls f calls

end

/-- The value as one that comes from the source of a number, except for what is known already. -/
def comingFrom (source : Nat) (known : List Double) (v : Value) : Value :=
  v.mapDoubles fun x => if known.any x.sameOrigin then x else x.comingFrom source

end TeamFlow.Value
