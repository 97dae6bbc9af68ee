import TeamFlow.Chat.Message
import TeamFlow.Team.Oracle
import TeamFlow.Value.Members
import TeamFlow.Value.Shown

/-! Expressions. What a scripted collaborator answers is written down as an expression, which may
read what the collaborator is given, most often a state. -/

namespace TeamFlow.Rehearsal

inductive Expr where
  | value (v : Value)
  | list (items : List Expr)
  | tuple (items : List Expr)
  | set (items : List Expr)
  | mapping (entries : List (Expr × Expr))
  | message (role : Fit Role) (content : Expr) (name : Value)
  | decision (fields : List (String × Expr))
  | need (key : Value)
  | peek (key : Value)
  | length (key : Value)
  | last (key : Value)
  | joined (parts : List Expr)

namespace Expr

mutual

def eval (given : Value) : Expr → Except Failure Value
  | value v => .ok v
  | list es => do return .list (← evalAll given es)
  | tuple es => do return .tuple (← evalAll given es)
  | set es => do return Value.setOf (← evalMembers given es)
  | mapping es => do return .mapping (Entries.ofPairs (← evalEntries given es))
  | message role content name => do Message.compose role (← eval given content) name
  | decision fields => do Route.decision.fill (← evalFields given fields)
  | need key => given.under key
  | peek key => given.under? key
  | length key => do return .int (← (← given.under key).length)
  | last key => do (← given.under key).last
  | joined parts => do return .str (String.join (← Value.allShown (← evalAll given parts)))

def evalAll (given : Value) : List Expr → Except Failure (List Value)
  | [] => .ok []
  | e :: es => do
    let v ← eval given e
    return v :: (← evalAll given es)

def evalMembers (given : Value) : List Expr → Except Failure (List Value)
  | [] => .ok []
  | e :: es => do
    let v ← (← eval given e).hashed
    return v :: (← evalMembers given es)

def evalEntries (given : Value) : List (Expr × Expr) → Except Failure (List (Value × Value))
  | [] => .ok []
  | (k, e) :: es => do
    let key ← eval given k
    let v ← eval given e
    return (← key.hashed, v) :: (← evalEntries given es)

def evalFields (given : Value) : List (String × Expr) → Except Failure Entries
  | [] => .ok []
  | (name, e) :: es => do
    let v ← eval given e
    return (.str name, v) :: (← evalFields given es)

end

/-- The value of an expression that is given nothing to read. -/
def alone (e : Expr) : Except Failure Value := e.eval (.mapping [])

end Expr

end TeamFlow.Rehearsal
