import TeamFlow.Value.Block

/-! The blocks of a message in one form. Each form is tried in turn on all blocks. A block that is
in none of them and whose type is not known stands in a wrapper, and every form looks into wrappers
once. -/

namespace TeamFlow.Block

/-- The first form that a block is in. -/
def firstOf (f g : Form) : Form := fun es => do
  match ← f es with
  | some made => return some made
  | none => g es

/-- What a block holds if it is a wrapper, else the block. -/
def unwrapped (es : Entries) : Except Failure Value :=
  if hasType es "non_standard" then need es "value" else .ok (.mapping es)

/-- Try a form on a block out of its wrapper. -/
def tried (form : Form) : Value → Except Failure Entries
  | .mapping es => do
    match ← form es with
    | some made => return made
    | none => settled es
  | _ => .error .noAttribute

def pass (form : Form) (blocks : List Entries) : Except Failure (List Entries) := do
  (← blocks.mapM unwrapped).mapM (tried form)

/-- A block as it stands in a message. One that names a source is looked at again. -/
def ofContent : Value → Except Failure Entries
  | .mapping es => do
    let block ← settled es
    return if Entries.has es (.str "source_type") && !hasType block "non_standard" then wrapped es
      else block
  | v => .ok (text v)

/-- The blocks of a message, in one form. -/
def ofMessage (content : Value) : Except Failure (List Entries) := do
  let given : List Value := match content with
    | .str s => if s.isEmpty then [] else [.str s]
    | .list vs => vs
    | _ => []
  let forms : List Form := [sourced, nested, withSource, firstOf single active, single]
  forms.foldlM (fun blocks form => pass form blocks) (← given.mapM ofContent)

/-- A tool call as a block; one without an id is none. -/
def ofCall? (c : ToolCall) : Option Entries :=
  match c.id with
  | some id =>
    if id.isEmpty then none
    else some (typed "tool_call" [textField "id" id, textField "name" c.name,
      field "args" (.mapping (Entries.ofFields c.args))])
  | none => none

def callIds (content : Value) : Except Failure (List Value) :=
  match content with
  | .list vs => vs.filterMapM fun
    | .mapping es =>
      if hasType es "tool_call" then do return some (← ((Entries.get? es "id").getD .null).hashed)
      else .ok none
    | _ => .ok none
  | _ => .ok []

/-- The blocks of a message: those of its content, then the tool calls that are not among them. -/
def all (m : Message) : Except Failure (List Entries) := do
  let blocks ← ofMessage m.content
  match m.role with
  | .ai [] => return blocks
  | .ai calls =>
    let known ← callIds m.content
    let calls := calls.filter fun (c : ToolCall) => !(Value.ofText? c.id).isAmong known
    return blocks ++ calls.filterMap ofCall?
  | _ => return blocks

end TeamFlow.Block
