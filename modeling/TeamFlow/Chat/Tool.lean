import TeamFlow.Chat.Message
import TeamFlow.Table
import TeamFlow.Value.Shown
import TeamFlow.Workspace.Basic

/-! Tools. A tool takes arguments of a form and acts on files. What becomes of a call is told to the
model that asked for it in a report with the call's own id, unless the failure of the call cannot be
put into words. -/

namespace TeamFlow

structure Tool where
  form : Form
  run : Table Value → Act FileTree String

namespace Tool

def name (t : Tool) : String := t.form.name

def invoke (t : Tool) (args : Entries) : Act FileTree String := do
  let args ← Act.ofExcept (t.form.fields? args).toExcept
  t.run args

/-- The tool of a name; of several, the last. -/
def find? (tools : List Tool) (name : String) : Option Tool :=
  tools.reverse.find? fun t => t.name == name

/-- A report needs an id to refer to. -/
def idMissing : Failure := .invalid [⟨["tool_call_id"], "string_type"⟩]

/-- What comes back from a call that went well; without an id it is the bare text. -/
def accepted (t : Tool) (id : Option String) (text : String) : Value :=
  match id with
  | some id => Message.report id t.name text
  | none => .str text

def refused (id : Option String) (text : String) : Except Failure Value :=
  match id with
  | some id => .ok (Message.failure id text)
  | none => .error idMissing

/-- Run a call and report. -/
def answer (tools : List Tool) (call : ToolCall) : Act FileTree Value := do
  match find? tools call.name with
  | none => refused call.id ("Error: unknown tool " ++ Text.quoted call.name)
  | some t => match ← (t.invoke (Entries.ofFields call.args)).attempt with
    | .ok text => return t.accepted call.id text
    | .error why => refused call.id ("Error: " ++ (← why.written))

def answers (tools : List Tool) : List ToolCall → Act FileTree (List Value)
  | [] => pure []
  | call :: calls => do
    let first ← answer tools call
    let rest ← answers tools calls
    return first :: rest

/-! ### Invoking a tool with any value -/

/-- The id that a value stands for: a text, a number in text, or none. -/
def idOf : Value → Except Failure (Option String)
  | .null => .ok none
  | .str s => .ok (some s)
  | v => if v.number?.isSome then .ok (some v.literal) else .error idMissing

/-- The arguments of a call that is written as a mapping. -/
def callArgs : Value → Except Failure Entries
  | .mapping es => .ok es
  | .list _ => .error notFields
  | .set _ _ => .error notFields
  | .message _ => .error notFields
  | .record _ _ => .error notFields
  | _ => .error .noAttribute
where
  notFields : Failure := .invalid [⟨[], "model_type"⟩]

/-- An entry that a mapping must have. -/
def entry (es : Entries) (name : String) : Except Failure Value :=
  match es.get? name with
  | some v => .ok v
  | none => .error (.missingKey (.str name))

def isCall (es : Entries) : Bool := (es.get? "type").any fun v => v.same (.str "tool_call")

/-- Invoke with a call, with arguments by name, or with a text for the first argument. -/
def invokeWith (t : Tool) : Value → Act FileTree Value
  | .mapping es =>
    if isCall es then do
      let id ← entry es "id"
      let text ← t.invoke (← callArgs (← entry es "args"))
      return t.accepted (← idOf id) text
    else do return .str (← t.invoke es)
  | .str s => do
    return .str (← t.invoke ((t.form.fields.take 1).map fun f => (.str f.name, .str s)))
  | _ => Act.fail callArgs.notFields

end Tool

namespace Argument

def text (args : Table Value) (name : String) : String :=
  ((Table.row? args name).bind Value.text?).getD ""

def integer? (args : Table Value) (name : String) : Option Int :=
  match Table.row? args name with
  | some (.int n) => some n
  | _ => none

def texts (args : Table Value) (name : String) : List String :=
  match Table.row? args name with
  | some (.list vs) => vs.filterMap Value.text?
  | _ => []

def numberedText? : Value × Value → Option (Int × String)
  | (.int n, .str s) => some (n, s)
  | _ => none

def textsByNumber (args : Table Value) (name : String) : List (Int × String) :=
  match Table.row? args name with
  | some (.mapping es) => es.filterMap numberedText?
  | _ => []

end Argument

namespace Workspace

def writeTool (w : Workspace) : Tool where
  form := ⟨"write_document", [
    { name := "content", type := .text }, { name := "file_name", type := .text }]⟩
  run args := w.writeDocument (Argument.text args "content") (Argument.text args "file_name")

def readTool (w : Workspace) : Tool where
  form := ⟨"read_document", [
    { name := "file_name", type := .text },
    { name := "start", type := .optional .integer, default := some .null },
    { name := "end", type := .optional .integer, default := some .null }]⟩
  run args := w.readDocument (Argument.text args "file_name")
    (Argument.integer? args "start") (Argument.integer? args "end")

def editTool (w : Workspace) : Tool where
  form := ⟨"edit_document", [
    { name := "file_name", type := .text }, { name := "inserts", type := .textsByNumber }]⟩
  run args :=
    w.editDocument (Argument.text args "file_name") (Argument.textsByNumber args "inserts")

def outlineTool (w : Workspace) : Tool where
  form := ⟨"create_outline", [
    { name := "points", type := .texts }, { name := "file_name", type := .text }]⟩
  run args := w.createOutline (Argument.texts args "points") (Argument.text args "file_name")

def tools (w : Workspace) : List Tool := [w.writeTool, w.readTool, w.editTool, w.outlineTool]

end Workspace

end TeamFlow
