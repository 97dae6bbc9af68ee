import TeamFlow.Act
import TeamFlow.Form
import TeamFlow.Text.Basic

/-! Chat messages and chat models. The content of a message is a text or a list of blocks, each of
them a text or a mapping. The text of a model's answer is its text, or the texts of its blocks on
lines of their own. A model is asked with messages, the names of tools it may call, further options,
and the form its answer has to have, if any. -/

namespace TeamFlow

namespace Message

def fitBlock : Value → Fit Value
  | .str s => .ok (.str s)
  | .mapping es => .ok (.mapping es)
  | _ => .error [⟨["str"], "string_type"⟩, ⟨["dict[any,any]"], "dict_type"⟩]

def blocksLabel : String := "list[union[str,dict[any,any]]]"

def fitBlocks (vs : List Value) : Fit Value :=
  match FieldType.fitEach fitBlock 0 vs with
  | .ok vs => .ok (.list vs)
  | .error faults => .error (⟨["str"], "string_type"⟩ ::
      faults.map fun f => { f with location := blocksLabel :: f.location })

def fitContent : Value → Fit Value
  | .str s => .ok (.str s)
  | v => match FieldType.listed? v with
    | some vs => fitBlocks vs
    | none => .error [⟨["str"], "string_type"⟩, ⟨[blocksLabel], "list_type"⟩]

/-- What a report shows: texts and mappings as they are, anything else as text. -/
def reportBlock : Value → Value
  | .str s => .str s
  | .mapping es => .mapping es
  | v => .str v.display

def reportContent : Value → Value
  | .str s => .str s
  | .list vs => .list (vs.map reportBlock)
  | .tuple vs => .list (vs.map reportBlock)
  | v => .str v.display

/-- The content of a message of the given role. -/
def fitContentOf (role : Role) (content : Value) : Fit Value :=
  Fit.within ["content"] (fitContent (match role with
    | .tool _ _ => reportContent content
    | _ => content))

def make (role : Role) (content : Value) (name : Option String) : Except Failure Value := do
  return .message ⟨role, ← (fitContentOf role content).toExcept, name⟩

/-! ### Messages of values that may not fit -/

def fitArgs : Value → Fit (List (String × Value))
  | .mapping es => .ok (es.filterMap fun e => e.1.text?.map fun name => (name, e.2))
  | _ => Fit.fault "dict_type"

/-- A text that may be missing. -/
def fitText? : Value → Fit (Option String)
  | .null => .ok none
  | .str s => .ok (some s)
  | _ => Fit.fault "string_type"

def fitName : Value → Fit String
  | .str s => .ok s
  | _ => Fit.fault "string_type"

def fitCall (name args id : Value) : Fit ToolCall :=
  Fit.both (fun (f : Option String → ToolCall) i => f i)
    (Fit.both ToolCallOf.mk (Fit.within ["name"] (fitName name))
      (Fit.within ["args"] (fitArgs args)))
    (Fit.within ["id"] (fitText? id))

/-- Number the calls from a place on. -/
def placeCalls (place : Nat) : List (Fit ToolCall) → Fit (List ToolCall)
  | [] => .ok []
  | c :: cs =>
    Fit.both List.cons (Fit.within ["tool_calls", toString place] c) (placeCalls (place + 1) cs)

/-- A model's answer that asks for tools. -/
def fitCalls (calls : List (Fit ToolCall)) : Fit Role := (placeCalls 0 calls).map .ai

/-- A message, if all of its parts are what they have to be. -/
def compose (role : Fit Role) (content name : Value) : Except Failure Value :=
  let content := match role with
    | .ok r => fitContentOf r content
    | .error _ => fitContentOf (.ai []) content
  (Fit.both (fun (f : Option String → Value) n => f n)
    (Fit.both (fun r c n => .message ⟨r, c, n⟩) role content)
    (Fit.within ["name"] (fitText? name))).toExcept

def human (text : String) : Value := .message ⟨.human, .str text, none⟩

def ofWorker (name text : String) : Value := .message ⟨.human, .str text, some name⟩

def system (text : String) : Value := .message ⟨.system, .str text, none⟩

def report (callId tool text : String) : Value :=
  .message ⟨.tool callId false, .str text, some tool⟩

def failure (callId text : String) : Value := .message ⟨.tool callId true, .str text, none⟩

def blockText? : Value → Option String
  | .str s => some s
  | .mapping es => (Entries.get? es "text").bind Value.text?
  | _ => none

/-- The text of a message with the given content, without blanks around it. -/
def textOf : Value → String
  | .str s => Text.trim s
  | .list blocks => Text.trim (Text.joinLines (blocks.filterMap blockText?))
  | _ => ""

def answerText : Value → Except Failure String
  | .message ⟨.ai _, content, _⟩ => .ok (textOf content)
  | _ => .error (.badRun "Unexpected response type from model.")

def callsOf : Value → List ToolCall
  | .message ⟨.ai calls, _, _⟩ => calls
  | _ => []

end Message

structure Ask where
  messages : List Value
  tools : Option (List String) := none
  options : Entries := []
  form : Option Form := none

/-- A chat model that remembers in `μ`. -/
abbrev ChatModel (μ : Type) := Ask → Act μ Value

end TeamFlow
