import TeamFlow.Value.Basic

/-! Kinds. Every value is of a kind, which is at home somewhere and is based on other kinds. All
kinds that something is of stand in one line: its own first, and each before those that it is based
on. -/

namespace TeamFlow

inductive Kind where
  | at (home name : String) (bases : List Kind)

namespace Kind

def home : Kind → String
  | .at h _ _ => h

def name : Kind → String
  | .at _ n _ => n

def bases : Kind → List Kind
  | .at _ _ bs => bs

def same (a b : Kind) : Bool := a.home == b.home && a.name == b.name

def isBasic (k : Kind) : Bool := k.home == "builtins"

def text (k : Kind) : String :=
  "<class '" ++ (if k.isBasic then k.name else k.home ++ "." ++ k.name) ++ "'>"

/-- Keep the last of kinds that are the same. -/
def distinct : List Kind → List Kind
  | [] => []
  | k :: ks => if ks.any k.same then distinct ks else k :: distinct ks

mutual

/-- All kinds that a kind is of. -/
def line : Kind → List Kind
  | .at h n bs => .at h n bs :: distinct (lines bs)

def lines : List Kind → List Kind
  | [] => []
  | k :: ks => line k ++ lines ks

end

/-- The kind that everything is of. -/
def object : Kind := .at "builtins" "object" []

def basic (name : String) : Kind := .at "builtins" name [object]

def truth : Kind := .at "builtins" "bool" [basic "int"]

def form : Kind := .at "pydantic.main" "BaseModel" [object]

/-- What is only a base for others. -/
def abstract : Kind := .at "abc" "ABC" [object]

/-- Forms that can be stored and loaded again. -/
def loadable : Kind := .at "langchain_core.load.serializable" "Serializable" [form, abstract]

/-- What all messages are based on. -/
def message : Kind := .at "langchain_core.messages.base" "BaseMessage" [loadable]

/-- The reports of tools are based on one more kind. -/
def report : Kind := .at "langchain_core.messages.tool" "ToolOutputMixin" [object]

/-- The kind of the text of a message. -/
def messageText : Kind := .at "langchain_core.messages.base" "TextAccessor" [basic "str"]

/-- Kinds whose values can be changed in place. -/
def isChangeable (k : Kind) : Bool :=
  (k.isBasic && ["list", "dict", "set"].contains k.name) || k.line.any form.same

/-- The kind that a kind itself is of. -/
def ofKind (k : Kind) : Kind :=
  let abstractKind : Kind := .at "abc" "ABCMeta" [basic "type"]
  if k.line.any form.same then
    .at "pydantic._internal._model_construction" "ModelMetaclass" [abstractKind]
  else if k.line.any abstract.same then abstractKind
  else basic "type"

end Kind

namespace Value

def kind (v : Value) : Kind :=
  match v with
  | bool _ => Kind.truth
  | message m =>
    .at ("langchain_core.messages." ++ m.role.label) v.kindName (match m.role with
      | .tool _ _ => [Kind.message, Kind.report]
      | _ => [Kind.message])
  | record form _ =>
    let home := match form with
      | "BrainstormResult" => "agents.workers"
      | "ChatPromptTemplate" => "langchain_core.prompts.chat"
      | _ => "agents.supervisor"
    .at home form [Kind.form]
  | v => Kind.basic v.kindName

end Value

end TeamFlow
