import TeamFlow.Chat.Message
import TeamFlow.Table
import TeamFlow.Text.Template
import TeamFlow.Value.Kind
import TeamFlow.Value.Shown

/-! Chat templates. What is put behind a message makes a template of the two: messages, texts with
fields and places for further messages, one after the other. A template lists the fields that its
texts have, in order. -/

namespace TeamFlow.ChatTemplate

/-- One part of a template, with the fields that have to be filled in for it and the places that may
stay empty. -/
structure Part where
  value : Value
  fields : List String
  places : List String

def form : String := "ChatPromptTemplate"

def sorted (names : List String) : List String :=
  names.eraseDups.mergeSort fun a b => decide (a ≤ b)

/-- The name of a field, which no step and no number may follow or stand for. -/
def fieldName (name : List Char) : Except Failure String :=
  let complain (why : String) : Except Failure String :=
    .error (.badValue ("Invalid variable name " ++ Text.quoted (String.ofList name) ++
      " in f-string template. Variable names cannot " ++ why))
  if name.any fun c => c == '.' || c == '[' || c == ']' then
    complain "contain attribute access (.) or indexing ([])."
  else if !name.isEmpty && name.all fun c => (Text.digit? c).isSome then
    complain "be all digits as they are interpreted as positional arguments."
  else .ok (String.ofList name)

def fieldNames (s : String) : Except Failure (List String) := do
  let names ← (Text.pieces s.toList).filterMapM fun
    | .text _ => .ok none
    | .field f => .ok (some f.name)
    | .flaw why => .error (.badValue why)
  let names ← names.mapM fieldName
  if names.contains "stop" then .error (.invalid [⟨[], "value_error"⟩])
  else return sorted names

def textPart (s : String) : Except Failure (Value × List String) := do
  let names ← fieldNames s
  return (.record "PromptTemplate" [("input_variables", Value.ofText names),
    ("input_types", .mapping []), ("partial_variables", .mapping []), ("template", .str s)], names)

def onlyText? : Value → Option String
  | .str s => some s
  | .mapping es =>
    if es.all fun e => e.1.same (.str "text") || e.1.same (.str "type") then
      (Entries.get? es "text").bind Value.text?
    else none
  | _ => none

/-- What somebody says: a text, or several of them. -/
def spoken (speaker : String) (v : Value) : Except Failure Part := do
  let invalid (w : Value) : Except Failure Part := do
    .error (.badValue ("Invalid template: " ++ (← w.shown)))
  let made (prompt : Value) (fields : List String) : Part :=
    ⟨.record (speaker ++ "MessagePromptTemplate")
      [("prompt", prompt), ("additional_kwargs", .mapping [])], fields, []⟩
  match v with
  | .str s => do
    let (prompt, names) ← textPart s
    return made prompt names
  | .list vs =>
    match vs.find? fun w => (onlyText? w).isNone with
    | some w => invalid w
    | none => do
      let parts ← (vs.filterMap onlyText?).mapM textPart
      return made (.list (parts.map Prod.fst)) (parts.flatMap Prod.snd)
  | v => invalid v

/-- A place for messages, of a name in braces; it may stay empty. -/
def place (name : String) : Except Failure Part :=
  let cs := name.toList
  if cs.isEmpty then .error (.plain .index "string index out of range")
  else if cs.head? != some '\x7b' || cs.getLast? != some '\x7d' then
    .error (.badValue ("Invalid placeholder template: " ++ name ++
      ". Expected a variable name surrounded by curly braces."))
  else
    let inner := String.ofList (cs.drop 1).dropLast
    if inner = "stop" then .error (.invalid [⟨[], "value_error"⟩])
    else .ok ⟨.record "MessagesPlaceholder"
      [("variable_name", .str inner), ("optional", .bool true)], [], [inner]⟩

def ofRole (role : String) (v : Value) : Except Failure Part :=
  match role with
  | "human" => spoken "Human" v
  | "user" => spoken "Human" v
  | "ai" => spoken "AI" v
  | "assistant" => spoken "AI" v
  | "system" => spoken "System" v
  | "placeholder" => match v with
    | .str s => place s
    | _ => .error .badType
  | _ => .error (.badValue ("Unexpected message type: " ++ role ++
      ". Use one of 'human', 'user', 'ai', 'assistant', or 'system'."))

/-- A part of a role, which a message may stand for. -/
def ofPair (role v : Value) : Except Failure Part :=
  match role, v with
  | .str role, v => ofRole role v
  | .message m, v => ofRole m.role.label v
  | _, .str s => do
    let _ ← fieldNames s
    .error .badType
  | _, _ => .error .badType

/-- A message, a text, or a role with what it says. -/
def part (v : Value) : Except Failure Part := do
  match v with
  | .message m => return ⟨.message m, [], []⟩
  | .str s => spoken "Human" (.str s)
  | .tuple [role, w] => ofPair role w
  | .tuple vs =>
    .error (.badValue ("Expected 2-tuple of (role, template), got " ++ (← (Value.tuple vs).shown)))
  | .mapping es =>
    match es.length, Entries.get? es "role", Entries.get? es "content" with
    | 2, some role, some w => ofPair role w
    | _, _, _ =>
      .error (.badValue ("Expected dict to have exact keys 'role' and 'content'. Got: " ++
        (← (Value.mapping es).shown)))
  | v => .error (.plain .unsupported ("Unsupported message type: " ++ v.kind.text))

def ofParts (parts : List Part) : Value :=
  .record form [("input_variables", Value.ofText (sorted (parts.flatMap Part.fields))),
    ("input_types", .mapping []),
    ("partial_variables",
      .mapping ((parts.flatMap Part.places).eraseDups.map fun name => (.str name, .list []))),
    ("messages", .list (parts.map Part.value))]

/-- The parts of a template; its fields go with the first of them. -/
def partsOf? : Value → Option (List Part)
  | .message m => some [⟨.message m, [], []⟩]
  | .record name fields =>
    if name = form then
      match Table.row? fields "messages" with
      | some (.list (v :: vs)) =>
        let names := match Table.row? fields "input_variables" with
          | some (.list ns) => ns.filterMap Value.text?
          | _ => []
        let places := match Table.row? fields "partial_variables" with
          | some (.mapping es) => es.filterMap fun e => e.1.text?
          | _ => []
        some (⟨v, names, places⟩ :: vs.map fun w => ⟨w, [], []⟩)
      | _ => none
    else none
  | _ => none

/-- What can be put behind a template, as parts. -/
def following (v : Value) : Except Failure (List Part) :=
  match partsOf? v with
  | some parts => .ok parts
  | none => match v with
    | .str s => do return [← spoken "Human" (.str s)]
    | .list vs => vs.mapM part
    | .tuple vs => vs.mapM part
    | v => .error (.plain .unsupported ("Unsupported operand type for +: " ++ v.kind.text))

/-- The sum of a message or template and what is put behind it. -/
def sum? (old new : Value) : Option (Except Failure Value) :=
  (partsOf? old).map fun parts => do return ofParts (parts ++ (← following new))

/-- A part as an answer shows it: of messages what all of them have, of other parts nothing. -/
def shownPart : Value → Value
  | .message m => .mapping (Entries.ofFields ((Value.messageFields m).take 6))
  | _ => .mapping []

/-- The fields of a record as an answer shows them. -/
def shownFields (name : String) (fields : List (String × Value)) : List (String × Value) :=
  let field (f : String) : Value := (Table.row? fields f).getD .null
  if name = form then
    let places := match field "partial_variables" with
      | .mapping es => es.filterMap fun e => e.1.text?
      | _ => []
    let parts := match field "messages" with
      | .list vs => vs.map shownPart
      | _ => []
    [("name", .null), ("input_variables", field "input_variables"),
      ("optional_variables", Value.ofText (sorted places)), ("output_parser", .null),
      ("partial_variables", field "partial_variables"), ("metadata", .null), ("tags", .null),
      ("messages", .list parts), ("validate_template", .bool false)]
  else fields

end TeamFlow.ChatTemplate
