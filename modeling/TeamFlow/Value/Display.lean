import TeamFlow.Number.Shortest
import TeamFlow.Text.Quoted
import TeamFlow.Value.Basic

/-! The text of values. `literal` is the exact form used inside collections and reports, in which
text is quoted; `display` differs only in that a text stands for itself and a message or record is
written without its name. -/

namespace TeamFlow.Value

def commas (parts : List String) : String := String.intercalate ", " parts

def callOpen (name : String) (parts : List String) : String := name ++ "(" ++ commas parts ++ ")"

def braced (parts : List String) : String := "\x7b" ++ commas parts ++ "\x7d"

/-- A text in quotes, if there is one. -/
def quotedOr (s : Option String) : String :=
  match s with
  | some s => Text.quoted s
  | none => "None"

def namedText (name : Option String) : List String :=
  match name with
  | some n => ["name=" ++ Text.quoted n]
  | none => []

mutual

def literal : Value → String
  | null => "None"
  | bool b => if b then "True" else "False"
  | int n => toString n
  | float x => x.text
  | str s => Text.quoted s
  | list xs => "[" ++ commas (literals xs) ++ "]"
  | tuple [x] => "(" ++ literal x ++ ",)"
  | tuple xs => "(" ++ commas (literals xs) ++ ")"
  | set _ [] => "set()"
  | set _ xs => braced (literals xs)
  | mapping es => braced (entryLiterals es)
  | message m => callOpen (kindName (.message m)) (messageParts m)
  | record form fs => callOpen form (fieldLiterals "=" fs)

def literals : List Value → List String
  | [] => []
  | x :: xs => literal x :: literals xs

def entryLiterals : List (Value × Value) → List String
  | [] => []
  | (k, v) :: es => (literal k ++ ": " ++ literal v) :: entryLiterals es

def fieldLiterals (mark : String) : List (String × Value) → List String
  | [] => []
  | (k, v) :: fs => (k ++ mark ++ literal v) :: fieldLiterals mark fs

def argLiterals : List (String × Value) → List String
  | [] => []
  | (k, v) :: fs => (Text.quoted k ++ ": " ++ literal v) :: argLiterals fs

def messageParts : MessageOf Value → List String
  | ⟨.tool callId failed, content, name⟩ =>
    ("content=" ++ literal content) :: namedText name ++
      ["tool_call_id=" ++ Text.quoted callId] ++ (if failed then ["status='error'"] else [])
  | ⟨role, content, name⟩ =>
    ("content=" ++ literal content) ::
      ("additional_kwargs=" ++ braced []) :: ("response_metadata=" ++ braced []) ::
      namedText name ++ roleParts role

def roleParts : RoleOf Value → List String
  | .ai calls => ["tool_calls=[" ++ commas (callLiterals calls) ++ "]", "invalid_tool_calls=[]"]
  | _ => []

def callLiterals : List (ToolCallOf Value) → List String
  | [] => []
  | ⟨name, args, id⟩ :: calls =>
    braced ["'name': " ++ Text.quoted name, "'args': " ++ braced (argLiterals args),
      "'id': " ++ quotedOr id, "'type': 'tool_call'"] :: callLiterals calls

end

def display : Value → String
  | str s => s
  | message m => String.intercalate " " (messageParts m)
  | record _ fs => String.intercalate " " (fieldLiterals "=" fs)
  | v => literal v

def asciiOnly (s : String) : String :=
  String.ofList (s.toList.flatMap fun c =>
    if c.toNat < 0x80 then [c] else Text.hexEscape c)

end TeamFlow.Value
