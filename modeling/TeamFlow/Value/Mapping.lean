import TeamFlow.Value.Equality

/-! Entries of mappings and members of sets. An entry is found by an equal key; adding an entry
whose key is there already keeps the first key and its place and takes the new value. -/

namespace TeamFlow

abbrev Entries := List (Value × Value)

namespace Entries

def find? (es : Entries) (key : Value) : Option Value :=
  (List.find? (fun e => e.1.alike key) es).map Prod.snd

def has (es : Entries) (key : Value) : Bool := es.any fun e => e.1.alike key

def insert : Entries → Value → Value → Entries
  | [], key, v => [(key, v)]
  | (k, w) :: es, key, v => if k.alike key then (k, v) :: es else (k, w) :: insert es key v

/-- Add entries one after the other. -/
def ofPairs (pairs : List (Value × Value)) : Entries :=
  pairs.foldl (fun es e => es.insert e.1 e.2) []

def get? (es : Entries) (name : String) : Option Value := es.find? (.str name)

def put (es : Entries) (name : String) (v : Value) : Entries := es.insert (.str name) v

def ofFields (fields : List (String × Value)) : Entries :=
  fields.map fun f => (.str f.1, f.2)

end Entries

namespace Value

/-- Keep the first of equal values. -/
def distinctFrom (seen : List Value) : List Value → List Value
  | [] => []
  | v :: vs => if v.isAmong seen then distinctFrom seen vs else v :: distinctFrom (seen ++ [v]) vs

def distinct (vs : List Value) : List Value := distinctFrom [] vs

def callFields (c : ToolCall) : Value :=
  mapping [(str "name", str c.name), (str "args", mapping (Entries.ofFields c.args)),
    (str "id", ofText? c.id), (str "type", str "tool_call")]

/-- The fields of a message that only its role has. -/
def roleFields : Role → List (String × Value)
  | .ai calls => [("tool_calls", list (calls.map callFields)), ("invalid_tool_calls", list []),
      ("usage_metadata", null)]
  | .tool callId failed => [("tool_call_id", str callId), ("artifact", null),
      ("status", str (if failed then "error" else "success"))]
  | _ => []

def messageFields (m : Message) : List (String × Value) :=
  [("content", m.content), ("additional_kwargs", mapping []), ("response_metadata", mapping []),
    ("type", str m.role.label), ("name", ofText? m.name), ("id", null)] ++
    roleFields m.role

end Value

end TeamFlow
