import TeamFlow.Value.Access

/-! Blocks. A block of a message is a mapping that says its type. Blocks of known types are kept as
they are. Other forms, in which a block may be written, name the type, the data or its source in
another way and are brought into the usual one. -/

namespace TeamFlow.Block

def field (name : String) (v : Value) : Value × Value := (.str name, v)

def textField (name text : String) : Value × Value := field name (.str text)

def typed (name : String) (fields : Entries) : Entries := textField "type" name :: fields

def text (v : Value) : Entries := typed "text" [field "text" v]

def typeOf (es : Entries) : Value := (es.get? "type").getD .null

def hasType (es : Entries) (name : String) : Bool := (typeOf es).same (.str name)

/-- The types of blocks that are kept as they are. -/
def knownTypes : List String :=
  ["text", "reasoning", "tool_call", "invalid_tool_call", "tool_call_chunk", "image", "audio",
    "file", "text-plain", "video", "server_tool_call", "server_tool_call_chunk",
    "server_tool_result", "non_standard"]

def wrapped (es : Entries) : Entries := typed "non_standard" [field "value" (.mapping es)]

def settled (es : Entries) : Except Failure Entries := do
  let type ← (typeOf es).hashed
  return if type.isAmong (knownTypes.map .str) then es else wrapped es

def need (es : Entries) (name : String) : Except Failure Value :=
  match es.get? name with
  | some v => .ok v
  | none => .error (.missingKey (.str name))

/-- An entry under another name, if it holds something. -/
def present (es : Entries) (name : String) : Entries :=
  match es.get? name with
  | some v => if v.isTruthy then [field name v] else []
  | none => []

/-- The entries that no name is known for. -/
def others (es : Entries) (known : List String) : Entries :=
  es.filter fun e => !e.1.isAmong (known.map .str)

def withExtras (fields extras : Entries) : Entries :=
  if extras.isEmpty then fields else fields ++ [field "extras" (.mapping extras)]

def isNull : Value → Bool
  | .null => true
  | _ => false

/-- The entries that hold something, be it a zero. -/
def present? (es : Entries) : Entries := es.filter fun e => !isNull e.2

/-- Another form in which a block may be written: nothing for blocks that are not in it. -/
abbrev Form := Entries → Except Failure (Option Entries)

def mediaTypes : List String := ["image", "audio", "file"]

/-- Where the data of a block is: the name of the source, the name that the data has, and the name
that it gets. -/
def sources : List (String × String × String) :=
  [("url", "url", "url"), ("base64", "data", "base64"), ("id", "id", "file_id")]

/-- The data of a block under one of its names, in a block that is no reference and so cannot have
an id of its own. -/
def needUnnamed (es : Entries) (name : String) : Except Failure Value := do
  let data ← need es name
  if Entries.has es (.str "id") then throw .badType
  return data

/-- A block that names the source of its data. -/
def sourced : Form := fun es => do
  let type ← (typeOf es).hashed
  match mediaTypes.find? (fun t => type.same (.str t)), es.get? "source_type" with
  | some type, some source =>
    let extras (known : List String) : Entries :=
      present? (others es (["type", "source_type"] ++ known))
    match sources.find? fun s => source.same (.str s.1) with
    | some (_, "id", after) =>
      return some (withExtras (typed type [field after (← need es "id")]) (extras ["id"]))
    | some (_, before, after) =>
      let data ← needUnnamed es before
      return some (withExtras (typed type (field after data :: present es "mime_type"))
        (extras [before, "mime_type"]))
    | none =>
      if type ≠ "file" || !source.same (.str "text") then return some es
      let data ← needUnnamed es "url"
      let mime := ((es.get? "mime_type").getD .null).orElse (.str "text/plain")
      return some (withExtras (typed "text-plain" [field "text" data, field "mime_type" mime])
        (extras ["url", "mime_type"]))
  | _, _ => return none

def mappingAt? (es : Entries) (name : String) : Option Entries :=
  match es.get? name with
  | some (.mapping content) => some content
  | _ => none

/-- A block whose source is a mapping that says where the data is, if the data is there. -/
def withSource : Form := fun es => .ok do
  let type ← ["document", "image"].find? (hasType es)
  let source ← mappingAt? es "source"
  let place ← source.get? "type"
  let isPlace (name : String) : Bool := place.same (.str name)
  let made (type : String) (fields : Entries) : Entries :=
    withExtras (typed type fields) (others es ["type", "source"])
  let medium := if type = "document" then "file" else type
  if isPlace "base64" then
    return made medium [field "base64" (← source.get? "data"),
      field "mime_type" (← source.get? "media_type")]
  else if isPlace "url" then return made medium [field "url" (← source.get? "url")]
  else if isPlace "file" then return made medium [field "id" (← source.get? "file_id")]
  else if type = "document" && isPlace "text" then
    return made "text-plain" [field "text" (← source.get? "data"),
      field "mime_type" ((es.get? "media_type").getD (.str "text/plain"))]
  else none

/-- The type and the data in an address that holds its data itself. -/
def inlineData? (address : String) : Option (String × String) :=
  let rest := address.toList.drop 5
  let mime := rest.takeWhile (· != ';')
  let rest := rest.drop mime.length
  let data := (rest.drop 8).takeWhile (· != '\n')
  let after := rest.drop (8 + data.length)
  if address.startsWith "data:" && (String.ofList rest).startsWith ";base64," && !mime.isEmpty &&
    !data.isEmpty && (after.isEmpty || after = ['\n']) then
    some (String.ofList mime, String.ofList data)
  else none

/-- Entries under names that tell where they were. -/
def renamed (pre : String) (es : Entries) : Entries :=
  es.map fun e => if pre = "image_url_" && e.1.same (.str "detail") then e
    else textKey (pre ++ e.1.display) e.2
where
  textKey (name : String) (v : Value) : Value × Value := field name v

/-- The entries of a new block that have names of their own, after its type and its id. -/
def ownNames : List String := ["url", "base64", "file_id", "mime_type", "index"]

/-- A new block of what is given for it and of extras, none of which may be given already. An id
that has to be made up is only begun. -/
def created (type : String) (given extras : Entries) : Except Failure (Option Entries) :=
  let all := given ++ extras
  let valueOf (name : String) : Value := (all.get? name).getD .null
  if (Value.texts? (extras.map Prod.fst)).isNone || extras.any (fun e => Entries.has given e.1) then
    .error .badType
  else if ["url", "base64", "file_id"].all fun name => !(valueOf name).isTruthy then
    .error (.badValue "Must provide one of: url, base64, or file_id")
  else
    let id := (valueOf "id").orElse (.str "lc_")
    .ok (some (withExtras (typed type (field "id" id ::
        present? (ownNames.map fun name => field name (valueOf name))))
      (present? (others all ("id" :: ownNames)))))

def inner? (es : Entries) (name : String) : Option Entries :=
  (mappingAt? es name).filter fun content => !content.isEmpty

def textAt? (es : Entries) (name : String) : Option String := (es.get? name).bind Value.text?

/-- A block with its data in a mapping under a key that is its type. -/
def nested : Form := fun es => do
  let type ← (typeOf es).hashed
  let isType (name : String) : Bool := type.same (.str name)
  let extras (name : String) (content : Entries) (known : List String) : Entries :=
    Entries.ofPairs (others es ["type", name] ++
      renamed (if name = "input_audio" then "audio_" else name ++ "_") (others content known))
  if isType "image_url" then
    match inner? es "image_url", others es ["type", "image_url", "detail"] with
    | some content, [] => match textAt? content "url" with
      | some address =>
        let extras := extras "image_url" content ["url"]
        match inlineData? address with
        | some (mime, data) =>
          created "image" [textField "base64" data, textField "mime_type" mime] extras
        | none => created "image" [textField "url" address] extras
      | none => return none
    | _, _ => return none
  else if isType "input_audio" then
    match (inner? es "input_audio").bind fun c => do
      return (c, ← textAt? c "data", ← textAt? c "format") with
    | some (content, data, format) =>
      created "audio" [textField "base64" data, textField "mime_type" ("audio/" ++ format)]
        (extras "input_audio" content ["data", "format"])
    | none => return none
  else if isType "file" then
    match inner? es "file" with
    | some content =>
      if (textAt? content "file_data").isNone && (textAt? content "file_id").isNone then return none
      match content.get? "file_id", (textAt? content "file_data").bind inlineData? with
      | some id, _ => created "file" [field "file_id" id] (extras "file" content ["file_id"])
      | none, some (_, data) =>
        created "file" [textField "base64" data, textField "mime_type" "application/pdf",
            field "filename" ((content.get? "filename").getD .null)]
          (extras "file" content ["file_data", "filename"])
      | none, none => return some es
    | none => return none
  else return none

/-- Data that is in the block: only texts will do. -/
def bytes (v : Value) : Except Failure Value :=
  match v with
  | .str s => .ok (.str s)
  | _ => .error .badType

/-- A document or an image under the only key of a block, with its format and its source. -/
def keyed (es content : Entries) (isDocument : Bool) (format : Value) :
    Except Failure (Option Entries) := do
  let source := (content.get? "source").getD (.mapping [])
  let made (type : String) (fields : Entries) : Option Entries :=
    some (withExtras (typed type fields) (others content ["format", "source"]))
  if isDocument && !format.same (.str "pdf") then
    if !format.same (.str "txt") then return some (wrapped es)
    if !(← source.holds (.str "text")) then return some (wrapped es)
    return made "text-plain" [field "text" (← source.under (.str "text")),
      textField "mime_type" "text/plain"]
  if !(← source.holds (.str "bytes")) then return some (wrapped es)
  let data := field "base64" (← bytes (← source.under (.str "bytes")))
  return if isDocument then made "file" [data, textField "mime_type" "application/pdf"]
    else made "image" [data, textField "mime_type" ("image/" ++ format.display)]

/-- A block that has its content under its only key. -/
def single : Form := fun es => do
  match es with
  | [(key, v)] =>
    if key.same (.str "text") && v.isTruthy then return some (text v)
    match v with
    | .mapping content => match Entries.get? content "format" with
      | some format =>
        if key.same (.str "document") then keyed es content true format
        else if key.same (.str "image") then keyed es content false format
        else return none
      | none => return none
    | _ => return none
  | _ => return none

def orElse (es : Entries) (name : String) (v : Value) : Value := (es.get? name).getD v

/-- A call, a program or its result, or a file at an address. -/
def active : Form := fun es =>
  let blank (name : String) : Value := orElse es name (.str "")
  if hasType es "file_data" then .ok do
    return typed "file" (field "url" (← es.get? "file_uri") :: present es "mime_type")
  else if hasType es "function_call" then .ok do
    return typed "tool_call" [field "name" (← es.get? "name"),
      field "args" (orElse es "args" (.mapping [])), field "id" (blank "id")]
  else if hasType es "executable_code" then
    .ok (some (typed "server_tool_call" [textField "name" "code_interpreter",
      field "args" (.mapping [field "code" (blank "executable_code"),
        field "language" (orElse es "language" (.str "python"))]), field "id" (blank "id")]))
  else if hasType es "code_execution_result" then
    let outcome := orElse es "outcome" (.int 1)
    let status := if outcome.same (.int 1) then "success" else "error"
    .ok (some (withExtras (typed "server_tool_result" [field "tool_call_id" (blank "tool_call_id"),
      textField "status" status, field "output" (blank "code_execution_result")])
      (present? [field "outcome" outcome])))
  else .ok none

end TeamFlow.Block
