import TeamFlow.Team.Hierarchy

/-! Models at a console. Each question of a model is answered by the next line of the input. A line
is a message, or, where a form is asked for, its fields: `name=value` between tabs, with semicolons
between the items of a list. -/

namespace TeamFlow.Console

abbrev Input := List String

/-- The value of a field, by what the form says about it. -/
def fieldValue (form : Form) (name : String) (text : List Char) : Value :=
  match form.fields.find? fun f => f.name == name with
  | some ⟨_, .texts, _⟩ => Value.ofText ((Text.splitAt ';' text).map String.ofList)
  | _ => .str (String.ofList text)

def entry (form : Form) (part : List Char) : Value × Value :=
  let name := String.ofList (part.takeWhile (· != '='))
  (.str name, fieldValue form name ((part.dropWhile (· != '=')).drop 1))

def answer (ask : Ask) (line : String) : Except Failure Value :=
  match ask.form with
  | none => Message.make (.ai []) (.str line) none
  | some form => form.fill (Entries.ofPairs ((Text.splitAt '\t' line.toList).map (entry form)))

def model : ChatModel Input := fun ask input =>
  match input with
  | [] => (.error (.badRun "There is no answer left."), [])
  | line :: rest => (answer ask line, rest)

/-- Everybody is at the console. -/
def crew : Team.Crew Input where
  researcher := model
  searcher := model
  scrape := none
  writer := model
  researchOracle := .ofChat model
  documentOracle := .ofChat model
  oracle := .ofChat model
  researchLimit := .null
  documentLimit := .null
  limit := .null

/-- The hierarchy with all its models at the console. As with any model, a key has to be set. -/
def hierarchy (w : Workspace) : Act (Site Input) (Graph Input) := do
  let site ← Act.get
  let _ ← Act.ofExcept site.settings.key
  crew.build w

end TeamFlow.Console
