import TeamFlow.Channel.Schema
import TeamFlow.Chat.ModelCache
import TeamFlow.Chat.Template
import TeamFlow.Chat.Tool
import TeamFlow.Rehearsal.Reply
import TeamFlow.Value.Kind

/-! Scripted oracles and chat models, tools to try them on, and reducers to try channels with. -/

namespace TeamFlow.Rehearsal

/-- What a scripted oracle decides. -/
inductive Decision where
  | answer (e : Expr)
  | fail (why : Failure)

def oracle (number : Nat) (script : Script Decision) : Oracle Memory := fun r => do
  Act.modify fun m => m.noteRequest number r
  match ← script.draw with
  | .answer e => Act.ofExcept (e.alone)
  | .fail why => Act.fail why

/-- What a scripted model answers: a message, a plain value, or the form filled in. -/
inductive Answer where
  | message (content : Expr) (calls : Fit Role)
  | plain (e : Expr)
  | fields (e : Expr)
  | fail (why : Failure)

namespace Answer

def give (ask : Ask) : Answer → Except Failure Value
  | message content calls => do Message.compose calls (← content.alone) .null
  | plain e => e.alone
  | fields e => do
    let v ← e.alone
    match ask.form, v with
    | some form, .mapping es =>
      if (Value.texts? (es.map Prod.fst)).isSome then form.fill es
      else .error (.plain .type "keywords must be strings")
    | some form, v =>
      let kind := (Value.record form.name []).kind
      .error (noFields (kind.home ++ "." ++ kind.name ++ "()") v)
    | none, .mapping _ =>
      .error (.plain .type (Text.quoted Value.null.kindName ++ " object is not callable"))
    | none, v => .error (noFields Value.null.display v)
  | fail why => .error why
where
  noFields (what : String) (v : Value) : Failure :=
    .plain .type (what ++ " argument after ** must be a mapping, not " ++ v.kindName)

end Answer

/-- A chat model that takes its answers from a script and notes every question. It keeps the tools
and the form that it was given last. -/
def model (number : Nat) (script : Script Answer) : ChatModel Memory := fun ask => do
  let ask := (← Act.get).inFull number ask
  Act.modify fun m => m.noteAsk number ask
  let answer ← script.draw
  Act.ofExcept (answer.give ask)

/-- The temperature that a value is taken for: a number, also one in text; integers can be too
large. -/
def fitTemperature : Value → Fit (Option Double)
  | .null => .ok none
  | .float x => .ok (some x)
  | .str s => match Numeral.fractional? s.toList with
    | some x => .ok (some x)
    | none => Fit.fault "float_parsing"
  | v => match v.number? with
    | some (.finite d) => match Double.ofInt? d.toRat.num with
      | some x => .ok (some x)
      | none => Fit.fault "float_type"
    | _ => Fit.fault "float_type"

def isTemperature : Double → Bool
  | .notANumber _ => false
  | x => !x.less (.finite 0) && !Double.less (.finite 2) x

/-- Makes models whose name is a text and whose temperature, if there is one, lies in the range of
temperatures. -/
def maker : ModelMaker := fun _ name temperature => do
  let x ← (Fit.both (fun _ x => x) (Fit.within ["model"] (FieldType.fitText name))
    (Fit.within ["temperature"] (fitTemperature temperature))).toExcept
  if x.all isTemperature then .ok () else .error (.invalid [⟨[], "value_error"⟩])

def scrapeTool : Tool where
  form := ⟨"scrape", [{ name := "url", type := .text }]⟩
  run args := pure ("contents of " ++ Argument.text args "url")

def boomTool : Tool where
  form := ⟨"boom", [{ name := "text", type := .text }]⟩
  run args := Act.fail (.badValue (Argument.text args "text"))

/-- A text so many times over; below one time it is empty. -/
def repeated (text : String) (times : Int) : Except Failure String :=
  if !Text.isOffset times then .error (.plain .overflow Text.noOffset)
  else if times < 1 ∨ text.isEmpty then .ok ""
  else if Text.greatestSize < text.length * times.toNat then
    .error (.plain .overflow "repeated string is too long")
  else if Text.roomFor < text.length * times.toNat then .error (.plain .memory "")
  else .ok (String.join (List.replicate times.toNat text))

def repeatTool : Tool where
  form := ⟨"repeat", [{ name := "text", type := .text }, { name := "times", type := .integer }]⟩
  run args :=
    Act.ofExcept (repeated (Argument.text args "text") ((Argument.integer? args "times").getD 0))

def allTools (w : Workspace) : List Tool := w.tools ++ [scrapeTool, boomTool, repeatTool]

/-! ### Reducers to try channels with -/

def toDouble : Value → Except Failure Double
  | .float x => .ok x
  | v => match v.number? with
    | some (.finite d) => match Double.ofInt? d.toRat.num with
      | some x => .ok x
      | none => .error (.plain .overflow "int too large to convert to float")
    | _ => .error .badType

/-- The sum of numbers, or one sequence after the other of its kind; behind a message anything makes
a template. A sum that is no number comes from the source of the given number, over what it was made
of. -/
def add (source : Nat) : Reducer := fun old new =>
  (ChatTemplate.sum? old new).getD <| match old, new with
  | .str s, .str t => .ok (.str (s ++ t))
  | .list xs, .list ys => .ok (.list (xs ++ ys))
  | .tuple xs, .tuple ys => .ok (.tuple (xs ++ ys))
  | a, b => match a.whole?, b.whole? with
    | some m, some n => .ok (.int (m + n))
    | _, _ => do
      if a.number?.isNone || b.number?.isNone then .error .badType
      return .float (((← toDouble a).add (← toDouble b)).comingFrom source)

/-- The greater value, of equal ones the old. -/
def greater : Reducer := fun old new => do
  if ← old.less new then return new else return old

end TeamFlow.Rehearsal
