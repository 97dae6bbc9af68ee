import TeamFlow.Chat.Message
import TeamFlow.Prompt
import TeamFlow.Value.Formatted

/-! Oracles. An oracle decides who acts next, from a request that holds everything it may see. A
chat model serves as one when its answer has to fill in a form that lists the legal choices. -/

namespace TeamFlow

/-- The choice to stop. -/
def finishName : String := "FINISH"

def noTopic : String := "NONE"

structure Request where
  conversation : List Value
  options : List Value
  guidance : String
  topics : Option (List Value)

abbrev Oracle (μ : Type) := Request → Act μ Value

namespace Route

/-- The form of a decision that says what it leaves out. -/
def decision : Form := ⟨"RouteDecision", [
  { name := "reasoning", type := .text, default := some (.str "") },
  { name := "next", type := .text },
  { name := "instructions", type := .text },
  { name := "topic", type := .optional .text, default := some .null }]⟩

def noChoice : Failure :=
  .plain .assertion "literal \"expected\" cannot be empty, obj=typing.Literal[()]"

/-- A form lists at least one legal answer. -/
def checkOptions (options : List Value) : Except Failure Unit :=
  if options.isEmpty then .error noChoice else .ok ()

/-- The form that lists the legal answers; a topic is asked for only where topics are in play. -/
def form (options : List Value) (topics : Option (List Value)) : Form := ⟨"route", [
  { name := "reasoning", type := .text },
  { name := "next", type := .oneOf options },
  { name := "instructions", type := .text }] ++
  match topics with
  | none => []
  | some ts => [{ name := "topic", type := .oneOf (.str noTopic :: ts) }]⟩

end Route

namespace Request

/-- The question that follows the conversation. Only texts can be asked for. -/
def selection (r : Request) : Except Failure String := do
  let options ← Value.joined r.options
  match r.topics with
  | none => Value.fill Prompt.routeSelection [(.str "options", .str options)]
  | some topics => do
    let topics ← Value.joined (.str noTopic :: topics)
    Value.fill Prompt.routeTopicSelection
      [(.str "options", .str options), (.str "topics", .str topics)]

def ask (r : Request) : Except Failure Ask := do
  Route.checkOptions r.options
  let selection ← r.selection
  return {
    messages := Message.system r.guidance :: r.conversation ++ [Message.human selection]
    form := some (Route.form r.options r.topics) }

end Request

namespace Oracle

variable {μ : Type}

/-- Whether a failure says that an answer does not fit its form. -/
def isMisfit : Failure → Bool
  | .invalid _ => true
  | .plain .unreadable _ => true
  | _ => false

/-- A chat model as an oracle. -/
def ofChat (model : ChatModel μ) : Oracle μ := fun r => do
  let ask ← Act.ofExcept r.ask
  match ← (model ask).attempt with
  | .ok answer => pure answer
  | .error why =>
    if isMisfit why then
      Act.fail (.run (.contract
        ("Oracle response did not match the route schema: " ++ why.message) (some why)))
    else Act.fail why

end Oracle

end TeamFlow
