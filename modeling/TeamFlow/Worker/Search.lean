import TeamFlow.Worker.Agent

/-! Searchers. A searcher asks its model once, with the search option on, about the topic and the
instructions of the supervisor. -/

namespace TeamFlow

structure Searcher (μ : Type) where
  model : ChatModel μ
  name : String

namespace Searcher

variable {μ : Type}

/-- The option that turns searching on. -/
def options : Entries :=
  [(.str "tools", .list [.mapping [(.str "google_search", .mapping [])]])]

/-- A line about a channel, if it holds something. -/
def note (label : String) (v : Value) : Except Failure (List String) := do
  if v.isTruthy then return [label ++ (← v.shown)] else return []

def guidance (state : State) : Except Failure String := do
  let topic ← note "Topic: " (State.peek state "topic")
  let instructions ← note "Supervisor instructions: " (State.peek state "instructions")
  return String.intercalate "\n\n" (Prompt.searcher :: topic ++ instructions)

/-- The guidance and the conversation; without one, the instructions stand for it. -/
def messages (state : State) : Except Failure (List Value) := do
  let guidance ← guidance state
  match ← State.itemsOf state "messages" with
  | [] =>
    let question ← Message.make .human ((State.peek state "instructions").orElse (.str "")) none
    return [Message.system guidance, question]
  | said => return Message.system guidance :: said

def handler (s : Searcher μ) : Handler μ := fun given => do
  let messages ← Act.ofExcept do messages (← given.state)
  let answer ← Site.onMemory (s.model { messages, options })
  let text ← Act.ofExcept (Message.answerText answer)
  if text.isEmpty then Act.fail (.badRun "Gemini returned empty search results.")
  else return .mapping (Worker.reported s.name text)

end Searcher

end TeamFlow
