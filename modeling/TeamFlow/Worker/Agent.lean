import TeamFlow.Chat.Tool
import TeamFlow.Prompt
import TeamFlow.Site
import TeamFlow.Value.Formatted

/-! Agents. An agent asks its model, runs the tools that the answer asks for, reports back and asks
again, until an answer asks for none or the rounds are used up. The last answer's text becomes one
message under the agent's name. -/

namespace TeamFlow

namespace Worker

/-- The first and the last message of a worker's conversation, with the state's messages between. -/
def messages (prompt : String) (given : Value) (toolNames : List String) (members : Value) :
    Except Failure (List Value) := do
  let members ← Value.joined (← members.items)
  let preamble ← Value.fill Prompt.workerPreamble
    [(.str "system_prompt", .str prompt), (.str "team_members", .str members)]
  let state ← given.state
  let tools := Value.commas toolNames
  let closing ← Value.fill Prompt.workerInstructions
    [(.str "instructions", (State.peek state "instructions").orElse (.str "")),
      (.str "tool_names", .str (if tools.isEmpty then "none" else tools))]
  let said ← State.itemsOf state "messages"
  return Message.system preamble :: said ++ [Message.human closing]

/-- An update that appends one message. -/
def reported (name text : String) : Entries :=
  [(.str "messages", .list [Message.ofWorker name text])]

end Worker

structure Agent (μ : Type) where
  model : ChatModel μ
  name : String
  prompt : String
  tools : List Tool
  members : Value
  maxRounds : Int := 5
  context : Option (Value → Act (Site μ) Value) := none

namespace Agent

variable {μ : Type}

/-- Named values to put into a prompt: a mapping. Only keys that are texts name anything. -/
def namedValues : Value → Except Failure Entries
  | .mapping es => .ok es
  | _ => .error .badType

/-- The prompt, filled in if there is a context to fill it with. -/
def filledPrompt (a : Agent μ) (given : Value) : Act (Site μ) String :=
  match a.context with
  | none => pure a.prompt
  | some context => do
    let values ← context given
    Act.ofExcept do Value.fill a.prompt (← namedValues values)

def toolNames (a : Agent μ) : List String := a.tools.map Tool.name

def conclude (a : Agent μ) (answer : Value) : Except Failure Value := do
  let text ← Message.answerText answer
  if text.isEmpty then .error (.badRun ("Worker " ++ a.name ++ " produced an empty response."))
  else return .mapping (Worker.reported a.name text)

/-- Ask with the messages so far; each answer that asks for tools uses up a round. -/
def converse (a : Agent μ) : Nat → List Value → Act (Site μ) Value
  | 0, _ => Act.fail (.badRun
      ("Worker " ++ a.name ++ s!" did not finish within {a.maxRounds} tool rounds."))
  | rounds + 1, messages => do
    let tools := if a.tools.isEmpty then none else some a.toolNames
    let answer ← Site.onMemory (a.model { messages, tools })
    match Message.callsOf answer with
    | [] => Act.ofExcept (a.conclude answer)
    | calls => do
      let reports ← Site.onFiles (Tool.answers a.tools calls)
      converse a rounds (messages ++ answer :: reports)

/-- The members that the state names, else the agent's own. -/
def roster (a : Agent μ) (state : State) : Value :=
  (State.peek state "team_members").orElse a.members

def handler (a : Agent μ) : Handler μ := fun given => do
  let prompt ← a.filledPrompt given
  let members ← Act.ofExcept do return a.roster (← given.state)
  let messages ← Act.ofExcept (Worker.messages prompt given a.toolNames members)
  a.converse (a.maxRounds + 1).toNat messages

end Agent

end TeamFlow
