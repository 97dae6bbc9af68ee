import TeamFlow.Site
import TeamFlow.Graph.Edge
import TeamFlow.Team.Oracle

/-! Supervisors. A supervisor asks its oracle who acts next and accepts only legal answers: a member
or `FINISH`, instructions in text and, where topics are in play, a known topic or `NONE`. It never
puts another actor in the place of an illegal one. -/

namespace TeamFlow

structure Supervisor (μ : Type) where
  oracle : Oracle μ
  prompt : String
  members : List Value
  topicsChannel : Option String
  finish_not_among : (Value.str finishName).isAmong members = false

namespace Supervisor

variable {μ : Type}

def make (oracle : Oracle μ) (prompt : String) (members : List Value)
    (topicsChannel : Option String) : Except Failure (Supervisor μ) :=
  if h : (Value.str finishName).isAmong members = false then
    .ok ⟨oracle, prompt, members, topicsChannel, h⟩
  else .error (.badValue ("'" ++ finishName ++ "' cannot be a team member name"))

def options (s : Supervisor μ) : List Value := .str finishName :: s.members

/-- The distinct topics of the topics channel, in order of first occurrence. -/
def knownTopics (s : Supervisor μ) (state : State) : Except Failure (Option (List Value)) :=
  match s.topicsChannel with
  | none => .ok none
  | some channel => do return some (Value.distinct (← State.itemsOf state channel))

def request (s : Supervisor μ) (given : Value) : Except Failure Request := do
  let members ← Value.joined s.members
  let state ← given.state
  let topic := (State.peek state "topic").orElse (.str "the user's request")
  let guidance ← Value.fill s.prompt [(.str "team_members", .str members), (.str "topic", topic)]
  let conversation ← State.itemsOf state "messages"
  return { conversation, options := s.options, guidance, topics := ← s.knownTopics state }

/-- The fields of an answer, if it has any. -/
def answerFields? : Value → Option Entries
  | .record _ fields => some (Entries.ofFields fields)
  | .message m => some (Entries.ofFields (Value.messageFields m))
  | .mapping es => some es
  | _ => none

def refuse {α : Type} (text : String) : Except Failure α := .error (.run (.contract text none))

/-- The topic that an answer sets: nothing for `NONE`, else one of the known topics. -/
def chosenTopic (topics : List Value) (topic : Value) : Except Failure Value := do
  if topic.isAmong (.str noTopic :: topics) then
    return if topic.same (.str noTopic) then .str "" else topic
  let chosen ← topic.written
  let legal ← Value.joined (.str noTopic :: topics)
  refuse ("Oracle chose topic " ++ chosen ++ "; legal topics are " ++ legal)

/-- The update that a legal answer stands for. -/
def accept (answer : Value) (r : Request) : Except Failure Entries := do
  match answerFields? answer with
  | none => refuse ("Oracle returned " ++ answer.kindName ++ ", expected a route decision")
  | some fields =>
    let next := State.peek fields "next"
    if !next.isAmong r.options then
      refuse ("Oracle chose " ++ (← next.written) ++ "; legal choices are " ++
        (← Value.joined r.options))
    else match State.peek fields "instructions" with
      | .str instructions =>
        let update : Entries := [(.str "next", next), (.str "instructions", .str instructions)]
        match r.topics with
        | none => return update
        | some topics => do
          let topic ← chosenTopic topics (State.peek fields "topic")
          return update ++ [(.str "topic", topic)]
      | _ => refuse "Oracle answer is missing string instructions"

def handler (s : Supervisor μ) : Handler μ := fun given => do
  let r ← Act.ofExcept (s.request given)
  let answer ← Site.onMemory (s.oracle r)
  let update ← Act.ofExcept (accept answer r)
  return .mapping update

/-- The router of a supervisor: the actor named last. -/
def route : Router μ where
  answer given := Act.ofExcept (given.under? (.str "next"))
  attached := .null
  declared := none

end Supervisor

end TeamFlow
