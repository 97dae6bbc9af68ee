import TeamFlow.Worker.Agent

/-! Brainstormers. A brainstormer asks its model for research queries and contributes those that are
new: without blanks around them, not empty, and neither known nor proposed before. -/

namespace TeamFlow

structure Brainstormer (μ : Type) where
  model : ChatModel μ
  name : String

namespace Brainstormer

variable {μ : Type}

def form : Form := ⟨"BrainstormResult", [{ name := "queries", type := .texts }]⟩

/-- A list, one item a line. -/
def bullets (items : List String) : String := Text.joinLines (items.map ("- " ++ ·))

def question (known : List Value) : Except Failure String := do
  let ask := "Output the field 'queries' containing an array of possible search queries."
  if known.isEmpty then return ask
  else return ask ++ "\nAlready brainstormed:\n" ++ bullets (← Value.allShown known)

/-- The proposals that are new, after those found so far. -/
def fresh (known : List Value) (found : List String) : List String → List String
  | [] => found
  | proposal :: proposals =>
    let query := Text.trim proposal
    if query.isEmpty || (Value.str query).isAmong known || found.contains query then
      fresh known found proposals
    else fresh known (found ++ [query]) proposals

def proposals (answer : Value) : Except Failure (List String) :=
  let given? := match answer with
    | .record _ fields => match Table.row? fields "queries" with
      | some (.list vs) => Value.texts? vs
      | _ => none
    | _ => none
  match given? with
  | some ss => .ok ss
  | none => .error (.lacking answer "queries")

def handler (b : Brainstormer μ) : Handler μ := fun given => do
  let state ← Act.ofExcept given.state
  let known ← Act.ofExcept (State.itemsOf state "brainstormed_queries")
  let question ← Act.ofExcept (question known)
  let said ← Act.ofExcept (State.itemsOf state "messages")
  let answer ← Site.onMemory (b.model {
    messages := Message.system Prompt.brainstormer :: said ++ [Message.human question]
    form := some form })
  let proposals ← Act.ofExcept (proposals answer)
  let queries := fresh known [] proposals
  return .mapping ((.str "brainstormed_queries", Value.ofText queries) ::
    Worker.reported b.name ("Brainstormed queries:\n" ++ bullets queries))

end Brainstormer

end TeamFlow
