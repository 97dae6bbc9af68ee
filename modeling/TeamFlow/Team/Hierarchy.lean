import TeamFlow.Run.Subgraph
import TeamFlow.Team.Document
import TeamFlow.Team.Research

/-! The hierarchy: a supervisor over the research team and the document team. A team enters with the
conversation alone and reports back only the last message of its run. -/

namespace TeamFlow.Team

variable {μ : Type}

def researchTeamName : String := "ResearchTeam"

def documentTeamName : String := "PaperWritingTeam"

def topMembers : List String := [researchTeamName, documentTeamName]

/-- What a team starts from: the conversation, and its members if they are given. -/
def enter (members : List Value) : Adapter μ := fun given => do
  let said ← Act.ofExcept do State.itemsOf (← given.state) "messages"
  return .mapping ((.str "messages", .list said) ::
    if members.isEmpty then [] else [(.str "team_members", .list members)])

/-- A team as a node of the hierarchy. -/
def teamNode (team : Graph μ) (name : String) (members : List Value) : Subgraph μ :=
  .of team (enter members) (Adapter.lastMessage (.str "messages")) .null (some name)

def topWorkers (research document : Graph μ) : Workers μ :=
  [(researchTeamName, .callable (teamNode research researchTeamName []).handler),
    (documentTeamName, .callable
      (teamNode document documentTeamName (documentMembers.map .str)).handler)]

def hierarchy (research document : Graph μ) (oracle : Oracle μ) (stepLimit : Value) :
    Except Failure (Graph μ) := do
  let s ← Supervisor.make oracle Prompt.topSupervisor (topMembers.map .str) none
  star topState.schema s (topWorkers research document) stepLimit (some "TopLevel")

/-- Who works in the two teams, who decides in them and above them, and their step limits. -/
structure Crew (μ : Type) where
  researcher : ChatModel μ
  searcher : ChatModel μ
  scrape : Option Tool
  writer : ChatModel μ
  researchOracle : Oracle μ
  documentOracle : Oracle μ
  oracle : Oracle μ
  researchLimit : Value
  documentLimit : Value
  limit : Value

def Crew.build (c : Crew μ) (w : Workspace) : Act (Site μ) (Graph μ) := do
  let r ← Act.ofExcept (research c.researcher c.searcher c.researchOracle c.scrape c.researchLimit)
  let d ← document c.writer c.documentOracle w c.documentLimit
  Act.ofExcept (hierarchy r d c.oracle c.limit)

end TeamFlow.Team
