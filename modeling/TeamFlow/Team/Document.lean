import TeamFlow.Team.Channels
import TeamFlow.Team.Star
import TeamFlow.Worker.Agent

/-! The document team: a writer, a note taker and a chart generator share a workspace. Each of them
is shown the files as they are when it starts, and what it changes is put on record. -/

namespace TeamFlow.Team

variable {μ : Type}

def writerName : String := "DocWriter"

def noteTakerName : String := "NoteTaker"

def chartGeneratorName : String := "ChartGenerator"

def documentMembers : List String := [writerName, noteTakerName, chartGeneratorName]

/-- The channel with the listing of the workspace. -/
def filesChannel : String := "current_files"

/-- Run a worker on the current listing, and record the listing if it is not the state's. -/
def withListing (w : Workspace) (handler : Handler μ) : Handler μ := fun given => do
  let state ← Act.ofExcept given.state
  let before ← Site.onFiles w.describeFiles
  let answer ← handler (.mapping (Entries.put state filesChannel (.str before)))
  let update ← Act.ofExcept answer.entries
  let after ← Site.onFiles w.describeFiles
  if (State.peek state filesChannel).same (.str after) then return .mapping update
  else return .mapping (Entries.put update filesChannel (.str after))

def filesContext (given : Value) : Act (Site μ) Value := do
  let files ← Act.ofExcept (given.under (.str filesChannel))
  return .mapping [(.str filesChannel, files)]

def documentWorker (model : ChatModel μ) (name prompt : String) (tools : List Tool) : Agent μ where
  model := model
  name := name
  prompt := prompt
  tools := tools
  members := Value.ofText documentMembers
  context := some filesContext

/-- Each member with the prompt and the tools that it is given. -/
def documentAgents (model : ChatModel μ) (w : Workspace) : List (Agent μ) :=
  [documentWorker model writerName Prompt.documentWriter [w.writeTool, w.editTool, w.readTool],
    documentWorker model noteTakerName Prompt.noteTaker [w.outlineTool, w.readTool],
    documentWorker model chartGeneratorName Prompt.chartGenerator [w.readTool]]

def documentWorkers (model : ChatModel μ) (w : Workspace) : Workers μ :=
  (documentAgents model w).map fun a => (a.name, .callable (withListing w a.handler))

def document (model : ChatModel μ) (oracle : Oracle μ) (w : Workspace) (stepLimit : Value) :
    Act (Site μ) (Graph μ) := do
  Site.onFiles w.ensure
  Act.ofExcept do
    let s ← Supervisor.make oracle Prompt.documentSupervisor (documentMembers.map .str) none
    star documentState.schema s (documentWorkers model w) stepLimit (some "PaperWritingTeam")

end TeamFlow.Team
