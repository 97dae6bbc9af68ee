import TeamFlow.Channel.Schema

/-! The channels of the teams: the conversation and other logs grow, the rest is overridden. -/

namespace TeamFlow.Team

/-- The declared channels of a team, under a name. -/
structure StateForm where
  name : String
  fields : Table Schema.FieldDeclaration

namespace StateForm

def schema (s : StateForm) : Except Failure Schema := Schema.ofDeclarations s.name s.fields

def log (name : String) : String × Schema.FieldDeclaration :=
  (name, ⟨.generic, [.channel (.callable Reducer.append) (some (.callable (.ok (.list []))))]⟩)

def latest (name default : String) : String × Schema.FieldDeclaration :=
  (name, ⟨.typeNamed "str",
    [.channel (.callable Reducer.overrideIfPresent) (some (.callable (.ok (.str default))))]⟩)

end StateForm

def researchState : StateForm := ⟨"ResearchTeamState", [
  StateForm.log "messages",
  StateForm.log "team_members",
  StateForm.log "brainstormed_queries",
  StateForm.latest "next" "supervisor",
  StateForm.latest "instructions" "Thoroughly research the current topic.",
  StateForm.latest "topic" ""]⟩

def documentState : StateForm := ⟨"DocWritingState", [
  StateForm.log "messages",
  StateForm.log "team_members",
  StateForm.latest "next" "supervisor",
  StateForm.latest "current_files" "No files written.",
  StateForm.latest "instructions" "Solve the human's question."]⟩

def topState : StateForm := ⟨"TopLevelState", [
  StateForm.log "messages",
  StateForm.latest "next" "ResearchTeam",
  StateForm.latest "instructions" "Resolve the user's request."]⟩

def allStates : List StateForm := [researchState, documentState, topState]

end TeamFlow.Team
