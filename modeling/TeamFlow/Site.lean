import TeamFlow.StepLimit
import TeamFlow.Value.Access
import TeamFlow.Workspace.Basic

/-! The site of a run: the settings of the environment, the files, and whatever the collaborators
themselves remember. The settings amount to a key for the chat models and their names, a default
step limit and a workspace directory. -/

namespace TeamFlow

structure Settings where
  stepLimit : Option String
  apiKey : Option String
  workspace : Option String
  supervisorModel : Option String := Option.none
  workerModel : Option String := Option.none
  searchModel : Option String := Option.none

namespace Settings

def none : Settings where
  stepLimit := .none
  apiKey := .none
  workspace := .none

/-- All settings, under whatever name. -/
def all (s : Settings) : List (Option String) :=
  [s.stepLimit, s.apiKey, s.workspace, s.supervisorModel, s.workerModel, s.searchModel]

/-- No setting can hold a null character. -/
def checked (s : Settings) : Except Failure Settings :=
  if s.all.any fun t => t.any fun t => t.toList.contains '\x00' then
    .error Workspace.nullByte
  else .ok s

def keyMissing : Failure :=
  .badRun "GEMINI_API_KEY environment variable is required to use Gemini."

/-- The key for the chat models; an empty one is none. -/
def key (s : Settings) : Except Failure String :=
  match s.apiKey with
  | some k => if k.isEmpty then .error keyMissing else .ok k
  | .none => .error keyMissing

def supervisorName (s : Settings) : String := s.supervisorModel.getD "gemini-2.0-flash"

def workerName (s : Settings) : String := s.workerModel.getD "gemini-2.0-flash"

def searchName (s : Settings) : String := s.searchModel.getD "gemini-2.5-flash"

def limit (s : Settings) : Except Failure StepLimit := StepLimit.ofSetting s.stepLimit

/-- The workspace directory, seen from where relative paths start. -/
def workspacePlace (s : Settings) (here : Place) : Place :=
  here.follow (s.workspace.getD "workspace")

end Settings

/-- `here` is the directory from which relative paths start. -/
structure Site (μ : Type) where
  settings : Settings
  here : Place
  files : FileTree
  memory : μ

namespace Site

variable {μ α : Type}

def onFiles (x : Act FileTree α) : Act (Site μ) α :=
  Act.onPart Site.files (fun t s => { s with files := t }) x

def onMemory (x : Act μ α) : Act (Site μ) α :=
  Act.onPart Site.memory (fun m s => { s with memory := m }) x

end Site

/-- What a node runs: it reads what it is given, in a run the state, and answers, in a run with an
update. -/
abbrev Handler (μ : Type) := Value → Act (Site μ) Value

end TeamFlow
