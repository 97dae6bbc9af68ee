import TeamFlow.Team.Channels
import TeamFlow.Team.Star
import TeamFlow.Worker.Brainstorm
import TeamFlow.Worker.Search

/-! The research team: a brainstormer, a searcher and, if there is a tool for it, a scraper. The
supervisor picks the next topic from the queries that have been brainstormed. -/

namespace TeamFlow.Team

variable {μ : Type}

def brainstormerName : String := "Brainstormer"

def searcherName : String := "Search"

def scraperName : String := "WebScraper"

def researchMembers (scrape : Option Tool) : List String :=
  [brainstormerName, searcherName] ++ if scrape.isSome then [scraperName] else []

def scraper (model : ChatModel μ) (tool : Tool) : Agent μ where
  model := model
  name := scraperName
  prompt := Prompt.scraper
  tools := [tool]
  members := Value.ofText (researchMembers (some tool))

def researchWorkers (model searchModel : ChatModel μ) (scrape : Option Tool) : Workers μ :=
  [(brainstormerName, .callable (Brainstormer.handler ⟨model, brainstormerName⟩)),
    (searcherName, .callable (Searcher.handler ⟨searchModel, searcherName⟩))] ++
  match scrape with
  | none => []
  | some tool => [(scraperName, .callable (scraper model tool).handler)]

def research (model searchModel : ChatModel μ) (oracle : Oracle μ) (scrape : Option Tool)
    (stepLimit : Value) : Except Failure (Graph μ) := do
  let s ← Supervisor.make oracle Prompt.researchSupervisor ((researchMembers scrape).map .str)
    (some "brainstormed_queries")
  star researchState.schema s (researchWorkers model searchModel scrape) stepLimit
    (some "ResearchTeam")

end TeamFlow.Team
