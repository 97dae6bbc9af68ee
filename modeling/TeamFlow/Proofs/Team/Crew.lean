import TeamFlow.Proofs.Team.Sparing
import TeamFlow.Proofs.Team.Speaking
import TeamFlow.Proofs.Team.Stumbling

/-! # The hierarchy of a crew

Building a hierarchy for a crew makes the workspace and nothing else
(`build_eq_ok`). What was shown of teams and of the hierarchy over them is put
together here for the graph of a crew. -/
namespace TeamFlow.Team.Crew

open Run

variable {μ : Type}

def researchTeam (c : Crew μ) : Graph μ :=
  researchGraph c.researcher c.searcher c.researchOracle c.scrape c.researchLimit

def documentTeam (c : Crew μ) (w : Workspace) : Graph μ :=
  documentGraph c.writer c.documentOracle w c.documentLimit

/-- The hierarchy over the two teams. -/
def graph (c : Crew μ) (w : Workspace) : Graph μ :=
  hierarchyGraph c.researchTeam (c.documentTeam w) c.oracle c.limit

/-- Nobody in a crew raises a step-limit error. -/
structure Candid (c : Crew μ) : Prop where
  researcher : c.researcher.Candid
  searcher : c.searcher.Candid
  writer : c.writer.Candid
  researchOracle : c.researchOracle.Candid
  documentOracle : c.documentOracle.Candid
  oracle : c.oracle.Candid

/-- The tool that a crew may bring along leaves the workspace in place. -/
def Spares (c : Crew μ) (w : Workspace) : Prop :=
  ∀ tool, c.scrape = some tool → ∀ args, (tool.run args).Keeps w.Ready

section Graph

variable {c : Crew μ} {w : Workspace}

theorem Candid.graph (h : c.Candid) (site : Site μ) : (c.graph w).Candid :=
  hierarchy_candid (research_candid h.researcher h.searcher h.researchOracle c.scrape _)
    (document_candid h.writer h.documentOracle _ site) h.oracle c.limit

theorem Spares.keepsFiles (h : c.Spares w) (site : Site μ) : (c.graph w).KeepsFiles w.Ready :=
  hierarchy_keepsFiles (research_eq _ _ _ _ _).2.compiled.linked
    (document_eq _ _ w _ site).2.compiled.linked (research_keepsFiles _ _ _ h _)
    (document_keepsFiles _ _ w _) c.oracle c.limit

end Graph

end TeamFlow.Team.Crew
