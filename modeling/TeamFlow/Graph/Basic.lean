import TeamFlow.Graph.Builder
import TeamFlow.StepLimit
import TeamFlow.Value.Shown

/-! Compiled graphs. A compiled graph holds no state of a run, so any number of runs may share
it. -/

namespace TeamFlow

structure Graph (μ : Type) where
  name : String
  schema : Schema
  nodes : Table (Handler μ)
  edges : Table (Edge μ String)
  entry : String
  stepLimit : Value

namespace Builder

variable {μ : Type}

/-- The single edge of a source, with its targets as names. -/
def settledRow (row : String × List (Edge μ Value)) : Option (String × Edge μ String) :=
  row.2.head?.map fun e => (row.1, e.mapTargets fun t => t.text?.getD "")

def settledEdges (b : Builder μ) : Table (Edge μ String) := b.edges.filterMap settledRow

def usualName : String := "graph"

def graphName (name : Option String) : String :=
  match name with
  | none => usualName
  | some n => if n.isEmpty then usualName else n

/-- The graph that a builder stands for, whatever is wrong with it. -/
def graph (b : Builder μ) (stepLimit : Value) : Graph μ where
  name := graphName b.name
  schema := b.schema.freeze
  nodes := b.nodes
  edges := b.settledEdges
  entry := b.entry.getD ""
  stepLimit := stepLimit

/-- The graph, once nothing is wrong with it. -/
def compile (b : Builder μ) (stepLimit : Value) : Except Failure (Graph μ) := do
  match ← b.problems with
  | [] => return b.graph stepLimit
  | ps => .error (.definition ps)

end Builder

/-- The target that the answer of a node's router leads to. -/
def Routing.resolve {μ : Type} (r : Routing μ String) (node : String) :
    Except Failure Value → Except Failure String
  | .error why => .error (.ifWritable why.isWritable (.routerFailed node why))
  | .ok key => match r.pathOf? key with
    | some target => .ok target
    | none => .error (.ifWritable key.isWritable (.routing node key))

namespace Graph

variable {μ : Type}

/-- The node that follows a node. Its router is given the state after the step. -/
def nextNode (g : Graph μ) (node : String) (given : Value) : Act (Site μ) String :=
  match Table.row? g.edges node with
  | none => Act.fail (.missingKey (.str node))
  | some (.fixed target) => pure target
  | some (.routed r) => do r.resolve node (← (r.answer given).attempt)

def text (g : Graph μ) : String :=
  "CompiledGraph(name=" ++ Text.quoted g.name ++ ", nodes=" ++
    (Value.ofText (Table.names g.nodes)).literal ++ ", entry=" ++ Text.quoted g.entry ++ ")"

/-- The limit of a run, read from the settings only if neither it nor the graph gives one. -/
def resolveLimit (g : Graph μ) (given : Value) : Act (Site μ) StepLimit := do
  let site ← Act.get
  StepLimit.resolve given g.stepLimit site.settings.stepLimit

end Graph

end TeamFlow
