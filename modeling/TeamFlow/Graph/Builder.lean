import TeamFlow.Channel.Schema
import TeamFlow.Graph.Edge
import TeamFlow.Graph.Reach
import TeamFlow.Value.Shown

/-! Builders. A builder collects the nodes and edges of a graph, call by call. Most problems with
edges are left for `problems`, which reports all of them together. -/

namespace TeamFlow

structure Builder (μ : Type) where
  schema : Schema
  name : Option String
  nodes : Table (Handler μ)
  edges : Table (List (Edge μ Value))
  entry : Option String

namespace Builder

variable {μ : Type}

def new (schema : Schema) (name : Option String) : Builder μ := ⟨schema, name, [], [], none⟩

def invalidCall {α : Type} (problem : String) : Act (Builder μ) α :=
  Act.fail (.definition [problem])

def addNode (name : String) (handler : Offered (Handler μ)) : Act (Builder μ) Unit := do
  if name = startName ∨ name = endName then
    invalidCall ("'" ++ name ++ "' is reserved and cannot be a node name")
  let b ← Act.get
  if Table.has b.nodes name then invalidCall ("Node '" ++ name ++ "' already exists")
  match handler with
  | .notCallable => invalidCall ("Handler for node '" ++ name ++ "' is not callable")
  | .callable h => Act.modify fun b => { b with nodes := Table.put b.nodes name h }

def setEntry (name : String) : Act (Builder μ) Unit :=
  Act.modify fun b => { b with entry := some name }

def outgoing (b : Builder μ) (name : String) : List (Edge μ Value) :=
  (Table.row? b.edges name).getD []

def pushEdge (source : String) (e : Edge μ Value) : Act (Builder μ) Unit :=
  Act.modify fun b => { b with edges := Table.put b.edges source (b.outgoing source ++ [e]) }

/-- An edge from the start sets the entry. -/
def addEdge (source target : String) : Act (Builder μ) Unit :=
  if source = startName then setEntry target else pushEdge source (.fixed (.str target))

def setFinish (name : String) : Act (Builder μ) Unit := addEdge name endName

/-- Add a router's edge. Its targets are listed once it is added, so targets that cannot be listed
in order fail the call and the edge stays. -/
def addRouting (source : String) (router : Router μ) (paths : PathMap) (keys : Value) :
    Act (Builder μ) Unit := do
  let r ← Act.ofExcept (Routing.make router paths keys)
  pushEdge source (.routed r)
  let _ ← Act.ofExcept r.sortedTargets

def defineChannel (name : String) (reducer : Offered Reducer) (default : Option (Offered Default)) :
    Act (Builder μ) Unit := do
  let b ← Act.get
  let schema ← Act.ofExcept (b.schema.define name reducer default .absent)
  Act.modify fun b => { b with schema := schema }

def isTarget (b : Builder μ) : Value → Bool
  | .str name => name == endName || Table.has b.nodes name
  | _ => false

/-- The problem with a path, if there is one. An unknown target is named with its key, which has to
be written for this. -/
def pathProblem (b : Builder μ) (source : String) (key target : Value) :
    Except Failure (List String) :=
  if !target.isHashable then .error .badType
  else if b.isTarget target then .ok []
  else do
    return ["Conditional edge from '" ++ source ++ "': key " ++ (← key.written) ++
      " targets unknown node '" ++ (← target.shown) ++ "'"]

def pathProblems (b : Builder μ) (source : String) :
    List (Value × Value) → Except Failure (List String)
  | [] => .ok []
  | (key, target) :: paths => do
    let here ← b.pathProblem source key target
    return here ++ (← b.pathProblems source paths)

/-- Known keys without a path, in the order of their exact texts. -/
def unmappedProblems (source : String) (r : Routing μ Value) : Except Failure (List String) := do
  let texts ← r.unmapped.mapM Value.written
  return (Schema.sorted texts).map fun text =>
    "Conditional edge from '" ++ source ++ "': router key " ++ text ++ " is not mapped"

def edgeProblems (b : Builder μ) (source : String) : Edge μ Value → Except Failure (List String)
  | .fixed target =>
    if b.isTarget target then .ok []
    else do
      return ["Edge " ++ source ++ " -> " ++ (← target.shown) ++
        ": target is not a registered node"]
  | .routed r => do
    let wrong ← b.pathProblems source r.paths
    let missing ← unmappedProblems source r
    return (if r.paths.isEmpty then
        ["Conditional edge from '" ++ source ++ "' has an empty path map"] else []) ++
      wrong ++ missing

def allEdgeProblems (b : Builder μ) (source : String) :
    List (Edge μ Value) → Except Failure (List String)
  | [] => .ok []
  | e :: es => do
    let here ← b.edgeProblems source e
    .ok (here ++ (← b.allEdgeProblems source es))

def sourceProblems (b : Builder μ) : Table (List (Edge μ Value)) → Except Failure (List String)
  | [] => .ok []
  | (source, es) :: rest => do
    let here ← b.allEdgeProblems source es
    let after ← b.sourceProblems rest
    .ok ((if Table.has b.nodes source then []
        else ["Edge source '" ++ source ++ "' is not a registered node"]) ++
      (if 1 < es.length then
        [s!"Node '{source}' has {es.length} outbound edges; only one is allowed"] else []) ++
      here ++ after)

def entryProblems (b : Builder μ) : List String :=
  match b.entry with
  | none => ["No entry point set"]
  | some e => if Table.has b.nodes e then []
    else ["Entry point '" ++ e ++ "' is not a registered node"]

/-- Problems that can be told without following paths. -/
def localProblems (b : Builder μ) : Except Failure (List String) := do
  let edges ← b.sourceProblems b.edges
  return b.schema.problems ++ (if b.nodes.isEmpty then ["Graph has no nodes"] else []) ++
    b.entryProblems ++ edges ++
    ((Table.names b.nodes).filter fun n => !Table.has b.edges n).map fun n =>
      "Node '" ++ n ++ "' has no outbound edge"

def successors (b : Builder μ) (name : String) : List String :=
  ((b.outgoing name).flatMap Edge.targets).filterMap Value.text?

/-- Nodes that no path from the entry reaches, then nodes from which no path leads to the end. -/
def pathsProblems (b : Builder μ) : List String :=
  let names := Table.names b.nodes
  let reached := Reach.visited b.successors names (b.entry.getD "")
  let finishing := Reach.finishing b.successors reached endName
  ((names.filter fun n => !reached.contains n).map fun n =>
      "Node '" ++ n ++ "' is unreachable from the entry point") ++
    (Schema.sorted (reached.filter fun n => !finishing.contains n)).map fun n =>
      "Node '" ++ n ++ "' can never reach END"

def problems (b : Builder μ) : Except Failure (List String) := do
  match ← b.localProblems with
  | [] => return b.pathsProblems
  | ps => return ps

end Builder

end TeamFlow
