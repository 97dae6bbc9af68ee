import TeamFlow.Graph.Builder
import TeamFlow.Value.Shown

/-! Drafts. Nothing keeps a caller from handing a builder something else than a text: whatever can
be a key can name a node or be the source of an edge, and anything at all can be a target. A draft
is what a builder is then. Where all names are texts it is a `Builder`. -/

namespace TeamFlow

abbrev Ledger (α : Type) := List (Value × α)

namespace Ledger

variable {α β : Type}

def row? (t : Ledger α) (key : Value) : Option α := (t.find? fun r => r.1.alike key).map Prod.snd

/-- Write a row. A key that is there already stays. -/
def put : Ledger α → Value → α → Ledger α
  | [], key, a => [(key, a)]
  | (k, b) :: t, key, a => if k.alike key then (k, a) :: t else (k, b) :: put t key a

/-- The rows of a table under its names, each changed in some way. -/
def ofTable (f : String → α → β) (t : Table α) : Ledger β := t.map fun r => (.str r.1, f r.1 r.2)

end Ledger

/-- An edge with the source that was given for it. -/
structure Link (μ : Type) where
  source : Value
  edge : Edge μ Value

/-- What a builder has collected; no entry is `null`. -/
structure Draft (μ : Type) where
  schema : Schema
  name : Option String
  nodes : Ledger (Handler μ)
  edges : Ledger (List (Link μ))
  entry : Value

/-- Anything as paths: a mapping, or a collection of targets. -/
def PathMap.ofValue : Value → Except Failure PathMap
  | .mapping es => .ok (.pairs es)
  | v => do return .names (← v.items)

/-- A routing with anything as its paths. What is wrong with keys and paths fails alike. -/
def Routing.ofValues {μ : Type} (router : Router μ) (paths keys : Value) :
    Except Failure (Routing μ Value) := do
  Routing.make router (← PathMap.ofValue paths) keys

namespace Draft

variable {μ : Type}

/-- A complaint about a name, which has to be written out for it. -/
def invalidName {α : Type} (before : String) (name : Value) (after : String) : Act (Draft μ) α := do
  let text ← Act.ofExcept name.shown
  Act.fail (.definition [before ++ text ++ after])

/-- The key of a node that can still be added. -/
def newKey (name : Value) : Act (Draft μ) Value :=
  if name.alike (.str startName) || name.alike (.str endName) then
    invalidName "'" name "' is reserved and cannot be a node name"
  else do
    let key ← Act.ofExcept name.hashed
    let d ← Act.get
    if (d.nodes.row? key).isSome then invalidName "Node '" name "' already exists"
    else return key

def addNode (name : Value) (handler : Offered (Handler μ)) : Act (Draft μ) Unit := do
  let key ← newKey name
  match handler with
  | .notCallable => invalidName "Handler for node '" name "' is not callable"
  | .callable h => Act.modify fun d => { d with nodes := d.nodes.put key h }

def setEntry (name : Value) : Act (Draft μ) Unit := Act.modify fun d => { d with entry := name }

def outgoing (d : Draft μ) (source : Value) : List (Link μ) := (d.edges.row? source).getD []

def push (d : Draft μ) (link : Link μ) : Draft μ :=
  { d with edges := d.edges.put link.source (d.outgoing link.source ++ [link]) }

def pushEdge (source : Value) (e : Edge μ Value) : Act (Draft μ) Unit := do
  let key ← Act.ofExcept source.hashed
  Act.modify fun d => d.push ⟨key, e⟩

def addEdge (source target : Value) : Act (Draft μ) Unit :=
  if source.same (.str startName) then setEntry target else pushEdge source (.fixed target)

def setFinish (name : Value) : Act (Draft μ) Unit := addEdge name (.str endName)

/-- As with a builder, the targets are listed once the edge is added. -/
def addRouting (source : Value) (router : Router μ) (paths keys : Value) :
    Act (Draft μ) Unit := do
  let r ← Act.ofExcept (Routing.ofValues router paths keys)
  pushEdge source (.routed r)
  let _ ← Act.ofExcept r.sortedTargets

/-- A call with anything in its places. A router that cannot be called is one that always fails. -/
inductive Call (μ : Type) where
  | node (name : Value) (handler : Offered (Handler μ))
  | edge (source target : Value)
  | routing (source : Value) (router : Router μ) (paths keys : Value)
  | entry (name : Value)
  | finish (name : Value)

def Call.act : Call μ → Act (Draft μ) Unit
  | node name handler => addNode name handler
  | edge source target => addEdge source target
  | routing source router paths keys => addRouting source router paths keys
  | entry name => setEntry name
  | finish name => setFinish name

end Draft

/-- A builder as a draft, with its names as values. -/
def Builder.draft {μ : Type} (b : Builder μ) : Draft μ where
  schema := b.schema
  name := b.name
  nodes := .ofTable (fun _ h => h) b.nodes
  edges := .ofTable (fun source es => es.map (Link.mk (.str source))) b.edges
  entry := .ofText? b.entry

end TeamFlow
