import TeamFlow.Run.Basic

/-! Graphs as nodes. A whole run of an inner graph is one step of an outer one: an adapter shapes
the outer state into the inner initial state, another one the inner final state into the outer
update. -/

namespace TeamFlow

/-- An adapter reads what it is given, in a run a state, and answers with a value. -/
abbrev Adapter (μ : Type) := Value → Act (Site μ) Value

structure Subgraph (μ : Type) where
  graph : Graph μ
  enter : Adapter μ
  leave : Adapter μ
  stepLimit : Value
  name : String

namespace Subgraph

variable {μ : Type}

/-- A graph as a node; it bears the name of the graph unless it is given one. -/
def of (graph : Graph μ) (enter leave : Adapter μ) (stepLimit : Value) (name : Option String) :
    Subgraph μ :=
  ⟨graph, enter, leave, stepLimit, match name with
    | none => graph.name
    | some n => if n.isEmpty then graph.name else n⟩

def handler (s : Subgraph μ) : Handler μ := fun given => do
  let initial ← s.enter given
  let final ← s.graph.invoke initial s.stepLimit fun _ _ => pure ()
  let answer ← s.leave (.mapping final)
  let entries ← Act.ofExcept answer.entries
  return .mapping entries

def text (s : Subgraph μ) : String := "SubgraphNode(" ++ Text.quoted s.name ++ ")"

end Subgraph

namespace Adapter

variable {μ : Type}

/-- Only the named channels, as far as they are there. -/
def selectChannels (names : List Value) : Adapter μ := fun given => Act.ofExcept do
  let entries ← names.filterMapM fun n => do
    if ← given.holds n then return some (← n.hashed, ← given.under n) else return none
  return .mapping (Entries.ofPairs entries)

/-- Only the last entry of a log. -/
def lastMessage (channel : Value) : Adapter μ := fun given => Act.ofExcept do
  let log ← given.under? channel
  let entries ← if log.isTruthy then log.items else pure []
  return .mapping [(channel, .list (entries.drop (entries.length - 1)))]

end Adapter

end TeamFlow
