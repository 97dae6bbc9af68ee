import TeamFlow.Graph.Basic
import TeamFlow.Team.Supervisor

/-! Stars. A team is a supervisor and its workers: it starts at the supervisor, every worker returns
to it, and it goes on to the worker that it names or to the end. -/

namespace TeamFlow.Team

variable {μ : Type}

def supervisorNode : String := "supervisor"

abbrev Workers (μ : Type) := Table (Offered (Handler μ))

def paths (workers : Workers μ) : PathMap :=
  .pairs ((Table.names workers).map (fun n => (.str n, .str n)) ++
    [(.str finishName, .str endName)])

def addWorkers : Workers μ → Act (Builder μ) Unit
  | [] => pure ()
  | (name, handler) :: workers => do
    Builder.addNode name handler
    Builder.addEdge name supervisorNode
    addWorkers workers

def assemble (s : Supervisor μ) (workers : Workers μ) : Act (Builder μ) Unit := do
  Builder.addNode supervisorNode (.callable s.handler)
  addWorkers workers
  Builder.addRouting supervisorNode Supervisor.route (paths workers) (.list s.options)
  Builder.addEdge startName supervisorNode

/-- The graph of a team; the supervisor's members have to be the workers. -/
def star (schema : Except Failure Schema) (s : Supervisor μ) (workers : Workers μ)
    (stepLimit : Value) (name : Option String) : Except Failure (Graph μ) := do
  let names := (Table.names workers).map Value.str
  let members ← Value.sorted s.members
  let sortedNames ← Value.sorted names
  if !(Value.list members).alike (.list sortedNames) then
    .error (.badValue ("Supervisor members " ++ (Value.list s.members).literal ++
      " do not match workers " ++ (Value.list names).literal))
  let schema ← schema
  match assemble s workers (Builder.new schema name) with
  | (.ok (), b) => b.compile stepLimit
  | (.error why, _) => .error why

end TeamFlow.Team
