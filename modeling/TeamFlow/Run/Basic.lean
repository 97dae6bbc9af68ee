import TeamFlow.Channel.Store
import TeamFlow.Graph.Basic

/-! Runs. A run takes one step at a time: it calls the handler of the current node, merges the
update and hands the step over; only when it is asked again does it route to the next node. A run
ends once: at the end of the graph, at the step limit or with an error. -/

namespace TeamFlow

inductive Status where
  | pending | running | completed | failed | aborted
deriving DecidableEq

namespace Status

def name : Status → String
  | pending => "pending"
  | running => "running"
  | completed => "completed"
  | failed => "failed"
  | aborted => "aborted"

end Status

/-- One successful step: the node that ran and the update it returned. -/
structure Step where
  number : Nat
  node : String
  delta : Entries

/-- How far the sequence of steps has been taken: not asked for, before the first step, after a step
that has not been routed on, or over. -/
inductive Phase where
  | unopened | opened | paused | closed
deriving DecidableEq

structure Run (μ : Type) where
  graph : Graph μ
  limit : StepLimit
  store : Store
  count : Nat
  current : String
  status : Status
  error : Option RunError
  phase : Phase

inductive Outcome where
  | step (s : Step)
  | over
  | failed (why : Failure)

namespace Graph

variable {μ : Type}

/-- What a call of a node comes to: the update, and the store after it. -/
def settle (g : Graph μ) (store : Store) (node : String) :
    Except Failure Value → Except Failure (Entries × Store)
  | .error (.run e) => .error (.run
      (if e.isAnnotated then { e.nestedIn node with cause := some (.run e) } else e))
  | .error why => .error (.ifWritable why.isWritable (.nodeFailed node why))
  | .ok .null => .ok ([], store)
  | .ok (.mapping update) => match store.apply g.schema update with
    | .ok merged => .ok (update, merged)
    | .error why => .error (if why.isConfiguration then .run (.badUpdate node why) else why)
  | .ok answer => .error (.run (.notMapping node answer))

/-- Call the handler of a node and merge its update. -/
def perform (g : Graph μ) (store : Store) (node : String) : Act (Site μ) (Entries × Store) :=
  match Table.row? g.nodes node with
  | none => Act.fail (.missingKey (.str node))
  | some handler => do g.settle store node (← (handler (.mapping store.snapshot)).attempt)

def start (g : Graph μ) (initial given : Value) : Act (Site μ) (Run μ) := do
  let limit ← g.resolveLimit given
  let store ← Act.ofExcept (Store.create g.schema initial)
  return {
    graph := g, limit, store, count := 0, current := g.entry, status := .pending
    error := none, phase := .unopened }

end Graph

namespace Run

variable {μ : Type}

def state (r : Run μ) : State := r.store.snapshot

/-- Ask for the steps; they can be asked for once. -/
def opened? (r : Run μ) : Except Failure (Run μ) :=
  match r.phase with
  | .unopened => .ok { r with phase := .opened }
  | _ => .error (.badRun "GraphRun has already been started; call stream() for a new run")

/-- End with a run error, at a node. -/
def endWith (r : Run μ) (e : RunError) (node : String) : Outcome × Run μ :=
  let e := e.annotate node r.count (.mapping r.state)
  (.failed (.run e), { r with
    error := some e
    status := if e.fault.isStepLimit then .aborted else .failed
    phase := .closed })

/-- What leaves a sequence of steps that breaks off: an end signal is not passed on as one. -/
def escaping : Failure → Failure
  | .plain .stop _ => .badRun "generator raised StopIteration"
  | why => why

/-- A failure of a call for the given node: run errors end the run, anything else breaks it off. -/
def failWith (r : Run μ) (why : Failure) (node : String) : Outcome × Run μ :=
  match why with
  | .run e => r.endWith e node
  | why => (.failed (escaping why), { r with phase := .closed })

def execute (r : Run μ) (site : Site μ) : (Outcome × Run μ) × Site μ :=
  match r.graph.perform r.store r.current site with
  | (.ok (delta, store), site) =>
    ((.step ⟨r.count + 1, r.current, delta⟩,
      { r with store := store, count := r.count + 1, phase := .paused }), site)
  | (.error why, site) => (r.failWith why r.current, site)

/-- Go on to the node that the last step leads to. -/
def moveTo (r : Run μ) (target : String) (site : Site μ) : (Outcome × Run μ) × Site μ :=
  if target = endName then
    ((.over, { r with current := endName, status := .completed, phase := .closed }), site)
  else if r.limit.value ≤ r.count then
    (r.endWith (.stepLimit r.limit.value (some target)) target, site)
  else execute { r with current := target } site

def next (r : Run μ) (site : Site μ) : (Outcome × Run μ) × Site μ :=
  match r.phase with
  | .unopened => ((.over, r), site)
  | .closed => ((.over, r), site)
  | .opened => execute { r with status := .running } site
  | .paused => match r.graph.nextNode r.current (.mapping r.state) site with
    | (.ok target, site) => moveTo r target site
    | (.error why, site) => (r.failWith why r.current, site)

def takeAll (watch : Step → Run μ → Act (Site μ) Unit) :
    Nat → Run μ → Site μ → (Except Failure Unit × Run μ) × Site μ
  | 0, r, site => ((.ok (), r), site)
  | fuel + 1, r, site => match r.next site with
    | ((.over, r), site) => ((.ok (), r), site)
    | ((.failed why, r), site) => ((.error why, r), site)
    | ((.step s, r), site) => match watch s r site with
      | (.ok (), site) => takeAll watch fuel r site
      | (.error why, site) => ((.error why, r), site)

/-- Take all remaining steps: each with the run as it was then, how it ended, and the run at the
end. -/
def collect : Nat → Run μ → Site μ → (List (Step × Run μ) × Except Failure Unit × Run μ) × Site μ
  | 0, r, site => (([], .ok (), r), site)
  | fuel + 1, r, site => match r.next site with
    | ((.over, r), site) => (([], .ok (), r), site)
    | ((.failed why, r), site) => (([], .error why, r), site)
    | ((.step s, r), site) => match collect fuel r site with
      | ((steps, ending, last), site) => (((s, r) :: steps, ending, last), site)

/-- More steps than a run can still take, the last of which finds it over. -/
def remaining (r : Run μ) : Nat := r.limit.value - r.count + 1

def finish (watch : Step → Run μ → Act (Site μ) Unit) (r : Run μ) (site : Site μ) :
    (Except Failure Unit × Run μ) × Site μ :=
  match r.opened? with
  | .ok r => takeAll watch r.remaining r site
  | .error why => ((.error why, r), site)

end Run

namespace Graph

variable {μ : Type}

def invoke (g : Graph μ) (initial given : Value) (watch : Step → Run μ → Act (Site μ) Unit) :
    Act (Site μ) State := do
  let r ← g.start initial given
  fun site => match r.finish watch site with
    | ((.ok (), r), site) => (.ok r.state, site)
    | ((.error why, _), site) => (.error why, site)

end Graph

end TeamFlow
