import TeamFlow.Value.Display
import TeamFlow.Value.Mapping

/-! Failures. What a collaborator raises is a failure of some kind with a text; what ends a run is a
run error, which says at which node and step it happened, which state was merged last, which error
of a nested run it re-issues and what caused it. -/

namespace TeamFlow

/-- Kinds of failures that are no run errors. -/
inductive FaultKind where
  | value | runtime | index | type | member | assertion | stop | overflow | memory | unsupported
  | graph | configuration | unreadable | undecodable
  | notFound | present | notDirectory | isDirectory | system
deriving DecidableEq

namespace FaultKind

def name : FaultKind → String
  | value => "ValueError"
  | runtime => "RuntimeError"
  | index => "IndexError"
  | type => "TypeError"
  | member => "AttributeError"
  | assertion => "AssertionError"
  | stop => "StopIteration"
  | overflow => "OverflowError"
  | memory => "MemoryError"
  | unsupported => "NotImplementedError"
  | graph => "GraphError"
  | configuration => "ConfigurationError"
  | unreadable => "OutputParserException"
  | undecodable => "UnicodeDecodeError"
  | notFound => "FileNotFoundError"
  | present => "FileExistsError"
  | notDirectory => "NotADirectoryError"
  | isDirectory => "IsADirectoryError"
  | system => "OSError"

/-- The kinds that a scripted collaborator can raise. -/
def raisable : List FaultKind :=
  [value, runtime, index, type, assertion, stop, configuration, graph, unreadable]

def ofName? (s : String) : Option FaultKind := raisable.find? fun k => k.name == s

/-- What stands for a wording that is not this library's. -/
def placeholder (kind : FaultKind) : String := "<" ++ kind.name ++ ">"

/-- Kinds whose wording is not this library's. -/
def isUnworded : FaultKind → Bool
  | type => true
  | member => true
  | unreadable => true
  | undecodable => true
  | _ => false

end FaultKind

/-- One field of an answer or of a tool's arguments that does not have the form asked for. -/
structure FieldFault where
  location : List String
  fault : String
deriving DecidableEq

/-- Kinds of run errors, each with what its wording needs. -/
inductive RunFault where
  | general (text : String)
  | handler (text : String)
  | oracle (text : String)
  | routing (node : String) (key : Value)
  | stepLimit (limit : Int)

/-- An error that ends a run. -/
structure RunErrorOf (F : Type) where
  fault : RunFault
  node : Option String := none
  step : Option Int := none
  lastState : Option Value := none
  inner : Option F := none
  cause : Option F := none

inductive Failure where
  | plain (kind : FaultKind) (text : String)
  | missingKey (key : Value)
  | definition (problems : List String)
  | invalid (faults : List FieldFault)
  | run (error : RunErrorOf Failure)

abbrev RunError := RunErrorOf Failure

namespace RunFault

def name : RunFault → String
  | general _ => "GraphRunError"
  | handler _ => "HandlerError"
  | oracle _ => "OracleContractError"
  | routing _ _ => "RoutingError"
  | stepLimit _ => "RecursionLimitExceeded"

def message : RunFault → String
  | general text => text
  | handler text => text
  | oracle text => text
  | routing node key => "Router for node '" ++ node ++ "' returned unmapped key " ++ key.literal
  | stepLimit limit => s!"Step limit of {limit} reached without hitting END"

def isStepLimit : RunFault → Bool
  | stepLimit _ => true
  | _ => false

end RunFault

namespace RunErrorOf

variable {F : Type}

def message (e : RunErrorOf F) : String := e.fault.message

/-- An error that a run has reported already. -/
def isAnnotated (e : RunErrorOf F) : Bool := e.lastState.isSome

/-- Say where a run ended. A node that is named already stays. -/
def annotate (e : RunErrorOf F) (node : String) (step : Int) (lastState : Value) : RunErrorOf F :=
  { e with node := e.node.or (some node), step := some step, lastState := some lastState }

def routing (node : String) (key : Value) : RunErrorOf F :=
  { fault := .routing node key, node := some node }

def stepLimit (limit : Int) (node : Option String) : RunErrorOf F :=
  { fault := .stepLimit limit, node := node }

end RunErrorOf

/-- Re-issue the error of a nested run as the failure of the enclosing node: same kind and wording,
not yet annotated, with the nested error as its inner one. -/
def RunErrorOf.nestedIn (e : RunError) (node : String) : RunError :=
  { fault := e.fault, node := some node, inner := some (.run e) }

namespace Failure

def name : Failure → String
  | plain kind _ => kind.name
  | missingKey _ => "KeyError"
  | definition _ => "GraphDefinitionError"
  | invalid _ => "ValidationError"
  | run e => e.fault.name

def message : Failure → String
  | plain _ text => text
  | missingKey key => key.literal
  | definition problems => "Invalid graph: " ++ String.intercalate "; " problems
  | invalid _ => "<ValidationError>"
  | run e => e.message

/-- The failure at the bottom of a run error: what caused it, or the error of the nested run that it
re-issues, and so on. -/
def root : Failure → Failure
  | run ⟨_, _, _, _, _, some cause⟩ => root cause
  | run ⟨_, _, _, _, some inner, none⟩ => root inner
  | f => f

/-- A wording that is not this library's, with what stands for it. -/
def foreignWording? : Failure → Option (String × String)
  | plain kind text =>
    if kind.isUnworded && !text.isEmpty then some (text, kind.placeholder) else none
  | _ => none

/-- The message without the wording, from the bottom of a run error, that is not this library's. -/
def ownMessage (f : Failure) : String :=
  match f.root.foreignWording? with
  | some (text, mark) => f.message.replace text mark
  | none => f.message

/-- A complaint about a schema, an initial state or a graph. -/
def isConfiguration : Failure → Bool
  | plain kind _ => kind = .configuration
  | definition _ => true
  | _ => false

/-- A failure whose wording is not this library's. -/
def unworded (kind : FaultKind) : Failure := plain kind kind.placeholder

def badType : Failure := unworded .type

def noAttribute : Failure := unworded .member

/-- A value has no part of the given name. -/
def lacking (v : Value) (name : String) : Failure :=
  plain .member (Text.quoted v.kindName ++ " object has no attribute " ++ Text.quoted name)

def badValue (text : String) : Failure := plain .value text

def badRun (text : String) : Failure := plain .runtime text

def misconfigured (text : String) : Failure := plain .configuration text

end Failure

namespace RunErrorOf

def nodeFailed (node : String) (why : Failure) : RunError :=
  { fault := .handler ("Node '" ++ node ++ "' failed: " ++ why.message)
    node := some node, cause := some why }

def notMapping (node : String) (answer : Value) : RunError :=
  { fault := .handler
      ("Node '" ++ node ++ "' returned " ++ answer.kindName ++ ", expected a mapping")
    node := some node }

def badUpdate (node : String) (why : Failure) : RunError :=
  { fault := .handler ("Node '" ++ node ++ "' returned an invalid update: " ++ why.message)
    node := some node, cause := some why }

def routerFailed (node : String) (why : Failure) : RunError :=
  { fault := .handler ("Router for node '" ++ node ++ "' failed: " ++ why.message)
    node := some node, cause := some why }

/-- An oracle answered outside its contract. -/
def contract (text : String) (cause : Option Failure) : RunError :=
  { fault := .oracle text, cause := cause }

end RunErrorOf

/-- Classes of failures of this library, for the question which of two covers the other. -/
inductive FailureClass where
  | graph | configuration | definition | run | routing | oracle | stepLimit | handler
deriving DecidableEq

namespace FailureClass

def parent? : FailureClass → Option FailureClass
  | graph => none
  | configuration => some graph
  | definition => some configuration
  | run => some graph
  | routing => some run
  | oracle => some run
  | stepLimit => some run
  | handler => some run

def name : FailureClass → String
  | graph => "GraphError"
  | configuration => "ConfigurationError"
  | definition => "GraphDefinitionError"
  | run => "GraphRunError"
  | routing => "RoutingError"
  | oracle => "OracleContractError"
  | stepLimit => "RecursionLimitExceeded"
  | handler => "HandlerError"

def all : List FailureClass :=
  [graph, configuration, definition, run, routing, oracle, stepLimit, handler]

def ofName? (s : String) : Option FailureClass := all.find? fun c => c.name == s

/-- A class is covered by itself, its parent and its parent's parent. -/
def isCoveredBy (c d : FailureClass) : Bool :=
  c = d || c.parent? = some d || (c.parent?.bind parent?) = some d

end FailureClass

end TeamFlow
