import TeamFlow.Site
import TeamFlow.Table

/-! Edges. An edge leads from a node to a fixed target, or asks a router for a key and looks the
target up among its paths. A router may declare the keys it gives. -/

namespace TeamFlow

/-- Where a graph starts and where a run ends; no node bears these names. -/
def startName : String := "__start__"

def endName : String := "__end__"

/-- A router, with the keys that are attached to it and the keys its answer is declared to be. -/
structure Router (μ : Type) where
  answer : Value → Act (Site μ) Value
  attached : Value
  declared : Option (List Value)

/-- What a caller gives as the paths of an edge. -/
inductive PathMap where
  | pairs (entries : List (Value × Value))
  | names (targets : List Value)
  | text (s : String)

/-- A router's edge: paths by key, and the keys that the router is known to give. -/
structure Routing (μ T : Type) where
  answer : Value → Act (Site μ) Value
  paths : List (Value × T)
  keys : Option (List Value)

inductive Edge (μ T : Type) where
  | fixed (target : T)
  | routed (r : Routing μ T)

/-- A set of values; only what can be a key may be in it. -/
def asKeys (vs : List Value) : Except Failure (List Value) :=
  if vs.all Value.isHashable then .ok (Value.distinct vs) else .error .badType

namespace Router

variable {μ : Type}

/-- The keys that a router is known to give: attached ones first, else declared ones. -/
def knownKeys (r : Router μ) : Except Failure (Option (List Value)) :=
  match r.attached, r.declared with
  | .null, none => .ok none
  | .null, some vs => do .ok (some (← asKeys vs))
  | v, _ => do .ok (some (← asKeys (← v.items)))

end Router

namespace PathMap

/-- The paths by key; a list of targets leads from each to itself. -/
def toEntries : PathMap → Except Failure Entries
  | pairs es =>
    if es.all fun e => e.1.isHashable then .ok (Entries.ofPairs es) else .error .badType
  | names vs =>
    if vs.all Value.isHashable then .ok (Entries.ofPairs (vs.map fun v => (v, v)))
    else .error .badType
  | text s =>
    .ok (Entries.ofPairs (s.toList.map fun c =>
      (.str (String.singleton c), .str (String.singleton c))))

end PathMap

namespace Routing

variable {μ T : Type}

/-- A routing whose keys are given, or those its router is known to give. -/
def make (router : Router μ) (paths : PathMap) (keys : Value) :
    Except Failure (Routing μ Value) := do
  let known ← match keys with
    | .null => router.knownKeys
    | v => do pure (some (← asKeys (← v.items)))
  return ⟨router.answer, ← paths.toEntries, known⟩

def pathOf? (r : Routing μ T) (key : Value) : Option T :=
  (r.paths.find? fun p => p.1.alike key).map Prod.snd

def targets (r : Routing μ Value) : Except Failure (List Value) := asKeys (r.paths.map Prod.snd)

/-- The targets in order, if they have one. -/
def sortedTargets (r : Routing μ Value) : Except Failure (List Value) := do
  Value.sorted (← r.targets)

def unmapped (r : Routing μ T) : List Value :=
  (r.keys.getD []).filter fun k => (r.pathOf? k).isNone

def mapTargets {U : Type} (f : T → U) (r : Routing μ T) : Routing μ U :=
  ⟨r.answer, r.paths.map fun p => (p.1, f p.2), r.keys⟩

end Routing

namespace Edge

variable {μ T U : Type}

def targets : Edge μ T → List T
  | fixed t => [t]
  | routed r => r.paths.map Prod.snd

def mapTargets (f : T → U) : Edge μ T → Edge μ U
  | fixed t => fixed (f t)
  | routed r => routed (r.mapTargets f)

end Edge

end TeamFlow
