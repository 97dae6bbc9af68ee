import TeamFlow.Channel.Schema
import TeamFlow.Value.Members

/-! Stores. A store holds the current value of each channel of a schema. An update is checked and
merged as a whole: either every entry is merged or the store stays as it was. Readers get copies. -/

namespace TeamFlow

structure Store where
  values : Table Value

namespace Store

def merge (s : Schema) (store : Store) (name : String) (v : Value) : Except Failure Store := do
  let c ← s.channel name
  match Table.row? store.values name with
  | some old => do
    let new ← c.reducer old v
    .ok ⟨Table.put store.values name new⟩
  | none => .error (.missingKey (.str name))

def mergeAll (s : Schema) : Store → Table Value → Except Failure Store
  | store, [] => .ok store
  | store, (name, v) :: rows => do mergeAll s (← store.merge s name v) rows

/-- Merge an update, all of it or nothing. -/
def apply (s : Schema) (store : Store) (update : Entries) : Except Failure Store := do
  mergeAll s store (← s.checked "Update" update)

/-- Merge an update that may be no mapping; then only its keys are looked at. -/
def applyValue (s : Schema) (store : Store) (update : Value) : Except Failure Store :=
  match update with
  | .mapping es => store.apply s es
  | v => do
    let _ ← s.checked "Update" ((← v.items).map fun k => (k, .null))
    .error .noAttribute

def get (s : Schema) (store : Store) (name : String) : Except Failure Value := do
  let _ ← s.channel name
  match Table.row? store.values name with
  | some v => .ok v.copied
  | none => .error (.missingKey (.str name))

/-- The state as its readers see it. -/
def snapshot (store : Store) : State := store.values.map fun r => (.str r.1, r.2.copied)

theorem snapshot_eq_ofFields (store : Store) :
    store.snapshot = Entries.ofFields (Table.mapRows Value.copied store.values) := by
  simp [snapshot, Entries.ofFields, Table.mapRows]

def initialRows : List Channel → Except Failure (Table Value)
  | [] => .ok []
  | c :: cs => do
    let v ← c.initial
    let rows ← initialRows cs
    .ok ((c.name, v) :: rows)

/-- A store with the defaults of a schema, into which initial values are merged. -/
def create (s : Schema) (initial : Value) : Except Failure Store :=
  match s.problems with
  | [] => do
    let update ← if initial.isTruthy then initial.entries else .ok []
    let _ ← s.checked "Initial state" update
    let rows ← initialRows s.channels
    apply s ⟨rows⟩ update
  | problems => .error (.misconfigured (String.intercalate "; " problems))

theorem mergeAll_cons (s : Schema) (store : Store) (name : String) (v : Value)
    (rows : Table Value) :
    mergeAll s store ((name, v) :: rows) = (store.merge s name v).bind (mergeAll s · rows) := rfl

end Store

end TeamFlow
