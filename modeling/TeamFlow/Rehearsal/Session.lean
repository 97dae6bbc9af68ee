import TeamFlow.Rehearsal.Cast
import TeamFlow.Team.Hierarchy

/-! Sessions. A session keeps what its steps make under names, so that later steps can use it. A
step either succeeds or meets trouble; what it changed by then stays changed, and the names stay. -/

namespace TeamFlow.Rehearsal

/-- A failure of the library, or a name under which nothing was made. -/
inductive Trouble where
  | failure (f : Failure)
  | noSuch (name : String)

/-- A handler for states that take assignments or do not, and the text that shows it, if it has
one. -/
abbrev Bound := Offered (Bool → Called) × Option String

structure Session where
  site : Site Memory
  builders : Table (Builder Memory)
  graphs : Table (Graph Memory)
  runs : Table (Run Memory)
  bound : Table Bound
  models : Table Nat
  oracles : Table Nat
  schemas : List Schema
  schemaNames : Table Nat
  stores : Table (Nat × Store)
  kept : Table State

/-- What steps do. -/
abbrev Play := ExceptT Trouble (StateM Session)

instance {α : Type} : Inhabited (Play α) := ⟨throw (.noSuch "")⟩

namespace Session

/-- The directory in which a rehearsal takes place. -/
def scratch : Place := ["tmp", "rehearsal_0"]

def workspace : Workspace := ⟨scratch ++ ["ws"]⟩

/-- A session in which nothing has been made, except for an empty schema. -/
def fresh (settings : Settings) : Session where
  site := ⟨settings, scratch, FileTree.ofDirectory scratch, Memory.empty⟩
  builders := []
  graphs := []
  runs := []
  bound := []
  models := []
  oracles := []
  schemas := [Schema.empty]
  schemaNames := [("s", 0)]
  stores := []
  kept := []

end Session

namespace Play

variable {α : Type}

def fail (f : Failure) : Play α := throw (.failure f)

def lift (r : Except Failure α) : Play α :=
  match r with
  | .ok a => pure a
  | .error f => fail f

def onSite (x : Act (Site Memory) α) : Play α := do
  let s ← get
  match x s.site with
  | (r, site) => do
    set { s with site := site }
    lift r

def onFiles (x : Act FileTree α) : Play α := onSite (Site.onFiles x)

def named (t : Session → Table α) (name : String) : Play α := do
  match Table.row? (t (← get)) name with
  | some a => pure a
  | none => throw (.noSuch name)

def freshNumber : Play Nat := onSite (Site.onMemory Memory.fresh)

/-- Do something on its own: its trouble is its result. -/
def settle (x : Play α) : Play (Except Trouble α) := fun s =>
  match x.run s with
  | (r, s) => (.ok r, s)

/-! ### Builders, graphs and runs -/

def onBuilder (name : String) (x : Act (Builder Memory) α) : Play α := do
  match x (← named Session.builders name) with
  | (r, b) => do
    modify fun s => { s with builders := Table.put s.builders name b }
    lift r

def putBuilder (name : String) (b : Builder Memory) : Play Unit :=
  modify fun s => { s with builders := Table.put s.builders name b }

def putGraph (name : String) (g : Graph Memory) : Play Unit :=
  modify fun s => { s with graphs := Table.put s.graphs name g }

def putRun (name : String) (r : Run Memory) : Play Unit :=
  modify fun s => { s with runs := Table.put s.runs name r }

def bind (name : String) (h : Bound) : Play Unit :=
  modify fun s => { s with bound := Table.put s.bound name h }

def openRun (name : String) : Play (Run Memory) := do
  let r ← lift (← named Session.runs name).opened?
  putRun name r
  return r

/-- A run whose steps are asked for, now if not before. -/
def opened (name : String) : Play (Run Memory) := do
  let r ← named Session.runs name
  if r.phase = .unopened then openRun name else return r

def next (name : String) : Play Step := do
  let r ← opened name
  let s ← get
  match r.next s.site with
  | ((o, r), site) => do
    set { s with site := site }
    putRun name r
    match o with
    | .step st => return st
    | .over => fail (.plain .stop "")
    | .failed why => fail why

/-- The node that follows a node, where its router is called by hand. -/
def nextNode (g : Graph Memory) (node : String) (given : Value) : Play String := onSite do
  Site.onMemory (Act.modify fun m => { m with byHand := true })
  let next ← (g.nextNode node given).attempt
  Site.onMemory (Act.modify fun m => { m with byHand := false })
  next

/-! ### Schemas and stores -/

/-- The number of a schema, by which its stores know it. -/
def schemaNumber (name : String) : Play Nat := named Session.schemaNames name

def schemaAt (number : Nat) : Play Schema := do
  return ((← get).schemas[number]?).getD Schema.empty

def schema (name : String) : Play Schema := do schemaAt (← schemaNumber name)

def putSchema (name : String) (schema : Schema) : Play Unit :=
  modify fun s => { s with
    schemas := s.schemas ++ [schema]
    schemaNames := Table.put s.schemaNames name s.schemas.length }

/-- Change a schema, also for the stores that it has. -/
def changeSchema (name : String) (f : Schema → Except Failure Schema) : Play Unit := do
  let number ← schemaNumber name
  let schema ← lift (f (← schemaAt number))
  modify fun s => { s with schemas := s.schemas.set number schema }

def newStore (schemaName name : String) (initial : Value) : Play Store := do
  let number ← schemaNumber schemaName
  let store ← lift (Store.create (← schemaAt number) initial)
  modify fun s => { s with stores := Table.put s.stores name (number, store) }
  return store

def store (name : String) : Play (Schema × Store) := do
  let (number, store) ← named Session.stores name
  return (← schemaAt number, store)

def changeStore (name : String) (f : Schema → Store → Except Failure Store) :
    Play (Schema × Store) := do
  let (number, store) ← named Session.stores name
  let schema ← schemaAt number
  let store ← lift (f schema store)
  modify fun s => { s with stores := Table.put s.stores name (number, store) }
  return (schema, store)

def merge (storeName channel : String) (v : Value) : Play Value := do
  let (schema, store) ← changeStore storeName fun s t => t.merge s channel v
  lift (store.get schema channel)

/-! ### Files -/

/-- Change the files beside the workspace's own operations, where a path leads. -/
def setUp (path : String)
    (f : List String → FileTree → Except (FileFault × List String) Unit × FileTree) : Play Unit :=
  let steps := Place.extend Session.scratch path
  if !Place.isSound steps then fail Workspace.nullByte
  else onFiles fun t => match f steps t with
    | (.ok (), t) => (.ok (), t)
    | (.error (why, steps), t) => (.error (why.atPath (Place.text steps)), t)

def newDirectory (path : String) : Play Unit := setUp path FileTree.makePath

def newFile (path digits : String) : Play Unit := do
  let content ← lift (Content.ofHex digits)
  setUp path fun steps t => match t.write steps content with
    | .ok t => (.ok (), t)
    | .error why => (.error (why, steps), t)

end Play

/-! ### The demonstration -/

/-- The hierarchy of scripted teams over the workspace. -/
def hierarchy (research searching writing : ChatModel Memory)
    (researchOracle documentOracle top : Oracle Memory)
    (researchLimit documentLimit limit : Value) :
    Act (Site Memory) (Graph Memory) :=
  Team.Crew.build {
    researcher := research, searcher := searching, scrape := none, writer := writing
    researchOracle, documentOracle, oracle := top, researchLimit, documentLimit, limit }
    Session.workspace

end TeamFlow.Rehearsal
