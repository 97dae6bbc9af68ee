import TeamFlow.Team.Oracle

/-! What scripted collaborators remember: how far each script has been used, and what they were
shown. Everything that has to be told apart takes a number of its own. -/

namespace TeamFlow.Rehearsal

/-- Something that happened in front of an observer. -/
inductive Event where
  | handler (node : String) (given : Value)
  | sink (step : Nat) (node : String)

/-- Scripts, oracles and models are known by numbers. Routers are called by runs, or by hand with
what takes assignments. -/
structure Memory where
  byHand : Bool
  nextNumber : Nat
  used : List (Nat × Nat)
  events : List Event
  requests : List (Nat × Request)
  asks : List (Nat × Ask)

namespace Memory

def empty : Memory := ⟨false, 0, [], [], [], []⟩

def fresh : Act Memory Nat := do
  let m ← Act.get
  Act.modify fun m => { m with nextNumber := m.nextNumber + 1 }
  return m.nextNumber

def timesUsed (m : Memory) (script : Nat) : Nat :=
  ((m.used.find? fun u => u.1 == script).map Prod.snd).getD 0

def use (m : Memory) (script : Nat) : Memory :=
  { m with used := (script, m.timesUsed script + 1) :: m.used.filter fun u => u.1 != script }

def observe (m : Memory) (e : Event) : Memory := { m with events := m.events ++ [e] }

def noteRequest (m : Memory) (oracle : Nat) (r : Request) : Memory :=
  { m with requests := m.requests ++ [(oracle, r)] }

def noteAsk (m : Memory) (model : Nat) (a : Ask) : Memory :=
  { m with asks := m.asks ++ [(model, a)] }

def asksOf (m : Memory) (model : Nat) : List Ask :=
  (m.asks.filter fun a => a.1 == model).map Prod.snd

/-- What a model is asked, with the tools and the form that it was given last where it is given
none. -/
def inFull (m : Memory) (model : Nat) (a : Ask) : Ask :=
  match (m.asksOf model).getLast? with
  | some last => { a with tools := a.tools.or last.tools, form := a.form.or last.form }
  | none => a

end Memory

/-- How a script goes on: each reply once, all of them again and again, or one for ever. -/
inductive Mode where
  | once | cycle | constant
deriving DecidableEq

structure Script (α : Type) where
  number : Nat
  mode : Mode
  replies : List α

namespace Script

variable {α β : Type}

/-- The place of the reply that comes after so many. -/
def place (s : Script α) (used : Nat) : Nat :=
  match s.mode with
  | .once => used
  | .cycle => used % s.replies.length
  | .constant => 0

def draw (s : Script α) : Act Memory α := do
  let m ← Act.get
  match s.replies[s.place (m.timesUsed s.number)]? with
  | none => Act.fail (.plain .assertion "script exhausted")
  | some reply =>
    Act.modify fun m => m.use s.number
    return reply

end Script

end TeamFlow.Rehearsal
