import TeamFlow.Rehearsal.Expr
import TeamFlow.Rehearsal.Memory
import TeamFlow.Run.Subgraph
import TeamFlow.Team.Supervisor
import TeamFlow.Value.Origin

/-! Scripted handlers, routers and adapters. Each call takes one reply from a script and plays it on
the state. A reply may spoil its own copy of the state first, which nobody else sees. -/

namespace TeamFlow.Rehearsal

inductive Reply where
  | give (e : Expr)
  | fail (why : Failure)
  | ifShorter (channel : Value) (bound : Int) (yes no : Reply)
  | ifSame (a b : Expr) (yes no : Reply)
  | tamper (channel : Value) (e : Expr) (after : Reply)
  | assign (channel : Value) (e after : Expr)

namespace Reply

/-- Change a collection in place; other values stay. -/
def spoil (v extra : Value) : Except Failure Value :=
  match v with
  | .list vs => .ok (.list (vs ++ [extra]))
  | .mapping es => .ok (.mapping (Entries.put es "tampered" extra))
  | .set ring vs => do return Value.withMember (.set ring vs) (← extra.hashed)
  | v => .ok v

/-- A value in which another one stands under a key that it has. -/
def withPart (v key part : Value) : Value :=
  let placed (vs : List Value) : List Value :=
    let n := key.whole?.getD 0
    vs.set (if n < 0 then n + vs.length else n).toNat part
  match v with
  | .mapping es => .mapping (Entries.insert es key part)
  | .list vs => .list (placed vs)
  | .tuple vs => .tuple (placed vs)
  | v => v

/-- Play a reply on what is given, which may be a state that takes no assignments. -/
def play (writable : Bool) (given : Value) : Reply → Except Failure Value
  | give e => e.eval given
  | fail why => .error why
  | ifShorter channel bound yes no => do
    if (← (← given.under channel).length) < bound then play writable given yes
    else play writable given no
  | ifSame a b yes no => do
    let x ← a.eval given
    let y ← b.eval given
    if x.same y then play writable given yes else play writable given no
  | tamper channel e after => do
    let v ← given.under channel
    let extra ← e.eval given
    play writable (withPart given channel (← spoil v extra)) after
  | assign channel e after => do
    let v ← e.eval given
    match writable, given with
    | true, .mapping es => after.eval (.mapping (Entries.insert es (← channel.hashed) v))
    | _, _ => .error .badType

end Reply

/-- A collaborator that may be given anything in the place of a state. -/
abbrev Called := Value → Act (Site Memory) Value

namespace Called

/-- Each call gives an answer of its own, except for what it takes from what it is given. -/
def renewing (call : Called) : Called := fun given => do
  let answer ← call given
  let source ← Site.onMemory Memory.fresh
  return answer.comingFrom source given.doubles

/-- A handler, router or adapter that plays a script. -/
def played (writable : Bool) (script : Script Reply) : Called :=
  renewing fun given => do
    let reply ← Site.onMemory script.draw
    Act.ofExcept (reply.play writable given)

/-- A router that plays a script. -/
def routing (script : Script Reply) : Called := fun given => do
  played (← Site.onMemory Act.get).byHand script given

/-- A handler whose calls are observed under the name of its node. -/
def observed (node : String) (call : Called) : Called := fun given => do
  Site.onMemory (Act.modify fun m => m.observe (.handler node given))
  call given

end Called

def sink (failsAt : Option Int) (s : Step) (_ : Run Memory) : Act (Site Memory) Unit := do
  Site.onMemory (Act.modify fun m => m.observe (.sink s.number s.node))
  if failsAt = some (s.number : Int) then Act.fail (.badValue "sink failed")

end TeamFlow.Rehearsal
