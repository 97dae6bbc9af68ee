import TeamFlow.Failure
import TeamFlow.Text.Basic

/-! Reading values: their members, their entries, their length, their last member and their order. A
state is a table of channel values in entry form, as handlers and routers see it. -/

namespace TeamFlow

namespace Value

/-- The value, if it can be a key of a mapping or a member of a set. -/
def hashed (v : Value) : Except Failure Value :=
  match v.changeable? with
  | none => .ok v
  | some w => .error (.plain .type ("unhashable type: " ++ Text.quoted w.kindName))

def pairItems (fields : List (String × Value)) : List Value :=
  fields.map fun f => tuple [str f.1, f.2]

/-- The members of a collection: keys of a mapping, characters of a text, named fields of a
record. -/
def items : Value → Except Failure (List Value)
  | list xs => .ok xs
  | tuple xs => .ok xs
  | set _ xs => .ok xs
  | mapping es => .ok (es.map Prod.fst)
  | str s => .ok (s.toList.map fun c => str (String.singleton c))
  | message m => .ok (pairItems (messageFields m))
  | record _ fs => .ok (pairItems fs)
  | _ => .error .badType

/-- The member at a place of a sequence that becomes a mapping: a key and a value. -/
def entryAt (place : Nat) (v : Value) : Except Failure (Value × Value) := do
  match ← v.items with
  | [k, w] => do return (← k.hashed, w)
  | xs => .error (.badValue
      s!"dictionary update sequence element #{place} has length {xs.length}; 2 is required")

def entriesFrom (place : Nat) : List Value → Except Failure (List (Value × Value))
  | [] => .ok []
  | v :: vs => do
    let e ← entryAt place v
    let es ← entriesFrom (place + 1) vs
    .ok (e :: es)

/-- The entries of a mapping, or of a collection of pairs. -/
def entries : Value → Except Failure Entries
  | mapping es => .ok es
  | message m => .ok (Entries.ofFields (messageFields m))
  | record _ fs => .ok (Entries.ofFields fs)
  | v => do .ok (Entries.ofPairs (← entriesFrom 0 (← v.items)))

def length : Value → Except Failure Nat
  | list xs => .ok xs.length
  | tuple xs => .ok xs.length
  | set _ xs => .ok xs.length
  | mapping es => .ok es.length
  | str s => .ok s.length
  | _ => .error .badType

/-- A whole number, as which a boolean counts too. -/
def whole? : Value → Option Int
  | int n => some n
  | bool b => some (ofFlag b)
  | _ => none

def member (what : String) (xs : List Value) (offset : Value) : Except Failure Value :=
  match offset.whole? with
  | none => .error .badType
  | some n =>
    if !Text.isOffset n then .error (.plain .index Text.noOffset)
    else
      let n := if n < 0 then n + xs.length else n
      match if n < 0 then none else xs[n.toNat]? with
      | some x => .ok x
      | none => .error (.plain .index (what ++ " index out of range"))

/-- What a value has under a key: an entry of a mapping, or the member of a sequence at an
offset. -/
def under (v key : Value) : Except Failure Value :=
  match v with
  | mapping es => do
    match Entries.find? es (← key.hashed) with
    | some w => .ok w
    | none => .error (.missingKey key)
  | list xs => member "list" xs key
  | tuple xs => member "tuple" xs key
  | str s => member "string" (s.toList.map fun c => str (String.singleton c)) key
  | _ => .error .badType

def last (v : Value) : Except Failure Value := v.under (int (-1))

/-- What a mapping has under a key, nothing if the key is not there. -/
def under? (v key : Value) : Except Failure Value :=
  match v with
  | mapping es => do return (Entries.find? es (← key.hashed)).getD null
  | _ => .error .noAttribute

/-- Whether something is in a value: a key, a member or a part of a text. -/
def holds (v part : Value) : Except Failure Bool :=
  match v, part with
  | str s, str t => .ok (t.isEmpty || 1 < (s.splitOn t).length)
  | str _, _ => .error .badType
  | mapping es, k => do return Entries.has es (← k.hashed)
  | set _ xs, x => do return (← x.hashed).isAmong xs
  | v, x => do return x.isAmong (← v.items)

/-- The texts of a list that holds nothing else. -/
def texts? : List Value → Option (List String)
  | [] => some []
  | str s :: vs => (texts? vs).map (s :: ·)
  | _ :: _ => none

/-- Texts joined by commas; other values cannot be joined. -/
def joined (vs : List Value) : Except Failure String :=
  match texts? vs with
  | some ss => .ok (commas ss)
  | none => .error .badType

/-! ### Order

Numbers compare by size and texts by code points; sequences of one kind compare at the first place
where they differ; a set is below the sets that properly include it. Other values do not compare. -/

mutual

def less : Value → Value → Except Failure Bool
  | str s, str t => .ok (s < t)
  | list xs, list ys => lessItems xs ys
  | tuple xs, tuple ys => lessItems xs ys
  | set _ xs, set _ ys => .ok (xs.length < ys.length && allAmong xs ys)
  | a, b => match a.number?, b.number? with
    | some x, some y => .ok (x.less y)
    | _, _ => .error .badType

def lessItems : List Value → List Value → Except Failure Bool
  | _, [] => .ok false
  | [], _ :: _ => .ok true
  | x :: xs, y :: ys => if alike x y then lessItems xs ys else less x y

end

/-- Whether each value compares with every later one. -/
def comparable : List Value → Bool
  | [] => true
  | v :: vs => vs.all (fun w => (less v w).isOk) && comparable vs

def sorted (vs : List Value) : Except Failure (List Value) :=
  if comparable vs then .ok (vs.mergeSort fun a b => !((b.less a).toOption.getD false))
  else .error .badType

end Value

/-- A state as its readers see it. -/
abbrev State := Entries

/-- What a collaborator is given as a state; what is no mapping has nothing to be asked for. -/
def Value.state : Value → Except Failure State
  | .mapping es => .ok es
  | _ => .error .noAttribute

namespace State

/-- The value of a channel that has to be there. -/
def need (s : State) (name : String) : Except Failure Value :=
  match s.get? name with
  | some v => .ok v
  | none => .error (.missingKey (.str name))

/-- The value of a channel, nothing if it is not there. -/
def peek (s : State) (name : String) : Value := (s.get? name).getD .null

/-- The members of a channel, none if the channel is absent or empty. -/
def itemsOf (s : State) (name : String) : Except Failure (List Value) :=
  let v := s.peek name
  if v.isTruthy then v.items else .ok []

end State

end TeamFlow
