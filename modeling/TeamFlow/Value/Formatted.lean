import TeamFlow.Text.Layout
import TeamFlow.Text.Template
import TeamFlow.Value.Facet

/-! Filling templates. Each field is looked up by name among the given values, reduced to one of its
parts, converted and laid out; a layout may itself hold fields, one level deep. A value that is put
in is never read as a template again. -/

namespace TeamFlow.Value

open Text

def placeNumber? (cs : List Char) : Except Failure (Option Nat) :=
  match Layout.takeNumber cs with
  | .error why => .error (.badValue why)
  | .ok (some n, []) => .ok (some n)
  | .ok _ => .ok none

def itemAt (what : String) (xs : List Value) (n : Nat) : Except Failure Value :=
  match xs[n]? with
  | some x => .ok x
  | none => .error (.plain .index (what ++ " index out of range"))

def entryOf (es : Entries) (key : Value) : Except Failure Value :=
  match Entries.find? es key with
  | some v => .ok v
  | none => .error (.missingKey key)

def itemOf (v : Value) (name : List Char) : Except Failure Value := do
  match v, ← placeNumber? name with
  | list xs, some n => itemAt "list" xs n
  | tuple xs, some n => itemAt "tuple" xs n
  | str s, some n => itemAt "string" (s.toList.map fun c => str (String.singleton c)) n
  | mapping es, some n => entryOf es (int n)
  | mapping es, none => entryOf es (str (String.ofList name))
  | _, _ => .error .badType

end Value

namespace Facet

open Text

/-- One step from a facet to one of its parts. -/
def part (f : Facet) : Access → Except Failure Facet
  | .attribute name => f.follow (String.ofList name)
  | .item name => match f with
    | value v _ => do return .ofValue (← v.itemOf name)
    | f => do
      match f, ← Value.placeNumber? name with
      | kinds all, some n => match all[n]? with
        | some k => return .kind k
        | none => .error (.plain .index "tuple index out of range")
      | kind k, place =>
        if k.isNarrowable then return .narrowed k ((place.map fun (n : Nat) =>
          Value.int n).getD (.str (String.ofList name)))
        else .error .badType
      | _, _ => .error .badType

def parts (f : Facet) : List (Except String Access) → Except Failure Facet
  | [] => .ok f
  | .error why :: _ => .error (.badValue why)
  | .ok a :: rest => do parts (← part f a) rest

def ofField (args : Entries) (f : Field) : Except Failure Facet := do
  let place ← if f.head.isEmpty then pure (some 0) else Value.placeNumber? f.head
  match place with
  | some n => .error (.plain .index
      s!"Replacement index {n} out of range for positional args tuple")
  | none => parts (.ofValue (← Value.entryOf args (.str (String.ofList f.head)))) f.accesses

def converted (f : Facet) : Option Char → Except Failure Facet
  | none => .ok f
  | some c =>
    if c = 'r' then f.written.map ofText
    else if c = 's' then f.shown.map ofText
    else if c = 'a' then f.written.map fun s => .ofText (Value.asciiOnly s)
    else .error (.badValue ("Unknown conversion specifier " ++
      if 32 < c.toNat && c.toNat < 127 then String.singleton c
      else "\\x" ++ String.ofList (Nat.toDigits 16 c.toNat)))

def layoutFailure : Layout.Flaw → Failure
  | .unsuited why => .badValue why
  | .outOfRange why => .plain .overflow why
  | .noRoom => .plain .memory ""

/-- A value set by a layout; only texts and numbers can be. -/
def set (v : Value) (kindName : String) (layout : List Char) :
    Except Failure (Except Layout.Flaw (List Char)) :=
  match v with
  | .str s => .ok do (← Layout.parse false kindName layout).setText kindName s.toList
  | .int n => .ok do (← Layout.parse true kindName layout).setInteger kindName n
  | .bool b => .ok do (← Layout.parse true kindName layout).setInteger kindName (Value.ofFlag b)
  | .float x => .ok do (← Layout.parse true kindName layout).setDouble x
  | _ => .error .badType

/-- A facet laid out. An empty layout shows anything; only texts and numbers take another one. -/
def laidOut (f : Facet) (layout : List Char) : Except Failure String :=
  if layout.isEmpty then f.shown
  else match f with
    | value v k => do
      match ← set v k.name layout with
      | .ok cs => return String.ofList cs
      | .error flaw => .error (layoutFailure flaw)
    | _ => .error .badType

end Facet

namespace Value

open Text

/-- Fill pieces from left to right; `nested` fills in a layout that holds fields. -/
def fillPieces (nested : List Char → Except Failure String) (args : Entries) :
    List Piece → Except Failure String
  | [] => .ok ""
  | .text cs :: ps => do return String.ofList cs ++ (← fillPieces nested args ps)
  | .flaw why :: _ => .error (.badValue why)
  | .field f :: ps => do
    let shown ← (← Facet.ofField args f).converted f.conversion
    let layout ← if f.layout.contains '\x7b' then nested f.layout
      else pure (String.ofList f.layout)
    let here ← shown.laidOut layout.toList
    return here ++ (← fillPieces nested args ps)

/-- A layout whose own layouts hold no fields. -/
def fillLayout (args : Entries) (layout : List Char) : Except Failure String :=
  fillPieces (fun _ => .error (.badValue "Max string recursion exceeded")) args (pieces layout)

/-- A template with every field filled from the given values. -/
def fill (template : String) (args : Entries) : Except Failure String :=
  fillPieces (fillLayout args) args (pieces template.toList)

end TeamFlow.Value
