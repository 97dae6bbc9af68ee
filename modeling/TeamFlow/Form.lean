import TeamFlow.Form.Numeral
import TeamFlow.Value.Access

/-! Forms. A form lists the fields that an answer or the arguments of a tool have to have. Filling
it in checks every field and reports all faults; fields that the form does not name are left out.
What is proved of answers uses the checks of texts and of choices among texts only. -/

namespace TeamFlow

inductive FieldType where
  | text
  | oneOf (choices : List Value)
  | integer
  | texts
  | textsByNumber
  | optional (type : FieldType)

structure FormField where
  name : String
  type : FieldType
  default : Option Value := none

structure Form where
  name : String
  fields : List FormField

/-- A value that fits, or the faults that keep it from fitting. -/
abbrev Fit (α : Type) := Except (List FieldFault) α

namespace Fit

variable {α β γ : Type}

def fault (kind : String) : Fit α := .error [⟨[], kind⟩]

/-- Say where in a larger value the faults are. -/
def within (place : List String) (f : Fit α) : Fit α :=
  f.mapError fun faults => faults.map fun x => { x with location := place ++ x.location }

def both (g : α → β → γ) : Fit α → Fit β → Fit γ
  | .ok a, .ok b => .ok (g a b)
  | .ok _, .error fs => .error fs
  | .error fs, .ok _ => .error fs
  | .error fs, .error gs => .error (fs ++ gs)

def toExcept (f : Fit α) : Except Failure α := f.mapError Failure.invalid

end Fit

namespace FieldType

def fitText : Value → Fit Value
  | .str s => .ok (.str s)
  | _ => Fit.fault "string_type"

/-- A whole number, also one that is written in text or stored with a fraction of zero and of less
than 64 bits. -/
def fitInteger : Value → Fit Value
  | .int n => .ok (.int n)
  | .bool b => .ok (.int (Value.ofFlag b))
  | .float x => match x.dyadic? with
    | some d =>
      if d.toRat.den ≠ 1 then Fit.fault "int_from_float"
      else if d.toRat.num.natAbs < 9223372036854775808 then .ok (.int d.toRat.num)
      else Fit.fault "int_parsing_size"
    | none => Fit.fault "finite_number"
  | .str s => match Numeral.whole s.toList with
    | .ok n => .ok (.int n)
    | .error .malformed => Fit.fault "int_parsing"
    | .error .tooLong => Fit.fault "int_parsing_size"
  | _ => Fit.fault "int_type"

/-- Fit each member of a list; a fault says at which place it is. -/
def fitEach (fit : Value → Fit Value) (place : Nat) : List Value → Fit (List Value)
  | [] => .ok []
  | v :: vs => Fit.both List.cons (Fit.within [toString place] (fit v)) (fitEach fit (place + 1) vs)

/-- A key as part of a location; booleans are the numbers 0 and 1. -/
def keyText : Value → String
  | .str s => s
  | .bool b => (Value.int (Value.ofFlag b)).literal
  | k => k.literal

def fitEntries : Entries → Fit Entries
  | [] => .ok []
  | (k, v) :: es =>
    Fit.both List.cons
      (Fit.both Prod.mk (Fit.within [keyText k, "[key]"] (fitInteger k))
        (Fit.within [keyText k] (fitText v)))
      (fitEntries es)

/-- The members of a value that can be taken for a list: neither a text nor a mapping. -/
def listed? : Value → Option (List Value)
  | .str _ => none
  | .mapping _ => none
  | v => v.items.toOption

def isWord : Value → Bool
  | .int n => -9223372036854775808 ≤ n && n < 9223372036854775808
  | _ => false

def isWide : Value → Bool
  | .int n => n < -9223372036854775808 || 9223372036854775808 ≤ n
  | _ => false

/-- Flags, texts and whole numbers. -/
def isPlain : Value → Bool
  | .bool _ => true
  | .str _ => true
  | .int _ => true
  | _ => false

/-- Choices without those that repeat an earlier one of their kind. -/
def distinct (choices : List Value) : List Value :=
  choices.foldl (fun kept c =>
    if kept.any fun k => k.kindName == c.kindName && k.alike c then kept else kept ++ [c]) []

/-- Texts and whole numbers of at most 64 bits: choices that only a value of their own kind finds at
once. -/
def isDirect : Value → Bool
  | .str _ => true
  | v => isWord v

/-- The choice that a value stands for: the flag, text or short number that it is; else the last
equal one of the others, those that can be changed in place after them; else the last equal flag,
text or number. -/
def choice? (choices : List Value) (v : Value) : Option Value :=
  let last (among : Value → Bool) := choices.reverse.find? fun c => among c && c.alike v
  (choices.find? fun c =>
      isPlain c && !isWide c && c.kindName == v.kindName && c.alike v)
    |>.or (last fun c => c.isHashable && !isDirect c)
    |>.or (choices.find? fun c => !c.isHashable && c.alike v)
    |>.or (last isPlain)

/-- A number of more than 64 bits is not even looked up among choices that have shorter ones. -/
def fitChoice (choices : List Value) (v : Value) : Fit Value :=
  let choices := if choices.all Value.isHashable then distinct choices else choices
  if isWide v && choices.any isWord then Fit.fault "int_parsing_size"
  else match choice? choices v with
    | some c => .ok c
    | none => Fit.fault "literal_error"

def fit : FieldType → Value → Fit Value
  | text, v => fitText v
  | oneOf choices, v => fitChoice choices v
  | integer, v => fitInteger v
  | texts, v => match listed? v with
    | some vs => (fitEach fitText 0 vs).map Value.list
    | none => Fit.fault "list_type"
  | textsByNumber, .mapping es => (fitEntries es).map fun es => .mapping (Entries.ofPairs es)
  | textsByNumber, _ => Fit.fault "dict_type"
  | optional _, .null => .ok .null
  | optional t, v => t.fit v

end FieldType

namespace FormField

def fit (f : FormField) (given : Entries) : Fit (String × Value) :=
  match given.get? f.name, f.default with
  | some v, _ => (Fit.within [f.name] (f.type.fit v)).map fun v => (f.name, v)
  | none, some v => .ok (f.name, v)
  | none, none => .error [⟨[f.name], "missing"⟩]

end FormField

namespace Form

def fitFields (given : Entries) : List FormField → Fit (List (String × Value))
  | [] => .ok []
  | f :: fs => Fit.both List.cons (f.fit given) (fitFields given fs)

def fields? (form : Form) (given : Entries) : Fit (List (String × Value)) :=
  fitFields given form.fields

/-- The form filled in. -/
def fill (form : Form) (given : Entries) : Except Failure Value := do
  return .record form.name (← (form.fields? given).toExcept)

/-- The form filled in from a mapping whose keys are texts. -/
def fillFrom (form : Form) : Value → Except Failure Value
  | .mapping es => if (Value.texts? (es.map Prod.fst)).isSome then form.fill es else .error .badType
  | _ => .error .badType

end Form

end TeamFlow
