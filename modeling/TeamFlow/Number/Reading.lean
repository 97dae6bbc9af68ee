import TeamFlow.Number.Double
import TeamFlow.Text.Digit

/-! Reading floating-point numbers: a decimal with an optional exponent, or the name of a value that
has no digits. -/

namespace TeamFlow.Double

def digitsValue (cs : List Char) : Nat := cs.foldl (fun n c => 10 * n + (c.toNat - '0'.toNat)) 0

def signed? : List Char → Option Int
  | '-' :: ds => if !ds.isEmpty && ds.all Char.isDigit then some (-(digitsValue ds : Int)) else none
  | '+' :: ds => if !ds.isEmpty && ds.all Char.isDigit then some (digitsValue ds) else none
  | ds => if !ds.isEmpty && ds.all Char.isDigit then some (digitsValue ds) else none

def unsigned? (negative : Bool) (cs : List Char) : Option Double :=
  let mantissa := cs.takeWhile fun c => c != 'e' && c != 'E'
  let whole := mantissa.takeWhile (· != '.')
  let fraction := mantissa.drop (whole.length + 1)
  let exponent := match cs.drop (mantissa.length + 1) with
    | [] => if mantissa.length < cs.length then none else some 0
    | e => signed? e
  if (whole ++ fraction).all Char.isDigit && !(whole ++ fraction).isEmpty then
    exponent.map fun e => ofDecimal negative (digitsValue (whole ++ fraction)) (e - fraction.length)
  else none

def sign (cs : List Char) : Bool × List Char :=
  match cs with
  | '-' :: rest => (true, rest)
  | '+' :: rest => (false, rest)
  | cs => (false, cs)

/-- A number with an optional sign; names are taken in any case. -/
def decimal? (cs : List Char) : Option Double :=
  let (negative, body) := sign cs
  match String.ofList (body.map Char.toLower) with
  | "inf" => some (.infinity negative)
  | "infinity" => some (.infinity negative)
  | "nan" => some (.notANumber [])
  | _ => unsigned? negative body

/-- Drop underscores, each of which has to stand between two digits. -/
def joined? (before : Char) : List Char → Option (List Char)
  | [] => some []
  | c :: cs =>
    if c = '_' then
      if before.isDigit && cs.head?.any Char.isDigit then joined? c cs else none
    else (joined? c cs).map (c :: ·)

def usualDigit (c : Char) : Char :=
  match Text.digit? c with
  | some n => Char.ofNat ('0'.toNat + n)
  | none => c

/-- The number that a text stands for, with margins or without. -/
def ofText? (s : String) : Option Double :=
  (joined? ' ' ((Text.trimBy Text.isMargin s.toList).map usualDigit)).bind decimal?

end TeamFlow.Double
