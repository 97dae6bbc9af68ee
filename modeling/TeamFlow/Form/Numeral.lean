import TeamFlow.Number.Reading
import TeamFlow.Text.Digit

/-! Numerals that a form accepts for a number. A whole number may have a sign, zeros and underscores
in front, underscores between its digits and a fraction of zeros; what is left when these are gone
has to be a plain decimal. A number with a fraction is a plain decimal with an optional exponent, or
the name of a value that has no digits. -/

namespace TeamFlow.Numeral

inductive Flaw where
  | malformed | tooLong
deriving DecidableEq

def isLeading (c : Char) : Bool := '1' ≤ c && c ≤ '9'

/-- Drop the zeros and underscores that follow the character before. The last of them stays when
nothing else is left, and the one in front of a point stays with the point. -/
def dropPadding (before : Char) : List Char → Option (List Char)
  | [] => some [before]
  | c :: cs =>
    if c = '0' || c = '_' then dropPadding c cs
    else if isLeading c || c = '-' then some (c :: cs)
    else if c = '.' then some (before :: c :: cs)
    else none

/-- Drop the zeros in front, also behind minus signs. -/
def unpadded? : List Char → Option (List Char)
  | [] => none
  | c :: cs =>
    if c = '-' then (unpadded? cs).map ('-' :: ·)
    else if c = '0' then dropPadding '0' cs
    else if isLeading c then some (c :: cs)
    else none

/-- Drop a fraction of zeros; a point without digits behind it is none. -/
def dropFraction (cs : List Char) : List Char :=
  let whole := cs.takeWhile (· != '.')
  let fraction := cs.drop (whole.length + 1)
  if !fraction.isEmpty && fraction.all (· == '0') then whole else cs

def hasDouble (mark : Char) : List Char → Bool
  | a :: b :: rest => (a == mark && b == mark) || hasDouble mark (b :: rest)
  | _ => false

/-- Drop underscores if each of them stands alone and between other characters. -/
def dropUnderscores (cs : List Char) : List Char :=
  if cs.head? == some '_' || cs.getLast? == some '_' || hasDouble '_' cs then cs
  else cs.filter (· != '_')

def leadingDigits (cs : List Char) : List Char :=
  (if cs.head? == some '-' then cs.drop 1 else cs).takeWhile Char.isDigit

/-- Digits, the first of them no zero unless it is the only one, after a possible minus sign. -/
def plain? (cs : List Char) : Option Int :=
  let ds := leadingDigits cs
  let negative := cs.head? == some '-'
  if ds.isEmpty || (ds.head? == some '0' && 1 < ds.length) || Text.maxDigits < ds.length ||
    ds.length + (if negative then 1 else 0) < cs.length then none
  else
    let n := Double.digitsValue ds
    some (if negative then -(n : Int) else n)

/-- Whether a text starts with more digits than a number may have. -/
def isTooLong (cs : List Char) : Bool :=
  let ds := leadingDigits cs
  Text.maxDigits < ds.length && ds.head? != some '0'

/-- What a text is without the parts that do not count. -/
def bare? (cs : List Char) : Option (List Char) :=
  let cs := Text.trimBy Text.isMargin cs
  let unsigned? := match cs with
    | '+' :: '-' :: _ => none
    | '+' :: rest => some rest
    | cs => some cs
  unsigned?.bind unpadded? |>.map fun cs => dropUnderscores (dropFraction cs)

def whole (cs : List Char) : Except Flaw Int :=
  if isTooLong cs then .error .tooLong
  else match (bare? cs).bind plain? with
    | some n => .ok n
    | none => .error .malformed

/-- The number that a text stands for. Margins and underscores are not both passed over. -/
def fractional? (cs : List Char) : Option Double :=
  (Double.decimal? (Text.trimBy Text.isMargin cs)).or (Double.decimal? (dropUnderscores cs))

end TeamFlow.Numeral
