/-! Binary floating-point numbers of 64 bits, as exact values: a dyadic rational with at most 53
significant bits and an exponent of at least -1074, a negative zero, the infinities, and values that
are not numbers, which are told apart by their origin. Sums and conversions round to the nearest
value, a tie to the even one. -/

namespace TeamFlow

inductive Double where
  | finite (value : Dyadic)
  | negativeZero
  | infinity (negative : Bool)
  | notANumber (origin : List Nat)

namespace Double

def leastExponent : Int := -1074

def bits (n : Nat) : Nat := if n = 0 then 0 else n.log2 + 1

/-- The quotient rounded to the nearest natural number, a tie to the even one. -/
def roundDiv (num den : Nat) : Nat :=
  let q := num / den
  let r := num % den
  if 2 * r < den then q else if den < 2 * r then q + 1 else q + q % 2

/-- `num * 2 ^ (-e) / den`, rounded. -/
def roundAt (num den : Nat) (e : Int) : Nat :=
  if 0 ≤ e then roundDiv num (den * Nat.pow 2 e.toNat)
  else roundDiv (num * Nat.pow 2 (-e).toNat) den

/-- The exponent of the last place for a quotient: 53 bits stay above it. -/
def placeOf (num den : Nat) : Int :=
  let guess : Int := (bits num : Int) - bits den - 53
  let small := if 0 ≤ guess then num < den * Nat.pow 2 (guess.toNat + 53)
    else num * Nat.pow 2 (-guess).toNat < den * Nat.pow 2 53
  max leastExponent (if small then guess else guess + 1)

def ofQuotient (negative : Bool) (num den : Nat) : Double :=
  let e := placeOf num den
  let m := roundAt num den e
  if m = 0 then (if negative then .negativeZero else .finite 0)
  else if 1024 < (bits m : Int) + e then .infinity negative
  else .finite (Dyadic.ofIntWithPrec (if negative then -(m : Int) else m) (-e))

/-- Nearest value to a dyadic rational. -/
def ofDyadic (d : Dyadic) : Double :=
  ofQuotient (d.toRat.num < 0) d.toRat.num.natAbs d.toRat.den

/-- Nearest value to an integer; none beyond the largest finite value. -/
def ofInt? (n : Int) : Option Double :=
  match ofQuotient (n < 0) n.natAbs 1 with
  | .infinity _ => none
  | x => some x

/-- Powers of ten beyond this one lead out of the range of finite values, on either side. -/
def farPower : Int := 400

def ofDecimal (negative : Bool) (mantissa : Nat) (exponent : Int) : Double :=
  if mantissa = 0 ∨ exponent + bits mantissa < -farPower then ofQuotient negative 0 1
  else if farPower < exponent then .infinity negative
  else if 0 ≤ exponent then ofQuotient negative (mantissa * Nat.pow 10 exponent.toNat) 1
  else ofQuotient negative mantissa (Nat.pow 10 (-exponent).toNat)

/-- The exact value, where there is one. -/
def dyadic? : Double → Option Dyadic
  | .finite d => some d
  | .negativeZero => some 0
  | _ => none

def isZero : Double → Bool
  | .finite d => d == 0
  | .negativeZero => true
  | _ => false

def add : Double → Double → Double
  | .notANumber origin, _ => .notANumber origin
  | _, .notANumber origin => .notANumber origin
  | .infinity a, .infinity b => if a == b then .infinity a else .notANumber []
  | .infinity a, _ => .infinity a
  | _, .infinity b => .infinity b
  | .negativeZero, .negativeZero => .negativeZero
  | .negativeZero, y => y
  | x, .negativeZero => x
  | .finite a, .finite b => ofDyadic (a + b)

/-- Numerical equality: the two zeros agree, and what is not a number equals nothing. -/
def same : Double → Double → Bool
  | .infinity a, .infinity b => a == b
  | x, y => match x.dyadic?, y.dyadic? with
    | some a, some b => a == b
    | _, _ => false

/-- Whether neither is a number and both come from the same origin. -/
def sameOrigin : Double → Double → Bool
  | .notANumber a, .notANumber b => a == b
  | _, _ => false

/-- What is no number, as coming from one more source. -/
def comingFrom (source : Nat) : Double → Double
  | .notANumber origin => .notANumber (source :: origin)
  | x => x

/-- Numerical order; false whenever a side is not a number. -/
def less : Double → Double → Bool
  | .notANumber _, _ => false
  | _, .notANumber _ => false
  | .infinity a, .infinity b => a && !b
  | .infinity a, _ => a
  | _, .infinity b => !b
  | x, y => match x.dyadic?, y.dyadic? with
    | some a, some b => a.blt b
    | _, _ => false

end Double

end TeamFlow
