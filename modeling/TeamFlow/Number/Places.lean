import TeamFlow.Number.Shortest

/-! Decimal text of a given precision: with so many places after the point, with an exponent, or in
whichever of these two ways is shorter. Digits are rounded to the nearest, a tie to the even one. -/

namespace TeamFlow.Double

/-- Digits before the point, and what follows them. -/
structure Places where
  whole : List Char
  rest : List Char

namespace Places

def padded (size n : Nat) : List Char :=
  let ds := Nat.toDigits 10 n
  List.replicate (size - ds.length) '0' ++ ds

/-- A fraction; without digits the point stays only if it is asked for. -/
def fraction (point : Bool) (ds : List Char) : List Char :=
  if ds.isEmpty && !point then [] else '.' :: ds

/-- `num / den` with so many places. -/
def fixed (point : Bool) (places num den : Nat) : Places :=
  let ds := padded (places + 1) (roundDiv (num * Nat.pow 10 places) den)
  ⟨ds.take (ds.length - places), fraction point (ds.drop (ds.length - places))⟩

/-- The first `places + 1` digits of `num / den` and the power of ten of the first one. -/
def leading (places num den : Nat) : List Char × Int :=
  if num = 0 then (List.replicate (places + 1) '0', 0)
  else
    let e := decimalPlace num den - 1
    let shift : Int := places - e
    let m := roundDiv (num * Nat.pow 10 shift.toNat) (den * Nat.pow 10 (-shift).toNat)
    if m = Nat.pow 10 (places + 1) then (padded (places + 1) (m / 10), e + 1)
    else (padded (places + 1) m, e)

def exponent (mark : Char) (e : Int) : List Char :=
  mark :: (if e < 0 then '-' else '+') :: padded 2 e.natAbs

/-- `num / den` with so many places and an exponent. -/
def scientific (point : Bool) (mark : Char) (places num den : Nat) : Places :=
  let (ds, e) := leading places num den
  ⟨ds.take 1, fraction point (ds.drop 1) ++ exponent mark e⟩

/-- `num / den` with so many digits, zeros at the end left out unless `point` is asked for. Powers
of ten from -4 to below `bound` are written out; `tail` then stands for an empty fraction. -/
def general (point : Bool) (mark : Char) (digits : Nat) (bound : Int) (tail : List Char)
    (num den : Nat) : Places :=
  let (ds, e) := leading (digits - 1) num den
  let short ds := if point then ds else (ds.reverse.dropWhile (· == '0')).reverse
  if -4 ≤ e && e < bound then
    if 0 ≤ e then
      let after := fraction point (short (ds.drop (e.toNat + 1)))
      ⟨ds.take (e.toNat + 1), if after.isEmpty then tail else after⟩
    else
      let after := fraction point (short (List.replicate (-e - 1).toNat '0' ++ ds))
      ⟨['0'], if after.isEmpty then tail else after⟩
  else ⟨ds.take 1, fraction point (short (ds.drop 1)) ++ exponent mark e⟩

end Places

def percent : Double → Double
  | .finite d => ofDyadic (d * Dyadic.ofInt 100)
  | x => x

end TeamFlow.Double
