import TeamFlow.Number.Double

/-! The shortest decimal text of a floating-point number: the fewest significant digits that read
back as the same number, and of those the nearest. Powers of ten from -4 to 15 are written
positionally and with a fraction, others with an exponent of at least two digits. -/

namespace TeamFlow.Double

/-- The decimals that read back as a number: `low / den` to `high / den` around `mid / den`, with
the ends themselves when `closed`. -/
structure Window where
  low : Nat
  mid : Nat
  high : Nat
  den : Nat
  closed : Bool

/-- The window of `m * 2 ^ e`. Below a power of two the neighbour is half as far away. -/
def Window.of (m : Nat) (e : Int) : Window :=
  let edge := m == Nat.pow 2 52 && leastExponent < e
  let scale := Nat.pow 2 (e - 2).toNat
  let low := if edge then 4 * m - 1 else 4 * m - 2
  ⟨low * scale, 4 * m * scale, (4 * m + 2) * scale, Nat.pow 2 (2 - e).toNat, m % 2 == 0⟩

def Window.contains (w : Window) (num den : Nat) : Bool :=
  let x := num * w.den
  if w.closed then w.low * den ≤ x && x ≤ w.high * den
  else w.low * den < x && x < w.high * den

def gridPoint (n : Nat) (k : Int) : Nat × Nat := (n * Nat.pow 10 k.toNat, Nat.pow 10 (-k).toNat)

/-- The point of the grid of spacing `10 ^ k` that reads back, the nearer one if two do. -/
def Window.onGrid? (w : Window) (k : Int) : Option Nat :=
  let num := w.mid * Nat.pow 10 (-k).toNat
  let den := w.den * Nat.pow 10 k.toNat
  let q := num / den
  let r := num % den
  let fits n := w.contains (gridPoint n k).1 (gridPoint n k).2
  let near := if 2 * r < den || (2 * r == den && q % 2 == 0) then q else q + 1
  let far := if near == q then q + 1 else q
  if near != 0 && fits near then some near else if far != 0 && fits far then some far else none

/-- The number `p` with `10 ^ (p - 1) ≤ num / den < 10 ^ p`, for a quotient above zero. -/
def decimalPlace (num den : Nat) : Int :=
  if den ≤ num then (Nat.toDigits 10 (num / den)).length
  else
    let rec zeros : Nat → Nat → Int
      | 0, _ => 0
      | fuel + 1, n => if den ≤ 10 * n then 0 else zeros fuel (10 * n) - 1
    zeros den num

/-- Try grids from one digit on; seventeen digits always suffice. -/
def Window.digits (w : Window) : Nat × Int :=
  let place := decimalPlace w.mid w.den
  let rec find : Nat → Int → Nat × Int
    | 0, k => (w.mid * Nat.pow 10 (-k).toNat / (w.den * Nat.pow 10 k.toNat), k)
    | fuel + 1, k => match w.onGrid? k with
      | some n => (n, k)
      | none => find fuel (k - 1)
  find 17 (place - 1)

def dropZeros : Nat → Nat → Int → Nat × Int
  | 0, n, k => (n, k)
  | fuel + 1, n, k => if n % 10 == 0 && n != 0 then dropZeros fuel (n / 10) (k + 1) else (n, k)

/-- Lay out `n * 10 ^ k`. -/
def layout (n : Nat) (k : Int) : String :=
  let ds := Nat.toDigits 10 n
  let point : Int := ds.length + k
  if -4 < point && point ≤ 16 then
    if point ≤ 0 then
      String.ofList ('0' :: '.' :: List.replicate (-point).toNat '0' ++ ds)
    else if (ds.length : Int) ≤ point then
      String.ofList (ds ++ List.replicate (point - ds.length).toNat '0' ++ ['.', '0'])
    else String.ofList (ds.take point.toNat ++ '.' :: ds.drop point.toNat)
  else
    let e := point - 1
    let body := match ds with
      | [d] => [d]
      | d :: rest => d :: '.' :: rest
      | [] => []
    let size := Nat.toDigits 10 e.natAbs
    String.ofList (body ++ ['e', if e < 0 then '-' else '+'] ++
      List.replicate (2 - size.length) '0' ++ size)

/-- Mantissa and exponent of the last place of a positive dyadic number. -/
def parts (num den : Nat) : Nat × Int :=
  let e := placeOf num den
  (roundAt num den e, e)

def positiveText (num den : Nat) : String :=
  let (m, e) := parts num den
  let (n, k) := (Window.of m e).digits
  let (n, k) := dropZeros 20 n k
  layout n k

def text : Double → String
  | .notANumber _ => "nan"
  | .infinity negative => if negative then "-inf" else "inf"
  | .negativeZero => "-0.0"
  | .finite d =>
    let r := d.toRat
    if r.num = 0 then "0.0"
    else if r.num < 0 then "-" ++ positiveText r.num.natAbs r.den
    else positiveText r.num.natAbs r.den

end TeamFlow.Double
