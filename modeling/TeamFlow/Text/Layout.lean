import TeamFlow.Number.Places
import TeamFlow.Text.Digit

/-! Layouts. A layout says how a text or a number is set: fill and alignment, sign, alternate form,
width, grouping, precision and a presentation type, in this order and each of them optional. -/

namespace TeamFlow.Text

inductive Align where
  | left | right | center | inner
deriving DecidableEq

structure Layout where
  fill : Char
  align : Align
  sign : Option Char
  noNegativeZero : Bool
  alternate : Bool
  width : Option Nat
  grouping : Option Char
  precision : Option Nat
  kind : Option Char
deriving DecidableEq

namespace Layout

/-- Why a value cannot be laid out: the layout does not suit it, its number is out of the range of
what it is set as, or the outcome would find no room. -/
inductive Flaw where
  | unsuited (why : String)
  | outOfRange (why : String)
  | noRoom
deriving DecidableEq

def unsuited {α : Type} (why : String) : Except Flaw α := .error (.unsuited why)

def alignOf? (c : Char) : Option Align :=
  if c = '<' then some .left
  else if c = '>' then some .right
  else if c = '^' then some .center
  else if c = '=' then some .inner
  else none

/-- An alignment, with a fill in front of it or without. -/
def takeAlign (cs : List Char) : Option Char × Option Align × List Char :=
  match cs with
  | [] => (none, none, [])
  | c :: rest =>
    let alone := match alignOf? c with
      | some a => (none, some a, rest)
      | none => (none, none, cs)
    match rest with
    | d :: after => match alignOf? d with
      | some a => (some c, some a, after)
      | none => alone
    | [] => alone

def takeIf (p : Char → Bool) : List Char → Option Char × List Char
  | c :: rest => if p c then (some c, rest) else (none, c :: rest)
  | [] => (none, [])

def takeNumber (cs : List Char) : Except String (Option Nat × List Char) :=
  match (cs.takeWhile fun c => (digit? c).isSome).filterMap digit? with
  | [] => .ok (none, cs)
  | ds =>
    if ofDigits ds ≤ greatestSize then
      .ok (some (ofDigits ds), cs.dropWhile fun c => (digit? c).isSome)
    else .error "Too many decimal digits in format string"

def takePrecision (cs : List Char) : Except String (Option Nat × List Char) :=
  match takeIf (· = '.') cs with
  | (none, rest) => .ok (none, rest)
  | (some _, rest) => do
    match ← takeNumber rest with
    | (none, _) => .error "Format specifier missing precision"
    | found => .ok found

def takeGrouping (cs : List Char) : Except String (Option Char × List Char) :=
  let clash := .error "Cannot specify both ',' and '_'."
  match cs with
  | ',' :: '_' :: _ => clash
  | '_' :: ',' :: _ => clash
  | c :: rest => if c = ',' || c = '_' then .ok (some c, rest) else .ok (none, cs)
  | [] => .ok (none, [])

/-- A character as a complaint shows it. -/
def shown (c : Char) : String :=
  if 32 < c.toNat && c.toNat < 128 then String.singleton c
  else "\\x" ++ String.ofList (Nat.toDigits 16 c.toNat)

/-- Grouping is for decimal numbers; an underscore also groups the other bases. -/
def checkGrouping (grouping kind : Option Char) : Except String Unit :=
  match grouping, kind with
  | some g, some k =>
    if "defgEG%F\x00".contains k || (g = '_' && "boxX".contains k) then .ok ()
    else .error ("Cannot specify '" ++ String.singleton g ++ "' with '" ++ shown k ++ "'.")
  | _, _ => .ok ()

/-- Read a layout for a value of the named kind. Numbers stand at the right and are padded after
their sign, all else stands at the left. -/
def read (numeric : Bool) (kindName : String) (cs : List Char) : Except String Layout := do
  let (fill, align, cs₁) := takeAlign cs
  let (sign, cs₂) := takeIf (fun c => c = ' ' || c = '+' || c = '-') cs₁
  let (coerced, cs₃) := takeIf (· = 'z') cs₂
  let (hash, cs₄) := takeIf (· = '#') cs₃
  let (zero, cs₅) := if fill.isNone then takeIf (· = '0') cs₄ else (none, cs₄)
  let (width, cs₆) ← takeNumber cs₅
  let (grouping, cs₇) ← takeGrouping cs₆
  let (precision, cs₈) ← takePrecision cs₇
  let kind ← match cs₈ with
    | [] => pure (if numeric then none else some 's')
    | [k] => pure (some k)
    | _ => .error ("Invalid format specifier '" ++ String.ofList cs ++ "' for object of type '" ++
        kindName ++ "'")
  checkGrouping grouping kind
  let usual := if !numeric then .left else if zero.isSome then .inner else .right
  return {
    fill := fill.getD (zero.getD ' '), align := align.getD usual, sign
    noNegativeZero := coerced.isSome, alternate := hash.isSome, width, grouping, precision, kind }

def parse (numeric : Bool) (kindName : String) (cs : List Char) : Except Flaw Layout :=
  (read numeric kindName cs).mapError .unsuited

def pad (l : Layout) (lead body : List Char) : List Char :=
  let size := lead.length + body.length
  let gap := l.width.getD 0 - size
  let filled n := List.replicate n l.fill
  match l.align with
  | .left => lead ++ body ++ filled gap
  | .right => filled gap ++ lead ++ body
  | .center => filled (gap / 2) ++ lead ++ body ++ filled (gap - gap / 2)
  | .inner => lead ++ filled gap ++ body

/-- Lay out what there is room for. -/
def laid (l : Layout) (set : Unit → List Char × List Char) : Except Flaw (List Char) :=
  if roomFor < l.width.getD 0 then .error .noRoom else .ok (l.pad (set ()).1 (set ()).2)

def unknownKind (k : Char) (kindName : String) : String :=
  "Unknown format code '" ++ shown k ++ "' for object of type '" ++ kindName ++ "'"

/-- Set a text: cut it to the precision and pad it. -/
def setText (l : Layout) (kindName : String) (cs : List Char) : Except Flaw (List Char) :=
  match l.kind with
  | some 's' =>
    if l.sign = some ' ' then unsuited "Space not allowed in string format specifier"
    else if l.sign.isSome then unsuited "Sign not allowed in string format specifier"
    else if l.noNegativeZero then
      unsuited "Negative zero coercion (z) not allowed in string format specifier"
    else if l.alternate then unsuited "Alternate form (#) not allowed in string format specifier"
    else if l.align = .inner then unsuited "'=' alignment not allowed in string format specifier"
    else l.laid fun _ => ([], match l.precision with
      | some n => cs.take n
      | none => cs)
  | some k => unsuited (unknownKind k kindName)
  | none => .ok cs

/-- Digits in groups from the right, with leading zeros until the text has the least width, in front
of the groups that are done. -/
def grouped (mark : Char) (size : Nat) : Nat → Nat → List Char → List Char → List Char
  | 0, _, ds, done => ds.reverse ++ done
  | fuel + 1, least, ds, done =>
    let len := min size (max (max ds.length least) 1)
    let here := (ds.take len ++ List.replicate (len - ds.length) '0').reverse
    let rest := ds.drop len
    if rest.isEmpty && least ≤ len then here ++ done
    else grouped mark size fuel (least - len - 1) rest (mark :: here ++ done)

def signOf (l : Layout) (negative : Bool) : List Char :=
  if negative then ['-'] else match l.sign with
    | some '+' => ['+']
    | some ' ' => [' ']
    | _ => []

/-- Digits in groups of the given size, if grouping is asked for; zeros that fill up the width, of
which `taken` characters are used, are grouped with them. -/
def groupDigits (l : Layout) (size taken : Nat) (ds : List Char) : List Char :=
  match l.grouping with
  | none => ds
  | some g =>
    let least := if l.fill = '0' && l.align = .inner then l.width.getD 0 - taken else 0
    grouped g size (ds.length + least) least ds.reverse []

/-- Lead and digits of an integer in the base of its kind. -/
def integerDigits (l : Layout) (kind : Char) (n : Int) : List Char × List Char :=
  let sign := l.signOf (n < 0)
  let (base, mark) : Nat × List Char := match kind with
    | 'b' => (2, ['0', 'b'])
    | 'o' => (8, ['0', 'o'])
    | 'x' => (16, ['0', 'x'])
    | 'X' => (16, ['0', 'X'])
    | _ => (10, [])
  let ds := Nat.toDigits base n.natAbs
  let ds := if kind = 'X' then ds.map Char.toUpper else ds
  let lead := sign ++ if l.alternate then mark else []
  (lead, l.groupDigits (if base = 10 then 3 else 4) lead.length ds)

/-- No number has more significant digits than this. -/
def mostDigits : Nat := 1100

/-- The digits of `num / den` in one of the kinds for numbers with a fraction. -/
def places? (l : Layout) (num den : Nat) : Option Double.Places :=
  let p := l.precision.getD 6
  let bound := max p 1
  let digits := if l.alternate then bound else min bound mostDigits
  match l.kind with
  | some 'f' => some (.fixed l.alternate p num den)
  | some 'F' => some (.fixed l.alternate p num den)
  | some '%' =>
    let r := Double.Places.fixed l.alternate p num den
    some { r with rest := r.rest ++ ['%'] }
  | some 'e' => some (.scientific l.alternate 'e' p num den)
  | some 'E' => some (.scientific l.alternate 'E' p num den)
  | some 'g' => some (.general l.alternate 'e' digits bound [] num den)
  | some 'n' => some (.general l.alternate 'e' digits bound [] num den)
  | some 'G' => some (.general l.alternate 'E' digits bound [] num den)
  | none => some (.general l.alternate 'e' digits (bound - 1) ['.', '0'] num den)
  | _ => none

def isUpperKind (kind : Option Char) : Bool :=
  kind == some 'E' || kind == some 'F' || kind == some 'G'

/-- The kinds for numbers with a fraction; the null character stands for no kind. -/
def isDoubleKind (kind : Option Char) : Bool :=
  match kind with
  | some k => "eEfFgGn%\x00".contains k
  | none => true

/-- The greatest precision of a number with a fraction. -/
def greatestPrecision : Nat := 2147483647

/-- Digits with the sign in front, grouped, padded. -/
def setPlaces (l : Layout) (negative : Bool) (r : Double.Places) : Except Flaw (List Char) :=
  let lead := l.signOf negative
  l.laid fun _ => (lead, l.groupDigits 3 (lead.length + r.rest.length) r.whole ++ r.rest)

def setWord (l : Layout) (negative : Bool) (w : List Char) : Except Flaw (List Char) :=
  l.laid fun _ => (l.signOf negative, (if isUpperKind l.kind then w.map Char.toUpper else w) ++
    if l.kind == some '%' then ['%'] else [])

/-- Set a quotient: without kind and precision in the shortest form. -/
def setQuotient (l : Layout) (negative : Bool) (num den : Nat) : Except Flaw (List Char) :=
  if l.kind.isNone && l.precision.isNone then
    let text := (if num = 0 then "0.0" else Double.positiveText num den).toList
    let whole := text.takeWhile Char.isDigit
    let rest := text.drop whole.length
    let rest := if l.alternate && rest.head? == some 'e' then '.' :: rest else rest
    l.setPlaces (negative && !(l.noNegativeZero && num == 0)) ⟨whole, rest⟩
  else match l.places? num den with
    | none => unsuited (unknownKind (l.kind.getD ' ') "float")
    | some r =>
      let digits := r.whole ++ r.rest.takeWhile fun c => c != 'e' && c != 'E'
      let isZero := digits.all fun c => !c.isDigit || c == '0'
      l.setPlaces (negative && !(l.noNegativeZero && isZero)) r

def setDouble (l : Layout) (x : Double) : Except Flaw (List Char) :=
  if !isDoubleKind l.kind then unsuited (unknownKind (l.kind.getD ' ') "float")
  else if greatestPrecision < l.precision.getD 0 then unsuited "precision too big"
  else
    let l := if l.kind == some '\x00' then { l with kind := none } else l
    match if l.kind == some '%' then x.percent else x with
    | .notANumber _ => l.setWord false ['n', 'a', 'n']
    | .infinity negative => l.setWord negative ['i', 'n', 'f']
    | .negativeZero => l.setQuotient true 0 1
    | .finite d => l.setQuotient (d.toRat.num < 0) d.toRat.num.natAbs d.toRat.den

def tooLarge : Flaw := .outOfRange "int too large to convert to float"

/-- The complaint about a number that is no code point; one beyond 64 bits is not even looked at. -/
def noCharacter (n : Int) : Flaw :=
  if (greatestSize : Int) < n ∨ n < -(greatestSize : Int) - 1 then
    .outOfRange "Python int too large to convert to C long"
  else .outOfRange "%c arg not in range(0x110000)"

/-- Set an integer; in the kinds for numbers with a fraction it is set as one. -/
def setInteger (l : Layout) (kindName : String) (n : Int) : Except Flaw (List Char) :=
  let kind := l.kind.getD 'd'
  if "eEfFgG%".contains kind then
    match Double.ofInt? n with
    | some x => l.setDouble x
    | none => .error tooLarge
  else if !"bcdoxXn".contains kind then unsuited (unknownKind kind kindName)
  else if l.precision.isSome then unsuited "Precision not allowed in integer format specifier"
  else if l.noNegativeZero then
    unsuited "Negative zero coercion (z) not allowed in integer format specifier"
  else if kind = 'c' then
    if l.sign.isSome then unsuited "Sign not allowed with integer format specifier 'c'"
    else if l.alternate then
      unsuited "Alternate form (#) not allowed with integer format specifier 'c'"
    else if n < 0 ∨ 0x10FFFF < n then .error (noCharacter n)
    else l.laid fun _ => ([], [Char.ofNat n.toNat])
  else if (kind = 'd' || kind = 'n') && !isWritable n then unsuited notWritable
  else l.laid fun _ => integerDigits l kind n

end Layout

end TeamFlow.Text
