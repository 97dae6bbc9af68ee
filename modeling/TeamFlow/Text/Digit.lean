import TeamFlow.Text.Basic

/-! Decimal digits of every script, and integers written with them. The digits of one script stand
in a row of ten, so the zero of each row is all that is listed (Unicode 14). -/

namespace TeamFlow.Text

/-- The zeros of the scripts with decimal digits, in order. -/
def digitZeros : List Nat := [
  0x0030, 0x0660, 0x06F0, 0x07C0, 0x0966, 0x09E6, 0x0A66, 0x0AE6, 0x0B66, 0x0BE6,
  0x0C66, 0x0CE6, 0x0D66, 0x0DE6, 0x0E50, 0x0ED0, 0x0F20, 0x1040, 0x1090, 0x17E0,
  0x1810, 0x1946, 0x19D0, 0x1A80, 0x1A90, 0x1B50, 0x1BB0, 0x1C40, 0x1C50, 0xA620,
  0xA8D0, 0xA900, 0xA9D0, 0xA9F0, 0xAA50, 0xABF0, 0xFF10, 0x104A0, 0x10D30, 0x11066,
  0x110F0, 0x11136, 0x111D0, 0x112F0, 0x11450, 0x114D0, 0x11650, 0x116C0, 0x11730, 0x118E0,
  0x11950, 0x11C50, 0x11D50, 0x11DA0, 0x16A60, 0x16AC0, 0x16B50, 0x1D7CE, 0x1D7D8, 0x1D7E2,
  0x1D7EC, 0x1D7F6, 0x1E140, 0x1E2F0, 0x1E950, 0x1FBF0]

def digit? (c : Char) : Option Nat :=
  (digitZeros.find? fun z => z ≤ c.toNat && c.toNat < z + 10).map (c.toNat - ·)

/-- A run of digits in which single underscores may stand between two digits. -/
def digitRun? : List Char → Option (List Nat)
  | [] => none
  | [c] => (digit? c).map ([·])
  | c :: '_' :: rest => do
    let d ← digit? c
    let ds ← digitRun? rest
    some (d :: ds)
  | c :: rest => do
    let d ← digit? c
    let ds ← digitRun? rest
    some (d :: ds)

/-- The longest run of digits that is read as a number or written for one. -/
def maxDigits : Nat := 4300

/-- The smallest number that is too long to be written. -/
def tooLong : Nat := Nat.pow 10 maxDigits

def isWritable (n : Int) : Bool := n.natAbs < tooLong

theorem isWritable_tooLong : isWritable tooLong = false := by
  unfold isWritable
  rw [Int.natAbs_natCast]
  exact decide_eq_false (Nat.lt_irrefl _)

def notWritable : String :=
  s!"Exceeds the limit ({maxDigits} digits) for integer string conversion; " ++
    "use sys.set_int_max_str_digits() to increase the limit"

/-- The number that a run of digits denotes, most significant digit first. -/
def ofDigits (ds : List Nat) : Nat := ds.foldl (fun n d => 10 * n + d) 0

def natural? (cs : List Char) : Option Nat := do
  let ds ← digitRun? cs
  if ds.length ≤ maxDigits then some (ofDigits ds) else none

/-- Blanks that may surround an integer; the information separators are not among them. -/
def isMargin (c : Char) : Bool :=
  isBlank c && !(0x1C ≤ c.toNat && c.toNat ≤ 0x1F)

/-- An integer in text: margins, an optional sign, digits. -/
def integer? (s : String) : Option Int :=
  match trimBy isMargin s.toList with
  | '-' :: rest => (natural? rest).map fun n => -(n : Int)
  | '+' :: rest => (natural? rest).map fun n => (n : Int)
  | cs => (natural? cs).map fun n => (n : Int)

end TeamFlow.Text
