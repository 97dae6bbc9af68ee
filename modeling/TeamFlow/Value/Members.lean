import TeamFlow.Value.Mapping

/-! Members of sets. The members of a set sit in a ring of seats, and there are always more seats
than members. Each looks for a seat by its number, in the order in which they are added, and goes on
to others while it finds no free one. The members stand in the order of their seats. Not all values
have a number that is always the same; a set that holds one of these has no ring, and its members
stand in the order in which they were added. -/

namespace TeamFlow.Value

/-- Numbers are reduced by this one, so that those of two equal members are the same. -/
def modulus : Nat := 2305843009213693951

/-- How many numbers of 64 bits there are. -/
def numbers : Nat := 18446744073709551616

/-- The number by which a number looks for a seat. That of a fraction is what has to be multiplied
by its denominator, a power of two, to make up its numerator. -/
def seatNumberOf : Double → Option Int
  | .infinity negative => some (if negative then -314159 else 314159)
  | x => x.dyadic?.map fun d =>
    let halvings := d.toRat.den.log2 % 61
    let n := d.toRat.num.natAbs * Nat.pow 2 (61 - halvings) % modulus
    if 0 ≤ d.toRat.num then n else if n = 1 then -2 else -(n : Int)

/-- Take the number of one more member of a tuple into account. -/
def mixed (sum number : Nat) : Nat :=
  let sum := (sum + number * 14029467366897019727) % numbers
  let turned := (sum * 2147483648 + sum / 8589934592) % numbers
  turned * 11400714785074694791 % numbers

/-- The number of a tuple of so many members. -/
def tupleNumber (sum length : Nat) : Nat :=
  let n := (sum + (length ^^^ (2870177450012600261 ^^^ 3527539))) % numbers
  if n = numbers - 1 then 1546275796 else n

mutual

/-- The number by which a member looks for a seat, of 64 bits. -/
def seatNumber? : Value → Option Nat
  | null => some 0xFCA86420
  | str s => if s.isEmpty then some 0 else none
  | tuple xs => (seatSum? 2870177450012600261 xs).map fun sum => tupleNumber sum xs.length
  | v => (v.number?.bind seatNumberOf).map fun n => (n % (numbers : Int)).toNat

def seatSum? (sum : Nat) : List Value → Option Nat
  | [] => some sum
  | x :: xs => (seatNumber? x).bind fun n => seatSum? (mixed sum n) xs

end

/-- Seats in a ring: how many there are, and who sits where, with the number that led there. -/
structure Seats where
  size : Nat
  taken : List (Nat × Nat × Value)

namespace Seats

def isFree (s : Seats) (seat : Nat) : Bool := s.taken.all fun t => t.1 != seat

/-- The first free seat for a number: it or one of the nine behind it, if these do not lead round
the ring, else the same from a seat further on. The third argument bounds the number of tries. -/
def find (s : Seats) (number : Nat) : Nat → Nat → Nat
  | seat, 0 => seat
  | seat, tries + 1 =>
    let near := (List.range (if seat + 9 < s.size then 10 else 1)).map (seat + ·)
    match near.find? s.isFree with
    | some free => free
    | none => find s (number / 32) ((5 * seat + 1 + number / 32) % s.size) tries

/-- Take a seat. Numbers have 64 bits, so after thirteen tries nothing is left of them, and then
every seat comes up in turn. -/
def take (s : Seats) (number : Nat) (v : Value) : Seats :=
  let seat := s.find number (number % s.size) (s.size + 13)
  { s with taken := s.taken ++ [(seat, number, v)] }

/-- The places in the order of the seats. -/
def inOrder (s : Seats) : List (Nat × Nat × Value) :=
  s.taken.mergeSort fun a b => decide (a.1 ≤ b.1)

/-- The same members in a ring of another size, where they sit down in the order of their seats. -/
def resized (s : Seats) (size : Nat) : Seats :=
  s.inOrder.foldl (fun t m => t.take m.2.1 m.2.2) ⟨size, []⟩

/-- The least power of two above a number, from a given one on. The first argument bounds how often
it is doubled. -/
def sizeAbove : Nat → Nat → Nat → Nat
  | 0, size, _ => size
  | fuel + 1, size, n => if size ≤ n then sizeAbove fuel (2 * size) n else size

/-- The size of the smallest ring. -/
def leastSize : Nat := 8

/-- Whether so many members are three in five of the seats or more, which are too many. -/
def isFull (size members : Nat) : Bool := 3 * (size - 1) ≤ 5 * members

def add (s : Seats) (number : Nat) (v : Value) : Seats :=
  let s := s.take number v
  let members := s.taken.length
  if isFull s.size members then s.resized (sizeAbove members leastSize (4 * members)) else s

/-- The members of a ring, in the order in which they sat down. -/
def members (s : Seats) : List Value := s.taken.map fun t => t.2.2

/-- The seats of a set, if all of its members have numbers. Each of them has a seat. -/
def ofSet? (ring : Ring) (vs : List Value) : Option Seats := do
  if ring.size = 0 ∨ ring.seats.length ≠ vs.length then none
  let numbers ← vs.mapM seatNumber?
  return ⟨ring.size, ring.seats.zip (numbers.zip vs)⟩

def toSet (s : Seats) : Value :=
  set ⟨s.size, s.inOrder.map Prod.fst⟩ (s.inOrder.map fun t => t.2.2)

theorem inOrder_perm (s : Seats) : s.inOrder.Perm s.taken := List.mergeSort_perm _ _

theorem members_take (s : Seats) (number : Nat) (v : Value) :
    (s.take number v).members = s.members ++ [v] := by
  simp [members, take]

theorem members_takeAll (ms : List (Nat × Nat × Value)) (s : Seats) :
    (ms.foldl (fun t m => t.take m.2.1 m.2.2) s).members =
      s.members ++ ms.map fun t => t.2.2 := by
  induction ms generalizing s with
  | nil => simp
  | cons m ms ih => simp [ih, members_take]

theorem members_resized (s : Seats) (size : Nat) : (s.resized size).members.Perm s.members := by
  rw [resized, members_takeAll]
  exact (inOrder_perm s).map _

end Seats

def emptySet : Value := set ⟨Seats.leastSize, []⟩ []

/-- A set with one more member, unless an equal one is in it. -/
def withMember (container v : Value) : Value :=
  match container with
  | set ring vs =>
    if v.isAmong vs then set ring vs
    else match Seats.ofSet? ring vs, v.seatNumber? with
      | some s, some n => (s.add n v).toSet
      | _, _ => set ⟨0, []⟩ (vs ++ [v])
  | other => other

/-- The set of some values. -/
def setOf (vs : List Value) : Value := vs.foldl withMember emptySet

/-- A copy. The copy of a set sits in a ring for twice as many; if that is the ring in which it sits
already, everyone keeps the seat. -/
def copied (v : Value) : Value :=
  match v with
  | set ring vs =>
    let size := if Seats.isFull Seats.leastSize vs.length
      then Seats.sizeAbove vs.length Seats.leastSize (2 * vs.length) else Seats.leastSize
    if ring.size = size then v
    else match Seats.ofSet? ring vs with
      | some s => (s.resized size).toSet
      | none => v
  | v => v

end TeamFlow.Value
