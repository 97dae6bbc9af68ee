import TeamFlow.Failure

/-! What files hold: text, or bytes that encode none. Bytes that encode no text are shown with a
mark for each stretch that begins like a character and does not go on like one. -/

namespace TeamFlow

/-- What a file holds: text, or bytes that are no text, with what is shown in their stead. -/
inductive Content where
  | text (s : String)
  | undecodable (shown : String)

namespace Content

def shown : Content → String
  | text s => s
  | undecodable s => s

/-- How a character goes on: the number of bytes that follow the first one, the range of the one
that comes next, and what the first byte adds to the character. -/
structure Lead where
  following : Nat
  low : Nat
  high : Nat
  bits : Nat

/-- What the first byte of a character says, if a character may begin with it. -/
def lead? (byte : Nat) : Option Lead :=
  if byte < 0x80 then some ⟨0, 0, 0, byte⟩
  else if byte < 0xC2 then none
  else if byte < 0xE0 then some ⟨1, 0x80, 0xBF, byte - 0xC0⟩
  else if byte = 0xE0 then some ⟨2, 0xA0, 0xBF, 0⟩
  else if byte = 0xED then some ⟨2, 0x80, 0x9F, 0xD⟩
  else if byte < 0xF0 then some ⟨2, 0x80, 0xBF, byte - 0xE0⟩
  else if byte = 0xF0 then some ⟨3, 0x90, 0xBF, 0⟩
  else if byte < 0xF4 then some ⟨3, 0x80, 0xBF, byte - 0xF0⟩
  else if byte = 0xF4 then some ⟨3, 0x80, 0x8F, 4⟩
  else none

/-- The bytes that a character goes on with. -/
def goingOn (l : Lead) : List Nat → List Nat
  | [] => []
  | b :: rest =>
    if l.following = 0 || b < l.low || l.high < b then []
    else b :: (rest.take (l.following - 1)).takeWhile fun c => 0x80 ≤ c && c ≤ 0xBF

/-- What is shown for a stretch of bytes that is no character. -/
def mark : Char := Char.ofNat 0xFFFD

/-- The character at the front of some bytes, or a mark, and the number of its bytes. -/
def front (byte : Nat) (rest : List Nat) : Char × Nat :=
  match lead? byte with
  | none => (mark, 1)
  | some l =>
    let more := goingOn l rest
    let c := if more.length < l.following then mark
      else Char.ofNat (more.foldl (fun n b => n * 64 + (b - 0x80)) l.bits)
    (c, more.length + 1)

/-- The characters that bytes encode, with marks; the number bounds how many there are. -/
def characters : Nat → List Nat → List Char
  | 0, _ => []
  | _, [] => []
  | fuel + 1, b :: rest => match front b rest with
    | (c, n) => c :: characters fuel (rest.drop (n - 1))

def ofBytes (bytes : List UInt8) : Content :=
  match String.fromUTF8? ⟨bytes.toArray⟩ with
  | some s => text s
  | none => undecodable (String.ofList (characters bytes.length (bytes.map UInt8.toNat)))

/-! ### Bytes as hexadecimal digits -/

def hexDigit? (c : Char) : Option Nat :=
  if c.isDigit then some (c.toNat - 48)
  else if 'a' ≤ c ∧ c ≤ 'f' then some (c.toNat - 87)
  else if 'A' ≤ c ∧ c ≤ 'F' then some (c.toNat - 55)
  else none

def isGap (c : Char) : Bool := c == ' ' || (9 ≤ c.toNat && c.toNat ≤ 13)

/-- The bytes that are written as two digits each, with gaps between them; else the place of the
first character that does not fit. -/
def hexBytes (place : Nat) : List Char → Except Nat (List UInt8)
  | [] => .ok []
  | [c] => if isGap c then .ok [] else .error (if (hexDigit? c).isSome then place + 1 else place)
  | c :: d :: rest =>
    if isGap c then hexBytes (place + 1) (d :: rest)
    else match hexDigit? c, hexDigit? d with
      | none, _ => .error place
      | _, none => .error (place + 1)
      | some m, some n => (hexBytes (place + 2) rest).map (UInt8.ofNat (16 * m + n) :: ·)

/-- What is written down as two hexadecimal digits for each byte. -/
def ofHex (digits : String) : Except Failure Content :=
  let cs := digits.toList
  let bytes : Except Nat (List UInt8) := match cs.findIdx? fun c => 0x80 ≤ c.toNat with
    | some place => .error place
    | none => hexBytes 0 cs
  match bytes with
  | .ok bytes => .ok (ofBytes bytes)
  | .error place => .error (.badValue
      s!"non-hexadecimal number found in fromhex() arg at position {place}")

end Content

end TeamFlow
