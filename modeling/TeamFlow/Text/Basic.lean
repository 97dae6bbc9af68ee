/-! Texts: their blanks, their parts, their lines and their sizes. -/

namespace TeamFlow.Text

/-! ### Blanks

A blank is a character with the White_Space property or one of the four information separators
U+001C to U+001F. `trim` takes blanks off both ends and keeps the middle. -/

def isBlank (c : Char) : Bool :=
  let n := c.toNat
  (0x09 ≤ n && n ≤ 0x0D) || (0x1C ≤ n && n ≤ 0x20) || n == 0x85 || n == 0xA0 || n == 0x1680 ||
    (0x2000 ≤ n && n ≤ 0x200A) || n == 0x2028 || n == 0x2029 || n == 0x202F || n == 0x205F ||
    n == 0x3000

/-- Drop the members of a class from both ends of a list. -/
def trimBy (drop : Char → Bool) (cs : List Char) : List Char :=
  ((cs.dropWhile drop).reverse.dropWhile drop).reverse

def trim (s : String) : String := String.ofList (trimBy isBlank s.toList)

/-- A text without a character that is not blank. -/
def isAllBlank (s : String) : Bool := s.toList.all isBlank

/-! ### Parts

Every mark divides a text, so there is one part more than there are marks. -/

def splitAt (mark : Char) : List Char → List (List Char)
  | [] => [[]]
  | c :: cs =>
    if c = mark then [] :: splitAt mark cs
    else match splitAt mark cs with
      | [] => [[c]]
      | part :: parts => (c :: part) :: parts

theorem splitAt_ne_nil (mark : Char) (cs : List Char) : splitAt mark cs ≠ [] := by
  cases cs with
  | nil => simp [splitAt]
  | cons c cs =>
    rw [splitAt]
    split
    · simp
    · split <;> simp

/-! ### Lines

Ten characters end a line, and a carriage return followed by a line feed ends one line, not two. A
last line without an end counts; nothing follows a final end. -/

def isLineEnd (c : Char) : Bool :=
  let n := c.toNat
  (0x0A ≤ n && n ≤ 0x0D) || (0x1C ≤ n && n ≤ 0x1E) || n == 0x85 || n == 0x2028 || n == 0x2029

/-- Put a character in front of the first line. -/
def consLine (c : Char) : List (List Char) → List (List Char)
  | [] => [[c]]
  | l :: ls => (c :: l) :: ls

def linesOf : List Char → List (List Char)
  | [] => []
  | '\r' :: '\n' :: rest => [] :: linesOf rest
  | c :: rest => if isLineEnd c then [] :: linesOf rest else consLine c (linesOf rest)

def lines (s : String) : List String := (linesOf s.toList).map String.ofList

/-- Write every carriage return, alone or before a line feed, as one line feed. -/
def feedsOf : List Char → List Char
  | [] => []
  | '\r' :: '\n' :: rest => '\n' :: feedsOf rest
  | c :: rest => (if c = '\r' then '\n' else c) :: feedsOf rest

def lineFeeds (s : String) : String := String.ofList (feedsOf s.toList)

def joinLines (ls : List String) : String := String.intercalate "\n" ls

/-! ### Sizes

Nothing has a size beyond the greatest one, and long before that a text finds no room. -/

/-- The greatest size, which is also the greatest number that a template may hold. -/
def greatestSize : Nat := 9223372036854775807

/-- A text that is longer than this finds no room. -/
def roomFor : Nat := 68719476736

def isOffset (n : Int) : Bool := -(greatestSize : Int) - 1 ≤ n && n ≤ greatestSize

def noOffset : String := "cannot fit 'int' into an index-sized integer"

end TeamFlow.Text
