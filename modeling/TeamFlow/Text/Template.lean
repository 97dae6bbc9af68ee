/-! Templates. A template is text with fields in braces; a doubled brace stands for itself. A field
names what fills it, and may ask for a conversion after `!` and for a layout after `:`. A template
is read from left to right, so what comes before a flaw is still filled in first. -/

namespace TeamFlow.Text

/-- A field: its name, its conversion and the text of its layout. -/
structure Field where
  name : List Char
  conversion : Option Char
  layout : List Char
deriving DecidableEq

inductive Piece where
  | text (cs : List Char)
  | field (f : Field)
  | flaw (why : String)
deriving DecidableEq

namespace Field

/-- The name of a field up to the mark that ends it. In square brackets no mark counts. -/
def scanName : Bool → List Char → Except String (List Char × Char × List Char)
  | _, [] => .error "expected '\x7d' before end of string"
  | true, c :: rest => do
    let (name, mark, after) ← scanName (c != ']') rest
    .ok (c :: name, mark, after)
  | false, c :: rest =>
    if c = '\x7b' then .error "unexpected '\x7b' in field name"
    else if c = '\x7d' || c = ':' || c = '!' then .ok ([], c, rest)
    else do
      let (name, mark, after) ← scanName (c = '[') rest
      .ok (c :: name, mark, after)

/-- A layout up to the brace that closes the field; `depth` braces are open inside it. -/
def scanLayout : Nat → List Char → Except String (List Char × List Char)
  | _, [] => .error "unmatched '\x7b' in format spec"
  | depth, c :: rest =>
    match depth, c with
    | 0, '\x7d' => .ok ([], rest)
    | d + 1, '\x7d' => do
      let (spec, after) ← scanLayout d rest
      .ok (c :: spec, after)
    | d, _ => do
      let (spec, after) ← scanLayout (if c = '\x7b' then d + 1 else d) rest
      .ok (c :: spec, after)

/-- What follows a name that ends with `!`. -/
def scanConversion (name : List Char) : List Char → Except String (Field × List Char)
  | [] => .error "end of string while looking for conversion specifier"
  | [_] => .error "unmatched '\x7b' in format spec"
  | conversion :: mark :: rest =>
    if mark = '\x7d' then .ok (⟨name, some conversion, []⟩, rest)
    else if mark = ':' then do
      let (layout, after) ← scanLayout 0 rest
      .ok (⟨name, some conversion, layout⟩, after)
    else .error "expected ':' after conversion specifier"

def scan (cs : List Char) : Except String (Field × List Char) := do
  let (name, mark, rest) ← scanName false cs
  if mark = '!' then scanConversion name rest
  else if mark = ':' then
    let (layout, after) ← scanLayout 0 rest
    .ok (⟨name, none, layout⟩, after)
  else .ok (⟨name, none, []⟩, rest)

end Field

/-- Put a character in front of the first piece. -/
def consText (c : Char) : List Piece → List Piece
  | .text cs :: ps => .text (c :: cs) :: ps
  | ps => .text [c] :: ps

/-- The pieces of a template. The first argument is at least the length of the second. -/
def piecesFrom : Nat → List Char → List Piece
  | _, [] => []
  | 0, _ :: _ => []
  | fuel + 1, c :: rest =>
    if c = '\x7b' then
      match rest with
      | [] => [.flaw "Single '\x7b' encountered in format string"]
      | d :: after =>
        if d = '\x7b' then .text ['\x7b'] :: piecesFrom fuel after
        else match Field.scan rest with
          | .ok (f, left) => .field f :: piecesFrom fuel left
          | .error why => [.flaw why]
    else if c = '\x7d' then
      match rest with
      | '\x7d' :: after => .text ['\x7d'] :: piecesFrom fuel after
      | _ => [.flaw "Single '\x7d' encountered in format string"]
    else consText c (piecesFrom fuel rest)

def pieces (cs : List Char) : List Piece := piecesFrom cs.length cs

/-- A step from a field's value to one of its parts. -/
inductive Access where
  | attribute (name : List Char)
  | item (name : List Char)
deriving DecidableEq

/-- The steps that follow the first part of a field's name. -/
def accessesFrom : Nat → List Char → List (Except String Access)
  | _, [] => []
  | 0, _ :: _ => []
  | fuel + 1, '.' :: rest =>
    let name := rest.takeWhile fun c => c != '.' && c != '['
    if name.isEmpty then [.error "Empty attribute in format string"]
    else .ok (.attribute name) ::
      accessesFrom fuel (rest.dropWhile fun c => c != '.' && c != '[')
  | fuel + 1, '[' :: rest =>
    match rest.dropWhile (· != ']') with
    | [] => [.error "Missing ']' in format string"]
    | _ :: after =>
      let name := rest.takeWhile (· != ']')
      if name.isEmpty then [.error "Empty attribute in format string"]
      else .ok (.item name) :: accessesFrom fuel after
  | _ + 1, _ :: _ => [.error "Only '.' or '[' may follow ']' in format field specifier"]

namespace Field

def head (f : Field) : List Char := f.name.takeWhile fun c => c != '.' && c != '['

def accesses (f : Field) : List (Except String Access) :=
  accessesFrom f.name.length (f.name.dropWhile fun c => c != '.' && c != '[')

end Field

end TeamFlow.Text
