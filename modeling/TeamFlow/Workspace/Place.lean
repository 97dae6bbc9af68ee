import TeamFlow.Text.Basic

/-! Places in a tree of files. A place is the list of names that lead to it from the top. A path is
text: names between slashes, from the top if it starts with a slash, else from where one is. Empty
names and single dots lead nowhere, and two dots lead one name back, never above the top. -/

namespace TeamFlow

abbrev Place := List String

namespace Place

/-- The steps of a path that lead somewhere. -/
def stepsOf (path : String) : List String :=
  ((Text.splitAt '/' path.toList).map String.ofList).filter fun s => s != "" && s != "."

def isAbsolute (path : String) : Bool := path.toList.head? == some '/'

def step (here : Place) (name : String) : Place :=
  if name = ".." then here.dropLast else here ++ [name]

def walk (here : Place) (steps : List String) : Place := steps.foldl step here

def follow (here : Place) (path : String) : Place :=
  walk (if isAbsolute path then [] else here) (stepsOf path)

/-- The steps of a path, after the steps that lead to where it starts. -/
def extend (steps : List String) (path : String) : List String :=
  if isAbsolute path then stepsOf path else steps ++ stepsOf path

def text (steps : List String) : String := "/" ++ String.intercalate "/" steps

/-- No step bears a null character. -/
def isSound (steps : List String) : Bool := steps.all fun s => !s.toList.contains '\x00'

/-- The order of places: name by name, a place before those below it. -/
def precedes : Place → Place → Bool
  | [], _ => true
  | _ :: _, [] => false
  | a :: as, b :: bs => if a = b then precedes as bs else decide (a < b)

/-- Is the second place the first one or somewhere below it? -/
def covers (root place : Place) : Bool := root.isPrefixOf place

theorem covers_iff (root place : Place) : covers root place = true ↔ root <+: place :=
  List.isPrefixOf_iff_prefix

end Place

end TeamFlow
