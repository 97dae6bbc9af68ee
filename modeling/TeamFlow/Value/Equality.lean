import TeamFlow.Value.Basic

/-! Equality of values. Numbers are equal when they denote the same number, whatever their kind;
a list never equals a tuple; mappings and sets are equal whatever the order of their entries. What
is not a number equals nothing when it is compared by itself, but a member of a collection is alike
itself. -/

namespace TeamFlow.Value

/-- A number as an exact floating-point value; integers of any size stay exact. -/
def number? : Value → Option Double
  | bool b => some (.finite (Dyadic.ofInt (ofFlag b)))
  | int n => some (.finite (Dyadic.ofInt n))
  | float x => some x
  | _ => none

def alikeNumber (a b : Value) : Bool :=
  match a.number?, b.number? with
  | some x, some y => x.same y || x.sameOrigin y
  | _, _ => false

mutual

def alike : Value → Value → Bool
  | null, null => true
  | str s, str t => s == t
  | list xs, list ys => alikeItems xs ys
  | tuple xs, tuple ys => alikeItems xs ys
  | set _ xs, set _ ys => xs.length == ys.length && allAmong xs ys
  | mapping es, mapping fs => es.length == fs.length && entriesAmong es fs
  | message m, message n => alikeMessage m n
  | record form fs, record form' gs => form == form' && alikeFields fs gs
  | a, b => alikeNumber a b
termination_by structural x => x

def alikeItems : List Value → List Value → Bool
  | [], [] => true
  | x :: xs, y :: ys => alike x y && alikeItems xs ys
  | _, _ => false
termination_by structural x => x

def allAmong : List Value → List Value → Bool
  | [], _ => true
  | x :: xs, ys => ys.any (fun y => alike x y) && allAmong xs ys
termination_by structural x => x

def entriesAmong : List (Value × Value) → List (Value × Value) → Bool
  | [], _ => true
  | (k, v) :: es, fs => fs.any (fun f => alike k f.1 && alike v f.2) && entriesAmong es fs
termination_by structural x => x

def alikeFields : List (String × Value) → List (String × Value) → Bool
  | [], [] => true
  | (k, v) :: fs, (k', v') :: gs => k == k' && alike v v' && alikeFields fs gs
  | _, _ => false
termination_by structural x => x

def alikeMessage : MessageOf Value → MessageOf Value → Bool
  | ⟨r, c, n⟩, ⟨r', c', n'⟩ => alikeRole r r' && alike c c' && n == n'
termination_by structural x => x

def alikeRole : RoleOf Value → RoleOf Value → Bool
  | .human, .human => true
  | .system, .system => true
  | .ai cs, .ai cs' => alikeCalls cs cs'
  | .tool i f, .tool i' f' => i == i' && f == f'
  | _, _ => false
termination_by structural x => x

def alikeCalls : List (ToolCallOf Value) → List (ToolCallOf Value) → Bool
  | [], [] => true
  | ⟨n, a, i⟩ :: cs, ⟨n', a', i'⟩ :: cs' =>
    n == n' && i == i' && alikeFields a a' && alikeCalls cs cs'
  | _, _ => false
termination_by structural x => x

end

/-- Equality of values compared by themselves. -/
def same (a b : Value) : Bool :=
  match a, b with
  | float (.notANumber _), float (.notANumber _) => false
  | a, b => alike a b

/-- Is the value alike one of the list? -/
def isAmong (v : Value) (vs : List Value) : Bool := vs.any (alike v)

mutual

/-- What keeps a value from being a key of a mapping or a member of a set: the value itself if it
can be changed in place, and the first such member of a tuple. -/
def changeable? : Value → Option Value
  | list xs => some (list xs)
  | set ring xs => some (set ring xs)
  | mapping es => some (mapping es)
  | message m => some (message m)
  | record form fs => some (record form fs)
  | tuple xs => firstChangeable? xs
  | _ => none

def firstChangeable? : List Value → Option Value
  | [] => none
  | x :: xs => (changeable? x).or (firstChangeable? xs)

end

/-- Keys of mappings and members of sets: all but what can be changed in place. -/
def isHashable (v : Value) : Bool := v.changeable?.isNone

end TeamFlow.Value
