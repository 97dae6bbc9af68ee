import TeamFlow.Value.Shown

/-! Step limits. A run takes the limit it is given, else the limit of its graph, else the one in the
environment, else 25. Whatever is found has to be an integer of at least one. -/

namespace TeamFlow

structure StepLimit where
  value : Nat
  positive : 0 < value

namespace StepLimit

def usual : StepLimit := ⟨25, by decide⟩

def ofInt? (n : Int) : Option StepLimit :=
  if h : 0 < n.toNat then some ⟨n.toNat, h⟩ else none

def settingName : String := "TEAMGRAPH_STEP_LIMIT"

/-- The limit for runs that are given none. -/
def ofSetting (setting : Option String) : Except Failure StepLimit :=
  match setting with
  | none => .ok usual
  | some text =>
    if Text.isAllBlank text then .ok usual
    else match Text.integer? text with
      | none => .error (.misconfigured
          (settingName ++ " must be an integer, got " ++ Text.quoted text))
      | some n => match ofInt? n with
        | some limit => .ok limit
        | none => .error (.misconfigured (settingName ++ s!" must be positive, got {n}"))

/-- The limit that a value is, if it is one. -/
def ofValue? : Value → Option StepLimit
  | .int n => ofInt? n
  | _ => none

def ofValue (v : Value) : Except Failure StepLimit :=
  match ofValue? v with
  | some limit => .ok limit
  | none => do .error (.misconfigured
      ("Step limit must be a positive integer, got " ++ (← v.written)))

/-- The first limit that is present counts. -/
def resolve (given compiled : Value) (setting : Option String) : Except Failure StepLimit :=
  match given with
  | .null => match compiled with
    | .null => ofSetting setting
    | v => ofValue v
  | v => ofValue v

end StepLimit

end TeamFlow
