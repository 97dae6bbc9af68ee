import TeamFlow.Site

/-! Shared chat models. A model is made when its name and temperature are first asked for, which
takes a key; from then on the same one is handed out. Models are told apart by the order of their
making. -/

namespace TeamFlow

/-- What makes a chat model of a key, a name and a temperature. Of the model nothing matters here
but that it is made. -/
abbrev ModelMaker := String → Value → Value → Except Failure Unit

structure ModelCache where
  models : List (Value × Nat)

namespace ModelCache

def empty : ModelCache := ⟨[]⟩

def find? (c : ModelCache) (key : Value) : Option Nat :=
  (c.models.find? fun m => m.1.alike key).map Prod.snd

def model (make : ModelMaker) (settings : Settings) (name temperature : Value) :
    Act ModelCache Nat := do
  let key := Value.tuple [name, temperature]
  if !key.isHashable then Act.fail .badType
  let c ← Act.get
  match c.find? key with
  | some id => return id
  | none => do
    make (← settings.key) name temperature
    Act.modify fun c => ⟨c.models ++ [(key, c.models.length)]⟩
    return c.models.length

/-- The temperature of a model that is asked for without one. -/
def usualTemperature : Value := .float (.finite 0)

def workerTemperature : Value := .float (Double.ofDecimal false 3 (-1))

def supervisorModel (make : ModelMaker) (settings : Settings) : Act ModelCache Nat :=
  model make settings (.str settings.supervisorName) usualTemperature

def workerModel (make : ModelMaker) (settings : Settings) : Act ModelCache Nat :=
  model make settings (.str settings.workerName) workerTemperature

def searchModel (make : ModelMaker) (settings : Settings) : Act ModelCache Nat :=
  model make settings (.str settings.searchName) usualTemperature

end ModelCache

end TeamFlow
