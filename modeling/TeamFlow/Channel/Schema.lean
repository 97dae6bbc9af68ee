import TeamFlow.Table
import TeamFlow.Value.Access

/-! Schemas. A schema is an ordered set of channels: each has a name of its own, a reducer, which says
how a contribution changes the value of the channel, and, usually, a default. A frozen schema takes
no further channels. -/

namespace TeamFlow

/-- What a caller hands in where something callable is asked for. It may not be callable at all, and
whoever asked for it says so. -/
inductive Offered (α : Type) where
  | callable (f : α)
  | notCallable

namespace Offered

variable {α β : Type}

def toOption : Offered α → Option α
  | callable f => some f
  | notCallable => none

def map (g : α → β) : Offered α → Offered β
  | callable f => callable (g f)
  | notCallable => notCallable

end Offered

abbrev Reducer := Value → Value → Except Failure Value

namespace Reducer

/-- The items of a contribution to a log: nothing, a sequence of items, or one item. -/
def contributed : Value → List Value
  | .null => []
  | .list xs => xs
  | .tuple xs => xs
  | v => [v]

def append : Reducer := fun old new => do
  let current ← if old.isTruthy then old.items else .ok []
  .ok (.list (current ++ contributed new))

/-- The latest value that is not nothing. -/
def overrideIfPresent : Reducer := fun old new =>
  match new with
  | .null => .ok old
  | v => .ok v

theorem append_list (xs : List Value) (new : Value) :
    append (.list xs) new = .ok (.list (xs ++ contributed new)) := by
  cases xs <;> rfl

end Reducer

/-- What makes the first value of a channel; it is asked anew for each store and may fail. -/
abbrev Default := Except Failure Value

/-- What a channel is declared to hold; it is kept for readers and never checked. -/
inductive DeclaredType where
  | absent
  | typeNamed (name : String)
  | generic
  | value (v : Value)

structure Channel where
  name : String
  reducer : Reducer
  default : Option Default
  declared : DeclaredType

namespace Channel

def initial (c : Channel) : Except Failure Value :=
  match c.default with
  | some d => d
  | none => .error (.misconfigured ("Channel '" ++ c.name ++ "' has no default"))

end Channel

structure Schema where
  channels : List Channel
  frozen : Bool
  distinct : (channels.map Channel.name).Nodup

namespace Schema

def empty : Schema := ⟨[], false, List.nodup_nil⟩

def names (s : Schema) : List String := s.channels.map Channel.name

def find? (s : Schema) (name : String) : Option Channel :=
  s.channels.find? fun c => c.name == name

def define (s : Schema) (name : String) (reducer : Offered Reducer)
    (default : Option (Offered Default)) (declared : DeclaredType) : Except Failure Schema :=
  if s.frozen then
    .error (.misconfigured ("Cannot define channel '" ++ name ++ "' on a compiled schema"))
  else if h : name ∈ s.names then
    .error (.misconfigured ("Channel '" ++ name ++ "' is already defined"))
  else match reducer, default with
    | .notCallable, _ =>
      .error (.misconfigured ("Reducer for channel '" ++ name ++ "' is not callable"))
    | _, some .notCallable =>
      .error (.misconfigured
        ("Default for channel '" ++ name ++ "' must be a zero-argument callable"))
    | .callable r, d =>
      .ok {
        channels := s.channels ++ [⟨name, r, d.bind Offered.toOption, declared⟩]
        frozen := false
        distinct := by
          simp only [List.map_append, List.map_cons, List.map_nil]
          exact List.nodup_append.mpr ⟨s.distinct, by simp, by
            rintro a ha b hb rfl
            simp only [List.mem_singleton] at hb
            exact h (hb ▸ ha)⟩ }

def freeze (s : Schema) : Schema := { s with frozen := true }

def unknownChannel (name : String) : Failure :=
  .misconfigured ("Unknown channel '" ++ name ++ "'")

def channel (s : Schema) (name : String) : Except Failure Channel :=
  match s.find? name with
  | some c => .ok c
  | none => .error (unknownChannel name)

/-- The channel under a key, which may be no text and then names none. -/
def channelAt (s : Schema) (key : Value) : Except Failure Channel :=
  match key with
  | .str name => s.channel name
  | key => .error (if key.isHashable then unknownChannel key.display else .badType)

def problems (s : Schema) : List String :=
  (if s.channels.isEmpty then ["State schema defines no channels"] else []) ++
    s.channels.filterMap fun c =>
      if c.default.isNone then some ("Channel '" ++ c.name ++ "' has no default") else none

def hasKey (s : Schema) : Value → Bool
  | .str name => s.names.contains name
  | _ => false

def has (s : Schema) (key : Value) : Except Failure Bool :=
  if key.isHashable then .ok (s.hasKey key) else .error .badType

/-- The keys that name no channel. -/
def unknown (s : Schema) (keys : List Value) : Except Failure (List Value) :=
  if keys.all Value.isHashable then .ok (keys.filter fun k => !s.hasKey k) else .error .badType

def sorted (texts : List String) : List String := texts.mergeSort fun a b => decide (a ≤ b)

/-- The complaint about keys that name no channel; only texts can be listed. -/
def undefined (what : String) (keys : List Value) : Failure :=
  match Value.texts? keys with
  | some names =>
    .misconfigured (what ++ " names undefined channel(s): " ++ Value.commas (sorted names))
  | none => .badType

def namedRows : Entries → Table Value
  | [] => []
  | (.str name, v) :: es => (name, v) :: namedRows es
  | _ :: es => namedRows es

/-- The entries of an update as rows, once every key names a channel. -/
def checked (s : Schema) (what : String) (update : Entries) : Except Failure (Table Value) := do
  match ← s.unknown (update.map Prod.fst) with
  | [] => .ok (namedRows update)
  | keys => .error (undefined what keys)

/-- One more mark on the declaration of a field: a channel, or something of no concern here. -/
inductive Mark where
  | foreign
  | channel (reducer : Offered Reducer) (default : Option (Offered Default))

structure FieldDeclaration where
  declared : DeclaredType
  marks : List Mark

def firstChannel? : List Mark → Option (Offered Reducer × Option (Offered Default))
  | [] => none
  | .foreign :: marks => firstChannel? marks
  | .channel r d :: _ => some (r, d)

/-- A schema from declared fields: the first channel mark of each counts. -/
def ofDeclarations (typeName : String) (fields : Table FieldDeclaration) :
    Except Failure Schema :=
  fields.foldlM (fun s (name, f) => match firstChannel? f.marks with
    | some (r, d) => s.define name r d f.declared
    | none => .error (.misconfigured
        ("Field '" ++ name ++ "' of " ++ typeName ++ " has no channel(...) marker"))) empty

def text (s : Schema) : String := "ChannelSchema(" ++ Value.commas s.names ++ ")"

end Schema

end TeamFlow
