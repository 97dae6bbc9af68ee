import TeamFlow.Table
import TeamFlow.Value.BlockList
import TeamFlow.Value.Offer
import TeamFlow.Value.Shown

/-! Facets. What can be reached from a value by naming one of its attributes: another value, the
kind of a value, several kinds, or what a kind offers. Numbers have their parts, messages and
records have their fields, and every value has its kind. -/

namespace TeamFlow

namespace Value

/-- The text of a block of a message, where a block says that it is text. -/
def spoken? : Value → Option String
  | str s => some s
  | mapping es =>
    if (Entries.get? es "type").any fun v => v.same (str "text") then
      (Entries.get? es "text").bind text?
    else none
  | _ => none

/-- The text of a message: its content, or the texts of its blocks one after the other. -/
def spoken (content : Value) : String :=
  match content with
  | str s => s
  | list blocks => String.join (blocks.filterMap spoken?)
  | _ => ""

/-- The attributes of a message beside its kind and its fields. -/
def messageAttributes (m : Message) : List (String × Value) :=
  [("lc_secrets", mapping []),
    ("lc_attributes", mapping (match m.role with
      | .ai calls => [(str "tool_calls", list (calls.map callFields)),
          (str "invalid_tool_calls", list [])]
      | _ => [])),
    ("model_extra", mapping [])]

def attributes (v : Value) : List (String × Value) :=
  let number (n : Int) := [("real", int n), ("imag", int 0), ("numerator", int n),
    ("denominator", int 1)]
  let named (fields : List (String × Value)) :=
    fields ++ [("__dict__", mapping (Entries.ofFields fields)), ("__hash__", null),
      ("__module__", str v.kind.home)]
  match v with
  | bool b => number (ofFlag b)
  | int n => number n
  | float x => [("real", float x), ("imag", float (.finite 0))]
  | list _ => [("__hash__", null)]
  | set _ _ => [("__hash__", null)]
  | mapping _ => [("__hash__", null)]
  | message m => named (messageFields m) ++ messageAttributes m
  | record _ fields =>
    named fields ++ [("model_extra", null), ("__doc__", null)]
  | _ => []

end Value

/-- A value of a kind, which may be more special than the value shows; a kind, also narrowed down by
a key; several kinds; what a kind offers, alone or bound to what it is offered for. -/
inductive Facet where
  | value (v : Value) (kind : Kind)
  | kind (k : Kind)
  | kinds (all : List Kind)
  | narrowed (k : Kind) (key : Value)
  | unbound (offer : Offer) (name : String) (owner : Kind)
  | bound (offer : Offer) (name : String) (owner : Kind) (self : Facet)

namespace Facet

def ofValue (v : Value) : Facet := .value v v.kind

def ofText (s : String) : Facet := .ofValue (.str s)

def ofText? (s : Option String) : Facet := .ofValue (Value.ofText? s)

/-- The kind of a facet. -/
def ownKind : Facet → Kind
  | value _ k => k
  | kind k => k.ofKind
  | kinds _ => Kind.basic "tuple"
  | narrowed _ _ => .at "types" "GenericAlias" [Kind.object]
  | unbound offer _ owner =>
    if !owner.isBasic then Kind.basic "function"
    else match offer with
      | .operation => Kind.basic "wrapper_descriptor"
      | .part => Kind.basic "getset_descriptor"
      | _ => Kind.basic "method_descriptor"
  | bound offer _ owner _ =>
    if !owner.isBasic then Kind.basic "method"
    else match offer with
      | .operation => Kind.basic "method-wrapper"
      | _ => Kind.basic "builtin_function_or_method"

/-- The full name of what is offered. Methods bear the name of the kind that they are bound to. -/
def fullName (offer : Offer) (name : String) (owner : Kind) (self : Facet) : String :=
  let holder := match offer, self with
    | .operation, _ => owner
    | _, kind k => if owner.isBasic then k else owner
    | _, f => if owner.isBasic then f.ownKind else owner
  holder.name ++ "." ++ name

def written : Facet → Except Failure String
  | value v _ => v.written
  | kind k => .ok k.text
  | kinds [k] => .ok ("(" ++ k.text ++ ",)")
  | kinds all => .ok ("(" ++ Value.commas (all.map Kind.text) ++ ")")
  | narrowed k key => do return k.name ++ "[" ++ (← key.written) ++ "]"
  | unbound offer name owner =>
    let what := if !owner.isBasic then "function" else match offer with
      | .operation => "slot wrapper"
      | .part => "attribute"
      | _ => "method"
    .ok (if owner.isBasic then
        "<" ++ what ++ " " ++ Text.quoted name ++ " of " ++ Text.quoted owner.name ++ " objects>"
      else "<function " ++ owner.name ++ "." ++ name ++ ">")
  | bound offer name owner self => do
    if !owner.isBasic then
      return "<bound method " ++ owner.name ++ "." ++ name ++ " of " ++ (← self.written) ++ ">"
    let holder := self.ownKind.name ++ " object>"
    return match offer with
      | .operation => "<method-wrapper " ++ Text.quoted name ++ " of " ++ holder
      | _ => "<built-in method " ++ name ++ " of " ++ holder

/-- The form in which a text stands for itself. -/
def shown : Facet → Except Failure String
  | value v _ => v.shown
  | f => f.written

/-- What a kind offers under a name to what is of it. -/
def offered? (f : Facet) (k : Kind) (name : String) : Option Facet :=
  (k.offer? name).bind fun (offer, owner) =>
    match offer with
    | .part => none
    | .ofKind => some (.bound offer name owner (.kind k))
    | .static => some (.bound offer name owner (.kind owner))
    | _ => some (.bound offer name owner f)

/-- What a kind has under a name without being asked for anything that is of it. -/
def ofKind? (k : Kind) (name : String) : Option Facet :=
  match k.offer? name with
  | some (.ofKind, owner) => some (.bound .ofKind name owner (.kind k))
  | some (.static, owner) => some (.bound .static name owner (.kind owner))
  | some (offer, owner) => some (.unbound offer name owner)
  | none => (kind k).offered? k.ofKind name

/-- How forms of a kind treat what they have no field for, where they say so. -/
def config? (k : Kind) : Option Facet :=
  let extra (how : String) : Value := .mapping [(.str "extra", .str how)]
  if k.line.any Kind.message.same then some (.ofValue (extra "allow"))
  else if k.line.any Kind.loadable.same then some (.ofValue (extra "ignore"))
  else if k.line.any Kind.form.same then some (.ofValue (.mapping []))
  else none

def kindAttribute? (k : Kind) (name : String) : Option Facet :=
  match name with
  | "__name__" => some (.ofText k.name)
  | "__qualname__" => some (.ofText k.name)
  | "__module__" => some (.ofText k.home)
  | "__class__" => some (.kind k.ofKind)
  | "__mro__" => some (.kinds k.line)
  | "__bases__" => some (.kinds k.bases)
  | "__base__" => some (match k.bases with
    | [] => .ofValue .null
    | b :: _ => .kind b)
  | "__hash__" => if k.isChangeable then some (.ofValue .null) else ofKind? k name
  | "model_config" => config? k
  | "__doc__" => if k.isBasic then some (.ofText? k.manual?) else none
  | "__text_signature__" => if k.isBasic then some (.ofText? k.signature?) else none
  | _ => ofKind? k name

/-- The attributes of a kind that is narrowed down are its own but for a few. -/
def narrowedAttribute? (k : Kind) (key : Value) (name : String) : Option Facet :=
  match name with
  | "__origin__" => some (.kind k)
  | "__args__" => some (.ofValue (.tuple [key]))
  | "__parameters__" => some (.ofValue (.tuple []))
  | "__unpacked__" => some (.ofValue (.bool false))
  | "__typing_unpacked_tuple_args__" => some (.ofValue .null)
  | "__copy__" => none
  | "__deepcopy__" => none
  | _ => kindAttribute? k name

def unboundAttribute? (name : String) (owner : Kind) (asked : String) : Option Facet :=
  match asked with
  | "__name__" => some (.ofText name)
  | "__qualname__" => some (.ofText (owner.name ++ "." ++ name))
  | "__objclass__" => if owner.isBasic then some (.kind owner) else none
  | "__module__" => if owner.isBasic then none else some (.ofText owner.home)
  | _ => none

def boundAttribute? (offer : Offer) (name : String) (owner : Kind) (self : Facet)
    (asked : String) : Option Facet :=
  match asked with
  | "__name__" => some (.ofText name)
  | "__qualname__" => some (.ofText (fullName offer name owner self))
  | "__self__" => some self
  | "__objclass__" => if owner.isBasic && offer = .operation then some (.kind owner) else none
  | "__module__" =>
    if !owner.isBasic then some (.ofText owner.home)
    else if offer = .operation then none
    else some (.ofValue .null)
  | "__func__" => if owner.isBasic then none else some (.unbound offer name owner)
  | _ => none

/-- What a facet has under a name beside what its kind offers. -/
def ownAttribute? (f : Facet) (name : String) : Option Facet :=
  match f with
  | value v k => match v, name with
    | .message m, "text" => some (.value (.str (Value.spoken m.content)) Kind.messageText)
    | _, "model_config" => config? k
    | v, "__doc__" => if k.isBasic then some (.ofText? k.manual?)
      else (Table.row? v.attributes name).map ofValue
    | v, name => (Table.row? v.attributes name).map ofValue
  | kind k => kindAttribute? k name
  | kinds _ => if name = "__doc__" then some (.ofText? f.ownKind.manual?) else none
  | narrowed k key => narrowedAttribute? k key name
  | unbound _ what owner => unboundAttribute? what owner name
  | bound offer what owner self => boundAttribute? offer what owner self name

def attribute? (f : Facet) (name : String) : Option Facet :=
  match f with
  | kind k => kindAttribute? k name
  | f =>
    if name = "__class__" then some (.kind f.ownKind)
    else (f.ownAttribute? name).or (f.offered? f.ownKind name)

/-- What an attribute of the given name leads to. -/
def follow (f : Facet) (name : String) : Except Failure Facet :=
  match f, name with
  | value (.message m) _, "content_blocks" => do
    return .ofValue (.list ((← Block.all m).map .mapping))
  | f, name => match f.attribute? name with
    | some g => .ok g
    | none => .error .noAttribute

end Facet

end TeamFlow
