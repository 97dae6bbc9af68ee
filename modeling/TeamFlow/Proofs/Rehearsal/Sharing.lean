import TeamFlow.Proofs.Channel.Atomicity
import TeamFlow.Rehearsal.Session

/-! # Stores and the schemas that they share

A session holds schemas, which may still grow, and stores, each with the number of
its schema. Calls on them can be made in any order, and one that fails leaves the
session as it was. Whatever is called, a schema only gets further channels behind
those that it has (`Changes.grows`), and a store keeps its names: so it has values
for the first channels of its schema, in their order (`orderly_after`). -/
namespace TeamFlow

theorem Schema.channels_define {s t : Schema} {name : String} {reducer : Offered Reducer}
    {default : Option (Offered Default)} {declared : DeclaredType}
    (h : s.define name reducer default declared = .ok t) :
    ∃ c, t.channels = s.channels ++ [c] := by
  unfold define at h
  split at h
  next => cases h
  next =>
    split at h
    next => cases h
    next =>
      split at h
      next => cases h
      next => cases h
      next =>
        cases h
        exact ⟨_, rfl⟩

namespace Rehearsal

namespace Session

/-- The schema with a number; there are no channels under other numbers. -/
def schemaAt (s : Session) (number : Nat) : Schema := s.schemas[number]?.getD Schema.empty

def withSchema (s : Session) (name : String) (schema : Schema) : Session :=
  { s with
    schemas := s.schemas ++ [schema]
    schemaNames := Table.put s.schemaNames name s.schemas.length }

def withChannels (s : Session) (number : Nat) (schema : Schema) : Session :=
  { s with schemas := s.schemas.set number schema }

def withStore (s : Session) (name : String) (number : Nat) (store : Store) : Session :=
  { s with stores := Table.put s.stores name (number, store) }

section

variable {s : Session} {name : String} {number : Nat} {store : Store}

@[simp]
theorem stores_withStore :
    (s.withStore name number store).stores = Table.put s.stores name (number, store) := rfl

theorem row?_withStore :
    Table.row? (s.withStore name number store).stores name = some (number, store) := by
  rw [stores_withStore, Table.row?_put, if_pos rfl]

theorem withStore_withStore (new : Store) :
    (s.withStore name number store).withStore name number new = s.withStore name number new := by
  simp only [withStore, Table.put_put]

theorem withStore_of_row? (h : Table.row? s.stores name = some (number, store)) :
    s.withStore name number store = s := by
  simp only [withStore, Table.put_of_row? h]

end

end Session

/-! ## What a play comes to -/

namespace Play

variable {α β : Type}

/-- What a play comes to in a session, and the session that it leaves. -/
def result (x : Play α) (s : Session) : Except Trouble α × Session := x.run s

section

variable {x : Play α} {f : α → Play β} {s t : Session} {a : α} {why : Trouble} {name : String}

theorem result_bind (x : Play α) (f : α → Play β) (s : Session) : (x >>= f).result s =
    (ExceptT.bindCont f (x.result s).1 : StateM Session (Except Trouble β)) (x.result s).2 := rfl

theorem result_bind_ok (h : x.result s = (.ok a, t)) : (x >>= f).result s = (f a).result t := by
  rw [result_bind, h]
  rfl

theorem result_bind_error (h : x.result s = (.error why, t)) :
    (x >>= f).result s = (.error why, t) := by
  rw [result_bind, h]
  rfl

theorem leaves_bind (hf : ∀ a t, ((f a).result t).2 = t) :
    ((x >>= f).result s).2 = (x.result s).2 := by
  cases hx : x.result s with
  | mk r t => cases r with
    | error why => rw [result_bind_error hx]
    | ok a => rw [result_bind_ok hx, hf]

theorem result_get : (get : Play Session).result s = (.ok s, s) := rfl

theorem result_named {table : Session → Table α} (h : Table.row? (table s) name = some a) :
    (named table name).result s = (.ok a, s) := by
  rw [named, result_bind_ok result_get, h]
  rfl

theorem result_named_none {table : Session → Table α} (h : Table.row? (table s) name = none) :
    (named table name).result s = (.error (.noSuch name), s) := by
  rw [named, result_bind_ok result_get, h]
  rfl

theorem leaves_lift (r : Except Failure α) (s : Session) : ((lift r).result s).2 = s := by
  cases r <;> rfl

theorem result_schemaAt (number : Nat) (s : Session) :
    (schemaAt number).result s = (.ok (s.schemaAt number), s) := rfl

section Stores

variable {number : Nat} {old new : Store} {f : Schema → Store → Except Failure Store}

theorem result_store (h : Table.row? s.stores name = some (number, old)) :
    (store name).result s = (.ok (s.schemaAt number, old), s) := by
  rw [store, result_bind_ok (result_named h)]
  rfl

theorem leaves_store (name : String) (s : Session) : ((store name).result s).2 = s := by
  cases hrow : Table.row? s.stores name with
  | none => rw [store, result_bind_error (result_named_none hrow)]
  | some row => rw [result_store hrow]

theorem result_changeStore_ok (h : Table.row? s.stores name = some (number, old))
    (hf : f (s.schemaAt number) old = .ok new) : (changeStore name f).result s =
      (.ok (s.schemaAt number, new), s.withStore name number new) := by
  rw [changeStore, result_bind_ok (result_named h)]
  dsimp only
  rw [result_bind_ok (result_schemaAt number s), hf]
  rfl

theorem result_changeStore_error {why : Failure}
    (h : Table.row? s.stores name = some (number, old))
    (hf : f (s.schemaAt number) old = .error why) :
    (changeStore name f).result s = (.error (.failure why), s) := by
  rw [changeStore, result_bind_ok (result_named h)]
  dsimp only
  rw [result_bind_ok (result_schemaAt number s), hf]
  rfl

theorem result_changeStore_none (h : Table.row? s.stores name = none) :
    (changeStore name f).result s = (.error (.noSuch name), s) := by
  rw [changeStore, result_bind_error (result_named_none h)]

theorem result_newStore_ok {initial : Value} {schemaName : String}
    (h : Table.row? s.schemaNames schemaName = some number)
    (hcreate : Store.create (s.schemaAt number) initial = .ok new) :
    (newStore schemaName name initial).result s = (.ok new, s.withStore name number new) := by
  rw [newStore, schemaNumber, result_bind_ok (result_named h),
    result_bind_ok (result_schemaAt number s), hcreate]
  rfl

theorem result_newStore_error {initial : Value} {schemaName : String} {why : Failure}
    (h : Table.row? s.schemaNames schemaName = some number)
    (hcreate : Store.create (s.schemaAt number) initial = .error why) :
    (newStore schemaName name initial).result s = (.error (.failure why), s) := by
  rw [newStore, schemaNumber, result_bind_ok (result_named h),
    result_bind_ok (result_schemaAt number s), hcreate]
  rfl

theorem result_newStore_none {initial : Value} {schemaName : String}
    (h : Table.row? s.schemaNames schemaName = none) :
    (newStore schemaName name initial).result s = (.error (.noSuch schemaName), s) := by
  rw [newStore, schemaNumber, result_bind_error (result_named_none h)]

end Stores

section Schemas

variable {number : Nat} {new : Schema} {f : Schema → Except Failure Schema}

theorem result_schema (h : Table.row? s.schemaNames name = some number) :
    (schema name).result s = (.ok (s.schemaAt number), s) := by
  rw [schema, schemaNumber, result_bind_ok (result_named h)]
  rfl

theorem result_schema_none (h : Table.row? s.schemaNames name = none) :
    (schema name).result s = (.error (.noSuch name), s) := by
  rw [schema, schemaNumber, result_bind_error (result_named_none h)]

theorem result_changeSchema_ok (h : Table.row? s.schemaNames name = some number)
    (hf : f (s.schemaAt number) = .ok new) :
    (changeSchema name f).result s = (.ok (), s.withChannels number new) := by
  rw [changeSchema, schemaNumber, result_bind_ok (result_named h),
    result_bind_ok (result_schemaAt number s), hf]
  rfl

theorem result_changeSchema_error {why : Failure}
    (h : Table.row? s.schemaNames name = some number) (hf : f (s.schemaAt number) = .error why) :
    (changeSchema name f).result s = (.error (.failure why), s) := by
  rw [changeSchema, schemaNumber, result_bind_ok (result_named h),
    result_bind_ok (result_schemaAt number s), hf]
  rfl

theorem result_changeSchema_none (h : Table.row? s.schemaNames name = none) :
    (changeSchema name f).result s = (.error (.noSuch name), s) := by
  rw [changeSchema, schemaNumber, result_bind_error (result_named_none h)]

end Schemas

end

end Play

/-! ## Calls -/

/-- A call on a schema or on a store of it; both are called by their names. -/
inductive StoreCall where
  | put (name : String) (schema : Schema)
  | freeze (schemaName copyName : String)
  | define (schemaName channel : String) (reducer : Offered Reducer)
      (default : Option (Offered Default)) (declared : DeclaredType)
  | create (schemaName storeName : String) (initial : Value)
  | get (storeName channel : String)
  | merge (storeName channel : String) (v : Value)
  | apply (storeName : String) (update : Value)
  | snapshot (storeName : String)

namespace StoreCall

/-- What a call does and answers. -/
def play : StoreCall → Play Value
  | .put name schema => do
    Play.putSchema name schema
    return .null
  | .freeze schemaName copyName => do
    Play.putSchema copyName (← Play.schema schemaName).freeze
    return .null
  | .define schemaName channel reducer default declared => do
    Play.changeSchema schemaName fun s => s.define channel reducer default declared
    return .null
  | .create schemaName storeName initial => do
    return .mapping (← Play.newStore schemaName storeName initial).snapshot
  | .get storeName channel => do
    let (schema, store) ← Play.store storeName
    Play.lift (store.get schema channel)
  | .merge storeName channel v => Play.merge storeName channel v
  | .apply storeName update => do
    let _ ← Play.changeStore storeName fun schema store => store.applyValue schema update
    return .null
  | .snapshot storeName => do
    let (_, store) ← Play.store storeName
    return .mapping store.snapshot

/-- What a call comes to in a session, and the session that it leaves. -/
def result (c : StoreCall) (s : Session) : Except Trouble Value × Session := c.play.result s

/-- The session after some calls, of which some may have failed. -/
def after (calls : List StoreCall) (s : Session) : Session :=
  calls.foldl (fun s c => (c.result s).2) s

end StoreCall

/-! ## What calls can do -/

/-- What a call can make of a session. -/
inductive Session.Changes (s : Session) : Session → Prop where
  | nothing : s.Changes s
  | schema (name : String) (schema : Schema) : s.Changes (s.withSchema name schema)
  | channels (number : Nat) {schema : Schema}
      (h : (s.schemaAt number).channels <+: schema.channels) :
      s.Changes (s.withChannels number schema)
  | created (name : String) (number : Nat) {store : Store}
      (h : Table.names store.values = (s.schemaAt number).names) :
      s.Changes (s.withStore name number store)
  | merged {name : String} {number : Nat} {old new : Store}
      (hold : Table.row? s.stores name = some (number, old))
      (h : Table.names new.values = Table.names old.values) :
      s.Changes (s.withStore name number new)

/-- Each store has values for the first channels of its schema, in their order. -/
def Session.Orderly (s : Session) : Prop := ∀ name number store,
  Table.row? s.stores name = some (number, store) →
    Table.names store.values <+: (s.schemaAt number).names

section

variable {s t : Session} {name : String}

theorem changes_changeStore {f : Schema → Store → Except Failure Store} (s : Session)
    (name : String) (hf : ∀ {schema old new}, f schema old = .ok new →
      Table.names new.values = Table.names old.values) :
    s.Changes ((Play.changeStore name f).result s).2 := by
  cases hrow : Table.row? s.stores name with
  | none =>
    rw [Play.result_changeStore_none hrow]
    exact .nothing
  | some row =>
    obtain ⟨number, old⟩ := row
    cases hnew : f (s.schemaAt number) old with
    | error why =>
      rw [Play.result_changeStore_error hrow hnew]
      exact .nothing
    | ok new =>
      rw [Play.result_changeStore_ok hrow hnew]
      exact .merged hrow (hf hnew)

theorem changes_changeSchema {f : Schema → Except Failure Schema} (s : Session) (name : String)
    (hf : ∀ {old new}, f old = .ok new → old.channels <+: new.channels) :
    s.Changes ((Play.changeSchema name f).result s).2 := by
  cases hrow : Table.row? s.schemaNames name with
  | none =>
    rw [Play.result_changeSchema_none hrow]
    exact .nothing
  | some number =>
    cases hnew : f (s.schemaAt number) with
    | error why =>
      rw [Play.result_changeSchema_error hrow hnew]
      exact .nothing
    | ok schema =>
      rw [Play.result_changeSchema_ok hrow hnew]
      exact .channels number (hf hnew)

theorem changes_newStore (s : Session) (schemaName name : String) (initial : Value) :
    s.Changes ((Play.newStore schemaName name initial).result s).2 := by
  cases hrow : Table.row? s.schemaNames schemaName with
  | none =>
    rw [Play.result_newStore_none hrow]
    exact .nothing
  | some number =>
    cases hnew : Store.create (s.schemaAt number) initial with
    | error why =>
      rw [Play.result_newStore_error hrow hnew]
      exact .nothing
    | ok store =>
      rw [Play.result_newStore_ok hrow hnew]
      exact .created name number (Store.begins_of_create hnew).complete

/-- A call changes a session in one of these ways, if at all. -/
theorem StoreCall.changes (c : StoreCall) (s : Session) : s.Changes (c.result s).2 := by
  cases c with
  | put name schema => exact .schema name schema
  | freeze schemaName copyName =>
    rw [result, play]
    cases hrow : Table.row? s.schemaNames schemaName with
    | none =>
      rw [Play.result_bind_error (Play.result_schema_none hrow)]
      exact .nothing
    | some number =>
      rw [Play.result_bind_ok (Play.result_schema hrow)]
      exact .schema copyName _
  | define schemaName channel reducer default declared =>
    rw [result, play, Play.leaves_bind fun _ _ => rfl]
    refine changes_changeSchema s schemaName fun h => ?_
    obtain ⟨c, hc⟩ := Schema.channels_define h
    exact ⟨[c], hc.symm⟩
  | create schemaName storeName initial =>
    rw [result, play, Play.leaves_bind fun _ _ => rfl]
    exact changes_newStore s schemaName storeName initial
  | get storeName channel =>
    rw [result, play, Play.leaves_bind fun _ _ => Play.leaves_lift _ _, Play.leaves_store]
    exact .nothing
  | merge storeName channel v =>
    rw [result, play, Play.merge, Play.leaves_bind fun _ _ => Play.leaves_lift _ _]
    exact changes_changeStore s storeName Store.names_of_merge
  | apply storeName update =>
    rw [result, play, Play.leaves_bind fun _ _ => rfl]
    exact changes_changeStore s storeName Store.names_of_applyValue
  | snapshot storeName =>
    rw [result, play, Play.leaves_bind fun _ _ => rfl, Play.leaves_store]
    exact .nothing

/-! ## What calls keep -/

/-- A schema only gets further channels, behind those that it has. -/
theorem Session.Changes.grows (h : s.Changes t) (number : Nat) :
    (s.schemaAt number).channels <+: (t.schemaAt number).channels := by
  cases h with
  | nothing | created | merged => exact List.prefix_refl _
  | schema name schema =>
    by_cases hlt : number < s.schemas.length
    · have hsame : (s.withSchema name schema).schemaAt number = s.schemaAt number := by
        simp only [schemaAt, withSchema, List.getElem?_append_left hlt]
      exact hsame ▸ List.prefix_refl _
    · have hempty : s.schemaAt number = Schema.empty := by
        rw [schemaAt, List.getElem?_eq_none (Nat.le_of_not_lt hlt), Option.getD_none]
      rw [hempty]
      exact List.nil_prefix
  | @channels changed schema h =>
    by_cases hchanged : changed = number ∧ number < s.schemas.length
    · obtain ⟨rfl, hlt⟩ := hchanged
      have hnew : (s.withChannels changed schema).schemaAt changed = schema := by
        simp only [schemaAt, withChannels, List.getElem?_set_self hlt, Option.getD_some]
      rw [hnew]
      exact h
    · have hsame : (s.withChannels changed schema).schemaAt number = s.schemaAt number := by
        by_cases heq : changed = number
        · have hle := Nat.le_of_not_lt fun hlt => hchanged ⟨heq, hlt⟩
          simp only [schemaAt, withChannels, heq, List.set_eq_of_length_le hle]
        · simp only [schemaAt, withChannels, List.getElem?_set_ne heq]
      exact hsame ▸ List.prefix_refl _

theorem Session.Changes.orderly (h : s.Changes t) (hs : s.Orderly) : t.Orderly := by
  intro name number store hrow
  have hgrows := (h.grows number).map Channel.name
  cases h with
  | nothing => exact hs name number store hrow
  | schema | channels => exact (hs name number store hrow).trans hgrows
  | created other number' hnames =>
    rw [stores_withStore, Table.row?_put] at hrow
    split at hrow
    next =>
      cases hrow
      rwa [hnames]
    next => exact hs name number store hrow
  | merged hold hnames =>
    rw [stores_withStore, Table.row?_put] at hrow
    split at hrow
    next =>
      cases hrow
      rw [hnames]
      exact hs _ _ _ hold
    next => exact hs name number store hrow

theorem orderly_fresh (settings : Settings) : (Session.fresh settings).Orderly :=
  fun _ _ _ hrow => by cases hrow

/-- Stores keep to the first channels of their schemas, by induction on the calls. -/
theorem orderly_after (calls : List StoreCall) (hs : s.Orderly) :
    (StoreCall.after calls s).Orderly := by
  induction calls generalizing s with
  | nil => exact hs
  | cons c calls ih => exact ih ((c.changes s).orderly hs)

end

/-! ## What a store answers -/

namespace StoreCall

variable {s : Session} {name channel : String} {number : Nat} {store new : Store} {v w : Value}

theorem result_get (h : Table.row? s.stores name = some (number, store)) (channel : String) :
    (StoreCall.get name channel).result s =
      (Play.lift (store.get (s.schemaAt number) channel)).result s := by
  rw [result, play, Play.result_bind_ok (Play.result_store h)]

theorem result_snapshot (h : Table.row? s.stores name = some (number, store)) :
    (StoreCall.snapshot name).result s = (.ok (.mapping store.snapshot), s) := by
  rw [result, play, Play.result_bind_ok (Play.result_store h)]
  rfl

theorem result_merge_error {why : Failure} (h : Table.row? s.stores name = some (number, store))
    (hmerge : store.merge (s.schemaAt number) channel v = .error why) :
    (StoreCall.merge name channel v).result s = (.error (.failure why), s) := by
  rw [result, play, Play.merge, Play.result_bind_error (Play.result_changeStore_error h hmerge)]

theorem result_merge_ok (h : Table.row? s.stores name = some (number, store))
    (hmerge : store.merge (s.schemaAt number) channel v = .ok new) : ∃ w,
    (StoreCall.merge name channel v).result s = (.ok w, s.withStore name number new) := by
  obtain ⟨c, hc, rfl, _, w, _, _, rfl⟩ := Store.merge_eq_ok.mp hmerge
  have hget : Store.get (s.schemaAt number) ⟨Table.put store.values c.name w⟩ c.name =
      .ok w.copied :=
    Store.get_of_row (List.mem_map.mpr ⟨c, hc, rfl⟩) (by rw [Table.row?_put, if_pos rfl])
  refine ⟨w.copied, ?_⟩
  rw [result, play, Play.merge, Play.result_bind_ok (Play.result_changeStore_ok h hmerge)]
  dsimp only
  rw [hget]
  rfl

theorem result_apply_error {update : Entries} {why : Failure}
    (h : Table.row? s.stores name = some (number, store))
    (happly : store.apply (s.schemaAt number) update = .error why) :
    (StoreCall.apply name (.mapping update)).result s = (.error (.failure why), s) := by
  rw [result, play, Play.result_bind_error (Play.result_changeStore_error h happly)]

theorem result_apply_ok {update : Entries} (h : Table.row? s.stores name = some (number, store))
    (happly : store.apply (s.schemaAt number) update = .ok new) :
    (StoreCall.apply name (.mapping update)).result s =
      (.ok .null, s.withStore name number new) := by
  rw [result, play, Play.result_bind_ok (Play.result_changeStore_ok h happly)]
  rfl

end StoreCall

/-! ## A channel that comes late -/

/-- A channel is defined behind the one that a store was made with. -/
def definedLate : List StoreCall :=
  [.define "s" "x" (.callable .overrideIfPresent) (some (.callable (.ok (.int 0)))) .absent,
    .create "s" "t" .null,
    .define "s" "y" (.callable .overrideIfPresent) (some (.callable (.ok (.int 0)))) .absent]

def late : Session := StoreCall.after definedLate (.fresh .none)

theorem late_store : Table.row? late.stores "t" = some (0, ⟨[("x", .int 0)]⟩) := rfl

end Rehearsal

end TeamFlow
