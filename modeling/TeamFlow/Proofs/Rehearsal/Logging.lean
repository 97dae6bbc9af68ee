import TeamFlow.Proofs.Channel.Logs
import TeamFlow.Proofs.Rehearsal.Sharing

/-! # What is appended stays

Of the calls on a session the ones that succeed decide what a channel holds to
which contributions are appended: its default, and behind it what they have
contributed since the store was made, in their order (`logged`). So nothing that
a store shows of such a channel is ever lost. What one call comes to for a store
is said once (`Meets`); a call that fails is the same as none. -/
namespace TeamFlow.Rehearsal

namespace StoreCall

def makes (name : String) : StoreCall → Bool
  | .create _ storeName _ => storeName == name
  | _ => false

/-- The items that a call has for a channel of the store of the given name. -/
def items (name channel : String) : StoreCall → List Value
  | .create _ storeName initial =>
    if storeName = name then
      match Store.initialUpdate initial with
      | .ok update => Store.added update channel
      | .error _ => []
    else []
  | .merge storeName other v =>
    if storeName = name then
      if other = channel then Reducer.contributed v else []
    else []
  | .apply storeName (.mapping update) =>
    if storeName = name then Store.added update channel else []
  | _ => []

/-- Items are put behind those that are there, but a store that is made begins anew. -/
def logs (name channel : String) (log : List Value) (c : StoreCall) : List Value :=
  if c.makes name then c.items name channel else log ++ c.items name channel

def succeeding : List StoreCall → Session → List StoreCall
  | [], _ => []
  | c :: calls, s => match c.result s with
    | (.ok _, s) => c :: succeeding calls s
    | (.error _, s) => succeeding calls s

/-- The items that calls leave in a channel of a store, behind its default. -/
def logged (name channel : String) (calls : List StoreCall) (s : Session) : List Value :=
  (succeeding calls s).foldl (logs name channel) []

/-! ## One call -/

/-- What a call comes to for the store of the given name: it fails and changes nothing, it does not
concern the store, it makes it, or it merges something into it. -/
inductive Meets (s : Session) (name : String) :
    StoreCall → Except Trouble Value × Session → Prop where
  | failed (c : StoreCall) (why : Trouble) : Meets s name c (.error why, s)
  | apart {c : StoreCall} {t : Session} (v : Value)
      (hstores : Table.row? t.stores name = Table.row? s.stores name)
      (hmakes : c.makes name = false) (hitems : ∀ channel, c.items name channel = []) :
      Meets s name c (.ok v, t)
  | made {schemaName : String} {initial : Value} {number : Nat} {store : Store} (v : Value)
      (hcreate : Store.create (s.schemaAt number) initial = .ok store) :
      Meets s name (.create schemaName name initial) (.ok v, s.withStore name number store)
  | merged {channel : String} {contribution : Value} {number : Nat} {old new : Store} (v : Value)
      (hold : Table.row? s.stores name = some (number, old))
      (hmerge : old.merge (s.schemaAt number) channel contribution = .ok new) :
      Meets s name (.merge name channel contribution) (.ok v, s.withStore name number new)
  | applied {update : Entries} {number : Nat} {old new : Store} (v : Value)
      (hold : Table.row? s.stores name = some (number, old))
      (happly : old.apply (s.schemaAt number) update = .ok new) :
      Meets s name (.apply name (.mapping update)) (.ok v, s.withStore name number new)

section

variable {s t : Session} {name : String}

theorem row?_withStore_ne {other : String} (h : name ≠ other) (number : Nat) (store : Store) :
    Table.row? (s.withStore other number store).stores name = Table.row? s.stores name := by
  rw [Session.stores_withStore, Table.row?_put, if_neg h]

theorem Meets.elsewhere {c : StoreCall} {other : String} (h : name ≠ other) (number : Nat)
    (store : Store) (v : Value) (hmakes : c.makes name = false)
    (hitems : ∀ channel, c.items name channel = []) :
    Meets s name c (.ok v, s.withStore other number store) :=
  .apart v (row?_withStore_ne h number store) hmakes hitems

theorem Meets.reading {c : StoreCall} {r : Except Trouble Value × Session} (hleaves : r.2 = s)
    (hmakes : c.makes name = false) (hitems : ∀ channel, c.items name channel = []) :
    Meets s name c r := by
  obtain ⟨answer, _⟩ := r
  obtain rfl : _ = s := hleaves
  cases answer with
  | error why => exact .failed c why
  | ok v => exact .apart v rfl hmakes hitems

theorem meets_create (s : Session) (name schemaName storeName : String) (initial : Value) :
    Meets s name (.create schemaName storeName initial)
      ((StoreCall.create schemaName storeName initial).result s) := by
  rw [result, play]
  cases hrow : Table.row? s.schemaNames schemaName with
  | none =>
    rw [Play.result_bind_error (Play.result_newStore_none hrow)]
    exact .failed _ _
  | some number =>
    cases hcreate : Store.create (s.schemaAt number) initial with
    | error why =>
      rw [Play.result_bind_error (Play.result_newStore_error hrow hcreate)]
      exact .failed _ _
    | ok store =>
      rw [Play.result_bind_ok (Play.result_newStore_ok hrow hcreate)]
      by_cases hname : storeName = name
      · subst hname
        exact .made _ hcreate
      · exact .elsewhere (Ne.symm hname) number store _ (by simp [makes, hname])
          fun channel => by simp [items, hname]

theorem meets_merge (s : Session) (name storeName channel : String) (v : Value) :
    Meets s name (.merge storeName channel v) ((StoreCall.merge storeName channel v).result s) := by
  cases hrow : Table.row? s.stores storeName with
  | none =>
    rw [result, play, Play.merge, Play.result_bind_error (Play.result_changeStore_none hrow)]
    exact .failed _ _
  | some row =>
    obtain ⟨number, old⟩ := row
    cases hmerge : old.merge (s.schemaAt number) channel v with
    | error why =>
      rw [result_merge_error hrow hmerge]
      exact .failed _ _
    | ok new =>
      obtain ⟨w, hcall⟩ := result_merge_ok hrow hmerge
      rw [hcall]
      by_cases hname : storeName = name
      · subst hname
        exact .merged w hrow hmerge
      · exact .elsewhere (Ne.symm hname) number new w rfl fun other => by simp [items, hname]

theorem meets_apply (s : Session) (name storeName : String) (given : Value) :
    Meets s name (.apply storeName given) ((StoreCall.apply storeName given).result s) := by
  rw [result, play]
  cases hrow : Table.row? s.stores storeName with
  | none =>
    rw [Play.result_bind_error (Play.result_changeStore_none hrow)]
    exact .failed _ _
  | some row =>
    obtain ⟨number, old⟩ := row
    cases happly : old.applyValue (s.schemaAt number) given with
    | error why =>
      rw [Play.result_bind_error (Play.result_changeStore_error hrow happly)]
      exact .failed _ _
    | ok new =>
      rw [Play.result_bind_ok (Play.result_changeStore_ok hrow happly)]
      obtain ⟨update, rfl, hupdate⟩ := Store.applyValue_eq_ok happly
      by_cases hname : storeName = name
      · subst hname
        exact .applied _ hrow hupdate
      · exact .elsewhere (Ne.symm hname) number new _ rfl fun other => by simp [items, hname]

/-- A call comes to one of these, whichever it is. -/
theorem meets (c : StoreCall) (s : Session) (name : String) : Meets s name c (c.result s) := by
  cases c with
  | put schemaName schema => exact .apart .null rfl rfl fun _ => rfl
  | freeze schemaName copyName =>
    rw [result, play]
    cases hrow : Table.row? s.schemaNames schemaName with
    | none =>
      rw [Play.result_bind_error (Play.result_schema_none hrow)]
      exact .failed _ _
    | some number =>
      rw [Play.result_bind_ok (Play.result_schema hrow)]
      exact .apart .null rfl rfl fun _ => rfl
  | define schemaName channel reducer default declared =>
    rw [result, play]
    cases hrow : Table.row? s.schemaNames schemaName with
    | none =>
      rw [Play.result_bind_error (Play.result_changeSchema_none hrow)]
      exact .failed _ _
    | some number =>
      cases hnew : (s.schemaAt number).define channel reducer default declared with
      | error why =>
        rw [Play.result_bind_error (Play.result_changeSchema_error hrow hnew)]
        exact .failed _ _
      | ok schema =>
        rw [Play.result_bind_ok (Play.result_changeSchema_ok hrow hnew)]
        exact .apart .null rfl rfl fun _ => rfl
  | create schemaName storeName initial => exact meets_create s name schemaName storeName initial
  | get storeName channel =>
    refine .reading ?_ rfl fun _ => rfl
    rw [result, play, Play.leaves_bind fun _ _ => Play.leaves_lift _ _, Play.leaves_store]
  | merge storeName channel v => exact meets_merge s name storeName channel v
  | apply storeName given => exact meets_apply s name storeName given
  | snapshot storeName =>
    refine .reading ?_ rfl fun _ => rfl
    rw [result, play, Play.leaves_bind fun _ _ => rfl, Play.leaves_store]

end

end StoreCall

/-! ## Step by step -/

/-- A channel to which is appended holds its default and behind it the log, if the store of the
given name has a value for it. -/
def Session.LogsHold (s : Session) (name : String) (log : String → List Value) : Prop :=
  ∀ number store, Table.row? s.stores name = some (number, store) →
    ∀ c ∈ (s.schemaAt number).channels, c.reducer = Reducer.append →
      ∀ xs, c.initial = .ok (.list xs) → ∀ v, Table.row? store.values c.name = some v →
        v = .list (xs ++ log c.name)

section

variable {s t : Session} {name : String} {log : String → List Value}

/-- A channel for which there is a value was there before a schema grew. -/
theorem Session.Orderly.mem_before {number : Nat} {store : Store} (hs : s.Orderly)
    (hrow : Table.row? s.stores name = some (number, store))
    (hgrows : (s.schemaAt number).channels <+: (t.schemaAt number).channels) {c : Channel}
    (hc : c ∈ (t.schemaAt number).channels) {v : Value}
    (hv : Table.row? store.values c.name = some v) : c ∈ (s.schemaAt number).channels := by
  have hname : c.name ∈ Table.names store.values :=
    (Table.row?_isSome_iff _ _).mp (by rw [hv]; rfl)
  obtain ⟨d, hd, heq⟩ := List.mem_map.mp ((hs name number store hrow).subset hname)
  exact Schema.eq_of_name (hgrows.subset hd) hc heq ▸ hd

/-- A call that succeeds puts its items behind those that are there, whatever it does. -/
theorem StoreCall.logsHold_step {c : StoreCall} {v : Value} (h : c.result s = (.ok v, t))
    (hs : s.Orderly) (hlogs : s.LogsHold name log) :
    t.LogsHold name fun channel => c.logs name channel (log channel) := by
  have hchanges := c.changes s
  have hmeets := c.meets s name
  rw [h] at hchanges hmeets
  intro number store hrow d hd hreducer xs hdefault w hw
  cases hmeets with
  | apart _ hstores hmakes hitems =>
    rw [hstores] at hrow
    -- a channel that a schema gained in between has no value in the store
    have hbefore := hs.mem_before hrow (hchanges.grows number) hd hw
    rw [hlogs number store hrow d hbefore hreducer xs hdefault w hw]
    simp [logs, hmakes, hitems]
  | made _ hcreate =>
    rw [Session.row?_withStore] at hrow
    cases hrow
    obtain ⟨update, hupdate, hnew⟩ := Store.row?_of_create_append hd hreducer hdefault hcreate
    cases hw.symm.trans hnew
    simp [logs, makes, items, hupdate]
  | merged _ hold hmerge =>
    rw [Session.row?_withStore] at hrow
    cases hrow
    obtain ⟨u, hu⟩ := Table.row?_of_names (Store.names_of_merge hmerge) hw
    rw [hlogs _ _ hold d hd hreducer xs hdefault u hu] at hu
    cases hw.symm.trans (Store.row?_of_merge_append hd hreducer hu hmerge)
    simp [logs, makes, items]
  | applied _ hold happly =>
    rw [Session.row?_withStore] at hrow
    cases hrow
    obtain ⟨u, hu⟩ :=
      Table.row?_of_names (Store.names_of_mergeAll (Store.apply_eq_ok happly).2) hw
    rw [hlogs _ _ hold d hd hreducer xs hdefault u hu] at hu
    cases hw.symm.trans (Store.row?_of_apply_append hd hreducer hu happly)
    simp [logs, makes, items]

/-- A call that makes no store of the given name leaves one that is there, with its names. -/
theorem StoreCall.stays_step (c : StoreCall) (hmakes : c.makes name = false) {number : Nat}
    {old : Store} (hold : Table.row? s.stores name = some (number, old)) :
    ∃ new, Table.row? (c.result s).2.stores name = some (number, new) ∧
      Table.names new.values = Table.names old.values := by
  have hmeets := c.meets s name
  generalize c.result s = r at hmeets ⊢
  cases hmeets with
  | failed => exact ⟨old, hold, rfl⟩
  | apart _ hstores => exact ⟨old, hstores.trans hold, rfl⟩
  | made => simp [makes] at hmakes
  | merged _ hrow hmerge =>
    cases hold.symm.trans hrow
    exact ⟨_, Session.row?_withStore, Store.names_of_merge hmerge⟩
  | applied _ hrow happly =>
    cases hold.symm.trans hrow
    exact ⟨_, Session.row?_withStore, Store.names_of_mergeAll (Store.apply_eq_ok happly).2⟩

end

/-! ## All calls -/

namespace StoreCall

variable {s t : Session} {name : String} {log : String → List Value}

theorem succeeding_cons_ok {c : StoreCall} {v : Value} (h : c.result s = (.ok v, t))
    (calls : List StoreCall) : succeeding (c :: calls) s = c :: succeeding calls t := by
  rw [succeeding, h]

theorem succeeding_cons_error {c : StoreCall} {why : Trouble} (h : c.result s = (.error why, t))
    (calls : List StoreCall) : t = s ∧ succeeding (c :: calls) s = succeeding calls s := by
  have hmeets := c.meets s ""
  rw [h] at hmeets
  cases hmeets
  exact ⟨rfl, by rw [succeeding, h]⟩

/-- Nothing is lost, by induction on the calls. -/
theorem logsHold_after (calls : List StoreCall) (hs : s.Orderly) (hlogs : s.LogsHold name log) :
    (after calls s).LogsHold name fun channel =>
      (succeeding calls s).foldl (logs name channel) (log channel) := by
  induction calls generalizing s log with
  | nil => exact hlogs
  | cons c calls ih =>
    rcases hresult : c.result s with ⟨_ | _, t⟩
    · obtain ⟨rfl, hsame⟩ := succeeding_cons_error hresult calls
      rw [hsame, after, List.foldl_cons, hresult]
      exact ih hs hlogs
    · have ht : t.Orderly := by simpa [hresult] using (c.changes s).orderly hs
      rw [succeeding_cons_ok hresult, after, List.foldl_cons, hresult]
      exact ih ht (logsHold_step hresult hs hlogs)

theorem logsHold_fresh (name : String) (log : String → List Value) (settings : Settings) :
    (Session.fresh settings).LogsHold name log :=
  fun _ _ hrow => by cases hrow

theorem stays_after {calls : List StoreCall} (hmakes : ∀ c ∈ calls, c.makes name = false)
    {number : Nat} {old : Store} (hold : Table.row? s.stores name = some (number, old)) :
    ∃ new, Table.row? (after calls s).stores name = some (number, new) ∧
      Table.names new.values = Table.names old.values := by
  induction calls generalizing s old with
  | nil => exact ⟨old, hold, rfl⟩
  | cons c calls ih =>
    obtain ⟨mid, hmid, hnames⟩ := c.stays_step (hmakes c List.mem_cons_self) hold
    obtain ⟨new, hnew, hnames'⟩ := ih (fun d hd => hmakes d (List.mem_cons_of_mem _ hd)) hmid
    exact ⟨new, hnew, hnames'.trans hnames⟩

theorem grows_after (calls : List StoreCall) (s : Session) (number : Nat) :
    (s.schemaAt number).channels <+: ((after calls s).schemaAt number).channels := by
  induction calls generalizing s with
  | nil => exact List.prefix_refl _
  | cons c calls ih => exact ((c.changes s).grows number).trans (ih _)

theorem succeeding_subset (calls : List StoreCall) (s : Session) : succeeding calls s ⊆ calls := by
  induction calls generalizing s with
  | nil => exact List.Subset.refl _
  | cons c calls ih =>
    rcases hresult : c.result s with ⟨_ | _, t⟩
    · rw [(succeeding_cons_error hresult calls).2]
      exact List.subset_cons_of_subset c (ih s)
    · rw [succeeding_cons_ok hresult]
      exact List.cons_subset_cons c (ih t)

/-- Where no store of the given name is made, items only come behind those that are there. -/
theorem foldl_logs {calls : List StoreCall} (hmakes : ∀ c ∈ calls, c.makes name = false)
    (channel : String) (items : List Value) : calls.foldl (logs name channel) items =
      items ++ calls.flatMap (StoreCall.items name channel) := by
  induction calls generalizing items with
  | nil => simp
  | cons c calls ih =>
    rw [List.foldl_cons, ih fun d hd => hmakes d (List.mem_cons_of_mem _ hd), logs,
      if_neg (by simp [hmakes c List.mem_cons_self]), List.flatMap_cons, List.append_assoc]

end StoreCall

/-! ## What is read -/

/-- What a store shows in a channel. -/
structure Session.Shows (s : Session) (name channel : String) (v : Value) : Prop where
  read : (StoreCall.get name channel).result s = (.ok v, s)
  shown : ∃ state, (StoreCall.snapshot name).result s = (.ok (.mapping state), s) ∧
    (.str channel, v) ∈ state

/-- A channel holds a log, and whatever is called later, short of making another store of the name,
only puts the items of the calls that succeed behind it. -/
structure Session.Keeps (s : Session) (name channel : String) (log : List Value) : Prop where
  now : s.Shows name channel (.list log)
  later : ∀ calls : List StoreCall, (∀ c ∈ calls, c.makes name = false) →
    (StoreCall.after calls s).Shows name channel
      (.list (log ++ (StoreCall.succeeding calls s).flatMap (StoreCall.items name channel)))

theorem Session.LogsHold.shows {s : Session} {name : String} {log : String → List Value}
    (h : s.LogsHold name log) {number : Nat} {store : Store}
    (hrow : Table.row? s.stores name = some (number, store)) {c : Channel}
    (hc : c ∈ (s.schemaAt number).channels) (hreducer : c.reducer = Reducer.append)
    {xs : List Value} (hdefault : c.initial = .ok (.list xs))
    (hname : c.name ∈ Table.names store.values) :
    s.Shows name c.name (.list (xs ++ log c.name)) := by
  obtain ⟨v, hv⟩ := Option.isSome_iff_exists.mp ((Table.row?_isSome_iff _ _).mpr hname)
  obtain rfl := h number store hrow c hc hreducer xs hdefault v hv
  refine ⟨?_, _, StoreCall.result_snapshot hrow, List.mem_map.mpr ⟨_, Table.mem_of_row? hv, rfl⟩⟩
  rw [StoreCall.result_get hrow, Store.get_of_row (List.mem_map.mpr ⟨c, hc, rfl⟩) hv]
  rfl

/-- Nothing that is appended is lost: after whatever calls, a channel to which is appended shows
its default and behind it what the calls that succeeded have contributed, in their order, and from
then on it only grows. -/
theorem stores_log (settings : Settings) (calls : List StoreCall) {name : String}
    {number : Nat} {store : Store}
    (h : Table.row? (StoreCall.after calls (.fresh settings)).stores name = some (number, store))
    {c : Channel}
    (hc : c ∈ ((StoreCall.after calls (.fresh settings)).schemaAt number).channels)
    (hreducer : c.reducer = Reducer.append) {xs : List Value}
    (hdefault : c.initial = .ok (.list xs))
    (hshown : .str c.name ∈ store.snapshot.map Prod.fst) :
    (StoreCall.after calls (.fresh settings)).Keeps name c.name
      (xs ++ StoreCall.logged name c.name calls (.fresh settings)) ∧
    ∀ v, Reducer.Contributes v (Reducer.contributed v) := by
  refine ⟨?_, Reducer.contributes⟩
  have hlogs := StoreCall.logsHold_after calls (orderly_fresh settings)
    (StoreCall.logsHold_fresh name (fun _ => []) settings)
  have horderly := orderly_after calls (orderly_fresh settings)
  have hname : c.name ∈ Table.names store.values := by
    rwa [Store.keys_snapshot, List.mem_map_of_injective Value.str_injective] at hshown
  generalize StoreCall.after calls (.fresh settings) = s at h hc hlogs horderly ⊢
  refine ⟨hlogs.shows h hc hreducer hdefault hname, fun later hmakes => ?_⟩
  obtain ⟨new, hnew, hnames⟩ := StoreCall.stays_after hmakes h
  have hshows := (StoreCall.logsHold_after later horderly hlogs).shows hnew
    ((StoreCall.grows_after later s number).subset hc) hreducer hdefault (hnames ▸ hname)
  have hitems := StoreCall.foldl_logs
    (fun d hd => hmakes d (StoreCall.succeeding_subset later s hd)) c.name
  rwa [hitems, ← List.append_assoc] at hshows

/-- A log that begins with a number takes what counts as absent, but neither nothing, nor an empty
tuple, nor what comes with a name that is no channel. -/
def logging : List StoreCall :=
  [.define "s" "log" (.callable .append) (some (.callable (.ok (.list [.int 5])))) .absent,
    .create "s" "t" (.mapping [(.str "log", .str "")]),
    .apply "t" (.mapping [(.str "log", .int 1), (.str "other", .int 2)]),
    .merge "t" "log" (.int 0),
    .merge "t" "log" .null,
    .apply "t" (.mapping [(.str "log", .mapping [])]),
    .merge "t" "other" (.int 3),
    .merge "t" "log" (.tuple []),
    .merge "t" "log" (.tuple [.str "a", .list []])]

def loggingChannel : Channel := ⟨"log", .append, some (.ok (.list [.int 5])), .absent⟩

def loggingStore : Store :=
  ⟨[("log", .list [.int 5, .str "", .int 0, .mapping [], .str "a", .list []])]⟩

/-- So it is read, and one more item comes behind. -/
theorem logging_log :
    Table.row? (StoreCall.after logging (.fresh .none)).stores "t" = some (0, loggingStore) ∧
    loggingChannel ∈ ((StoreCall.after logging (.fresh .none)).schemaAt 0).channels ∧
    loggingChannel.reducer = Reducer.append ∧ loggingChannel.initial = .ok (.list [.int 5]) ∧
    .str loggingChannel.name ∈ loggingStore.snapshot.map Prod.fst ∧
    (StoreCall.after [.merge "t" "log" (.str "b")]
      (StoreCall.after logging (.fresh .none))).Shows "t" "log"
        (.list [.int 5, .str "", .int 0, .mapping [], .str "a", .list [], .str "b"]) := by
  have hrow : Table.row? (StoreCall.after logging (.fresh .none)).stores "t" =
    some (0, loggingStore) := rfl
  have hc : loggingChannel ∈ ((StoreCall.after logging (.fresh .none)).schemaAt 0).channels :=
    .head _
  have hshown : Value.str loggingChannel.name ∈ loggingStore.snapshot.map Prod.fst := .head _
  have hkeeps := (stores_log .none logging hrow hc rfl rfl hshown).1
  exact ⟨hrow, hc, rfl, rfl, hshown,
    hkeeps.later [.merge "t" "log" (.str "b")] (by simp [StoreCall.makes])⟩

end TeamFlow.Rehearsal
