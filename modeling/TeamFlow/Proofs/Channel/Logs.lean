import TeamFlow.Proofs.Channel.Merging

/-! # Channels that grow

A channel whose contributions are appended to a list that starts empty is a log:
it always holds a list, and merging an update puts what the update adds behind
what is there (`Merges.log`). A channel to which an update contributes nothing
stays as it is, whatever its reducer is. -/
namespace TeamFlow

/-- A channel that is appended to and starts empty. -/
def Schema.Logs (schema : Schema) (name : String) : Prop :=
  ∃ c ∈ schema.channels, c.name = name ∧ c.reducer = Reducer.append ∧ c.initial = .ok (.list [])

/-- Nothing contributes nothing, a list or a tuple its members in their order, and anything else
itself as one item, also if it counts as absent. -/
inductive Reducer.Contributes : Value → List Value → Prop where
  | nothing : Contributes .null []
  | list (xs : List Value) : Contributes (.list xs) xs
  | tuple (xs : List Value) : Contributes (.tuple xs) xs
  | item {v : Value} (hnull : v ≠ .null) (hlist : ∀ xs, v ≠ .list xs)
    (htuple : ∀ xs, v ≠ .tuple xs) : Contributes v [v]

theorem Reducer.contributes (v : Value) : Contributes v (contributed v) := by
  cases v with
  | null => exact .nothing
  | list xs => exact .list xs
  | tuple xs => exact .tuple xs
  | _ => exact .item (by simp) (by simp) (by simp)

namespace Store

/-- What an update adds to a log. -/
def added (update : Entries) (name : String) : List Value :=
  (contributions update name).flatMap Reducer.contributed

theorem foldlM_append (vs xs : List Value) :
    vs.foldlM Reducer.append (.list xs) =
      .ok (.list (xs ++ vs.flatMap Reducer.contributed)) := by
  induction vs generalizing xs with
  | nil => simp [pure, Except.pure]
  | cons v vs ih =>
    rw [List.foldlM_cons, Reducer.append_list, List.flatMap_cons, ← List.append_assoc]
    exact ih _

section Merges

variable {schema : Schema} {update : Entries} {old new : Store} {name : String}

theorem eq_of_appended {reducer : Reducer} (hreducer : reducer = Reducer.append) {xs : List Value}
    {w : Value} (h : (contributions update name).foldlM reducer (.list xs) = .ok w) :
    w = .list (xs ++ added update name) := by
  rw [hreducer, foldlM_append] at h
  cases h
  rfl

/-- A log takes what an update adds to it. -/
theorem Merges.log (h : old.Merges schema update new) (hlog : schema.Logs name) {xs : List Value}
    (hold : Table.row? old.values name = some (.list xs)) :
    Table.row? new.values name = some (.list (xs ++ added update name)) := by
  obtain ⟨c, hc, hname, hreducer, _⟩ := hlog
  obtain ⟨v, w, hv, hw, hfold⟩ := h.channels c hc
  rw [hname] at hv hw hfold
  rw [hold] at hv
  cases hv
  rw [hw, eq_of_appended hreducer hfold]

/-- A channel to which nothing is contributed stays as it is. -/
theorem Merges.untouched (h : old.Merges schema update new) (hs : old.Complete schema)
    (name : String) (hnone : contributions update name = []) :
    Table.row? new.values name = Table.row? old.values name := by
  by_cases hname : name ∈ schema.names
  · obtain ⟨c, hc, rfl⟩ := List.mem_map.mp hname
    obtain ⟨v, w, hv, hw, hfold⟩ := h.channels c hc
    rw [hnone] at hfold
    cases hfold
    rw [hv, hw]
  · have hold : name ∉ Table.names old.values := by rwa [hs]
    have hnew : name ∉ Table.names new.values := by rwa [h.names]
    rw [← Table.row?_isSome_iff, Option.not_isSome_iff_eq_none] at hold hnew
    rw [hold, hnew]

theorem contributions_cons (channel : String) (v : Value) (update : Entries) (name : String) :
    contributions ((.str channel, v) :: update) name =
      (if channel = name then [v] else []) ++ contributions update name := by
  by_cases hname : channel = name <;> simp [contributions, Schema.namedRows, hname]

theorem contributions_eq_nil {name other : String} (h : ∀ e ∈ update, e.1 = .str other)
    (hne : name ≠ other) : contributions update name = [] := by
  rw [contributions, List.map_eq_nil_iff, List.filter_eq_nil_iff]
  intro row hrow
  have hkey : Value.str row.1 = .str other := h _ (Schema.mem_namedRows.mp hrow)
  cases hkey
  simpa using hne.symm

end Merges

section Logging

variable {schema : Schema} {store : Store}

/-- Rows that name logs are merged, if the store holds a list in each of these. -/
theorem mergeAll_of_logs {rows : Table Value} (h : ∀ row ∈ rows, schema.Logs row.1 ∧
    ∃ xs, Table.row? store.values row.1 = some (.list xs)) :
    ∃ new, mergeAll schema store rows = .ok new := by
  induction rows generalizing store with
  | nil => exact ⟨store, rfl⟩
  | cons row rows ih =>
    obtain ⟨⟨c, hc, hname, hreducer, _⟩, xs, hxs⟩ := h row (by simp)
    obtain ⟨ys, hmerged⟩ : ∃ ys,
        store.merge schema row.1 row.2 = .ok ⟨Table.put store.values row.1 (.list ys)⟩ := by
      have happend := Reducer.append_list xs row.2
      rw [← hreducer] at happend
      exact ⟨_, merge_eq_ok.mpr ⟨c, hc, hname, _, _, hxs, happend, rfl⟩⟩
    have hrest : ∀ other ∈ rows, schema.Logs other.1 ∧
        ∃ zs, Table.row? (Table.put store.values row.1 (.list ys)) other.1 = some (.list zs) := by
      intro other hother
      obtain ⟨hlogs, hheld⟩ := h other (by simp [hother])
      refine ⟨hlogs, ?_⟩
      rw [Table.row?_put]
      split
      next => exact ⟨ys, rfl⟩
      next => exact hheld
    obtain ⟨new, hnew⟩ := ih hrest
    exact ⟨new, mergeAll_cons_eq_ok.mpr ⟨_, hmerged, hnew⟩⟩

/-- An update of logs is accepted by a store that holds a list in each of them. -/
theorem apply_of_logs {update : Entries} (h : ∀ e ∈ update, ∃ name, e.1 = .str name ∧
    schema.Logs name ∧ ∃ xs, Table.row? store.values name = some (.list xs)) :
    ∃ new, store.apply schema update = .ok new := by
  have hknown : ∀ e ∈ update, schema.hasKey e.1 = true := by
    intro e he
    obtain ⟨name, hname, ⟨c, hc, rfl, _⟩, _⟩ := h e he
    exact (schema.hasKey_iff e.1).mpr ⟨c.name, List.mem_map.mpr ⟨c, hc, rfl⟩, hname⟩
  rw [apply_of_known hknown]
  refine mergeAll_of_logs fun row hrow => ?_
  obtain ⟨name, hname, hlogs⟩ := h _ (Schema.mem_namedRows.mp hrow)
  cases hname
  exact hlogs

end Logging

section Appending

variable {schema : Schema} {old new : Store} {c : Channel} {xs : List Value}

theorem row?_of_merge_append (hc : c ∈ schema.channels) (hreducer : c.reducer = Reducer.append)
    (hold : Table.row? old.values c.name = some (.list xs)) {name : String} {v : Value}
    (h : old.merge schema name v = .ok new) : Table.row? new.values c.name =
      some (.list (xs ++ if name = c.name then Reducer.contributed v else [])) := by
  obtain ⟨d, hd, rfl, held, w, hheld, hw, rfl⟩ := merge_eq_ok.mp h
  by_cases hname : d.name = c.name
  · obtain rfl : d = c := Schema.eq_of_name hd hc hname
    rw [hold] at hheld
    cases hheld
    rw [hreducer, Reducer.append_list] at hw
    cases hw
    rw [Table.row?_put, if_pos rfl, if_pos rfl]
  · rw [Table.row?_put, if_neg (Ne.symm hname), if_neg hname, hold, List.append_nil]

theorem row?_of_apply_append (hc : c ∈ schema.channels) (hreducer : c.reducer = Reducer.append)
    (hold : Table.row? old.values c.name = some (.list xs)) {update : Entries}
    (h : old.apply schema update = .ok new) :
    Table.row? new.values c.name = some (.list (xs ++ added update c.name)) := by
  obtain ⟨w, hw, hfold⟩ := mergeAll_row? hc (apply_eq_ok h).2 hold
  rw [hw, eq_of_appended hreducer hfold]

/-- What a store is made with stands behind the default. -/
theorem row?_of_create_append (hc : c ∈ schema.channels) (hreducer : c.reducer = Reducer.append)
    (hdefault : c.initial = .ok (.list xs)) {initial : Value}
    (h : create schema initial = .ok new) : ∃ update, initialUpdate initial = .ok update ∧
      Table.row? new.values c.name = some (.list (xs ++ added update c.name)) := by
  obtain ⟨_, update, rows, hupdate, _, hrows, happly⟩ := create_eq_ok.mp h
  obtain ⟨v, hv, hrow⟩ := (holdsDefaults_of_initialRows hrows).defaults c hc
  rw [hdefault] at hv
  cases hv
  exact ⟨update, hupdate, row?_of_apply_append hc hreducer hrow happly⟩

end Appending

theorem HoldsDefaults.log {schema : Schema} {store : Store} (h : store.HoldsDefaults schema)
    {name : String} (hlog : schema.Logs name) :
    Table.row? store.values name = some (.list []) := by
  obtain ⟨c, hc, rfl, _, hinitial⟩ := hlog
  obtain ⟨v, hv, hrow⟩ := h.defaults c hc
  rw [hinitial] at hv
  cases hv
  exact hrow

theorem Begins.log {schema : Schema} {initial : Value} {store : Store}
    (h : store.Begins schema initial) {name : String} (hlog : schema.Logs name) :
    ∃ xs, Table.row? store.values name = some (.list xs) := by
  obtain ⟨_, _, _, hbase, hmerges⟩ := h
  exact ⟨_, hmerges.log hlog (hbase.log hlog)⟩

/-- What a mapping adds to a log is all that the log of the first store holds. -/
theorem Begins.log_eq {schema : Schema} {update : Entries} {store : Store}
    (h : store.Begins schema (.mapping update)) {name : String} (hlog : schema.Logs name) :
    Table.row? store.values name = some (.list (added update name)) := by
  obtain ⟨update', base, hupdate, hbase, hmerges⟩ := h
  have heq : update' = update := by cases update <;> cases hupdate <;> rfl
  rw [hmerges.log hlog (hbase.log hlog), heq, List.nil_append]

end Store

end TeamFlow
