import TeamFlow.Proofs.Channel.Logs
import TeamFlow.Proofs.Channel.Overriding

/-! # States that can be taken up again

An initial state is not put into a store but merged into its defaults. What a
channel regains in this way is left to its reducer: a log that starts empty takes
every list, and a channel that is overridden everything but nothing, which leaves
the default (`regains_iff_of_log`, `regains_iff_of_latest`). Values of another kind
do not come up in such channels (`Regains.reduced`), so what a store shows makes
another store that shows the same (`Restorable.create`). -/
namespace TeamFlow

namespace Channel

/-- A log that starts empty, or a channel that is overridden. -/
def Restores (c : Channel) : Prop :=
  (c.reducer = Reducer.append ∧ c.initial = .ok (.list [])) ∨
    c.reducer = Reducer.overrideIfPresent

/-- A value that a channel shows again when a copy of it is merged into the default. -/
def Regains (c : Channel) (v : Value) : Prop :=
  ∀ first, c.initial = .ok first → ∃ w, c.reducer first v.copied = .ok w ∧ w.copied = v.copied

variable {c : Channel} {v w : Value}

theorem regains_iff_of_log (hreducer : c.reducer = Reducer.append)
    (hdefault : c.initial = .ok (.list [])) : c.Regains v ↔ ∃ xs, v = .list xs := by
  constructor
  · intro h
    obtain ⟨w, hw, hcopied⟩ := h _ hdefault
    rw [hreducer, Reducer.append_list] at hw
    cases hw
    exact ⟨_, (Value.copied_eq_list_iff v _).mp hcopied.symm⟩
  · rintro ⟨xs, rfl⟩ first hfirst
    cases hdefault.symm.trans hfirst
    exact ⟨.list xs, by rw [hreducer, Reducer.append_list]; rfl, rfl⟩

theorem regains_iff_of_latest (hreducer : c.reducer = Reducer.overrideIfPresent) :
    c.Regains v ↔ (v = .null → ∀ first, c.initial = .ok first → first = .null) := by
  constructor
  · rintro h rfl first hfirst
    obtain ⟨w, hw, hcopied⟩ := h first hfirst
    rw [hreducer] at hw
    cases hw
    exact (Value.copied_eq_null_iff first).mp hcopied
  · intro h first hfirst
    rw [hreducer]
    by_cases hnull : v = .null
    · subst hnull
      cases h rfl first hfirst
      exact ⟨.null, rfl, rfl⟩
    · have hcopied : v.copied ≠ .null := fun h => hnull ((Value.copied_eq_null_iff v).mp h)
      exact ⟨v.copied, Reducer.overrideIfPresent_of_ne_null first hcopied, Value.copied_copied v⟩

theorem Restores.default (h : c.Restores) (hv : c.initial = .ok v) : c.Regains v := by
  rcases h with ⟨hreducer, hdefault⟩ | hreducer
  · cases hdefault.symm.trans hv
    exact (regains_iff_of_log hreducer hdefault).mpr ⟨[], rfl⟩
  · rw [regains_iff_of_latest hreducer]
    rintro rfl first hfirst
    cases hv.symm.trans hfirst
    rfl

/-- Whatever is contributed to a value that a channel regains, it regains the outcome as well. -/
theorem Regains.reduced (hv : c.Regains v) (h : c.Restores) {u : Value}
    (hw : c.reducer v u = .ok w) : c.Regains w := by
  rcases h with ⟨hreducer, hdefault⟩ | hreducer
  · rw [regains_iff_of_log hreducer hdefault] at hv ⊢
    obtain ⟨xs, rfl⟩ := hv
    rw [hreducer, Reducer.append_list] at hw
    cases hw
    exact ⟨_, rfl⟩
  · rw [hreducer] at hw
    by_cases hnull : u = .null
    · subst hnull
      cases hw
      exact hv
    · rw [Reducer.overrideIfPresent_of_ne_null v hnull] at hw
      cases hw
      rw [regains_iff_of_latest hreducer]
      exact fun h => absurd h hnull

theorem Regains.folded {contributed : List Value} (hv : c.Regains v) (h : c.Restores)
    (hw : contributed.foldlM c.reducer v = .ok w) : c.Regains w := by
  induction contributed generalizing v with
  | nil => cases hw; exact hv
  | cons u contributed ih =>
    rw [List.foldlM_cons] at hw
    obtain ⟨_, hfirst, hrest⟩ := bind_eq_ok.mp hw
    exact ih (hv.reduced h hfirst) hrest

end Channel

/-- All channels are logs that start empty, or are overridden. -/
def Schema.Restoring (schema : Schema) : Prop := ∀ c ∈ schema.channels, c.Restores

theorem Schema.Overriding.restoring {schema : Schema} (h : schema.Overriding) :
    schema.Restoring := fun c hc => .inr (h c hc)

namespace Store

/-- A store of a schema, made and changed by any calls that succeed. One that fails changes
nothing. -/
inductive Reached (schema : Schema) : Store → Prop where
  | created {initial : Value} {store : Store} (h : create schema initial = .ok store) :
      Reached schema store
  | merged {old new : Store} {name : String} {v : Value} (h : Reached schema old)
      (hmerge : old.merge schema name v = .ok new) : Reached schema new
  | applied {old new : Store} {update : Value} (h : Reached schema old)
      (happly : old.applyValue schema update = .ok new) : Reached schema new

/-- A store of which each channel regains its value. -/
structure Restorable (schema : Schema) (store : Store) : Prop where
  usable : schema.problems = []
  defaults : ∃ rows, initialRows schema.channels = .ok rows
  complete : store.Complete schema
  regains : ∀ c ∈ schema.channels, ∀ v, Table.row? store.values c.name = some v → c.Regains v

section

variable {schema : Schema} {update : Entries} {old new store : Store}

theorem merges_of_merge {name : String} {v : Value} (hs : old.Complete schema)
    (h : old.merge schema name v = .ok new) : old.Merges schema [(.str name, v)] new := by
  obtain ⟨c, hc, rfl, _⟩ := merge_eq_ok.mp h
  refine merges_of_apply hs ?_
  rw [apply_of_known]
  · exact mergeAll_cons_eq_ok.mpr ⟨new, h, rfl⟩
  · intro e he
    rw [List.mem_singleton.mp he]
    exact (schema.hasKey_iff _).mpr ⟨c.name, List.mem_map.mpr ⟨c, hc, rfl⟩, rfl⟩

theorem Merges.restorable (h : old.Merges schema update new) (hschema : schema.Restoring)
    (hs : Restorable schema old) : Restorable schema new := by
  refine ⟨hs.usable, hs.defaults, h.complete hs.complete, fun c hc w hw => ?_⟩
  obtain ⟨v, w', hv, hw', hfold⟩ := h.channels c hc
  cases hw.symm.trans hw'
  exact (hs.regains c hc v hv).folded (hschema c hc) hfold

theorem restorable_of_create (hschema : schema.Restoring) {initial : Value}
    (h : create schema initial = .ok store) : Restorable schema store := by
  obtain ⟨hproblems, update, rows, _, _, hrows, happly⟩ := create_eq_ok.mp h
  have hbase := holdsDefaults_of_initialRows hrows
  refine (merges_of_apply hbase.complete happly).restorable hschema
    ⟨hproblems, ⟨rows, hrows⟩, hbase.complete, fun c hc v hv => ?_⟩
  obtain ⟨first, hfirst, hrow⟩ := hbase.defaults c hc
  cases hv.symm.trans hrow
  exact (hschema c hc).default hfirst

/-- Every store that can be reached is restorable, by induction on the calls. -/
theorem Reached.restorable (h : Reached schema store) (hschema : schema.Restoring) :
    Restorable schema store := by
  induction h with
  | created h => exact restorable_of_create hschema h
  | merged _ hmerge ih => exact (merges_of_merge ih.complete hmerge).restorable hschema ih
  | applied _ happly ih =>
    obtain ⟨update, _, happly⟩ := applyValue_eq_ok happly
    exact (merges_of_apply ih.complete happly).restorable hschema ih

theorem Complete.snapshot_once (hs : store.Complete schema) : Entries.TextsOnce store.snapshot := by
  rw [Entries.TextsOnce, snapshot_eq_ofFields, Schema.namedRows_ofFields, Table.names_mapRows, hs]
  exact schema.distinct

/-- What a restorable store shows makes a store that shows the same. -/
theorem Restorable.create (h : Restorable schema store) :
    ∃ copy, Store.create schema (.mapping store.snapshot) = .ok copy ∧
      copy.snapshot = store.snapshot := by
  obtain ⟨rows, hrows⟩ := h.defaults
  have hbase := holdsDefaults_of_initialRows hrows
  have hdistinct : (Table.names store.values).Nodup := by
    rw [h.complete]
    exact schema.distinct
  -- the update is refused only if one of its entries cannot be merged into the defaults
  have hmergeable : ∀ e ∈ store.snapshot, Mergeable schema ⟨rows⟩ e := by
    intro e he
    obtain ⟨⟨name, v⟩, hmem, rfl⟩ := List.mem_map.mp he
    obtain ⟨c, hc, rfl⟩ : ∃ c ∈ schema.channels, c.name = name := by
      refine List.mem_map.mp (?_ : name ∈ schema.names)
      rw [← h.complete]
      exact List.mem_map.mpr ⟨_, hmem, rfl⟩
    obtain ⟨first, hfirst, hrow⟩ := hbase.defaults c hc
    obtain ⟨w, hw, _⟩ := h.regains c hc v (Table.row?_of_mem hdistinct hmem) first hfirst
    exact ⟨c, hc, rfl, first, w, hrow, hw⟩
  rcases apply_merged_or_refused schema ⟨rows⟩ h.complete.snapshot_once with
    ⟨copy, hcopy, _⟩ | ⟨_, _, hrefuses⟩
  · have hmerges := merges_of_apply hbase.complete hcopy
    refine ⟨copy, create_eq_ok.mpr ⟨h.usable, _, rows, initialUpdate_mapping _, hmerges.known,
      hrows, hcopy⟩, snapshot_ext (hmerges.complete hbase.complete) h.complete fun c hc => ?_⟩
    obtain ⟨v, hv⟩ := h.complete.row? hc
    obtain ⟨first, hfirst, hrow⟩ := hbase.defaults c hc
    obtain ⟨w, hw, hcopied⟩ := h.regains c hc v hv first hfirst
    obtain ⟨first', w', hrow', hw', hfold⟩ := hmerges.channels c hc
    cases hrow.symm.trans hrow'
    rw [contributions_snapshot h.complete hv, List.foldlM_cons, hw] at hfold
    cases hfold
    rw [hw', hv]
    exact congrArg some hcopied
  · obtain ⟨e, he, hnot⟩ := hrefuses.not_mergeable
    exact absurd (hmergeable e he) hnot

theorem Restorable.of_channels {other : Schema} (h : Restorable schema store)
    (hchannels : other.channels = schema.channels) : Restorable other store := by
  refine ⟨?_, hchannels ▸ h.defaults, ?_, fun c hc => h.regains c (hchannels ▸ hc)⟩
  · rw [← h.usable, Schema.problems, Schema.problems, hchannels]
  · rw [Complete, Schema.names, hchannels]
    exact h.complete

end

end Store

end TeamFlow
