import TeamFlow.Proofs.Channel.Atomicity
import TeamFlow.Proofs.Team.Decision
import TeamFlow.Proofs.Value.Copies

/-! # Schemas whose channels are all overridden

Where all channels are overridden merging never fails, and what a store shows
afterwards is told by what was contributed and by what it showed before. So two
stores that show the same go on showing the same (`apply_shown`). A state that
was shown can also be merged back into a store (`apply_snapshot`), but for one
thing: nothing is not written over something. It need not be: a channel does not
come to hold nothing (`Fills`). -/
namespace TeamFlow

/-- All channels are overridden. -/
def Schema.Overriding (schema : Schema) : Prop :=
  ∀ c ∈ schema.channels, c.reducer = Reducer.overrideIfPresent

theorem Schema.Overriding.overrides {schema : Schema} (h : schema.Overriding) {name : String}
    (hname : name ∈ schema.names) : schema.Overrides name := by
  obtain ⟨c, hc, rfl⟩ := List.mem_map.mp hname
  exact ⟨c, hc, rfl, h c hc⟩

namespace Reducer

/-- What overriding leaves of a value: the last contribution that is something. -/
def latest (v : Value) (contributed : List Value) : Value :=
  contributed.foldl (fun old new => match new with
    | .null => old
    | w => w) v

theorem overrideIfPresent_of_ne_null (old : Value) {v : Value} (h : v ≠ .null) :
    overrideIfPresent old v = .ok v := by
  cases v with
  | null => exact absurd rfl h
  | _ => rfl

theorem foldlM_override (v : Value) (contributed : List Value) :
    contributed.foldlM overrideIfPresent v = .ok (latest v contributed) := by
  induction contributed generalizing v with
  | nil => rfl
  | cons w contributed ih =>
    rw [List.foldlM_cons]
    cases w <;> exact ih _

theorem latest_eq_null {v : Value} {contributed : List Value} (h : latest v contributed = .null) :
    v = .null := by
  induction contributed generalizing v with
  | nil => exact h
  | cons w contributed ih =>
    cases w with
    | null => exact ih h
    | _ => cases ih h

theorem latest_of_ne_null (v : Value) {w : Value} (h : w ≠ .null) : latest v [w] = w := by
  cases w with
  | null => exact absurd rfl h
  | _ => rfl

theorem copied_latest {v w : Value} (h : v.copied = w.copied) (contributed : List Value) :
    (latest v contributed).copied = (latest w contributed).copied := by
  induction contributed generalizing v w with
  | nil => exact h
  | cons u contributed ih =>
    cases u with
    | null => exact ih h
    | _ => exact ih rfl

end Reducer

namespace Store

variable {schema : Schema} {update : Entries} {old new : Store}

/-! ## What a store shows -/

theorem snapshot_ext {a b : Store} (ha : a.Complete schema) (hb : b.Complete schema)
    (h : ∀ c ∈ schema.channels, (Table.row? a.values c.name).map Value.copied =
      (Table.row? b.values c.name).map Value.copied) : a.snapshot = b.snapshot := by
  have hnames : Table.names (Table.mapRows Value.copied a.values) = schema.names := by
    rw [Table.names_mapRows, ha]
  have hrows : Table.mapRows Value.copied a.values = Table.mapRows Value.copied b.values := by
    refine Table.ext_of_names ?_ ?_ fun n hn => ?_
    · rw [hnames, Table.names_mapRows, hb]
    · rw [hnames]
      exact schema.distinct
    · rw [hnames] at hn
      obtain ⟨c, hc, rfl⟩ := List.mem_map.mp hn
      rw [Table.row?_mapRows, Table.row?_mapRows]
      exact h c hc
  rw [snapshot_eq_ofFields, snapshot_eq_ofFields, hrows]

/-- Stores that show the same hold values that are copied alike. -/
theorem copied_of_shown {a b : Store} (h : a.snapshot = b.snapshot) (name : String) :
    (Table.row? a.values name).map Value.copied = (Table.row? b.values name).map Value.copied := by
  rw [← find?_snapshot, ← find?_snapshot, h]

theorem complete_of_shown {a b : Store} (h : a.snapshot = b.snapshot) (ha : a.Complete schema) :
    b.Complete schema := by
  have heq := keys_snapshot b
  rw [← h, keys_snapshot a] at heq
  exact (List.map_injective_iff.mpr Value.str_injective heq).symm.trans ha

/-! ## Merging -/

/-- A channel holds the last contribution that is something, if there is one. -/
theorem Merges.latest (h : old.Merges schema update new) (hoverriding : schema.Overriding)
    {c : Channel} (hc : c ∈ schema.channels) : ∃ v, Table.row? old.values c.name = some v ∧
    Table.row? new.values c.name = some (Reducer.latest v (contributions update c.name)) := by
  obtain ⟨v, w, hv, hw, hfold⟩ := h.channels c hc
  rw [hoverriding c hc, Reducer.foldlM_override] at hfold
  cases hfold
  exact ⟨v, hv, hw⟩

theorem apply_cases (hoverriding : schema.Overriding) (hs : old.Complete schema)
    (update : Entries) :
    (∃ why, schema.checked "Update" update = .error why ∧
      old.apply schema update = .error why) ∨
    ∃ rows, schema.checked "Update" update = .ok rows ∧
      ∃ new, old.apply schema update = .ok new := by
  cases hchecked : schema.checked "Update" update with
  | error why => exact .inl ⟨why, rfl, by rw [apply, hchecked]; rfl⟩
  | ok rows =>
    refine .inr ⟨rows, rfl, apply_of_overrides hs fun e he => ?_⟩
    obtain ⟨name, hname, hkey⟩ :=
      (schema.hasKey_iff e.1).mp ((Schema.checked_eq_ok.mp hchecked).1 e he)
    exact ⟨name, hkey, hoverriding.overrides hname⟩

/-- Stores that show the same go on showing the same. -/
theorem apply_shown (hoverriding : schema.Overriding) {a b : Store} (ha : a.Complete schema)
    (hshown : a.snapshot = b.snapshot) (update : Entries) :
    (∃ why, a.apply schema update = .error why ∧ b.apply schema update = .error why) ∨
    ∃ a' b', a.apply schema update = .ok a' ∧ b.apply schema update = .ok b' ∧
      a'.snapshot = b'.snapshot := by
  have hb := complete_of_shown hshown ha
  rcases apply_cases hoverriding ha update with
      ⟨why, hchecked, hfails⟩ | ⟨_, hchecked, a', ha'⟩ <;>
    rcases apply_cases hoverriding hb update with
      ⟨why', hchecked', hfails'⟩ | ⟨_, hchecked', b', hb'⟩
  · cases hchecked.symm.trans hchecked'
    exact .inl ⟨why, hfails, hfails'⟩
  · cases hchecked.symm.trans hchecked'
  · cases hchecked.symm.trans hchecked'
  · have hmerges := merges_of_apply ha ha'
    have hmerges' := merges_of_apply hb hb'
    refine .inr ⟨a', b', ha', hb',
      snapshot_ext (hmerges.complete ha) (hmerges'.complete hb) fun c hc => ?_⟩
    obtain ⟨v, hv, hv'⟩ := hmerges.latest hoverriding hc
    obtain ⟨w, hw, hw'⟩ := hmerges'.latest hoverriding hc
    have hcopied := copied_of_shown hshown c.name
    rw [hv, hw] at hcopied
    rw [hv', hw']
    exact congrArg some (Reducer.copied_latest (Option.some.inj hcopied) _)

/-! ## Merging back what is shown -/

/-- A channel that holds nothing held nothing before. -/
def Fills (schema : Schema) (old new : Store) : Prop :=
  ∀ c ∈ schema.channels, Table.row? new.values c.name = some .null →
    Table.row? old.values c.name = some .null

theorem Fills.refl (store : Store) : Fills schema store store := fun _ _ h => h

theorem Fills.trans {mid : Store} (h : Fills schema old mid) (h' : Fills schema mid new) :
    Fills schema old new := fun c hc hnull => h c hc (h' c hc hnull)

theorem Merges.fills (h : old.Merges schema update new) (hoverriding : schema.Overriding) :
    Fills schema old new := by
  intro c hc hnull
  obtain ⟨v, hv, hnew⟩ := h.latest hoverriding hc
  cases Reducer.latest_eq_null (Option.some.inj (hnew.symm.trans hnull))
  exact hv

theorem contributions_snapshot {store : Store} (hs : store.Complete schema) {c : Channel}
    {v : Value} (hv : Table.row? store.values c.name = some v) :
    contributions store.snapshot c.name = [v.copied] := by
  have hrows : Schema.namedRows store.snapshot = Table.mapRows Value.copied store.values := by
    rw [snapshot_eq_ofFields, Schema.namedRows_ofFields]
  have hdistinct : (Table.names store.values).Nodup := by
    rw [hs]
    exact schema.distinct
  have hrow := Table.row?_mapRows Value.copied store.values c.name
  rw [hv] at hrow
  rw [contributions, hrows, Table.filter_of_row? (by rwa [Table.names_mapRows]) hrow]
  rfl

/-- What a store shows can be merged into another one, which shows it then. -/
theorem apply_snapshot (hoverriding : schema.Overriding) {store : Store}
    (hold : old.Complete schema) (hs : store.Complete schema) (hfills : Fills schema old store) :
    ∃ new, old.apply schema store.snapshot = .ok new ∧ new.snapshot = store.snapshot := by
  have hkeys : ∀ e ∈ store.snapshot, ∃ name, e.1 = .str name ∧ schema.Overrides name := by
    intro e he
    obtain ⟨row, hrow, rfl⟩ := List.mem_map.mp he
    refine ⟨row.1, rfl, hoverriding.overrides ?_⟩
    rw [← hs]
    exact List.mem_map.mpr ⟨row, hrow, rfl⟩
  obtain ⟨new, hnew⟩ := apply_of_overrides hold hkeys
  have hmerges := merges_of_apply hold hnew
  refine ⟨new, hnew, snapshot_ext (hmerges.complete hold) hs fun c hc => ?_⟩
  obtain ⟨v, hv⟩ := hs.row? hc
  obtain ⟨u, hu, hu'⟩ := hmerges.latest hoverriding hc
  rw [hu', hv, contributions_snapshot hs hv]
  by_cases hnull : v = .null
  · rw [hnull] at hv ⊢
    cases hu.symm.trans (hfills c hc hv)
    rfl
  · have hcopied : v.copied ≠ .null := fun h => hnull ((Value.copied_eq_null_iff v).mp h)
    rw [Reducer.latest_of_ne_null u hcopied]
    exact congrArg some (Value.copied_copied v)

end Store

end TeamFlow
