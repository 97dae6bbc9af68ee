import TeamFlow.Proofs.Rehearsal.Sharing

/-! # Stores beside schemas that still grow

Whatever calls were made before, a store can be read exactly in the channels that
it shows. A call that names another channel is refused and changes nothing
(`Accounts`): with a complaint if the schema does not have the channel either, but
with a missing key if the channel was defined since the store was made. -/
namespace TeamFlow.Rehearsal

/-- How the calls on a store in a session agree with what it shows. -/
structure Accounts (s : Session) (name : String) (schema : Schema) (store : Store) : Prop where
  shown : (StoreCall.snapshot name).result s = (.ok (.mapping store.snapshot), s)
  reads : ∀ channel v, (StoreCall.get name channel).result s = (.ok v, s) ↔
    (.str channel, v) ∈ store.snapshot
  accepts : ∀ channel, (∃ v, (StoreCall.get name channel).result s = (.ok v, s)) ↔
    .str channel ∈ store.snapshot.map Prod.fst
  get_refused : ∀ channel, .str channel ∉ store.snapshot.map Prod.fst →
    (StoreCall.get name channel).result s = (.error (.failure (schema.refusal channel)), s)
  merge_refused : ∀ channel v, .str channel ∉ store.snapshot.map Prod.fst →
    (StoreCall.merge name channel v).result s = (.error (.failure (schema.refusal channel)), s)
  apply_refused : ∀ rows : Table Value, (Table.names rows).Nodup →
    (∃ channel ∈ Table.names rows, .str channel ∉ store.snapshot.map Prod.fst) → ∃ why,
      (StoreCall.apply name (.mapping (Entries.ofFields rows))).result s =
        (.error (.failure why), s) ∧
      (schema.undefinedNames rows ≠ [] → why = .misconfigured
        ("Update names undefined channel(s): " ++
          Value.commas (Schema.sorted (schema.undefinedNames rows)))) ∧
      (schema.undefinedNames rows = [] → ∃ before channel v after,
        rows = before ++ (channel, v) :: after ∧
        (∀ r ∈ before, store.Mergeable schema (.str r.1, r.2)) ∧
        store.merge schema channel v = .error why)

section

variable {s : Session} {name channel : String} {number : Nat} {store : Store} {v : Value}

theorem get_refused (h : Table.row? s.stores name = some (number, store))
    (hchannel : .str channel ∉ store.snapshot.map Prod.fst) :
    (StoreCall.get name channel).result s =
      (.error (.failure ((s.schemaAt number).refusal channel)), s) := by
  rw [StoreCall.result_get h, Store.get_of_no_row _ (Store.not_shown_iff.mp hchannel)]
  rfl

theorem result_get_iff (h : Table.row? s.stores name = some (number, store))
    (horderly : Table.names store.values <+: (s.schemaAt number).names) :
    (StoreCall.get name channel).result s = (.ok v, s) ↔ (.str channel, v) ∈ store.snapshot := by
  constructor
  · intro hget
    cases hrow : Table.row? store.values channel with
    | none =>
      rw [get_refused h (Store.not_shown_iff.mpr hrow)] at hget
      cases hget
    | some old =>
      have hmem : channel ∈ Table.names store.values :=
        (Table.row?_isSome_iff _ _).mp (by rw [hrow]; rfl)
      rw [StoreCall.result_get h, Store.get_of_row (horderly.subset hmem) hrow] at hget
      cases hget
      exact List.mem_map.mpr ⟨_, Table.mem_of_row? hrow, rfl⟩
  · intro hshown
    obtain ⟨⟨_, old⟩, hmem, heq⟩ := List.mem_map.mp hshown
    cases heq
    have hdistinct : (Table.names store.values).Nodup :=
      (s.schemaAt number).distinct.sublist horderly.sublist
    rw [StoreCall.result_get h, Store.get_of_row (horderly.subset (List.mem_map.mpr ⟨_, hmem, rfl⟩))
      (Table.row?_of_mem hdistinct hmem)]
    rfl

end

/-- A store can be read where it has values, and refuses to be read or written elsewhere. -/
theorem stores_account (settings : Settings) (calls : List StoreCall) {name : String}
    {number : Nat} {store : Store}
    (h : Table.row? (StoreCall.after calls (.fresh settings)).stores name =
      some (number, store)) :
    Accounts (StoreCall.after calls (.fresh settings)) name
      ((StoreCall.after calls (.fresh settings)).schemaAt number) store := by
  have horderly := orderly_after calls (orderly_fresh settings) name number store h
  generalize StoreCall.after calls (.fresh settings) = s at h horderly
  refine ⟨StoreCall.result_snapshot h, fun channel v => result_get_iff h horderly,
    fun channel => ?_, fun channel => get_refused h, ?_, ?_⟩
  · rw [List.mem_map]
    constructor
    · rintro ⟨v, hv⟩
      exact ⟨_, (result_get_iff h horderly).mp hv, rfl⟩
    · rintro ⟨⟨_, v⟩, hshown, rfl⟩
      exact ⟨v, (result_get_iff h horderly).mpr hshown⟩
  · intro channel v hchannel
    exact StoreCall.result_merge_error h
      (Store.merge_of_no_row _ (Store.not_shown_iff.mp hchannel) v)
  · intro rows hd ⟨channel, hmem, hchannel⟩
    have hd' : (Entries.ofFields rows).TextsOnce := by
      rwa [Entries.TextsOnce, Schema.namedRows_ofFields]
    rcases Store.apply_merged_or_refused (s.schemaAt number) store hd' with
      ⟨_, _, hall⟩ | ⟨why, happly, hrefuses⟩
    · obtain ⟨row, hrow, rfl⟩ := List.mem_map.mp hmem
      obtain ⟨c, _, hname, old, _, hold, _⟩ := hall _ (List.mem_map.mpr ⟨row, hrow, rfl⟩)
      rw [← Value.str.inj hname] at hold
      exact absurd (Store.shown_iff.mpr ⟨old, hold⟩) hchannel
    · refine ⟨why, StoreCall.result_apply_error h happly, fun hsome => ?_, fun hnone => ?_⟩
      · rcases hrefuses.of_rows with ⟨_, hwhy⟩ | ⟨hnone, _⟩
        · exact hwhy
        · exact absurd hnone hsome
      · rcases hrefuses.of_rows with ⟨hsome, _⟩ | ⟨_, hentry⟩
        · exact absurd hnone hsome
        · exact hentry

/-- The store is read at `x`. At `y` it lacks a key, and `z` is no channel. -/
theorem late_accounts : Table.row? late.stores "t" = some (0, ⟨[("x", .int 0)]⟩) ∧
    (StoreCall.get "t" "x").result late = (.ok (.int 0), late) ∧
    (StoreCall.merge "t" "y" (.int 2)).result late =
      (.error (.failure (.missingKey (.str "y"))), late) ∧
    (StoreCall.get "t" "z").result late =
      (.error (.failure (.misconfigured "Unknown channel 'z'")), late) := by
  have haccounts := stores_account .none definedLate late_store
  exact ⟨late_store, (haccounts.reads "x" (.int 0)).mpr (.head _),
    haccounts.merge_refused "y" (.int 2) (by simp [Store.snapshot]),
    haccounts.get_refused "z" (by simp [Store.snapshot])⟩

/-- So a channel that is not there is not always complained about. -/
theorem accounting_refuted : ¬ ∀ (settings : Settings) (calls : List StoreCall) (name : String)
    (number : Nat) (store : Store),
    Table.row? (StoreCall.after calls (.fresh settings)).stores name = some (number, store) →
    ∀ channel, .str channel ∉ store.snapshot.map Prod.fst → ∃ text,
      ((StoreCall.get name channel).result (StoreCall.after calls (.fresh settings))).1 =
        .error (.failure (.misconfigured text)) := by
  intro hall
  obtain ⟨text, h⟩ := hall .none definedLate "t" 0 _ late_store "y" (by simp [Store.snapshot])
  have hmissing : ((StoreCall.get "t" "y").result late).1 =
      .error (.failure (.missingKey (.str "y"))) := rfl
  cases hmissing.symm.trans h

end TeamFlow.Rehearsal
