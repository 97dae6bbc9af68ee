import TeamFlow.Proofs.Rehearsal.Sharing

/-! # Updates of stores

An update is taken as a whole or not at all. Where the store has a value for each
channel that it names and no reducer fails, it leaves what its entries leave when
they are merged one by one, in any order (`Taken`). Otherwise the session stays as
it was. Updates without a common key come to the same in either order. -/
namespace TeamFlow.Rehearsal

/-- Merge rows into a store, one call after the other. -/
def mergeEach (name : String) : Table Value → Play Unit
  | [] => pure ()
  | (channel, v) :: rows => do
    let _ ← (StoreCall.merge name channel v).play
    mergeEach name rows

/-- How a store of a session takes an update and becomes another one. -/
structure Taken (s : Session) (name : String) (number : Nat) (store : Store) (update : Entries)
    (new : Store) : Prop where
  whole : (StoreCall.apply name (.mapping update)).result s =
    (.ok .null, s.withStore name number new)
  oneByOne : ∀ rows : Table Value, (Entries.ofFields rows).Perm update →
    (mergeEach name rows).result s = (.ok (), s.withStore name number new)
  others : ∀ channel, .str channel ∉ update.map Prod.fst →
    Table.row? new.values channel = Table.row? store.values channel
  keys : new.snapshot.map Prod.fst = store.snapshot.map Prod.fst
  inOrder : new.snapshot.map Prod.fst <+: (s.schemaAt number).names.map .str

/-- Calls that can change places: neither matters to the answer to the other one, and in either
order they leave the same session. -/
structure StoreCall.Commute (s : Session) (first second : StoreCall) : Prop where
  later : (second.result (first.result s).2).1 = (second.result s).1
  earlier : (first.result (second.result s).2).1 = (first.result s).1
  leave : (second.result (first.result s).2).2 = (first.result (second.result s).2).2

/-- What comes of an update of a store: it is taken if each entry can be merged, it is nothing but
refused if some entry cannot be, and it can change places with one that has no key of its keys. -/
structure AllOrNothing (s : Session) (name : String) (number : Nat) (store : Store)
    (update : Entries) : Prop where
  taken : (∀ e ∈ update, store.Mergeable (s.schemaAt number) e) → ∃ new,
    Taken s name number store update new
  refused : (∃ e ∈ update, ¬ store.Mergeable (s.schemaAt number) e) → ∃ why,
    (StoreCall.apply name (.mapping update)).result s = (.error (.failure why), s)
  commutes : ∀ other : Entries, other.TextsOnce → update.Apart other →
    StoreCall.Commute s (.apply name (.mapping update)) (.apply name (.mapping other))

section

variable {s : Session} {name : String} {number : Nat} {store new : Store}
  {update other : Entries}

theorem result_mergeEach {rows : Table Value}
    (h : Table.row? s.stores name = some (number, store))
    (hmerge : Store.mergeAll (s.schemaAt number) store rows = .ok new) :
    (mergeEach name rows).result s = (.ok (), s.withStore name number new) := by
  induction rows generalizing s store with
  | nil =>
    cases hmerge
    rw [Session.withStore_of_row? h]
    rfl
  | cons row rows ih =>
    obtain ⟨channel, v⟩ := row
    obtain ⟨mid, hmid, hmerge⟩ := Store.mergeAll_cons_eq_ok.mp hmerge
    obtain ⟨w, hcall⟩ := StoreCall.result_merge_ok h hmid
    rw [mergeEach, Play.result_bind_ok hcall, ih Session.row?_withStore hmerge,
      Session.withStore_withStore]

theorem taken_of_apply (h : Table.row? s.stores name = some (number, store))
    (horderly : Table.names store.values <+: (s.schemaAt number).names) (hd : update.TextsOnce)
    (happly : store.apply (s.schemaAt number) update = .ok new) :
    Taken s name number store update new := by
  obtain ⟨hknown, hmerge⟩ := Store.apply_eq_ok happly
  have hnames := Store.names_of_mergeAll hmerge
  refine ⟨StoreCall.result_apply_ok h happly, fun rows hperm => ?_, fun channel hchannel => ?_,
    by rw [Store.keys_snapshot, Store.keys_snapshot, hnames], ?_⟩
  · have hrows : (Schema.namedRows update).Perm rows := by
      rw [← Schema.ofFields_namedRows hknown] at hperm
      have hback := hperm.symm.filterMap fun e => e.1.text?.map (·, e.2)
      rwa [← Schema.namedRows_eq_filterMap, ← Schema.namedRows_eq_filterMap,
        Schema.namedRows_ofFields, Schema.namedRows_ofFields] at hback
    exact result_mergeEach h (Store.mergeAll_perm hrows hd hmerge)
  · refine Store.row?_of_mergeAll hmerge fun hmem => hchannel ?_
    obtain ⟨row, hrow, rfl⟩ := List.mem_map.mp hmem
    exact List.mem_map.mpr ⟨_, Schema.mem_namedRows.mp hrow, rfl⟩
  · rw [Store.keys_snapshot, hnames]
    exact horderly.map _

/-- An update without a common key does not matter to the answer. -/
theorem answer_after (h : Table.row? s.stores name = some (number, store))
    (hapart : update.Apart other) :
    ((StoreCall.apply name (.mapping other)).result
      ((StoreCall.apply name (.mapping update)).result s).2).1 =
    ((StoreCall.apply name (.mapping other)).result s).1 := by
  cases happly : store.apply (s.schemaAt number) update with
  | error why => rw [StoreCall.result_apply_error h happly]
  | ok mid =>
    rw [StoreCall.result_apply_ok h happly]
    have hmid : Table.row? (s.withStore name number mid).stores name = some (number, mid) :=
      Session.row?_withStore
    rcases Store.apply_after hapart happly with ⟨why, hafter, hbefore⟩ | ⟨a, b, hafter, hbefore⟩
    · rw [StoreCall.result_apply_error h hbefore, StoreCall.result_apply_error hmid hafter]
    · rw [StoreCall.result_apply_ok h hbefore, StoreCall.result_apply_ok hmid hafter]

theorem commute_of_apart (h : Table.row? s.stores name = some (number, store))
    (hd : update.TextsOnce) (hd' : other.TextsOnce) (hapart : update.Apart other) :
    StoreCall.Commute s (.apply name (.mapping update)) (.apply name (.mapping other)) := by
  refine ⟨answer_after h hapart, answer_after h hapart.symm, ?_⟩
  cases happly : store.apply (s.schemaAt number) update with
  | error why =>
    rw [StoreCall.result_apply_error h happly]
    cases hother : store.apply (s.schemaAt number) other with
    | error why' =>
      rw [StoreCall.result_apply_error h hother, StoreCall.result_apply_error h happly]
    | ok b =>
      rw [StoreCall.result_apply_ok h hother]
      rcases Store.apply_after hapart.symm hother with ⟨_, hafter, _⟩ | ⟨_, _, _, hok⟩
      · rw [StoreCall.result_apply_error Session.row?_withStore hafter]
      · cases happly.symm.trans hok
  | ok a =>
    rw [StoreCall.result_apply_ok h happly]
    cases hother : store.apply (s.schemaAt number) other with
    | error why =>
      rw [StoreCall.result_apply_error h hother]
      rcases Store.apply_after hapart happly with ⟨_, hafter, _⟩ | ⟨_, _, _, hok⟩
      · rw [StoreCall.result_apply_error Session.row?_withStore hafter,
          StoreCall.result_apply_ok h happly]
      · cases hother.symm.trans hok
    | ok b =>
      rw [StoreCall.result_apply_ok h hother]
      obtain ⟨c, hfirst, hsecond⟩ := Store.apply_comm hd hd' hapart happly hother
      rw [StoreCall.result_apply_ok Session.row?_withStore hfirst,
        StoreCall.result_apply_ok Session.row?_withStore hsecond,
        Session.withStore_withStore, Session.withStore_withStore]

end

/-- An update is taken as a whole or not at all, after whatever calls. -/
theorem update_all_or_nothing (settings : Settings) (calls : List StoreCall) {name : String}
    {number : Nat} {store : Store}
    (h : Table.row? (StoreCall.after calls (.fresh settings)).stores name = some (number, store))
    {update : Entries} (hd : update.TextsOnce) :
    AllOrNothing (StoreCall.after calls (.fresh settings)) name number store update := by
  have horderly := orderly_after calls (orderly_fresh settings) name number store h
  generalize StoreCall.after calls (.fresh settings) = s at h horderly
  refine ⟨fun hall => ?_, fun ⟨e, he, hnot⟩ => ?_, fun other hd' hapart => ?_⟩
  · rcases Store.apply_merged_or_refused (s.schemaAt number) store hd with
      ⟨new, happly, _⟩ | ⟨why, _, hrefuses⟩
    · exact ⟨new, taken_of_apply h horderly hd happly⟩
    · obtain ⟨e, he, hnot⟩ := hrefuses.not_mergeable
      exact absurd (hall e he) hnot
  · rcases Store.apply_merged_or_refused (s.schemaAt number) store hd with
      ⟨_, _, hall⟩ | ⟨why, happly, _⟩
    · exact absurd (hall e he) hnot
    · exact ⟨why, StoreCall.result_apply_error h happly⟩
  · exact commute_of_apart h hd hd' hapart

/-- A store with a latest value, a log, and a number to which nothing can be appended. -/
def mixed : Session := StoreCall.after
  [.define "s" "x" (.callable .overrideIfPresent) (some (.callable (.ok (.int 0)))) .absent,
    .define "s" "log" (.callable .append) (some (.callable (.ok (.list [])))) .absent,
    .define "s" "n" (.callable .append) (some (.callable (.ok (.int 5)))) .absent,
    .create "s" "t" .null] (.fresh .none)

def mixedStore : Store := ⟨[("x", .int 0), ("log", .list []), ("n", .int 5)]⟩

def taking : Entries := [(.str "x", .int 1), (.str "log", .str "a")]

def failing : Entries := [(.str "x", .int 1), (.str "n", .int 2)]

theorem mixed_store : Table.row? mixed.stores "t" = some (0, mixedStore) := rfl

/-- The first update is taken, and its entries can be merged backwards. Of the second one nothing
is left. -/
theorem mixed_updates : Table.row? mixed.stores "t" = some (0, mixedStore) ∧
    taking.TextsOnce ∧ failing.TextsOnce ∧
    (∃ new, Taken mixed "t" 0 mixedStore taking new ∧
      (mergeEach "t" [("log", .str "a"), ("x", .int 1)]).result mixed =
        (.ok (), mixed.withStore "t" 0 new)) ∧
    ∃ why, (StoreCall.apply "t" (.mapping failing)).result mixed =
      (.error (.failure why), mixed) := by
  have htaking : taking.TextsOnce := by decide
  have hfailing : failing.TextsOnce := by decide
  refine ⟨mixed_store, htaking, hfailing, ?_, ?_⟩
  · obtain ⟨new, hnew⟩ :=
      (update_all_or_nothing .none _ mixed_store htaking).taken fun e he => by
        rcases List.mem_pair.mp he with rfl | rfl <;> exact Store.mergeable_str_iff.mpr ⟨_, rfl⟩
    exact ⟨new, hnew, hnew.oneByOne _ (.swap _ _ _)⟩
  · have hnot : ¬ mixedStore.Mergeable (mixed.schemaAt 0) (.str "n", .int 2) := by
      rw [Store.mergeable_str_iff]
      rintro ⟨_, hok⟩
      cases hok
    exact (update_all_or_nothing .none _ mixed_store hfailing).refused
      ⟨(.str "n", .int 2), by simp [failing], hnot⟩

/-- But an update of defined channels may be refused although no reducer fails, where merging its
entries changes some. -/
theorem atomicity_refuted : ¬ ∀ (settings : Settings) (calls : List StoreCall) (name : String)
    (number : Nat) (store : Store) (s : Session), s = StoreCall.after calls (.fresh settings) →
    Table.row? s.stores name = some (number, store) → ∀ rows : Table Value,
    (Table.names rows).Nodup → (∀ n ∈ Table.names rows, n ∈ (s.schemaAt number).names) →
    (∀ c ∈ (s.schemaAt number).channels, ∀ old v, ∃ w, c.reducer old v = .ok w) →
    ((StoreCall.apply name (.mapping (Entries.ofFields rows))).result s).2 =
      ((mergeEach name rows).result s).2 := by
  intro hall
  have hreducers : ∀ c ∈ (late.schemaAt 0).channels, ∀ old v, ∃ w, c.reducer old v = .ok w := by
    intro c hc old v
    have hoverride : c.reducer = Reducer.overrideIfPresent := by
      rcases List.mem_pair.mp hc with rfl | rfl <;> rfl
    rw [hoverride]
    cases v <;> exact ⟨_, rfl⟩
  have hsame := hall .none definedLate "t" 0 _ late rfl late_store [("x", .int 1), ("y", .int 2)]
    (by decide) (by decide) hreducers
  have hrows := congrArg (fun s => Table.row? s.stores "t") hsame
  have hwhole : some (0, (⟨[("x", .int 0)]⟩ : Store)) = some (0, ⟨[("x", .int 1)]⟩) := hrows
  simp at hwhole

end TeamFlow.Rehearsal
