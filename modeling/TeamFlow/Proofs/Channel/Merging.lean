import TeamFlow.Act
import TeamFlow.Channel.Store

/-! # What merging an update comes to

An update is merged entry by entry, but an entry only changes the channel that
it names. So a merged store holds in each channel what its reducer makes of the
contributions to this channel (`Merges`). Merging may also break off: what it
does then is told by the first key that is no text, else by the first reducer
that fails (`Crashes`). -/
namespace TeamFlow

namespace Schema

theorem find?_of_mem {s : Schema} {c : Channel} (h : c ∈ s.channels) :
    s.find? c.name = some c := by
  have hfind : ∀ cs : List Channel, (cs.map Channel.name).Nodup → c ∈ cs →
      cs.find? (fun d => d.name == c.name) = some c := by
    intro cs hd hc
    induction cs with
    | nil => cases hc
    | cons d cs ih =>
      rw [List.map_cons, List.nodup_cons] at hd
      rcases List.mem_cons.mp hc with rfl | hc
      · simp
      · have hne : d.name ≠ c.name := fun he => hd.1 (he ▸ List.mem_map.mpr ⟨c, hc, rfl⟩)
        simpa [hne] using ih hd.2 hc
  exact hfind s.channels s.distinct h

theorem eq_of_name {s : Schema} {c d : Channel} (hc : c ∈ s.channels) (hd : d ∈ s.channels)
    (h : c.name = d.name) : c = d := by
  have hfound := find?_of_mem hd
  rw [← h, find?_of_mem hc] at hfound
  exact Option.some.inj hfound

theorem mem_of_find? {s : Schema} {name : String} {c : Channel} (h : s.find? name = some c) :
    c ∈ s.channels ∧ c.name = name :=
  ⟨List.mem_of_find?_eq_some h, by simpa using List.find?_some h⟩

theorem channel_eq_ok {s : Schema} {name : String} {c : Channel} :
    s.channel name = .ok c ↔ s.find? name = some c := by
  unfold channel
  cases s.find? name <;> simp

theorem hasKey_iff (s : Schema) (key : Value) :
    s.hasKey key = true ↔ ∃ name ∈ s.names, key = .str name := by
  cases key <;> simp [hasKey]

theorem mem_namedRows {update : Entries} {row : String × Value} :
    row ∈ namedRows update ↔ (.str row.1, row.2) ∈ update := by
  induction update with
  | nil => simp [namedRows]
  | cons e update ih =>
    obtain ⟨key, v⟩ := e
    obtain ⟨name, w⟩ := row
    cases key <;> simp [namedRows, ih]

/-! ## Checking the keys of an update -/

theorem texts?_eq_none_iff (vs : List Value) :
    Value.texts? vs = none ↔ ∃ v ∈ vs, v.text? = none := by
  induction vs with
  | nil => simp [Value.texts?]
  | cons v vs ih => cases v <;> simp [Value.texts?, Value.text?, ih]

theorem checked_eq_ok {s : Schema} {what : String} {update : Entries} {rows : Table Value} :
    s.checked what update = .ok rows ↔
      (∀ e ∈ update, s.hasKey e.1 = true) ∧ rows = namedRows update := by
  have hhash : (∀ e ∈ update, s.hasKey e.1 = true) → ∀ e ∈ update, e.1.isHashable = true := by
    intro h e he
    obtain ⟨name, _, hname⟩ := (s.hasKey_iff e.1).mp (h e he)
    rw [hname]
    rfl
  constructor
  · intro h
    obtain ⟨keys, hkeys, h⟩ := bind_eq_ok.mp h
    cases keys with
    | nil =>
      cases h
      simp only [unknown] at hkeys
      split at hkeys
      next =>
        simp only [Except.ok.injEq, List.filter_eq_nil_iff, List.mem_map] at hkeys
        exact ⟨fun e he => by simpa using hkeys e.1 ⟨e, he, rfl⟩, rfl⟩
      next => cases hkeys
    | cons key keys =>
      simp only [undefined] at h
      split at h <;> cases h
  · rintro ⟨hknown, rfl⟩
    refine bind_eq_ok.mpr ⟨[], ?_, rfl⟩
    have hfilter : (update.map Prod.fst).filter (fun k => !s.hasKey k) = [] := by
      simpa [List.filter_eq_nil_iff] using hknown
    simp only [unknown, hfilter]
    rw [if_pos (by simpa using hhash hknown)]

theorem checked_of_no_text {s : Schema} (what : String) {update : Entries}
    (h : ∃ e ∈ update, e.1.text? = none) : s.checked what update = .error .badType := by
  obtain ⟨e, he, htext⟩ := h
  by_cases hhash : (update.map Prod.fst).all Value.isHashable = true
  · have hkey : s.hasKey e.1 = false := by
      cases hv : e.1 with
      | str name => rw [hv] at htext; cases htext
      | _ => rfl
    have hmem : e.1 ∈ (update.map Prod.fst).filter fun k => !s.hasKey k :=
      List.mem_filter.mpr ⟨List.mem_map.mpr ⟨e, he, rfl⟩, by simp [hkey]⟩
    simp only [checked, unknown, if_pos hhash]
    generalize (update.map Prod.fst).filter (fun k => !s.hasKey k) = keys at hmem
    cases keys with
    | nil => cases hmem
    | cons key keys =>
      have hnone := (texts?_eq_none_iff (key :: keys)).mpr ⟨e.1, hmem, htext⟩
      simp only [bind, Except.bind, undefined, hnone]
  · simp only [checked, unknown, if_neg hhash]
    rfl

theorem isConfiguration_of_checked {s : Schema} {what : String} {update : Entries} {why : Failure}
    (htext : ∀ e ∈ update, e.1.text? ≠ none) (h : s.checked what update = .error why) :
    why.isConfiguration = true := by
  have hhash : (update.map Prod.fst).all Value.isHashable = true := by
    simp only [List.all_map, List.all_eq_true]
    intro e he
    have hkey := htext e he
    cases hv : e.1 with
    | str name => simp only [Function.comp_apply, hv]; rfl
    | _ => rw [hv] at hkey; exact absurd rfl hkey
  simp only [checked, unknown, if_pos hhash] at h
  generalize hkeys : (update.map Prod.fst).filter (fun k => !s.hasKey k) = keys at h
  cases keys with
  | nil => cases h
  | cons key keys =>
    cases htexts : Value.texts? (key :: keys) with
    | none =>
      obtain ⟨v, hv, hnone⟩ := (texts?_eq_none_iff _).mp htexts
      rw [← hkeys] at hv
      obtain ⟨e, he, rfl⟩ := List.mem_map.mp (List.mem_filter.mp hv).1
      exact absurd hnone (htext e he)
    | some names =>
      simp only [bind, Except.bind, undefined, htexts] at h
      cases h
      rfl

end Schema

namespace Store

/-- A store with a row for each channel, and no other. -/
def Complete (s : Schema) (store : Store) : Prop := Table.names store.values = s.names

/-- What an update contributes to a channel, in the order of its entries. -/
def contributions (update : Entries) (name : String) : List Value :=
  ((Schema.namedRows update).filter fun r => r.1 = name).map Prod.snd

/-- A store becomes another one by merging an update, channel by channel. -/
structure Merges (s : Schema) (update : Entries) (old new : Store) : Prop where
  known : ∀ e ∈ update, s.hasKey e.1 = true
  names : Table.names new.values = Table.names old.values
  channels : ∀ c ∈ s.channels, ∃ v w, Table.row? old.values c.name = some v ∧
    Table.row? new.values c.name = some w ∧
    (contributions update c.name).foldlM c.reducer v = .ok w

theorem Complete.row? {s : Schema} {store : Store} (h : Complete s store) {c : Channel}
    (hc : c ∈ s.channels) : ∃ v, Table.row? store.values c.name = some v := by
  refine Option.isSome_iff_exists.mp ((Table.row?_isSome_iff _ _).mpr ?_)
  rw [h]
  exact List.mem_map.mpr ⟨c, hc, rfl⟩

/-! ## One entry -/

theorem merge_eq_ok {s : Schema} {store new : Store} {name : String} {v : Value} :
    store.merge s name v = .ok new ↔ ∃ c ∈ s.channels, c.name = name ∧
      ∃ old w, Table.row? store.values name = some old ∧ c.reducer old v = .ok w ∧
        new = ⟨Table.put store.values name w⟩ := by
  unfold merge
  constructor
  · intro h
    obtain ⟨c, hc, h⟩ := bind_eq_ok.mp h
    obtain ⟨hmem, hname⟩ := Schema.mem_of_find? (Schema.channel_eq_ok.mp hc)
    split at h
    next old hold =>
      obtain ⟨w, hw, h⟩ := bind_eq_ok.mp h
      cases h
      exact ⟨c, hmem, hname, old, w, hold, hw, rfl⟩
    next => cases h
  · rintro ⟨c, hmem, rfl, old, w, hold, hw, rfl⟩
    refine bind_eq_ok.mpr ⟨c, Schema.channel_eq_ok.mpr (Schema.find?_of_mem hmem), ?_⟩
    rw [hold]
    exact bind_eq_ok.mpr ⟨w, hw, rfl⟩

theorem merge_eq_error {s : Schema} {store : Store} (hs : Complete s store) {c : Channel}
    (hc : c ∈ s.channels) {v : Value} {why : Failure} :
    store.merge s c.name v = .error why ↔
      ∃ old, Table.row? store.values c.name = some old ∧ c.reducer old v = .error why := by
  obtain ⟨old, hold⟩ := hs.row? hc
  have hfound : s.channel c.name = .ok c := Schema.channel_eq_ok.mpr (Schema.find?_of_mem hc)
  have hmerge : store.merge s c.name v =
      c.reducer old v >>= fun w => .ok ⟨Table.put store.values c.name w⟩ := by
    simp only [merge, hfound, hold, bind, Except.bind]
  rw [hmerge]
  constructor
  · intro h
    cases hw : c.reducer old v with
    | ok w => rw [hw] at h; cases h
    | error e => rw [hw] at h; cases h; exact ⟨old, hold, hw⟩
  · rintro ⟨old', hold', hfail⟩
    rw [hold] at hold'
    cases hold'
    rw [hfail]
    rfl

theorem names_of_merge {s : Schema} {store new : Store} {name : String} {v : Value}
    (h : store.merge s name v = .ok new) :
    Table.names new.values = Table.names store.values := by
  obtain ⟨c, _, rfl, old, w, hold, _, rfl⟩ := merge_eq_ok.mp h
  have hmem : c.name ∈ Table.names store.values :=
    (Table.row?_isSome_iff _ _).mp (by rw [hold]; rfl)
  rw [Table.names_put, if_pos hmem]

theorem Complete.merge {s : Schema} {store new : Store} (hs : Complete s store) {name : String}
    {v : Value} (h : store.merge s name v = .ok new) : Complete s new :=
  (names_of_merge h).trans hs

/-! ## All entries -/

theorem mergeAll_cons_eq_ok {s : Schema} {store new : Store} {row : String × Value}
    {rows : Table Value} :
    mergeAll s store (row :: rows) = .ok new ↔
      ∃ mid, store.merge s row.1 row.2 = .ok mid ∧ mergeAll s mid rows = .ok new :=
  bind_eq_ok

theorem names_of_mergeAll {s : Schema} {rows : Table Value} {store new : Store}
    (h : mergeAll s store rows = .ok new) :
    Table.names new.values = Table.names store.values := by
  induction rows generalizing store with
  | nil => cases h; rfl
  | cons row rows ih =>
    obtain ⟨mid, hmid, h⟩ := mergeAll_cons_eq_ok.mp h
    exact (ih h).trans (names_of_merge hmid)

theorem Complete.mergeAll {s : Schema} {rows : Table Value} {store new : Store}
    (hs : Complete s store) (h : mergeAll s store rows = .ok new) : Complete s new :=
  (names_of_mergeAll h).trans hs

/-- A channel holds what its reducer makes of its own contributions. -/
theorem mergeAll_row? {s : Schema} {c : Channel} (hc : c ∈ s.channels) {rows : Table Value}
    {store new : Store} {v : Value} (h : mergeAll s store rows = .ok new)
    (hv : Table.row? store.values c.name = some v) :
    ∃ w, Table.row? new.values c.name = some w ∧
      ((rows.filter fun r => r.1 = c.name).map Prod.snd).foldlM c.reducer v = .ok w := by
  induction rows generalizing store v with
  | nil => cases h; exact ⟨v, hv, rfl⟩
  | cons row rows ih =>
    obtain ⟨mid, hmid, h⟩ := mergeAll_cons_eq_ok.mp h
    obtain ⟨d, hd, hname, old, u, hold, hu, rfl⟩ := merge_eq_ok.mp hmid
    -- an entry for another channel leaves the row of this one alone
    by_cases heq : row.1 = c.name
    · obtain rfl : d = c := Schema.eq_of_name hd hc (hname.trans heq)
      rw [heq, hv] at hold
      cases hold
      obtain ⟨w, hw, hfold⟩ := ih (v := u) h (by simp [Table.row?_put, heq])
      refine ⟨w, hw, ?_⟩
      rw [List.filter_cons_of_pos (by simpa using heq), List.map_cons, List.foldlM_cons, hu]
      exact hfold
    · obtain ⟨w, hw, hfold⟩ := ih (v := v) h (by simp [Table.row?_put, Ne.symm heq, hv])
      refine ⟨w, hw, ?_⟩
      rwa [List.filter_cons_of_neg (by simpa using heq)]

theorem apply_of_known {s : Schema} {update : Entries}
    (hknown : ∀ e ∈ update, s.hasKey e.1 = true) (store : Store) :
    store.apply s update = mergeAll s store (Schema.namedRows update) := by
  rw [apply, Schema.checked_eq_ok.mpr ⟨hknown, rfl⟩]
  rfl

theorem apply_eq_ok {s : Schema} {update : Entries} {store new : Store}
    (h : store.apply s update = .ok new) : (∀ e ∈ update, s.hasKey e.1 = true) ∧
      mergeAll s store (Schema.namedRows update) = .ok new := by
  obtain ⟨rows, hrows, h⟩ := bind_eq_ok.mp h
  obtain ⟨hknown, rfl⟩ := Schema.checked_eq_ok.mp hrows
  exact ⟨hknown, h⟩

/-- Merging is channel by channel. -/
theorem merges_of_apply {s : Schema} {update : Entries} {old new : Store}
    (hs : Complete s old) (h : old.apply s update = .ok new) : Merges s update old new := by
  obtain ⟨hknown, h⟩ := apply_eq_ok h
  refine ⟨hknown, names_of_mergeAll h, fun c hc => ?_⟩
  obtain ⟨v, hv⟩ := hs.row? hc
  obtain ⟨w, hw, hfold⟩ := mergeAll_row? hc h hv
  exact ⟨v, w, hv, hw, hfold⟩

theorem merges_nothing {s : Schema} {store : Store} (hs : Complete s store) :
    Merges s [] store store :=
  merges_of_apply hs rfl

theorem Merges.complete {s : Schema} {update : Entries} {old new : Store}
    (h : Merges s update old new) (hs : Complete s old) : Complete s new :=
  h.names.trans hs

/-! ## The first store of a run -/

/-- A store that holds the default of each channel. -/
structure HoldsDefaults (s : Schema) (store : Store) : Prop where
  complete : Complete s store
  defaults : ∀ c ∈ s.channels, ∃ v, c.initial = .ok v ∧ Table.row? store.values c.name = some v

theorem initialRows_eq_ok {cs : List Channel} {rows : Table Value}
    (h : initialRows cs = .ok rows) (hd : (cs.map Channel.name).Nodup) :
    Table.names rows = cs.map Channel.name ∧
      ∀ c ∈ cs, ∃ v, c.initial = .ok v ∧ Table.row? rows c.name = some v := by
  induction cs generalizing rows with
  | nil => cases h; exact ⟨rfl, by simp⟩
  | cons c cs ih =>
    obtain ⟨v, hv, h⟩ := bind_eq_ok.mp h
    obtain ⟨rest, hrest, h⟩ := bind_eq_ok.mp h
    cases h
    rw [List.map_cons, List.nodup_cons] at hd
    obtain ⟨hnames, hrows⟩ := ih hrest hd.2
    refine ⟨by rw [Table.names_cons, hnames, List.map_cons], fun d hdc => ?_⟩
    rcases List.mem_cons.mp hdc with rfl | hdc
    · exact ⟨v, hv, by simp [Table.row?]⟩
    · have hne : c.name ≠ d.name := fun he => hd.1 (he ▸ List.mem_map.mpr ⟨d, hdc, rfl⟩)
      obtain ⟨w, hw, hrow⟩ := hrows d hdc
      exact ⟨w, hw, by simpa [Table.row?, hne] using hrow⟩

/-- A store holds the defaults of a schema, with an initial state merged into them. -/
def Begins (s : Schema) (initial : Value) (store : Store) : Prop :=
  ∃ update base, (if initial.isTruthy then initial.entries else .ok []) = .ok update ∧
    HoldsDefaults s base ∧ Merges s update base store

/-- What a mapping or any other initial state stands for. -/
def initialUpdate (initial : Value) : Except Failure Entries :=
  if initial.isTruthy then initial.entries else .ok []

theorem initialUpdate_mapping (update : Entries) :
    initialUpdate (.mapping update) = .ok update := by
  cases update <;> rfl

theorem create_eq_ok {s : Schema} {initial : Value} {store : Store} :
    create s initial = .ok store ↔ s.problems = [] ∧ ∃ update rows,
      initialUpdate initial = .ok update ∧ (∀ e ∈ update, s.hasKey e.1 = true) ∧
      initialRows s.channels = .ok rows ∧ apply s ⟨rows⟩ update = .ok store := by
  have hcreate : s.problems = [] → create s initial = (do
      let update ← initialUpdate initial
      let _ ← s.checked "Initial state" update
      let rows ← initialRows s.channels
      apply s ⟨rows⟩ update) := by
    intro hproblems
    by_cases htruthy : initial.isTruthy = true
    · simp only [create, initialUpdate, hproblems, if_pos htruthy]
    · simp only [create, initialUpdate, hproblems, if_neg htruthy]
  constructor
  · intro h
    have hproblems : s.problems = [] := by
      unfold create at h
      split at h
      next hproblems => exact hproblems
      next => cases h
    rw [hcreate hproblems] at h
    obtain ⟨update, hupdate, h⟩ := bind_eq_ok.mp h
    obtain ⟨_, hchecked, h⟩ := bind_eq_ok.mp h
    obtain ⟨rows, hrows, h⟩ := bind_eq_ok.mp h
    exact ⟨hproblems, update, rows, hupdate, (Schema.checked_eq_ok.mp hchecked).1, hrows, h⟩
  · rintro ⟨hproblems, update, rows, hupdate, hknown, hrows, h⟩
    rw [hcreate hproblems]
    exact bind_eq_ok.mpr ⟨update, hupdate, bind_eq_ok.mpr ⟨_,
      Schema.checked_eq_ok.mpr ⟨hknown, rfl⟩, bind_eq_ok.mpr ⟨rows, hrows, h⟩⟩⟩

theorem holdsDefaults_of_initialRows {s : Schema} {rows : Table Value}
    (h : initialRows s.channels = .ok rows) : HoldsDefaults s ⟨rows⟩ :=
  let ⟨hnames, hdefaults⟩ := initialRows_eq_ok h s.distinct
  ⟨hnames, hdefaults⟩

theorem begins_of_create {s : Schema} {initial : Value} {store : Store}
    (h : create s initial = .ok store) : Begins s initial store := by
  obtain ⟨_, update, rows, hupdate, _, hrows, happly⟩ := create_eq_ok.mp h
  have hdefaults := holdsDefaults_of_initialRows hrows
  exact ⟨update, ⟨rows⟩, hupdate, hdefaults, merges_of_apply hdefaults.complete happly⟩

theorem Begins.complete {s : Schema} {initial : Value} {store : Store}
    (h : Begins s initial store) : Complete s store := by
  obtain ⟨_, _, _, hbase, hmerges⟩ := h
  exact hmerges.complete hbase.complete

/-! ## Merges that break off -/

theorem mergeAll_append {s : Schema} {before : Table Value} {store mid : Store}
    (h : mergeAll s store before = .ok mid) (rows : Table Value) :
    mergeAll s store (before ++ rows) = mergeAll s mid rows := by
  induction before generalizing store with
  | nil => cases h; rfl
  | cons row before ih =>
    obtain ⟨next, hnext, h⟩ := mergeAll_cons_eq_ok.mp h
    rw [List.cons_append, mergeAll_cons, hnext]
    exact ih h

/-- The first entry whose reducer fails decides how merging fails. -/
theorem mergeAll_eq_error_iff {s : Schema} {rows : Table Value} {store : Store} {why : Failure}
    (hs : Complete s store) (hrows : ∀ r ∈ rows, r.1 ∈ s.names) :
    mergeAll s store rows = .error why ↔ ∃ before c v after mid old, c ∈ s.channels ∧
      rows = before ++ (c.name, v) :: after ∧ mergeAll s store before = .ok mid ∧
      Table.row? mid.values c.name = some old ∧ c.reducer old v = .error why := by
  constructor
  · intro h
    induction rows generalizing store with
    | nil => cases h
    | cons row rows ih =>
      obtain ⟨name, v⟩ := row
      obtain ⟨c, hc, rfl⟩ := List.mem_map.mp (hrows _ List.mem_cons_self)
      rw [mergeAll_cons] at h
      cases hmid : store.merge s c.name v with
      | error e =>
        rw [hmid] at h
        cases h
        obtain ⟨old, hold, hfail⟩ := (merge_eq_error hs hc).mp hmid
        exact ⟨[], c, v, rows, store, old, hc, rfl, rfl, hold, hfail⟩
      | ok next =>
        rw [hmid] at h
        obtain ⟨before, d, u, after, mid, old, hd, heq, hbefore, hold, hfail⟩ :=
          ih (hs.merge hmid) (fun r hr => hrows r (by simp [hr])) h
        refine ⟨(c.name, v) :: before, d, u, after, mid, old, hd, by rw [heq]; rfl, ?_, hold,
          hfail⟩
        exact mergeAll_cons_eq_ok.mpr ⟨next, hmid, hbefore⟩
  · rintro ⟨before, c, v, after, mid, old, hc, rfl, hbefore, hold, hfail⟩
    rw [mergeAll_append hbefore, mergeAll_cons,
      (merge_eq_error (hs.mergeAll hbefore) hc).mpr ⟨old, hold, hfail⟩]
    rfl

/-- How merging an update breaks off other than by refusing the update: a key is no text, so that
the complaint about it cannot be written, or a reducer fails with something that is neither a
complaint nor a run error. -/
inductive Crashes (s : Schema) (store : Store) (update : Entries) : Failure → Prop where
  | key {e : Value × Value} (he : e ∈ update) (htext : e.1.text? = none) :
      Crashes s store update .badType
  | reducer {before after : Table Value} {c : Channel} {v old : Value} {mid : Store} {why : Failure}
      (hknown : ∀ e ∈ update, s.hasKey e.1 = true) (hc : c ∈ s.channels)
      (hrows : Schema.namedRows update = before ++ (c.name, v) :: after)
      (hbefore : mergeAll s store before = .ok mid)
      (hold : Table.row? mid.values c.name = some old) (hfail : c.reducer old v = .error why)
      (hconfiguration : why.isConfiguration = false) (hrun : ∀ e, why ≠ .run e) :
      Crashes s store update why

theorem crashes_iff {s : Schema} {store : Store} (hs : Complete s store) (update : Entries)
    (why : Failure) :
    Crashes s store update why ↔ store.apply s update = .error why ∧
      why.isConfiguration = false ∧ ∀ e, why ≠ .run e := by
  have hnames : ∀ rows, s.checked "Update" update = .ok rows → ∀ r ∈ rows, r.1 ∈ s.names := by
    intro rows h r hr
    obtain ⟨hknown, rfl⟩ := Schema.checked_eq_ok.mp h
    obtain ⟨name, hname, heq⟩ :=
      (s.hasKey_iff _).mp (hknown _ (Schema.mem_namedRows.mp hr))
    cases heq
    exact hname
  constructor
  · intro h
    cases h with
    | key he htext =>
      refine ⟨?_, rfl, fun e h => by cases h⟩
      unfold apply
      rw [Schema.checked_of_no_text "Update" ⟨_, he, htext⟩]
      rfl
    | reducer hknown hc hrows hbefore hold hfail hconfiguration hrun =>
      have hchecked : s.checked "Update" update = .ok (Schema.namedRows update) :=
        Schema.checked_eq_ok.mpr ⟨hknown, rfl⟩
      refine ⟨?_, hconfiguration, hrun⟩
      unfold apply
      rw [hchecked]
      exact (mergeAll_eq_error_iff hs (hnames _ hchecked)).mpr
        ⟨_, _, _, _, _, _, hc, hrows, hbefore, hold, hfail⟩
  · rintro ⟨h, hconfiguration, hrun⟩
    cases hchecked : s.checked "Update" update with
    | error e =>
      unfold apply at h
      rw [hchecked] at h
      cases h
      -- keys that are all texts can be listed in a complaint, and a complaint is no crash
      by_cases htext : ∃ e ∈ update, e.1.text? = none
      · have hbad := Schema.checked_of_no_text (s := s) "Update" htext
        rw [hchecked] at hbad
        cases hbad
        obtain ⟨e, he, htext⟩ := htext
        exact .key he htext
      · have hcomplaint := Schema.isConfiguration_of_checked
          (fun e he hnone => htext ⟨e, he, hnone⟩) hchecked
        rw [hcomplaint] at hconfiguration
        cases hconfiguration
    | ok rows =>
      unfold apply at h
      rw [hchecked] at h
      obtain ⟨before, c, v, after, mid, old, hc, hrows, hbefore, hold, hfail⟩ :=
        (mergeAll_eq_error_iff hs (hnames rows hchecked)).mp h
      obtain ⟨hknown, rfl⟩ := Schema.checked_eq_ok.mp hchecked
      exact .reducer hknown hc hrows hbefore hold hfail hconfiguration hrun

end Store

end TeamFlow
