import TeamFlow.Proofs.Channel.Merging
import TeamFlow.Proofs.Table
import TeamFlow.Proofs.Value.Text

/-! # Updates whose entries have channels of their own

An entry reads and writes only the channel that it names. So where no channel is
named twice it does not matter to an entry which other ones come before it: an
update is merged if each of its entries can be merged on its own, in any order
(`mergeAll_perm`), and otherwise it is refused like the first entry that cannot
be (`Refuses`). Updates without a common channel can change places (`apply_comm`).
Nothing here supposes that a store has a value for each channel. -/
namespace TeamFlow

namespace Schema

theorem namedRows_eq_filterMap (update : Entries) :
    namedRows update = update.filterMap fun e => e.1.text?.map (·, e.2) := by
  induction update with
  | nil => rfl
  | cons e update ih =>
    obtain ⟨key, v⟩ := e
    cases key <;> simp [namedRows, Value.text?, ih]

theorem namedRows_ofFields (rows : Table Value) : namedRows (Entries.ofFields rows) = rows := by
  induction rows with
  | nil => rfl
  | cons row rows ih =>
    rw [Entries.ofFields, List.map_cons, namedRows]
    exact congrArg _ ih

theorem ofFields_namedRows {s : Schema} {update : Entries}
    (hknown : ∀ e ∈ update, s.hasKey e.1 = true) :
    Entries.ofFields (namedRows update) = update := by
  induction update with
  | nil => rfl
  | cons e update ih =>
    obtain ⟨key, v⟩ := e
    obtain ⟨name, _, rfl⟩ := (s.hasKey_iff key).mp (hknown _ List.mem_cons_self)
    have hrest := ih fun e he => hknown e (List.mem_cons_of_mem _ he)
    rw [namedRows]
    exact congrArg _ hrest

theorem channel_eq_error {s : Schema} {name : String} (h : name ∉ s.names) :
    s.channel name = .error (unknownChannel name) := by
  unfold channel
  cases hfind : s.find? name with
  | none => rfl
  | some c =>
    obtain ⟨hc, rfl⟩ := mem_of_find? hfind
    exact absurd (List.mem_map.mpr ⟨c, hc, rfl⟩) h

theorem channel_of_mem {s : Schema} {name : String} (h : name ∈ s.names) :
    ∃ c ∈ s.channels, c.name = name ∧ s.channel name = .ok c := by
  obtain ⟨c, hc, rfl⟩ := List.mem_map.mp h
  exact ⟨c, hc, rfl, channel_eq_ok.mpr (find?_of_mem hc)⟩

/-- What is raised at a channel for which there is no value: it may have been defined since. -/
def refusal (s : Schema) (name : String) : Failure :=
  if name ∈ s.names then .missingKey (.str name) else unknownChannel name

/-- The texts of an update that name no channel. -/
def undefinedNames (s : Schema) (rows : Table Value) : List String :=
  (Table.names rows).filter fun n => !s.names.contains n

theorem checked_ofFields (s : Schema) (what : String) (rows : Table Value) :
    s.checked what (Entries.ofFields rows) =
      if s.undefinedNames rows = [] then .ok rows
      else .error (.misconfigured (what ++ " names undefined channel(s): " ++
        Value.commas (sorted (s.undefinedNames rows)))) := by
  have hkeys : (Entries.ofFields rows).map Prod.fst = (Table.names rows).map .str := by
    simp [Entries.ofFields, Table.names]
  have hhash : ((Table.names rows).map Value.str).all Value.isHashable = true :=
    List.all_eq_true.mpr Value.isHashable_texts
  have hfilter : ((Table.names rows).map Value.str).filter (fun k => !s.hasKey k) =
      (s.undefinedNames rows).map .str := by
    rw [List.filter_map]
    rfl
  simp only [checked, unknown, hkeys, if_pos hhash, hfilter, bind, Except.bind]
  cases hundefined : s.undefinedNames rows with
  | nil => rw [if_pos rfl, List.map_nil, namedRows_ofFields]
  | cons name names =>
    have htexts := Value.texts?_texts (name :: names)
    rw [List.map_cons] at htexts
    simp [undefined, htexts]

end Schema

namespace Entries

/-- No text is a key twice, as in every mapping. -/
def TextsOnce (update : Entries) : Prop := (Table.names (Schema.namedRows update)).Nodup

instance (update : Entries) : Decidable update.TextsOnce :=
  inferInstanceAs (Decidable (Table.names (Schema.namedRows update)).Nodup)

/-- No key is in both updates. -/
def Apart (update other : Entries) : Prop := ∀ e ∈ update, ∀ e' ∈ other, e.1 ≠ e'.1

theorem Apart.names {update other : Entries} (h : update.Apart other) {n : String}
    (hn : n ∈ Table.names (Schema.namedRows update)) :
    n ∉ Table.names (Schema.namedRows other) := by
  intro hn'
  obtain ⟨row, hrow, rfl⟩ := List.mem_map.mp hn
  obtain ⟨row', hrow', heq⟩ := List.mem_map.mp hn'
  exact h _ (Schema.mem_namedRows.mp hrow) _ (Schema.mem_namedRows.mp hrow')
    (congrArg Value.str heq.symm)

theorem Apart.symm {update other : Entries} (h : update.Apart other) : other.Apart update :=
  fun e he e' he' heq => h e' he' e he heq.symm

end Entries

namespace Store

/-- An entry that can be merged: its channel has a value, and the reducer takes what is
contributed to it. -/
def Mergeable (s : Schema) (store : Store) (e : Value × Value) : Prop :=
  ∃ c ∈ s.channels, e.1 = .str c.name ∧ ∃ old w, Table.row? store.values c.name = some old ∧
    c.reducer old e.2 = .ok w

/-- How an update is refused: since a key is no channel, or else as the first entry is that cannot
be merged. -/
inductive Refuses (s : Schema) (store : Store) (update : Entries) (why : Failure) : Prop where
  | undefined {e : Value × Value} (he : e ∈ update) (hkey : s.hasKey e.1 = false)
      (hchecked : s.checked "Update" update = .error why)
  | entry {before after : Table Value} {name : String} {v : Value}
      (hknown : ∀ e ∈ update, s.hasKey e.1 = true)
      (hrows : Schema.namedRows update = before ++ (name, v) :: after)
      (hbefore : ∀ r ∈ before, Mergeable s store (.str r.1, r.2))
      (hfail : store.merge s name v = .error why)

section

variable {s : Schema} {store mid new : Store} {name other : String} {v u : Value}
  {rows rows' : Table Value} {update update' : Entries}

/-! ## One entry -/

theorem keys_snapshot (store : Store) :
    store.snapshot.map Prod.fst = (Table.names store.values).map .str := by
  simp [snapshot, Table.names]

theorem shown_iff : Value.str name ∈ store.snapshot.map Prod.fst ↔
    ∃ v, Table.row? store.values name = some v := by
  rw [keys_snapshot, List.mem_map_of_injective Value.str_injective, ← Table.row?_isSome_iff,
    Option.isSome_iff_exists]

theorem not_shown_iff : Value.str name ∉ store.snapshot.map Prod.fst ↔
    Table.row? store.values name = none := by
  rw [shown_iff, ← Option.isSome_iff_exists, Option.not_isSome_iff_eq_none]

theorem mergeable_str_iff :
    Mergeable s store (.str name, v) ↔ ∃ new, store.merge s name v = .ok new := by
  constructor
  · rintro ⟨c, hc, hname, old, w, hold, hw⟩
    cases hname
    exact ⟨_, merge_eq_ok.mpr ⟨c, hc, rfl, old, w, hold, hw, rfl⟩⟩
  · rintro ⟨_, h⟩
    obtain ⟨c, hc, rfl, old, w, hold, hw, _⟩ := merge_eq_ok.mp h
    exact ⟨c, hc, rfl, old, w, hold, hw⟩

theorem row?_of_merge (h : store.merge s name v = .ok new) (hne : other ≠ name) :
    Table.row? new.values other = Table.row? store.values other := by
  obtain ⟨c, _, rfl, old, w, _, _, rfl⟩ := merge_eq_ok.mp h
  rw [Table.row?_put, if_neg hne]

theorem merge_of_no_row (s : Schema) (h : Table.row? store.values name = none) (v : Value) :
    store.merge s name v = .error (s.refusal name) := by
  unfold merge Schema.refusal
  by_cases hname : name ∈ s.names
  · obtain ⟨c, _, _, hchannel⟩ := Schema.channel_of_mem hname
    rw [if_pos hname, hchannel, h]
    rfl
  · rw [if_neg hname, Schema.channel_eq_error hname]
    rfl

theorem get_of_no_row (s : Schema) (h : Table.row? store.values name = none) :
    store.get s name = .error (s.refusal name) := by
  unfold get Schema.refusal
  by_cases hname : name ∈ s.names
  · obtain ⟨c, _, _, hchannel⟩ := Schema.channel_of_mem hname
    rw [if_pos hname, hchannel, h]
    rfl
  · rw [if_neg hname, Schema.channel_eq_error hname]
    rfl

theorem get_of_row (hname : name ∈ s.names) (h : Table.row? store.values name = some v) :
    store.get s name = .ok v.copied := by
  obtain ⟨c, _, _, hchannel⟩ := Schema.channel_of_mem hname
  rw [get, hchannel, h]
  rfl

/-- Stores that hold the same in a channel take the same contribution, or refuse it alike. -/
theorem merge_congr {a b : Store} (s : Schema)
    (h : Table.row? a.values name = Table.row? b.values name) (v : Value) :
    (∃ why, a.merge s name v = .error why ∧ b.merge s name v = .error why) ∨
    ∃ w, a.merge s name v = .ok ⟨Table.put a.values name w⟩ ∧
      b.merge s name v = .ok ⟨Table.put b.values name w⟩ := by
  cases hrow : Table.row? b.values name with
  | none => exact .inl ⟨_, merge_of_no_row s (h.trans hrow) v, merge_of_no_row s hrow v⟩
  | some old =>
    cases hchannel : s.channel name with
    | error why =>
      exact .inl ⟨why, by simp only [merge, hchannel, bind, Except.bind],
        by simp only [merge, hchannel, bind, Except.bind]⟩
    | ok c =>
      cases hreduced : c.reducer old v with
      | error why =>
        exact .inl ⟨why, by simp only [merge, hchannel, h, hrow, hreduced, bind, Except.bind],
          by simp only [merge, hchannel, hrow, hreduced, bind, Except.bind]⟩
      | ok w =>
        exact .inr ⟨w, by simp only [merge, hchannel, h, hrow, hreduced, bind, Except.bind],
          by simp only [merge, hchannel, hrow, hreduced, bind, Except.bind]⟩

/-- Entries with channels of their own can change places. -/
theorem merge_swap (hne : name ≠ other) (h : store.merge s name v = .ok mid)
    (h' : mid.merge s other u = .ok new) :
    ∃ mid', store.merge s other u = .ok mid' ∧ mid'.merge s name v = .ok new := by
  obtain ⟨c, hc, rfl, old, w, hold, hw, rfl⟩ := merge_eq_ok.mp h
  obtain ⟨d, hd, rfl, old', w', hold', hw', rfl⟩ := merge_eq_ok.mp h'
  rw [Table.row?_put, if_neg (Ne.symm hne)] at hold'
  have hmem : c.name ∈ Table.names store.values :=
    (Table.row?_isSome_iff _ _).mp (by rw [hold]; rfl)
  refine ⟨_, merge_eq_ok.mpr ⟨d, hd, rfl, old', w', hold', hw', rfl⟩,
    merge_eq_ok.mpr ⟨c, hc, rfl, old, w, ?_, hw, ?_⟩⟩
  · rw [Table.row?_put, if_neg hne, hold]
  · exact congrArg Store.mk (Table.put_comm hne hmem w w')

/-! ## All entries -/

theorem row?_of_mergeAll (h : mergeAll s store rows = .ok new) (hname : name ∉ Table.names rows) :
    Table.row? new.values name = Table.row? store.values name := by
  induction rows generalizing store with
  | nil => cases h; rfl
  | cons row rows ih =>
    obtain ⟨mid, hmid, h⟩ := mergeAll_cons_eq_ok.mp h
    rw [Table.names_cons, List.mem_cons, not_or] at hname
    exact (ih h hname.2).trans (row?_of_merge hmid hname.1)

/-- The order of the entries does not matter, by induction on how they change places. -/
theorem mergeAll_perm (hperm : rows.Perm rows') (hd : (Table.names rows).Nodup)
    (h : mergeAll s store rows = .ok new) : mergeAll s store rows' = .ok new := by
  induction hperm generalizing store with
  | nil => exact h
  | cons row _ ih =>
    rw [Table.names_cons, List.nodup_cons] at hd
    obtain ⟨mid, hmid, h⟩ := mergeAll_cons_eq_ok.mp h
    exact mergeAll_cons_eq_ok.mpr ⟨mid, hmid, ih hd.2 h⟩
  | swap row row' rows =>
    rw [Table.names_cons, Table.names_cons, List.nodup_cons, List.mem_cons, not_or] at hd
    obtain ⟨mid, hmid, h⟩ := mergeAll_cons_eq_ok.mp h
    obtain ⟨last, hlast, h⟩ := mergeAll_cons_eq_ok.mp h
    obtain ⟨mid', hmid', hlast'⟩ := merge_swap hd.1.1 hmid hlast
    exact mergeAll_cons_eq_ok.mpr ⟨mid', hmid', mergeAll_cons_eq_ok.mpr ⟨last, hlast', h⟩⟩
  | trans hfirst _ ih ih' => exact ih' ((hfirst.map Prod.fst).nodup_iff.mp hd) (ih hd h)

/-- Stores that hold the same in the named channels take the same rows, or refuse them alike. -/
theorem mergeAll_congr {a b : Store}
    (h : ∀ n ∈ Table.names rows, Table.row? a.values n = Table.row? b.values n) :
    (∃ why, mergeAll s a rows = .error why ∧ mergeAll s b rows = .error why) ∨
    ∃ a' b', mergeAll s a rows = .ok a' ∧ mergeAll s b rows = .ok b' := by
  induction rows generalizing a b with
  | nil => exact .inr ⟨a, b, rfl, rfl⟩
  | cons row rows ih =>
    obtain ⟨n, v⟩ := row
    rw [mergeAll_cons, mergeAll_cons]
    rcases merge_congr s (h n (by simp [Table.names_cons])) v with ⟨why, ha, hb⟩ | ⟨w, ha, hb⟩
    · exact .inl ⟨why, by rw [ha]; rfl, by rw [hb]; rfl⟩
    · rw [ha, hb]
      refine ih fun m hm => ?_
      have hrow := h m (by simp [Table.names_cons, hm])
      rw [Table.row?_put, Table.row?_put, hrow]

/-- Rows with names of their own are merged if each can be, and else refused like the first that
cannot be. -/
theorem mergeAll_cases (s : Schema) (store : Store) (hd : (Table.names rows).Nodup) :
    (∃ new, mergeAll s store rows = .ok new ∧ ∀ r ∈ rows, Mergeable s store (.str r.1, r.2)) ∨
    ∃ before name v after why, rows = before ++ (name, v) :: after ∧
      (∀ r ∈ before, Mergeable s store (.str r.1, r.2)) ∧
      store.merge s name v = .error why ∧ mergeAll s store rows = .error why := by
  induction rows generalizing store with
  | nil => exact .inl ⟨store, rfl, by simp⟩
  | cons row rows ih =>
    obtain ⟨n, v⟩ := row
    rw [Table.names_cons, List.nodup_cons] at hd
    cases hmid : store.merge s n v with
    | error why =>
      exact .inr ⟨[], n, v, rows, why, rfl, by simp, hmid, by rw [mergeAll_cons, hmid]; rfl⟩
    | ok mid =>
      -- what the head has changed is nothing to the other rows
      have hsame : ∀ r ∈ rows, Table.row? mid.values r.1 = Table.row? store.values r.1 := by
        intro r hr
        exact row?_of_merge hmid fun heq => hd.1 (heq ▸ List.mem_map.mpr ⟨r, hr, rfl⟩)
      have hback : ∀ r ∈ rows, Mergeable s mid (.str r.1, r.2) →
          Mergeable s store (.str r.1, r.2) := by
        intro r hr
        rw [mergeable_str_iff, mergeable_str_iff]
        rintro ⟨_, hok⟩
        rcases merge_congr s (hsame r hr) r.2 with ⟨why, hmid, _⟩ | ⟨w, _, hstore⟩
        · cases hmid.symm.trans hok
        · exact ⟨_, hstore⟩
      have hhead : Mergeable s store (.str n, v) := mergeable_str_iff.mpr ⟨mid, hmid⟩
      have hcons : mergeAll s store ((n, v) :: rows) = mergeAll s mid rows := by
        rw [mergeAll_cons, hmid]
        rfl
      rcases ih mid hd.2 with ⟨new, hnew, hall⟩ |
        ⟨before, m, u, after, why, rfl, hall, hfail, herror⟩
      · refine .inl ⟨new, hcons.trans hnew, fun r hr => ?_⟩
        rcases List.mem_cons.mp hr with rfl | hr
        · exact hhead
        · exact hback r hr (hall r hr)
      · refine .inr
          ⟨(n, v) :: before, m, u, after, why, rfl, fun r hr => ?_, ?_, hcons.trans herror⟩
        · rcases List.mem_cons.mp hr with rfl | hr
          · exact hhead
          · exact hback r (by simp [hr]) (hall r hr)
        · have hlater := hsame (m, u) (by simp)
          rcases merge_congr s hlater u with ⟨why', hmid, hstore⟩ | ⟨w, hmid, _⟩
          · cases hmid.symm.trans hfail
            exact hstore
          · cases hmid.symm.trans hfail

/-! ## Updates -/

theorem applyValue_eq_ok {given : Value} (h : store.applyValue s given = .ok new) :
    ∃ update, given = .mapping update ∧ store.apply s update = .ok new := by
  unfold applyValue at h
  split at h
  next update => exact ⟨update, rfl, h⟩
  next =>
    obtain ⟨_, _, h⟩ := bind_eq_ok.mp h
    obtain ⟨_, _, h⟩ := bind_eq_ok.mp h
    cases h

theorem names_of_applyValue {given : Value} (h : store.applyValue s given = .ok new) :
    Table.names new.values = Table.names store.values := by
  obtain ⟨_, _, happly⟩ := applyValue_eq_ok h
  exact names_of_mergeAll (apply_eq_ok happly).2

theorem Mergeable.known {e : Value × Value} (h : Mergeable s store e) : s.hasKey e.1 = true := by
  obtain ⟨c, hc, hkey, _⟩ := h
  exact (s.hasKey_iff _).mpr ⟨c.name, List.mem_map.mpr ⟨c, hc, rfl⟩, hkey⟩

/-- An update is merged if each entry can be, and else refused. -/
theorem apply_merged_or_refused (s : Schema) (store : Store) (hd : update.TextsOnce) :
    (∃ new, store.apply s update = .ok new ∧ ∀ e ∈ update, Mergeable s store e) ∨
    ∃ why, store.apply s update = .error why ∧ Refuses s store update why := by
  by_cases hknown : ∀ e ∈ update, s.hasKey e.1 = true
  · rw [apply_of_known hknown]
    rcases mergeAll_cases s store hd with ⟨new, hnew, hall⟩ |
      ⟨before, name, v, after, why, hrows, hbefore, hfail, herror⟩
    · refine .inl ⟨new, hnew, fun e he => ?_⟩
      rw [← Schema.ofFields_namedRows hknown] at he
      obtain ⟨r, hr, rfl⟩ := List.mem_map.mp he
      exact hall r hr
    · exact .inr ⟨why, herror, .entry hknown hrows hbefore hfail⟩
  · obtain ⟨e, hunknown⟩ := not_forall.mp hknown
    obtain ⟨he, hkey⟩ := Classical.not_imp.mp hunknown
    refine .inr ?_
    cases hchecked : s.checked "Update" update with
    | ok rows => exact absurd (Schema.checked_eq_ok.mp hchecked).1 hknown
    | error why =>
      exact ⟨why, by rw [apply, hchecked]; rfl, .undefined he (by simpa using hkey) hchecked⟩

theorem Refuses.not_mergeable {why : Failure} (h : Refuses s store update why) :
    ∃ e ∈ update, ¬ Mergeable s store e := by
  cases h with
  | @undefined e he hkey _ =>
    refine ⟨e, he, fun hmergeable => ?_⟩
    rw [hmergeable.known] at hkey
    cases hkey
  | @entry before after name v _ hrows _ hfail =>
    have hmem : (name, v) ∈ Schema.namedRows update := by simp [hrows]
    refine ⟨(.str name, v), Schema.mem_namedRows.mp hmem, fun hmergeable => ?_⟩
    obtain ⟨_, hok⟩ := mergeable_str_iff.mp hmergeable
    cases hok.symm.trans hfail

/-- How rows are refused: all names that are no channels are complained about, and if there are
none, the first row that cannot be merged decides. -/
theorem Refuses.of_rows {why : Failure} (h : Refuses s store (Entries.ofFields rows) why) :
    (s.undefinedNames rows ≠ [] ∧ why = .misconfigured ("Update names undefined channel(s): " ++
      Value.commas (Schema.sorted (s.undefinedNames rows)))) ∨
    (s.undefinedNames rows = [] ∧ ∃ before name v after, rows = before ++ (name, v) :: after ∧
      (∀ r ∈ before, Mergeable s store (.str r.1, r.2)) ∧ store.merge s name v = .error why) := by
  have hchecked := s.checked_ofFields "Update" rows
  cases h with
  | undefined _ _ herror =>
    rw [herror] at hchecked
    split at hchecked
    next => cases hchecked
    next hsome =>
      cases hchecked
      exact .inl ⟨hsome, rfl⟩
  | entry hknown hrows hbefore hfail =>
    rw [Schema.namedRows_ofFields] at hrows
    rw [Schema.checked_eq_ok.mpr ⟨hknown, rfl⟩] at hchecked
    split at hchecked
    next hnone => exact .inr ⟨hnone, _, _, _, _, hrows, hbefore, hfail⟩
    next => cases hchecked

/-- An update is taken or refused alike before and after one without a common key. -/
theorem apply_after (hapart : update.Apart update') (h : store.apply s update = .ok mid) :
    (∃ why, mid.apply s update' = .error why ∧ store.apply s update' = .error why) ∨
    ∃ a b, mid.apply s update' = .ok a ∧ store.apply s update' = .ok b := by
  obtain ⟨_, hmid⟩ := apply_eq_ok h
  cases hchecked : s.checked "Update" update' with
  | error why => exact .inl ⟨why, by rw [apply, hchecked]; rfl, by rw [apply, hchecked]; rfl⟩
  | ok rows =>
    obtain ⟨hknown', rfl⟩ := Schema.checked_eq_ok.mp hchecked
    rw [apply_of_known hknown', apply_of_known hknown']
    exact mergeAll_congr fun n hn => row?_of_mergeAll hmid (hapart.symm.names hn)

/-- Updates without a common key can change places. -/
theorem apply_comm (hd : update.TextsOnce) (hd' : update'.TextsOnce) (hapart : update.Apart update')
    {a b : Store} (h : store.apply s update = .ok a) (h' : store.apply s update' = .ok b) :
    ∃ c, a.apply s update' = .ok c ∧ b.apply s update = .ok c := by
  obtain ⟨hknown, hrows⟩ := apply_eq_ok h
  obtain ⟨hknown', hrows'⟩ := apply_eq_ok h'
  rcases apply_after hapart h with ⟨why, _, hfail⟩ | ⟨c, _, hc, _⟩
  · cases hfail.symm.trans h'
  · refine ⟨c, hc, ?_⟩
    rw [apply_of_known hknown'] at hc
    rw [apply_of_known hknown, ← mergeAll_append hrows']
    refine mergeAll_perm List.perm_append_comm ?_ ((mergeAll_append hrows _).trans hc)
    rw [Table.names, List.map_append, List.nodup_append]
    exact ⟨hd, hd', fun n hn m hm heq => hapart.names hn (heq ▸ hm)⟩

end

end Store

end TeamFlow
