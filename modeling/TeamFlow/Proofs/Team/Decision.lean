import TeamFlow.Proofs.Channel.Merging
import TeamFlow.Proofs.Table
import TeamFlow.Proofs.Value.Text
import TeamFlow.Team.Supervisor

/-! # Decisions of a supervisor

A supervisor answers with whom it chose, instructions and perhaps a topic, and
with nothing else (`Decision`); whatever the oracle answered, the choice is one
of the supervisor's own. Channels that are overridden take every decision, and
the router reads the choice back. -/
namespace TeamFlow

variable {μ : Type}

/-- A channel that is overridden. -/
def Schema.Overrides (schema : Schema) (name : String) : Prop :=
  ∃ c ∈ schema.channels, c.name = name ∧ c.reducer = Reducer.overrideIfPresent

theorem State.itemsOf_list {state : State} {name : String} {xs : List Value}
    (h : state.peek name = .list xs) : state.itemsOf name = .ok xs := by
  rw [itemsOf, h]
  cases xs <;> rfl

namespace Store

theorem find?_snapshot (store : Store) (name : String) :
    Entries.find? store.snapshot (.str name) =
      (Table.row? store.values name).map Value.copied := by
  rw [snapshot_eq_ofFields, Entries.find?_ofFields, Table.row?_mapRows]

theorem peek_snapshot {store : Store} {name : String} {v : Value}
    (h : Table.row? store.values name = some v) : State.peek store.snapshot name = v.copied := by
  rw [State.peek, Entries.get?, find?_snapshot, h]
  rfl

theorem itemsOf_snapshot {store : Store} {name : String} {xs : List Value}
    (h : Table.row? store.values name = some (.list xs)) :
    State.itemsOf store.snapshot name = .ok xs :=
  State.itemsOf_list (peek_snapshot h)

theorem Merges.override {schema : Schema} {update : Entries} {old new : Store}
    (h : old.Merges schema update new) {name : String} (hname : schema.Overrides name) {v : Value}
    (hv : v ≠ .null) (hcontribution : contributions update name = [v]) :
    Table.row? new.values name = some v := by
  obtain ⟨c, hc, rfl, hreducer⟩ := hname
  obtain ⟨old, w, _, hw, hfold⟩ := h.channels c hc
  rw [hcontribution, hreducer, List.foldlM_cons] at hfold
  have hnew : Reducer.overrideIfPresent old v = .ok v := by
    unfold Reducer.overrideIfPresent
    split
    next => exact absurd rfl hv
    next => rfl
  rw [hnew] at hfold
  cases hfold
  exact hw

theorem mergeAll_of_overrides {schema : Schema} {rows : Table Value} {store : Store}
    (hs : store.Complete schema) (h : ∀ row ∈ rows, schema.Overrides row.1) :
    ∃ new, mergeAll schema store rows = .ok new := by
  induction rows generalizing store with
  | nil => exact ⟨store, rfl⟩
  | cons row rows ih =>
    obtain ⟨c, hc, hname, hreducer⟩ := h row (by simp)
    obtain ⟨old, hold⟩ := hs.row? hc
    obtain ⟨v, hv⟩ : ∃ v, c.reducer old row.2 = .ok v := by
      rw [hreducer]
      unfold Reducer.overrideIfPresent
      split <;> exact ⟨_, rfl⟩
    have hmerge : store.merge schema row.1 row.2 = .ok ⟨Table.put store.values row.1 v⟩ :=
      merge_eq_ok.mpr ⟨c, hc, hname, old, v, hname ▸ hold, hv, rfl⟩
    obtain ⟨new, hnew⟩ := ih (hs.merge hmerge) fun r hr => h r (by simp [hr])
    exact ⟨new, mergeAll_cons_eq_ok.mpr ⟨_, hmerge, hnew⟩⟩

theorem apply_of_overrides {schema : Schema} {store : Store} (hs : store.Complete schema)
    {update : Entries} (h : ∀ e ∈ update, ∃ name, e.1 = .str name ∧ schema.Overrides name) :
    ∃ new, store.apply schema update = .ok new := by
  have hknown : ∀ e ∈ update, schema.hasKey e.1 = true := by
    intro e he
    obtain ⟨name, hkey, c, hc, hname, _⟩ := h e he
    exact (schema.hasKey_iff e.1).mpr ⟨name, List.mem_map.mpr ⟨c, hc, hname⟩, hkey⟩
  obtain ⟨new, hnew⟩ := mergeAll_of_overrides hs fun row hrow => by
    obtain ⟨name, hkey, hoverrides⟩ := h _ (Schema.mem_namedRows.mp hrow)
    cases hkey
    exact hoverrides
  exact ⟨new, bind_eq_ok.mpr ⟨_, Schema.checked_eq_ok.mpr ⟨hknown, rfl⟩, hnew⟩⟩

end Store

namespace Supervisor

/-- What a supervisor hands over for a choice: topics are set only where they are in play. -/
inductive Decision (s : Supervisor μ) (choice : String) : Entries → Prop where
  | plain {instructions : String} (htopics : s.topicsChannel = none) : Decision s choice
      [(.str "next", .str choice), (.str "instructions", .str instructions)]
  | topical {instructions : String} {topic : Value} (htopics : s.topicsChannel ≠ none) :
      Decision s choice [(.str "next", .str choice), (.str "instructions", .str instructions),
        (.str "topic", topic)]

/-- The channels that a supervisor writes to. -/
def WritesTo (s : Supervisor μ) (name : String) : Prop :=
  name = "next" ∨ name = "instructions" ∨ (name = "topic" ∧ s.topicsChannel ≠ none)

theorem request_eq_ok {s : Supervisor μ} {given : Value} {r : Request}
    (h : s.request given = .ok r) :
    r.options = s.options ∧ (r.topics = none ↔ s.topicsChannel = none) := by
  obtain ⟨_, _, h⟩ := bind_eq_ok.mp h
  obtain ⟨state, _, h⟩ := bind_eq_ok.mp h
  obtain ⟨_, _, h⟩ := bind_eq_ok.mp h
  obtain ⟨_, _, h⟩ := bind_eq_ok.mp h
  obtain ⟨topics, htopics, h⟩ := bind_eq_ok.mp h
  cases h
  refine ⟨rfl, ?_⟩
  show topics = none ↔ _
  unfold knownTopics at htopics
  split at htopics
  next hchannel => cases htopics; simp [hchannel]
  next hchannel =>
    obtain ⟨_, _, htopics⟩ := bind_eq_ok.mp htopics
    cases htopics
    simp [hchannel]

theorem request_eq {s : Supervisor μ} {state : State} {members guidance : String}
    {conversation : List Value} {topics : Option (List Value)}
    (hmembers : Value.joined s.members = .ok members)
    (hguidance : Value.fill s.prompt [(.str "team_members", .str members),
      (.str "topic", (State.peek state "topic").orElse (.str "the user's request"))] = .ok guidance)
    (hsaid : State.itemsOf state "messages" = .ok conversation)
    (htopics : s.knownTopics state = .ok topics) :
    s.request (.mapping state) = .ok ⟨conversation, s.options, guidance, topics⟩ := by
  simp only [request, hmembers, Value.state, hguidance, hsaid, htopics, bind, Except.bind, pure,
    Except.pure]

theorem accept_eq_ok {answer : Value} {r : Request} {update : Entries}
    (h : accept answer r = .ok update) : ∃ next instructions, next.isAmong r.options = true ∧
      ((r.topics = none ∧
          update = [(.str "next", next), (.str "instructions", .str instructions)]) ∨
        ∃ topics said topic, r.topics = some topics ∧ chosenTopic topics said = .ok topic ∧
          update = [(.str "next", next), (.str "instructions", .str instructions),
            (.str "topic", topic)]) := by
  unfold accept at h
  split at h
  next => cases h
  next fields _ =>
    dsimp only at h
    split at h
    next =>
      obtain ⟨_, _, h⟩ := bind_eq_ok.mp h
      obtain ⟨_, _, h⟩ := bind_eq_ok.mp h
      cases h
    next hamong =>
      have hamong : (State.peek fields "next").isAmong r.options = true := by simpa using hamong
      split at h
      next instructions _ =>
        refine ⟨_, instructions, hamong, ?_⟩
        split at h
        next htopics => cases h; exact .inl ⟨htopics, rfl⟩
        next topics htopics =>
          obtain ⟨topic, hchosen, h⟩ := bind_eq_ok.mp h
          cases h
          exact .inr ⟨topics, _, topic, htopics, hchosen, rfl⟩
      next => cases h

theorem chosenTopic_eq_ok {texts : List String} {topic chosen : Value}
    (h : chosenTopic (texts.map .str) topic = .ok chosen) :
    chosen = .str "" ∨ ∃ t ∈ texts, chosen = .str t := by
  unfold chosenTopic at h
  split at h
  next hamong =>
    cases h
    obtain ⟨t, ht, rfl⟩ := (Value.isAmong_texts_iff topic (noTopic :: texts)).mp hamong
    split
    next => exact .inl rfl
    next hother =>
      rcases List.mem_cons.mp ht with rfl | ht
      · exact absurd (by simp [Value.same, Value.alike]) hother
      · exact .inr ⟨t, ht, rfl⟩
  next =>
    obtain ⟨_, _, h⟩ := bind_eq_ok.mp h
    obtain ⟨_, _, h⟩ := bind_eq_ok.mp h
    cases h

theorem handler_eq_ok {s : Supervisor μ} {given answer : Value} {site left : Site μ}
    (h : s.handler given site = (.ok answer, left)) : ∃ r reply delta,
      s.request given = .ok r ∧ accept reply r = .ok delta ∧ answer = .mapping delta := by
  obtain ⟨r, _, hrequest, h⟩ := Act.bind_eq_ok.mp h
  obtain ⟨reply, _, _, h⟩ := Act.bind_eq_ok.mp h
  obtain ⟨delta, _, haccept, h⟩ := Act.bind_eq_ok.mp h
  cases h
  exact ⟨r, reply, delta, congrArg Prod.fst hrequest, congrArg Prod.fst haccept, rfl⟩

/-- What becomes of the oracle's reply to a request is up to the checks. -/
theorem handler_asked {s : Supervisor μ} {given reply : Value} {r : Request} {site : Site μ}
    {memory : μ} (hrequest : s.request given = .ok r)
    (horacle : s.oracle r site.memory = (.ok reply, memory)) :
    s.handler given site = ((accept reply r).map .mapping, { site with memory := memory }) := by
  have hasked : Site.onMemory (s.oracle r) site = (.ok reply, { site with memory := memory }) := by
    simp only [Site.onMemory, Act.onPart, horacle]
  simp only [handler, hrequest, Act.bind_apply, Act.ofExcept, hasked]
  cases accept reply r <;> rfl

theorem handler_of_request {s : Supervisor μ} {given reply : Value} {r : Request} {site : Site μ}
    {memory : μ} {delta : Entries} (hrequest : s.request given = .ok r)
    (horacle : s.oracle r site.memory = (.ok reply, memory))
    (haccept : accept reply r = .ok delta) :
    s.handler given site = (.ok (.mapping delta), { site with memory := memory }) := by
  rw [handler_asked hrequest horacle, haccept]
  rfl

/-- Whatever the oracle answers, a supervisor hands over a choice of its own. -/
theorem decision_of_handler {s : Supervisor μ} {texts : List String}
    (hoptions : s.options = texts.map .str) {given answer : Value} {site left : Site μ}
    (h : s.handler given site = (.ok answer, left)) :
    ∃ choice ∈ texts, ∃ delta, answer = .mapping delta ∧ s.Decision choice delta := by
  obtain ⟨r, reply, update, hrequest, haccept, rfl⟩ := handler_eq_ok h
  obtain ⟨hown, htopics⟩ := request_eq_ok hrequest
  obtain ⟨next, instructions, hamong, hupdate⟩ := accept_eq_ok haccept
  rw [hown, hoptions, Value.isAmong_texts_iff] at hamong
  obtain ⟨choice, hchoice, rfl⟩ := hamong
  refine ⟨choice, hchoice, update, rfl, ?_⟩
  rcases hupdate with ⟨hnone, rfl⟩ | ⟨_, _, _, hsome, _, rfl⟩
  · exact .plain (htopics.mp hnone)
  · exact .topical fun hnone => by simp [htopics.mpr hnone] at hsome

/-- What the oracle leaves of a site at which it is asked once, if at all. -/
def afterAsking (s : Supervisor μ) (asked : Option Request) (site : Site μ) : Site μ :=
  match asked with
  | some r => (Site.onMemory (s.oracle r) site).2
  | none => site

/-- At its site a supervisor does nothing but ask its oracle, once, if it has something to ask. -/
theorem handler_leaves (s : Supervisor μ) (given : Value) (site : Site μ) :
    (s.handler given site).2 = s.afterAsking (s.request given).toOption site := by
  simp only [handler, Act.bind_apply, Act.ofExcept]
  cases s.request given with
  | error _ => rfl
  | ok r =>
    simp only [Except.toOption, afterAsking]
    cases Site.onMemory (s.oracle r) site with
    | mk reply left =>
      cases reply with
      | error _ => rfl
      | ok answer =>
        simp only
        cases accept answer r <;> rfl

namespace Decision

variable {s : Supervisor μ} {choice : String} {delta : Entries}

theorem next (h : s.Decision choice delta) : delta.get? "next" = some (.str choice) := by
  cases h <;> simp [Entries.get?, Entries.find?, Value.alike]

theorem contributions (h : s.Decision choice delta) :
    Store.contributions delta "next" = [.str choice] := by
  cases h <;> simp [Store.contributions, Schema.namedRows]

theorem channels (h : s.Decision choice delta) :
    ∀ e ∈ delta, ∃ name, e.1 = .str name ∧ s.WritesTo name := by
  cases h with
  | plain _ => simp [WritesTo]
  | topical htopics => simp [WritesTo, htopics]

theorem merged (h : s.Decision choice delta) {schema : Schema} (hnext : schema.Overrides "next")
    {old new : Store} (hmerges : old.Merges schema delta new) :
    Table.row? new.values "next" = some (.str choice) :=
  hmerges.override hnext (by simp) h.contributions

end Decision

theorem route_answer {store : Store} {choice : String}
    (h : Table.row? store.values "next" = some (.str choice)) (site : Site μ) :
    Supervisor.route.answer (.mapping store.snapshot) site = (.ok (.str choice), site) := by
  have hfind : Entries.find? store.snapshot (.str "next") = some (.str choice) := by
    rw [Store.find?_snapshot, h]
    rfl
  have hunder : (Value.mapping store.snapshot).under? (.str "next") = .ok (.str choice) := by
    refine bind_eq_ok.mpr ⟨.str "next", rfl, ?_⟩
    rw [hfind]
    rfl
  show Act.ofExcept ((Value.mapping store.snapshot).under? (.str "next")) site = _
  rw [hunder]
  rfl

end Supervisor

end TeamFlow
