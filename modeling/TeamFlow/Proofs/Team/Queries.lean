import TeamFlow.Proofs.Prompt
import TeamFlow.Proofs.Team.Staff
import TeamFlow.Proofs.Worker.Brainstorm
import TeamFlow.Proofs.Worker.Conversation

/-! # The queries of the research team

The queries of the research team are its topics. The brainstormer only adds
queries that are new, the supervisor only picks a topic among them, and nobody
else writes to either channel (`ResearchAnswers`). So the queries grow without
repeats, a topic that was picked stays one of them, and the oracle is shown all
of them in order (`Tidy`). -/
namespace TeamFlow.Team

open Run

variable {μ : Type}

def queriesChannel : String := "brainstormed_queries"

/-- Distinct queries, and a topic that is one of them unless there is none. -/
structure Tidy (store : Store) (queries : List String) (topic : String) : Prop where
  listed : Table.row? store.values queriesChannel = some (Value.ofText queries)
  picked : Table.row? store.values "topic" = some (.str topic)
  distinct : queries.Nodup
  known : topic = "" ∨ topic ∈ queries

/-- Queries worth to be added: without blanks around them, and not empty. -/
def Worthy (queries : List String) : Prop := ∀ q ∈ queries, q ≠ "" ∧ Text.trim q = q

theorem logs_messages_research : researchSchema.freeze.Logs "messages" :=
  ⟨_, .head _, rfl, rfl, rfl⟩

theorem logs_queries_research : researchSchema.freeze.Logs queriesChannel :=
  ⟨_, .tail _ (.tail _ (.head _)), rfl, rfl, rfl⟩

section Research

variable {model searchModel : ChatModel μ} {oracle : Oracle μ} {scrape : Option Tool}
  {limit : Value}

/-! ## What the members answer -/

/-- What a step of the research team can hand over. -/
inductive ResearchAnswers (oracle : Oracle μ) (scrape : Option Tool) (given : State)
    (site left : Site μ) : String → Entries → Prop where
  | decides {delta : Entries}
      (hcall : (researchSupervisor oracle scrape).handler (.mapping given) site =
        (.ok (.mapping delta), left)) :
      ResearchAnswers oracle scrape given site left supervisorNode delta
  | brainstorms {known : List Value} {queries : List String} {text : String}
      (hknown : State.itemsOf given queriesChannel = .ok known)
      (hfresh : Brainstormer.Fresh known queries) :
      ResearchAnswers oracle scrape given site left brainstormerName
        ((.str queriesChannel, Value.ofText queries) :: Worker.reported brainstormerName text)
  | reports {node text : String} (hnode : node ∈ researchMembers scrape) :
      ResearchAnswers oracle scrape given site left node (Worker.reported node text)

theorem research_answers {node : String} {given : State} {site left : Site μ} {delta : Entries}
    (h : (researchGraph model searchModel oracle scrape limit).Answers node given site delta
      left) : ResearchAnswers oracle scrape given site left node delta := by
  have hstar := (research_eq model searchModel oracle scrape limit).2
  rcases (hstar.nodes node).mp (isNode_of_answers h) with rfl | hmember
  · obtain ⟨answer, hcall, hanswer⟩ := h.of_handler hstar.handler
    obtain ⟨_, _, _, _, _, rfl⟩ := Supervisor.handler_eq_ok hcall
    rcases hanswer with heq | ⟨heq, _⟩ <;> cases heq
    exact .decides hcall
  · have hmember' := hmember
    rw [researchMembers, List.mem_append] at hmember
    rcases hmember with hbasic | hscraper
    · rcases List.mem_pair.mp hbasic with rfl | rfl
      · obtain ⟨answer, hcall, hanswer⟩ := h.of_handler rfl
        obtain ⟨_, _, _, hknown, hfresh, rfl⟩ := Brainstormer.handler_eq_ok hcall
        rcases hanswer with heq | ⟨heq, _⟩ <;> cases heq
        exact .brainstorms hknown hfresh
      · obtain ⟨answer, hcall, hanswer⟩ := h.of_handler rfl
        obtain ⟨_, _, rfl⟩ := Searcher.handler_eq_ok hcall
        rcases hanswer with heq | ⟨heq, _⟩ <;> cases heq
        exact .reports hmember'
    · cases scrape with
      | none => cases hscraper
      | some tool =>
        obtain rfl := List.mem_singleton.mp hscraper
        obtain ⟨answer, hcall, hanswer⟩ := h.of_handler rfl
        obtain ⟨_, _, rfl⟩ := Agent.handler_eq_ok hcall
        rcases hanswer with heq | ⟨heq, _⟩ <;> cases heq
        exact .reports hmember'

/-! ## What the oracle is shown -/

theorem knownTopics_eq {store : Store} {queries : List String} {topic : String}
    (h : Tidy store queries topic) :
    (researchSupervisor oracle scrape).knownTopics store.snapshot =
      .ok (some (queries.map .str)) := by
  have hitems : State.itemsOf store.snapshot queriesChannel = .ok (queries.map .str) :=
    Store.itemsOf_snapshot h.listed
  refine bind_eq_ok.mpr ⟨_, hitems, ?_⟩
  rw [Value.distinct_texts_of_nodup h.distinct]
  rfl

theorem request_of_tidy (oracle : Oracle μ) (scrape : Option Tool) {store : Store}
    {queries : List String} {topic : String} (h : Tidy store queries topic) {said : List Value}
    (hsaid : Table.row? store.values "messages" = some (.list said)) : ∃ guidance,
    (researchSupervisor oracle scrape).request (.mapping store.snapshot) = .ok
      ⟨said, (researchSupervisor oracle scrape).options, guidance, some (queries.map .str)⟩ := by
  have htopic : ∃ t : String,
      (State.peek store.snapshot "topic").orElse (.str "the user's request") = .str t := by
    rw [Store.peek_snapshot h.picked]
    by_cases hempty : topic = ""
    · exact ⟨_, by rw [hempty]; rfl⟩
    · exact ⟨topic, by simp [Value.orElse, Value.isTruthy, Value.copied, hempty]⟩
  obtain ⟨t, ht⟩ := htopic
  obtain ⟨guidance, hguidance⟩ := Prompt.researchSupervisor_reads.guides
    (by simp [Text.slots]) (Value.commas (researchMembers scrape)) t
  rw [← ht] at hguidance
  exact ⟨guidance, Supervisor.request_eq (Value.joined_texts _) hguidance
    (Store.itemsOf_snapshot hsaid) (knownTopics_eq h)⟩

/-! ## What a step keeps -/

/-- What the members of the research team rely on: tidy queries, and a list of messages. -/
structure InOrder (store : Store) (queries : List String) (topic : String) : Prop where
  tidy : Tidy store queries topic
  said : ∃ said, Table.row? store.values "messages" = some (.list said)

theorem said_of_merges {schema : Schema} {delta : Entries} {old new : Store}
    (hlog : schema.Logs "messages") (hmerges : old.Merges schema delta new)
    (h : ∃ said, Table.row? old.values "messages" = some (.list said)) :
    ∃ said, Table.row? new.values "messages" = some (.list said) := by
  obtain ⟨said, hsaid⟩ := h
  exact ⟨_, hmerges.log hlog hsaid⟩

theorem Tidy.decided {old new : Store} {queries : List String} {topic : String}
    (h : Tidy old queries topic) {said : List Value}
    (hsaid : Table.row? old.values "messages" = some (.list said))
    (hcomplete : old.Complete researchSchema.freeze) {site left : Site μ} {delta : Entries}
    (hcall : (researchSupervisor oracle scrape).handler (.mapping old.snapshot) site =
      (.ok (.mapping delta), left)) (hmerges : old.Merges researchSchema.freeze delta new) :
    ∃ topic', Tidy new queries topic' := by
  obtain ⟨r, reply, update, hrequest, haccept, heq⟩ := Supervisor.handler_eq_ok hcall
  cases heq
  obtain ⟨guidance, hasked⟩ := request_of_tidy oracle scrape h hsaid
  cases hasked.symm.trans hrequest
  obtain ⟨next, instructions, _, ⟨hnone, _⟩ | ⟨topics, _, chosen, htopics, hchosen, rfl⟩⟩ :=
    Supervisor.accept_eq_ok haccept
  · cases hnone
  · cases htopics
    obtain ⟨t, rfl, hknown⟩ : ∃ t, chosen = .str t ∧ (t = "" ∨ t ∈ queries) := by
      rcases Supervisor.chosenTopic_eq_ok hchosen with rfl | ⟨t, ht, rfl⟩
      · exact ⟨"", rfl, .inl rfl⟩
      · exact ⟨t, rfl, .inr ht⟩
    have hlisted := hmerges.untouched hcomplete queriesChannel
      (by simp [Store.contributions, Schema.namedRows, queriesChannel])
    have hoverrides : researchSchema.freeze.Overrides "topic" :=
      (suits_research oracle scrape).overrides "topic"
        (.inr (.inr ⟨rfl, by simp [researchSupervisor, supervisorOf]⟩))
    have hpicked := hmerges.override hoverrides (v := .str t) (by simp)
      (by simp [Store.contributions, Schema.namedRows])
    exact ⟨t, hlisted.trans h.listed, hpicked, h.distinct, hknown⟩

/-- Fresh queries are put behind those that are known. -/
theorem Tidy.grown {old new : Store} {queries : List String} {topic : String}
    (h : Tidy old queries topic) (hcomplete : old.Complete researchSchema.freeze)
    {found : List String} (hfresh : Brainstormer.Fresh (queries.map .str) found) {report : Entries}
    (hreport : ∀ e ∈ report, e.1 = .str "messages")
    (hmerges : old.Merges researchSchema.freeze
      ((.str queriesChannel, Value.ofText found) :: report) new) :
    Tidy new (queries ++ found) topic := by
  have hlisted := hmerges.log logs_queries_research h.listed
  rw [Store.added, Store.contributions_cons, Store.contributions_eq_nil hreport (by decide)]
    at hlisted
  have hpicked := hmerges.untouched hcomplete "topic" (by
    rw [Store.contributions_cons, Store.contributions_eq_nil hreport (by decide)]
    rfl)
  refine ⟨?_, hpicked.trans h.picked, ?_, h.known.imp_right fun hmem => by simp [hmem]⟩
  · rw [hlisted]
    simp [Value.ofText, Reducer.contributed]
  · refine List.nodup_append.mpr ⟨h.distinct, hfresh.distinct, ?_⟩
    rintro q hq _ hq' rfl
    have hunknown := hfresh.unknown q hq'
    rw [(Value.isAmong_texts_iff _ _).mpr ⟨q, hq, rfl⟩] at hunknown
    cases hunknown

/-- Every step keeps the queries and the topic in order, and only adds worthy queries. -/
theorem InOrder.step {old new : Store} {queries : List String} {topic : String}
    (h : InOrder old queries topic) {node : String} {delta : Entries} {mid left : Site μ}
    (hcomplete : old.Complete researchSchema.freeze)
    (hanswer : (researchGraph model searchModel oracle scrape limit).Answers node old.snapshot mid
      delta left) (hmerges : old.Merges researchSchema.freeze delta new) :
    ∃ added topic', Worthy added ∧ InOrder new (queries ++ added) topic' := by
  have hsaid' := said_of_merges logs_messages_research hmerges h.said
  cases research_answers hanswer with
  | decides hcall =>
    obtain ⟨said, hsaid⟩ := h.said
    obtain ⟨topic', htidy⟩ := h.tidy.decided hsaid hcomplete hcall hmerges
    exact ⟨[], topic', by simp [Worthy], by simpa using htidy, hsaid'⟩
  | @brainstorms known found text hknown hfresh =>
    cases (Store.itemsOf_snapshot h.tidy.listed).symm.trans hknown
    have htidy := h.tidy.grown hcomplete hfresh (by simp [Worker.reported]) hmerges
    exact ⟨found, topic, fun q hq => ⟨hfresh.filled q hq, hfresh.trimmed q hq⟩, htidy, hsaid'⟩
  | @reports node text _ =>
    have hreport : ∀ e ∈ Worker.reported node text, e.1 = .str "messages" := by
      simp [Worker.reported]
    have hlisted := hmerges.untouched hcomplete queriesChannel
      (Store.contributions_eq_nil hreport (by decide))
    have hpicked := hmerges.untouched hcomplete "topic"
      (Store.contributions_eq_nil hreport (by decide))
    have htidy : Tidy new queries topic :=
      ⟨hlisted.trans h.tidy.listed, hpicked.trans h.tidy.picked, h.tidy.distinct, h.tidy.known⟩
    exact ⟨[], topic, by simp [Worthy], by simpa using htidy, hsaid'⟩

/-- What every history of a run keeps in order. -/
theorem InOrder.history {r later : Run μ} {queries : List String} {topic : String}
    (h : InOrder r.store queries topic)
    (hr : Sound (researchGraph model searchModel oracle scrape limit) r) {log : List (Exchange μ)}
    (hlog : History r log later) :
    ∃ added topic', Worthy added ∧ InOrder later.store (queries ++ added) topic' := by
  have hlinked := (research_eq model searchModel oracle scrape limit).2.compiled.linked
  refine hlog.keeps hlinked (fun store =>
    ∃ added topic', Worthy added ∧ InOrder store (queries ++ added) topic') ?_ hr
    ⟨[], topic, by simp [Worthy], by simpa using h⟩
  intro old new node delta mid left hcomplete hanswer hmerges hold
  obtain ⟨added, topic', hworthy, hold⟩ := hold
  obtain ⟨more, topic'', hmore, hnew⟩ := hold.step hcomplete hanswer hmerges
  refine ⟨added ++ more, topic'', ?_, by simpa using hnew⟩
  intro q hq
  exact (List.mem_append.mp hq).elim (hworthy q) (hmore q)

end Research

/-! ## The research team -/

/-- How a run of the research team stands to its queries: they are tidy, the oracle is shown all of
them as topics, and whatever is asked of the run from here on, worthy ones are added behind. -/
structure KeepsQueries (oracle : Oracle μ) (scrape : Option Tool) (r : Run μ)
    (queries : List String) (topic : String) : Prop where
  tidy : Tidy r.store queries topic
  asked : ∀ here p mid, r.Turns here p mid → p.current = supervisorNode →
    ∃ req, consulted? (researchSupervisor oracle scrape) r here = some req ∧
      req.topics = some (queries.map .str)
  grows : ∀ log later, History r log later →
    ∃ added topic', Worthy added ∧ Tidy later.store (queries ++ added) topic'

/-- The research team keeps its queries and its topic in order, whatever its models, its scrape
tool and its oracle answer, if it starts from tidy ones. -/
theorem research_keeps_queries (model searchModel : ChatModel μ) (oracle : Oracle μ)
    (scrape : Option Tool) (limit : Value) : ∃ g,
      research model searchModel oracle scrape limit = .ok g ∧
      Table.row? g.nodes supervisorNode = some (researchSupervisor oracle scrape).handler ∧
      ∀ (initial given : Value) (site left : Site μ) (start r : Run μ) (log : List (Exchange μ))
        (queries : List String) (topic : String), g.start initial given site = (.ok start, left) →
        Tidy start.store queries topic → History start log r →
        ∃ added topic', Worthy added ∧ KeepsQueries oracle scrape r (queries ++ added) topic' := by
  obtain ⟨hmade, hstar⟩ := research_eq model searchModel oracle scrape limit
  refine ⟨_, hmade, hstar.handler, ?_⟩
  intro initial given site left start r log queries topic hstart htidy hlog
  obtain ⟨_, hbegins, _⟩ := start_eq_ok hstart
  have hsound := Sound.start hstart
  obtain ⟨added, topic', hworthy, horder⟩ := InOrder.history
    ⟨htidy, hbegins.log logs_messages_research⟩ hsound hlog
  refine ⟨added, topic', hworthy, horder.tidy, ?_, ?_⟩
  · intro here p mid hturn hnode
    obtain ⟨said, hsaid⟩ := horder.said
    obtain ⟨guidance, hrequest⟩ := request_of_tidy oracle scrape horder.tidy hsaid
    have hasked := consulted?_of_turns (researchSupervisor oracle scrape) hturn hnode
    rw [Run.state, hrequest] at hasked
    exact ⟨_, hasked, rfl⟩
  · intro more later hmore
    have hr := (hlog.sound hstar.compiled.linked hsound).1
    obtain ⟨added', topic'', hworthy', horder'⟩ := horder.history hr hmore
    exact ⟨added', topic'', hworthy', horder'.tidy⟩

/-- A model that proposes the same queries again and again. -/
def proposing : ChatModel Nat := fun _ n =>
  (.ok (.record "BrainstormResult" [("queries", Value.ofText [" b ", "a", "b", ""])]), n)

/-- An oracle that names the brainstormer first and then stops, always on one topic. It counts what
it is asked. -/
def insisting : Oracle Nat := fun _ n =>
  (.ok (.mapping [(.str "next", .str (if n = 0 then brainstormerName else finishName)),
    (.str "instructions", .str ""), (.str "topic", .str "a")]), n + 1)

/-- A run of the two from a query that is the topic already. -/
def insistingStart : Run Nat where
  graph := researchGraph proposing proposing insisting none .null
  limit := .usual
  store := ⟨[("messages", .list []), ("team_members", .list []),
    (queriesChannel, Value.ofText ["a"]), ("next", .str supervisorNode),
    ("instructions", .str "Thoroughly research the current topic."), ("topic", .str "a")]⟩
  count := 0
  current := supervisorNode
  status := .pending
  error := none
  phase := .unopened

/-- That run after its first step, the naming of the brainstormer. -/
def insistingNamed : Run Nat :=
  { insistingStart with
    store := ⟨[("messages", .list []), ("team_members", .list []),
      (queriesChannel, Value.ofText ["a"]), ("next", .str brainstormerName),
      ("instructions", .str ""), ("topic", .str "a")]⟩
    count := 1
    status := .running
    phase := .paused }

/-- That run after its second step. -/
def insistingGrown : Run Nat :=
  { insistingNamed with
    store := ⟨[("messages",
        .list [Message.ofWorker brainstormerName "Brainstormed queries:\n- b"]),
      ("team_members", .list []), (queriesChannel, Value.ofText ["a", "b"]),
      ("next", .str brainstormerName), ("instructions", .str ""), ("topic", .str "a")]⟩
    count := 2
    current := brainstormerName }

/-- What the brainstormer hands over in that run. -/
def insistingFound : Entries :=
  (.str queriesChannel, Value.ofText ["b"]) ::
    Worker.reported brainstormerName "Brainstormed queries:\n- b"

theorem insistingStart_tidy : Tidy insistingStart.store ["a"] "a" :=
  ⟨rfl, rfl, by decide, .inr (by decide)⟩

theorem insistingGrown_history :
    ∃ log, History insistingStart log insistingGrown ∧ (steps log).length = 2 := by
  -- the prompt of the supervisor is not evaluated: it is known to be filled in
  obtain ⟨guidance, hrequest⟩ := request_of_tidy insisting none insistingStart_tidy rfl
  have hdecides : (researchSupervisor insisting none).handler (.mapping insistingStart.state)
      (.bare 0) = (.ok (.mapping _), .bare 1) := Supervisor.handler_of_request hrequest rfl rfl
  have hturn : ({ insistingStart with phase := .opened } : Run Nat).Turns (.bare 0)
      { insistingStart with phase := .opened, status := .running } (.bare 0) := .first rfl
  have hboss := (research_eq proposing proposing insisting none .null).2.handler
  have hsecond : insistingNamed.next (.bare 1) =
      ((.step ⟨2, brainstormerName, insistingFound⟩, insistingGrown), .bare 1) := rfl
  have hopened : History insistingStart [] { insistingStart with phase := .opened } :=
    .opens .fresh rfl
  have hnamed := History.asks (x := ⟨.bare 0, _, insistingNamed, .bare 1⟩) hopened
    (hturn.next_of_call hboss hdecides)
  exact ⟨_, .asks (x := ⟨.bare 1, _, insistingGrown, .bare 1⟩) hnamed hsecond, rfl⟩

/-- One of the proposals is new: after two steps it is a query, behind the one that was there. -/
theorem insisting_keeps_queries : ∃ g start log r,
    research proposing proposing insisting none .null = .ok g ∧
    g.start (.mapping [(.str queriesChannel, Value.ofText ["a"]), (.str "topic", .str "a")]) .null
      (.bare 0) = (.ok start, .bare 0) ∧
    Tidy start.store ["a"] "a" ∧ History start log r ∧ (steps log).length = 2 ∧
    KeepsQueries insisting none r ["a", "b"] "a" := by
  obtain ⟨g, hmade, _, hkeeps⟩ := research_keeps_queries proposing proposing insisting none .null
  obtain rfl : insistingStart.graph = g :=
    Except.ok.inj ((research_eq proposing proposing insisting none .null).1.symm.trans hmade)
  have hstart : insistingStart.graph.start
      (.mapping [(.str queriesChannel, Value.ofText ["a"]), (.str "topic", .str "a")]) .null
      (.bare 0) = (.ok insistingStart, .bare 0) := rfl
  obtain ⟨log, hlog, hsteps⟩ := insistingGrown_history
  obtain ⟨added, topic, _, hgrown⟩ := hkeeps _ _ _ _ _ _ _ _ _ hstart insistingStart_tidy hlog
  have hlisted : Value.ofText ["a", "b"] = Value.ofText (["a"] ++ added) :=
    Option.some.inj hgrown.tidy.listed
  have hadded : ["a"] ++ added = ["a", "b"] := (Value.ofText_injective hlisted).symm
  have htopic : topic = "a" := (Value.str.inj (Option.some.inj hgrown.tidy.picked)).symm
  rw [hadded, htopic] at hgrown
  exact ⟨_, _, log, _, hmade, hstart, insistingStart_tidy, hlog, hsteps, hgrown⟩

end TeamFlow.Team
