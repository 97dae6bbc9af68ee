import TeamFlow.Proofs.Team.Listing
import TeamFlow.Proofs.Team.Queries
import TeamFlow.Proofs.Team.Reports

/-! # Who writes to which channel

A team has channels for its supervisor's decisions and channels for the work of
its members, and nobody writes to those of the others (`Duties`). Work is
reported in the conversation: how much each step may say is a tally over the
members that had a turn, so what one step adds and what a whole run adds are
told by the same tally (`StepOwned`, `RunOwned`). -/
namespace TeamFlow

/-- An update of some channels only. -/
def Entries.Within (channels : List String) (update : Entries) : Prop :=
  ∀ e ∈ update, ∃ c ∈ channels, e.1 = .str c

namespace Store

/-- Two stores that hold the same in all channels but some. -/
def AgreeOutside (channels : List String) (old new : Store) : Prop :=
  ∀ c ∉ channels, Table.row? new.values c = Table.row? old.values c

theorem Merges.agreeOutside {schema : Schema} {update : Entries} {old new : Store}
    (h : old.Merges schema update new) (hs : old.Complete schema) {channels : List String}
    (hwithin : update.Within channels) : old.AgreeOutside channels new := by
  intro c hc
  refine h.untouched hs c ?_
  rw [contributions, List.map_eq_nil_iff, List.filter_eq_nil_iff]
  intro row hrow
  obtain ⟨d, hd, hkey⟩ := hwithin _ (Schema.mem_namedRows.mp hrow)
  cases hkey
  simpa using fun heq : row.1 = c => hc (heq ▸ hd)

end Store

namespace Team

open Run

variable {μ : Type}

/-- The channels for the decisions of a supervisor. -/
def controlChannels : List String := ["next", "instructions", "topic"]

/-- The channels for the work of the members. -/
def workChannels : List String := ["messages", queriesChannel, filesChannel]

/-- The members that had a turn, in order. -/
def worked (names nodes : List String) : List String := nodes.filter fun n => n ∈ names

/-- A way to tell whether members, one after the other, may have said something. It tells it turn by
turn. -/
structure Tally (Tells : List String → List Value → Prop) : Prop where
  nothing : Tells [] []
  append : ∀ {nodes nodes' : List String} {said said' : List Value}, Tells nodes said →
    Tells nodes' said' → Tells (nodes ++ nodes') (said ++ said')

/-- One message of each member that had a turn, as a human message that bears its name. -/
structure Reported (nodes : List String) (said : List Value) : Prop where
  signed : List.Forall₂ (fun node m => ∃ text, m = Message.ofWorker node text) nodes said
  counted : said.length = nodes.length

/-- At most one message for each turn. -/
def AtMostOne (nodes : List String) (said : List Value) : Prop := said.length ≤ nodes.length

theorem reported_tally : Tally Reported where
  nothing := ⟨.nil, rfl⟩
  append h h' := ⟨List.rel_append h.signed h'.signed, by simp [h.counted, h'.counted]⟩

theorem atMostOne_tally : Tally AtMostOne where
  nothing := Nat.le_refl 0
  append h h' := by
    simp only [AtMostOne, List.length_append] at h h' ⊢
    omega

theorem reported_one (node text : String) : Reported [node] [Message.ofWorker node text] :=
  ⟨.cons ⟨text, rfl⟩ .nil, rfl⟩

/-- A step of a team: the supervisor leaves the work alone, a member leaves the decisions alone, and
the conversation goes on with what a member may say. -/
structure StepOwned (names : List String) (Tells : List String → List Value → Prop) (t : Step)
    (old new : Store) : Prop where
  node : t.node = supervisorNode ∨ t.node ∈ names
  supervisor : t.node = supervisorNode → old.AgreeOutside controlChannels new
  member : t.node ∈ names → old.AgreeOutside workChannels new
  grows : ∃ said added, Table.row? old.values "messages" = some (.list said) ∧
    Table.row? new.values "messages" = some (.list (said ++ added)) ∧
    Tells (worked names [t.node]) added

/-- A run of a team: the conversation goes on with what the members may say. -/
def RunOwned (names : List String) (Tells : List String → List Value → Prop) (start r : Run μ)
    (log : List (Exchange μ)) : Prop :=
  ∃ said added, Table.row? start.store.values "messages" = some (.list said) ∧
    Table.row? r.store.values "messages" = some (.list (said ++ added)) ∧
    Tells (worked names ((steps log).map fun t => t.2.node)) added

/-- Everything that is asked of a run of a team keeps to who writes to which channel. -/
def OwnsChannels (g : Graph μ) (names : List String) (Tells : List String → List Value → Prop) :
    Prop :=
  ∀ (initial given : Value) (site left : Site μ) (start r : Run μ) (log : List (Exchange μ)),
    g.start initial given site = (.ok start, left) → History start log r →
    RunOwned names Tells start r log ∧
    ∀ (here after : Site μ) (t : Step) (r' : Run μ), r.next here = ((.step t, r'), after) →
      StepOwned names Tells t r.store r'.store

/-! ## From what members hand over to what runs keep -/

/-- Members that hand over their own work only, and say what they may. -/
structure Duties (g : Graph μ) (s : Supervisor μ) (names : List String)
    (Tells : List String → List Value → Prop) : Prop where
  conversing : Conversing g s names
  tally : Tally Tells
  within : ∀ {given : State} {node : String} {mid left : Site μ} {delta : Entries}, node ∈ names →
    g.Answers node given mid delta left → delta.Within workChannels
  tells : ∀ {given : State} {node : String} {mid left : Site μ} {delta : Entries}, node ∈ names →
    g.Answers node given mid delta left → Tells [node] (Store.added delta "messages")

theorem within_of_decision {s : Supervisor μ} {choice : String} {delta : Entries}
    (h : s.Decision choice delta) : delta.Within controlChannels := by
  intro e he
  obtain ⟨name, hname, hwrites⟩ := h.channels e he
  refine ⟨name, ?_, hname⟩
  rcases hwrites with rfl | rfl | ⟨rfl, _⟩ <;> decide

section Duties

variable {g : Graph μ} {s : Supervisor μ} {names : List String}
  {Tells : List String → List Value → Prop}

theorem IsStar.worked_supervisor (h : IsStar g s names) : worked names [supervisorNode] = [] := by
  simp [worked, h.apart]

theorem worked_member {node : String} (h : node ∈ names) : worked names [node] = [node] := by
  simp [worked, h]

/-- One step keeps to the duties. -/
theorem Duties.step (h : Duties g s names Tells) {t : Step} {old new : Store} {mid left : Site μ}
    (hcomplete : old.Complete g.schema) (hanswer : g.Answers t.node old.snapshot mid t.delta left)
    (hmerges : old.Merges g.schema t.delta new) {said : List Value}
    (hsaid : Table.row? old.values "messages" = some (.list said)) :
    StepOwned names Tells t old new := by
  have hstar := h.conversing.star
  have hnode := (hstar.nodes t.node).mp (isNode_of_answers hanswer)
  have hgrows := hmerges.log h.conversing.logs hsaid
  refine ⟨hnode, fun hboss => ?_, fun hmember => ?_, said, _, hsaid, hgrows, ?_⟩
  · rw [hboss] at hanswer
    obtain ⟨_, _, hdecision⟩ := hstar.decision hanswer
    exact hmerges.agreeOutside hcomplete (within_of_decision hdecision)
  · exact hmerges.agreeOutside hcomplete (h.within hmember hanswer)
  · rcases hnode with hboss | hmember
    · rw [hboss] at hanswer ⊢
      obtain ⟨_, _, hdecision⟩ := hstar.decision hanswer
      rw [hstar.worked_supervisor, added_of_decision hdecision]
      exact h.tally.nothing
    · rw [worked_member hmember]
      exact h.tells hmember hanswer

/-- A history keeps to the duties, by induction on the requests: those that hand no step over leave
the store alone. -/
theorem Duties.history (h : Duties g s names Tells) {start r : Run μ} (hstart : Sound g start)
    {said : List Value} (hsaid : Table.row? start.store.values "messages" = some (.list said))
    {log : List (Exchange μ)} (hlog : History start log r) : RunOwned names Tells start r log := by
  have hlinked := h.conversing.star.compiled.linked
  induction hlog with
  | fresh => exact ⟨said, [], hsaid, by rwa [List.append_nil], h.tally.nothing⟩
  | opens _ hopen ih =>
    obtain ⟨_, rfl⟩ := opened?_eq_ok hopen
    exact ih
  | @asks log r x hlog hnext ih =>
    obtain ⟨first, added, hfirst, hadded, htold⟩ := ih
    have hr := (hlog.sound hlinked hstart).1
    rcases step_or_other x.outcome with ⟨t, ht⟩ | hother
    · rw [ht] at hnext
      obtain ⟨_, _, _, _, hanswer, hmerges⟩ := hr.answered hlinked hnext
      obtain ⟨_, more, hold, hmore, htold'⟩ :=
        (h.step hr.complete hanswer hmerges hadded).grows
      cases hadded.symm.trans hold
      refine ⟨first, added ++ more, hfirst, by rwa [← List.append_assoc], ?_⟩
      rw [steps_snoc_step ht, List.map_append, worked, List.filter_append]
      exact h.tally.append htold htold'
    · obtain ⟨_, _, hstore, _⟩ := (asked_of_next hnext).frame hother
      have hstore : x.after.store = r.store := hstore
      exact ⟨first, added, hfirst, by rwa [hstore], by rwa [steps_snoc_other hother]⟩

theorem Duties.owns (h : Duties g s names Tells) : OwnsChannels g names Tells := by
  intro initial given site left start r log hstart hlog
  have hlinked := h.conversing.star.compiled.linked
  obtain ⟨_, hbegins, _⟩ := start_eq_ok hstart
  obtain ⟨said, hsaid⟩ := hbegins.log h.conversing.logs
  have hrun := h.history (Sound.start hstart) hsaid hlog
  refine ⟨hrun, fun here after t r' hnext => ?_⟩
  have hr := (hlog.sound hlinked (Sound.start hstart)).1
  obtain ⟨_, _, _, _, hanswer, hmerges⟩ := hr.answered hlinked hnext
  obtain ⟨_, _, _, hnow, _⟩ := hrun
  exact h.step hr.complete hanswer hmerges hnow

end Duties

/-! ## The teams -/

theorem added_reported (name text : String) :
    Store.added (Worker.reported name text) "messages" = [Message.ofWorker name text] := by
  simp [Worker.reported, Store.added, Store.contributions, Schema.namedRows, Reducer.contributed]

theorem within_reported (name text : String) :
    (Worker.reported name text).Within workChannels := by
  simp [Entries.Within, Worker.reported, workChannels]

/-- A member of the research team hands over a report, and the brainstormer also queries. -/
theorem research_duties (model searchModel : ChatModel μ) (oracle : Oracle μ)
    (scrape : Option Tool) (limit : Value) :
    Duties (researchGraph model searchModel oracle scrape limit)
      (researchSupervisor oracle scrape) (researchMembers scrape) Reported := by
  have hconversing := research_conversing model searchModel oracle scrape limit
  refine ⟨hconversing, reported_tally, fun hmember hanswer => ?_, fun hmember hanswer => ?_⟩
  · cases research_answers hanswer with
    | decides _ => exact absurd hmember hconversing.star.apart
    | brainstorms _ _ =>
      intro e he
      rcases List.mem_cons.mp he with rfl | he
      · exact ⟨queriesChannel, by simp [workChannels], rfl⟩
      · exact within_reported _ _ e he
    | reports _ => exact within_reported _ _
  · cases research_answers hanswer with
    | decides _ => exact absurd hmember hconversing.star.apart
    | @brainstorms _ queries text _ _ =>
      have hadded : Store.added ((.str queriesChannel, Value.ofText queries) ::
          Worker.reported brainstormerName text) "messages" =
            [Message.ofWorker brainstormerName text] := added_reported _ _
      rw [hadded]
      exact reported_one _ _
    | reports _ =>
      rw [added_reported]
      exact reported_one _ _

theorem document_answers {model : ChatModel μ} {oracle : Oracle μ} {w : Workspace} {limit : Value}
    {node : String} (hmember : node ∈ documentMembers) {given : State} {mid left : Site μ}
    {delta : Entries}
    (h : (documentGraph model oracle w limit).Answers node given mid delta left) :
    ∃ text after, delta = recorded given (Worker.reported node text) after := by
  obtain ⟨handler, hhandler⟩ := Option.isSome_iff_exists.mp
    ((Table.row?_isSome_iff _ _).mpr (isNode_of_answers h))
  obtain ⟨answer, hcall, hanswer⟩ := h.of_handler hhandler
  rcases handler_of_document hhandler with ⟨hboss, _⟩ | ⟨a, _, rfl, rfl⟩
  · exact absurd hboss (naming_document.reserved _ hmember).2.1
  · have hlisted := listed w a.handler given mid
    rw [hcall] at hlisted
    cases hlisted with
    | @records _ after _ _ _ _ hworker hupdate _ =>
      obtain ⟨text, _, rfl⟩ := Agent.handler_eq_ok hworker
      cases hupdate
      rcases hanswer with heq | ⟨heq, _⟩ <;> cases heq
      exact ⟨text, after, rfl⟩

theorem recorded_cases (given : State) (name text after : String) :
    recorded given (Worker.reported name text) after = Worker.reported name text ∨
      recorded given (Worker.reported name text) after =
        Worker.reported name text ++ [(.str filesChannel, .str after)] := by
  unfold recorded
  split
  next => exact .inl rfl
  next => exact .inr rfl

theorem within_recorded (given : State) (name text after : String) :
    (recorded given (Worker.reported name text) after).Within workChannels := by
  rcases recorded_cases given name text after with h | h <;> rw [h]
  · exact within_reported name text
  · simp [Entries.Within, Worker.reported, workChannels]

theorem added_recorded (given : State) (name text after : String) :
    Store.added (recorded given (Worker.reported name text) after) "messages" =
      [Message.ofWorker name text] := by
  rcases recorded_cases given name text after with h | h <;> rw [h]
  · exact added_reported name text
  · exact added_reported name text

theorem document_duties (model : ChatModel μ) (oracle : Oracle μ) (w : Workspace) (limit : Value)
    (site : Site μ) :
    Duties (documentGraph model oracle w limit) (documentSupervisor oracle) documentMembers
      Reported := by
  refine ⟨document_conversing model oracle w limit site, reported_tally,
    fun hmember hanswer => ?_, fun hmember hanswer => ?_⟩
  · obtain ⟨text, after, rfl⟩ := document_answers hmember hanswer
    exact within_recorded _ _ _ _
  · obtain ⟨text, after, rfl⟩ := document_answers hmember hanswer
    rw [added_recorded]
    exact reported_one _ _

theorem teamNode_adds {team : Graph μ} {name : String} {members : List Value} {given : Value}
    {here left : Site μ} {answer : Value}
    (h : (teamNode team name members).handler given here = (.ok answer, left)) :
    ∃ xs, answer = .mapping [(.str "messages", .list xs)] ∧ xs.length ≤ 1 := by
  obtain ⟨_, _, _, h⟩ := Act.bind_eq_ok.mp h
  obtain ⟨_, _, _, h⟩ := Act.bind_eq_ok.mp h
  obtain ⟨reported, _, hleave, h⟩ := Act.bind_eq_ok.mp h
  obtain ⟨log, _, hleave⟩ := bind_eq_ok.mp (congrArg Prod.fst hleave)
  obtain ⟨xs, heq⟩ : ∃ xs : List Value,
      reported = .mapping [(.str "messages", .list (xs.drop (xs.length - 1)))] := by
    dsimp only at hleave
    split at hleave
    next =>
      obtain ⟨xs, _, hleave⟩ := bind_eq_ok.mp hleave
      cases hleave
      exact ⟨xs, rfl⟩
    next =>
      cases hleave
      exact ⟨[], rfl⟩
  cases heq
  cases h
  exact ⟨_, rfl, by rw [List.length_drop]; omega⟩

/-- Whatever the teams of the hierarchy are, they hand over one message at most. -/
theorem hierarchy_duties (research document : Graph μ) (oracle : Oracle μ) (limit : Value) :
    Duties (hierarchyGraph research document oracle limit) (topSupervisor oracle) topMembers
      AtMostOne := by
  have hadds : ∀ {given : State} {node : String} {mid left : Site μ} {delta : Entries},
      node ∈ topMembers →
      (hierarchyGraph research document oracle limit).Answers node given mid delta left →
      ∃ xs, delta = [(.str "messages", .list xs)] ∧ xs.length ≤ 1 := by
    intro given node mid left delta hmember hanswer
    rcases List.mem_pair.mp hmember with rfl | rfl <;>
    · obtain ⟨answer, hcall, hanswer⟩ := hanswer.of_handler rfl
      obtain ⟨xs, rfl, hone⟩ := teamNode_adds hcall
      rcases hanswer with heq | ⟨heq, _⟩ <;> cases heq
      exact ⟨xs, rfl, hone⟩
  refine ⟨hierarchy_conversing research document oracle limit, atMostOne_tally,
    fun hmember hanswer => ?_, fun hmember hanswer => ?_⟩
  · obtain ⟨xs, rfl, _⟩ := hadds hmember hanswer
    simp [Entries.Within, workChannels]
  · obtain ⟨xs, rfl, hone⟩ := hadds hmember hanswer
    simpa [AtMostOne, Store.added, Store.contributions, Schema.namedRows, Reducer.contributed]
      using hone

/-- In every run of a team nobody writes to the channels of the others, and the conversation only
grows: by one message for each turn of a worker, and by one at most for each turn of a team. -/
theorem channels_owned :
    (∀ (model searchModel : ChatModel μ) (oracle : Oracle μ) (scrape : Option Tool)
      (limit : Value), ∃ g, research model searchModel oracle scrape limit = .ok g ∧
      OwnsChannels g (researchMembers scrape) Reported) ∧
    (∀ (model : ChatModel μ) (oracle : Oracle μ) (w : Workspace) (limit : Value)
      (site built : Site μ) (g : Graph μ), document model oracle w limit site = (.ok g, built) →
      OwnsChannels g documentMembers Reported) ∧
    ∀ (research document : Graph μ) (oracle : Oracle μ) (limit : Value), ∃ g,
      hierarchy research document oracle limit = .ok g ∧ OwnsChannels g topMembers AtMostOne := by
  refine ⟨fun model searchModel oracle scrape limit => ?_,
    fun model oracle w limit site built g h => ?_, fun research document oracle limit => ?_⟩
  · exact ⟨_, (research_eq model searchModel oracle scrape limit).1,
      (research_duties model searchModel oracle scrape limit).owns⟩
  · rw [(document_eq model oracle w limit site).1] at h
    obtain ⟨_, _, _, heq⟩ := Act.bind_eq_ok.mp h
    cases heq
    exact (document_duties model oracle w limit site).owns
  · exact ⟨_, (hierarchy_eq research document oracle limit).1,
      (hierarchy_duties research document oracle limit).owns⟩

/-- The brainstormer, the chart generator and a team in the hierarchy had turns in these runs. -/
theorem runs_own_channels :
    (∃ log, History insistingStart log insistingGrown ∧
      RunOwned (researchMembers none) Reported insistingStart insistingGrown log) ∧
    (∃ log, History (chartStart (some "c1")) log chartDone ∧
      RunOwned documentMembers Reported (chartStart (some "c1")) chartDone log) ∧
    ∃ t r', callingNamed.next (.bare 1) = ((.step t, r'), .bare 3) ∧
      StepOwned topMembers AtMostOne t callingNamed.store r'.store := by
  obtain ⟨hresearch, hdocument, hhierarchy⟩ := channels_owned (μ := Nat)
  refine ⟨?_, ?_, ?_⟩
  · obtain ⟨log, hlog, _⟩ := insistingGrown_history
    obtain ⟨g, hmade, howns⟩ := hresearch proposing proposing insisting none .null
    obtain rfl : insistingStart.graph = g :=
      Except.ok.inj ((research_eq proposing proposing insisting none .null).1.symm.trans hmade)
    have hstart : insistingStart.graph.start
        (.mapping [(.str queriesChannel, Value.ofText ["a"]), (.str "topic", .str "a")]) .null
        (.bare 0) = (.ok insistingStart, .bare 0) := rfl
    exact ⟨log, hlog, (howns _ _ _ _ _ _ _ hstart hlog).1⟩
  · obtain ⟨log, _, _, hlog, _⟩ := chartDone_history
    have howns := hdocument _ _ _ _ _ _ _ (document_desk (some "c1"))
    exact ⟨log, hlog, (howns _ _ _ _ _ _ _ (chartStart_starts (some "c1")) hlog).1⟩
  · obtain ⟨g, hmade, howns⟩ := hhierarchy scribes scribes calling .null
    obtain rfl : callingStart.graph = g :=
      Except.ok.inj ((hierarchy_eq scribes scribes calling .null).1.symm.trans hmade)
    obtain ⟨log, hstart, hlog⟩ := callingNamed_history 0
    have hturn : callingNamed.Turns (.bare 1) { callingNamed with current := researchTeamName }
        (.bare 1) := .next rfl rfl (by decide) (by decide)
    have hcall : (teamNode scribes researchTeamName []).handler (.mapping callingNamed.state)
        (.bare 1) = (.ok _, .bare 3) := spokenRun.handler_eq scribes_conversing researchTeamName rfl
    have hnext := hturn.next_of_call rfl hcall
    exact ⟨_, _, hnext, (howns _ _ _ _ _ _ _ hstart hlog).2 _ _ _ _ hnext⟩

end Team

end TeamFlow
