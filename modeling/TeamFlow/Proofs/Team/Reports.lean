import Mathlib.Data.List.TakeDrop
import TeamFlow.Proofs.Prompt
import TeamFlow.Proofs.Run.Course
import TeamFlow.Proofs.Team.Staff

/-! # What a team reports

A team in the hierarchy runs to its end from the conversation so far
(`TeamRun`), and hands over the last message of the log that it ends with. If a
worker has said something this is the last such message. But a team that ends
without a word still hands over a message: the one that the conversation ended
with when it began. -/
namespace TeamFlow.Team

open Run

variable {μ : Type}

/-- A team with a conversation, to which its supervisor does not contribute. -/
structure Conversing (g : Graph μ) (s : Supervisor μ) (names : List String) : Prop where
  star : IsStar g s names
  logs : g.schema.Logs "messages"

theorem research_conversing (model searchModel : ChatModel μ) (oracle : Oracle μ)
    (scrape : Option Tool) (limit : Value) :
    Conversing (researchGraph model searchModel oracle scrape limit)
      (researchSupervisor oracle scrape) (researchMembers scrape) :=
  ⟨(research_eq model searchModel oracle scrape limit).2, _, .head _, rfl, rfl, rfl⟩

theorem document_conversing (model : ChatModel μ) (oracle : Oracle μ) (w : Workspace)
    (limit : Value) (site : Site μ) :
    Conversing (documentGraph model oracle w limit) (documentSupervisor oracle) documentMembers :=
  ⟨(document_eq model oracle w limit site).2, _, .head _, rfl, rfl, rfl⟩

theorem hierarchy_conversing (research document : Graph μ) (oracle : Oracle μ) (limit : Value) :
    Conversing (hierarchyGraph research document oracle limit) (topSupervisor oracle) topMembers :=
  ⟨(hierarchy_eq research document oracle limit).2, _, .head _, rfl, rfl, rfl⟩

/-! ## Who says something -/

theorem added_of_decision {s : Supervisor μ} {choice : String} {delta : Entries}
    (h : s.Decision choice delta) : Store.added delta "messages" = [] := by
  cases h <;> simp [Store.added, Store.contributions, Schema.namedRows]

theorem Conversing.node_of_answers {g : Graph μ} {s : Supervisor μ} {names : List String}
    (h : Conversing g s names) {node : String} {given : State} {mid left : Site μ} {delta : Entries}
    (hanswer : g.Answers node given mid delta left)
    (hsaid : Store.added delta "messages" ≠ []) : node ∈ names := by
  rcases (h.star.nodes node).mp (isNode_of_answers hanswer) with rfl | hmember
  · obtain ⟨_, _, hdecision⟩ := h.star.decision hanswer
    exact absurd (added_of_decision hdecision) hsaid
  · exact hmember

/-! ## The run of a team -/

/-- What a team starts from in a conversation. -/
def entry (members said : List Value) : Entries :=
  (.str "messages", .list said) ::
    if members.isEmpty then [] else [(.str "team_members", .list members)]

theorem added_entry (members said : List Value) :
    Store.added (entry members said) "messages" = said := by
  unfold entry
  split <;>
    simp [Store.added, Store.contributions, Schema.namedRows, Reducer.contributed]

/-- A whole run of a team inside its node, from the conversation so far. -/
structure TeamRun (team : Graph μ) (members said : List Value) (here left : Site μ) where
  start : Run μ
  begun : Site μ
  opened : Run μ
  starts : team.start (.mapping (entry members said)) .null here = (.ok start, begun)
  opens : start.opened? = .ok opened
  course : Course (fun _ site => site) opened begun
  ends : course.outcome = .over
  leaves : (course.last.next course.here).2 = left

section TeamRun

variable {team : Graph μ} {members said : List Value} {here left : Site μ}

/-- The messages that the steps of the run contributed, in order. -/
def TeamRun.spoken (inner : TeamRun team members said here left) : List Value :=
  inner.course.taken.flatMap fun t => Store.added t.1.delta "messages"

/-- What a run reports: the last message of its own, or the last one that was there before. -/
structure TeamRun.Reports (inner : TeamRun team members said here left) (names : List String)
    (report : List Value) : Prop where
  workers : ∀ t ∈ inner.course.taken, Store.added t.1.delta "messages" ≠ [] → t.1.node ∈ names
  own : inner.spoken ≠ [] → ∃ m, inner.spoken.getLast? = some m ∧ report = [m]
  echo : inner.spoken = [] → report = said.getLast?.toList

theorem TeamRun.workers {s : Supervisor μ} {names : List String} (h : Conversing team s names)
    (inner : TeamRun team members said here left) : ∀ t ∈ inner.course.taken,
    Store.added t.1.delta "messages" ≠ [] → t.1.node ∈ names := by
  intro t ht hsaid
  have hopened := (Sound.start inner.starts).opened inner.opens
  obtain ⟨_, _, _, hanswer⟩ :=
    inner.course.passes.answered h.star.compiled.linked hopened t ht
  exact h.node_of_answers hanswer hsaid

theorem TeamRun.log {s : Supervisor μ} {names : List String} (h : Conversing team s names)
    (inner : TeamRun team members said here left) :
    Table.row? inner.course.final.store.values "messages" =
      some (.list (said ++ inner.spoken)) := by
  have hlinked := h.star.compiled.linked
  have hsound := (Sound.start inner.starts).opened inner.opens
  obtain ⟨_, hbegins, _⟩ := start_eq_ok inner.starts
  have hbegun : Table.row? inner.start.store.values "messages" = some (.list said) := by
    rw [hbegins.log_eq h.logs, added_entry]
  obtain ⟨_, hopened⟩ := opened?_eq_ok inner.opens
  have hopenedSaid : Table.row? inner.opened.store.values "messages" = some (.list said) := by
    rw [hopened]
    exact hbegun
  rw [inner.course.final_store]
  exact inner.course.passes.log hlinked hsound h.logs hopenedSaid

theorem lastMessage_eq {store : Store} {xs : List Value}
    (h : Table.row? store.values "messages" = some (.list xs)) (site : Site μ) :
    Adapter.lastMessage (.str "messages") (.mapping store.snapshot) site =
      (.ok (.mapping [(.str "messages", .list xs.getLast?.toList)]), site) := by
  have hunder : (Value.mapping store.snapshot).under? (.str "messages") = .ok (.list xs) := by
    refine bind_eq_ok.mpr ⟨.str "messages", rfl, ?_⟩
    rw [Store.find?_snapshot, h]
    rfl
  unfold Adapter.lastMessage
  simp only [hunder]
  cases xs with
  | nil => rfl
  | cons x xs =>
    have hlast : (x :: xs).drop ((x :: xs).length - 1) = (x :: xs).getLast?.toList := by
      rw [List.drop_length_sub_one (List.cons_ne_nil x xs),
        List.getLast?_eq_some_getLast (List.cons_ne_nil x xs)]
      rfl
    rw [← hlast]
    rfl

theorem enter_eq {store : Store} (hsaid : Table.row? store.values "messages" = some (.list said))
    (site : Site μ) : enter members (.mapping store.snapshot) site =
      (.ok (.mapping (entry members said)), site) := by
  have hstate : (do State.itemsOf (← (Value.mapping store.snapshot).state) "messages") =
      .ok said := Store.itemsOf_snapshot hsaid
  simp only [enter, Act.bind_apply, Act.ofExcept, hstate]
  rfl

/-- What a team hands over for a run of it. -/
theorem TeamRun.handler_eq {s : Supervisor μ} {names : List String} (h : Conversing team s names)
    (inner : TeamRun team members said here left) (name : String) {store : Store}
    (hsaid : Table.row? store.values "messages" = some (.list said)) :
    (teamNode team name members).handler (.mapping store.snapshot) here =
      (.ok (.mapping [(.str "messages", .list (said ++ inner.spoken).getLast?.toList)]),
        left) := by
  have hinvoke := Graph.invoke_of_course h.star.compiled.linked inner.starts inner.opens
    inner.course inner.ends
  rw [inner.leaves] at hinvoke
  have hleave := lastMessage_eq (inner.log h) left
  refine (Act.bind_ok (enter_eq hsaid here)).trans ((Act.bind_ok hinvoke).trans ?_)
  exact (Act.bind_ok hleave).trans rfl

/-- A team reports back what its run reports. -/
theorem teamNode_eq_ok {s : Supervisor μ} {names : List String} (h : Conversing team s names)
    {name : String} {store : Store} (hsaid : Table.row? store.values "messages" = some (.list said))
    {answer : Value} (hcall : (teamNode team name members).handler (.mapping store.snapshot) here =
      (.ok answer, left)) : ∃ report, answer = .mapping [(.str "messages", .list report)] ∧
    ∃ inner : TeamRun team members said here left, inner.Reports names report := by
  obtain ⟨initial, mid, henter, hrest⟩ := Act.bind_eq_ok.mp hcall
  cases (enter_eq hsaid here).symm.trans henter
  obtain ⟨final, mid, hinvoke, _⟩ := Act.bind_eq_ok.mp hrest
  obtain ⟨start, begun, opened, hstart, hopen, c, hover, _, hmid⟩ :=
    Graph.invoke_eq_ok h.star.compiled.linked hinvoke
  let inner : TeamRun team members said here mid :=
    ⟨start, begun, opened, hstart, hopen, c, hover, hmid⟩
  cases (inner.handler_eq h name hsaid).symm.trans hcall
  refine ⟨_, rfl, inner, inner.workers h, ?_, ?_⟩
  · intro hspoken
    obtain ⟨m, hm⟩ := Option.ne_none_iff_exists'.mp (mt List.getLast?_eq_none_iff.mp hspoken)
    refine ⟨m, hm, ?_⟩
    rw [List.getLast?_append_of_ne_nil _ hspoken, hm]
    rfl
  · intro hspoken
    rw [hspoken, List.append_nil]

end TeamRun

/-! ## The hierarchy -/

/-- What a step of the hierarchy adds to the conversation `said`. -/
inductive TopStep (research document : Graph μ) (names names' : List String) (said : List Value)
    (here left : Site μ) (t : Step) : Prop where
  | decides (hnode : t.node = supervisorNode) (hsilent : Store.added t.delta "messages" = [])
  | researches {report : List Value} (hnode : t.node = researchTeamName)
      (hdelta : t.delta = [(.str "messages", .list report)])
      (inner : TeamRun research [] said here left) (hreports : inner.Reports names report)
  | writes {report : List Value} (hnode : t.node = documentTeamName)
      (hdelta : t.delta = [(.str "messages", .list report)])
      (inner : TeamRun document (documentMembers.map .str) said here left)
      (hreports : inner.Reports names' report)

theorem topStep_of_answers {research document : Graph μ} {s s' : Supervisor μ}
    {names names' : List String} (hresearch : Conversing research s names)
    (hdocument : Conversing document s' names') {oracle : Oracle μ} {limit : Value} {store : Store}
    {said : List Value} (hsaid : Table.row? store.values "messages" = some (.list said)) {t : Step}
    {here left : Site μ} (h : (hierarchyGraph research document oracle limit).Answers t.node
      store.snapshot here t.delta left) :
    TopStep research document names names' said here left t := by
  have hstar := (hierarchy_eq research document oracle limit).2
  obtain ⟨number, node, delta⟩ := t
  rcases (hstar.nodes node).mp (isNode_of_answers h) with rfl | hmember
  · obtain ⟨_, _, hdecision⟩ := hstar.decision h
    exact .decides rfl (added_of_decision hdecision)
  · rcases List.mem_pair.mp hmember with rfl | rfl
    · obtain ⟨answer, hcall, hanswer⟩ := h.of_handler rfl
      obtain ⟨report, rfl, inner, hreports⟩ := teamNode_eq_ok hresearch hsaid hcall
      rcases hanswer with heq | ⟨heq, _⟩ <;> cases heq
      exact .researches rfl rfl inner hreports
    · obtain ⟨answer, hcall, hanswer⟩ := h.of_handler rfl
      obtain ⟨report, rfl, inner, hreports⟩ := teamNode_eq_ok hdocument hsaid hcall
      rcases hanswer with heq | ⟨heq, _⟩ <;> cases heq
      exact .writes rfl rfl inner hreports

/-- Teams report back the last message of their own work, if there is one, and otherwise the one
that was the last one before. -/
theorem teams_report_back {research document : Graph μ} {s s' : Supervisor μ}
    {names names' : List String} (hresearch : Conversing research s names)
    (hdocument : Conversing document s' names') (oracle : Oracle μ) (limit : Value) : ∃ g,
      hierarchy research document oracle limit = .ok g ∧
      ∀ (initial given : Value) (site left : Site μ) (start r : Run μ) (log : List (Exchange μ)),
        g.start initial given site = (.ok start, left) → History start log r →
        ∀ (here after : Site μ) (t : Step) (r' : Run μ), r.next here = ((.step t, r'), after) →
          ∃ p mid said, r.Turns here p mid ∧
            Table.row? r.store.values "messages" = some (.list said) ∧
            Table.row? r'.store.values "messages" =
              some (.list (said ++ Store.added t.delta "messages")) ∧
            TopStep research document names names' said mid after t := by
  have htop := hierarchy_conversing research document oracle limit
  have hlinked := htop.star.compiled.linked
  refine ⟨_, (hierarchy_eq research document oracle limit).1, ?_⟩
  intro initial given site left start r log hstart hlog here after t r' hnext
  obtain ⟨_, hbegins, _⟩ := start_eq_ok hstart
  have hsound := (hlog.sound hlinked (Sound.start hstart)).1
  obtain ⟨said, hsaid⟩ := hlog.keeps hlinked
    (fun store => ∃ said, Table.row? store.values "messages" = some (.list said))
    (fun _ _ hmerges hold => hold.elim fun _ hrow => ⟨_, hmerges.log htop.logs hrow⟩)
    (Sound.start hstart) (hbegins.log htop.logs)
  obtain ⟨p, mid, hturn, _, hanswer, hmerges⟩ := hsound.answered hlinked hnext
  exact ⟨p, mid, said, hturn, hsaid, hmerges.log htop.logs hsaid,
    topStep_of_answers hresearch hdocument hsaid hanswer⟩

/-- The channels of a team without a listing and queries. -/
def talkSchema : Schema where
  channels := [⟨"messages", .append, some (.ok (.list [])), .absent⟩,
    ⟨"next", .overrideIfPresent, some (.ok (.str supervisorNode)), .absent⟩,
    ⟨"instructions", .overrideIfPresent, some (.ok (.str "")), .absent⟩]
  frozen := false
  distinct := by decide

/-- A supervisor whose oracle names the member if it is the second one to be asked, and else stops.
It counts what it is asked. -/
def second : Supervisor Nat where
  oracle := fun _ n => (.ok (.mapping [(.str "next", .str (if n = 1 then "Scribe" else finishName)),
    (.str "instructions", .str "")]), n + 1)
  prompt := ""
  members := [.str "Scribe"]
  topicsChannel := none
  finish_not_among := rfl

/-- A member that reports that it is done. -/
def scribe : Table (Handler Nat) :=
  [("Scribe", fun _ => pure (.mapping (Worker.reported "Scribe" "done")))]

def scribes : Graph Nat := (assembled talkSchema none second scribe).graph .null

theorem scribes_conversing : Conversing scribes second ["Scribe"] := by
  have hlegal : Legal second ["Scribe"] scribe := ⟨rfl, .refl _, by decide, by decide⟩
  have hdefaults : ∀ c ∈ talkSchema.channels, c.default.isSome = true := by decide
  exact ⟨(hlegal.star_eq (by simp [talkSchema]) hdefaults .null none).2, _, .head _, rfl, rfl, rfl⟩

/-- An oracle that always names the research team. It counts what it is asked. -/
def calling : Oracle Nat := fun _ n =>
  (.ok (.mapping [(.str "next", .str researchTeamName), (.str "instructions", .str "")]), n + 1)

/-- The conversation before the team is called. -/
def overview : Value := Message.human "overview"

def callingStart : Run Nat where
  graph := hierarchyGraph scribes scribes calling .null
  limit := .usual
  store := ⟨[("messages", .list [overview]), ("next", .str "ResearchTeam"),
    ("instructions", .str "Resolve the user's request.")]⟩
  count := 0
  current := supervisorNode
  status := .pending
  error := none
  phase := .unopened

/-- That run after its first step, the naming of the team. -/
def callingNamed : Run Nat :=
  { callingStart with
    store := ⟨[("messages", .list [overview]), ("next", .str researchTeamName),
      ("instructions", .str "")]⟩
    count := 1
    status := .running
    phase := .paused }

theorem callingNamed_history (n : Nat) : ∃ log,
    callingStart.graph.start (.mapping [(.str "messages", .list [overview])]) .null
      (.bare n) = (.ok callingStart, .bare n) ∧ History callingStart log callingNamed := by
  obtain ⟨guidance, hguidance⟩ := Prompt.topSupervisor_reads.guides (by simp [Text.slots])
    (Value.commas topMembers) "the user's request"
  have hrequest : (topSupervisor calling).request (.mapping callingStart.state) = .ok _ :=
    Supervisor.request_eq (Value.joined_texts _) hguidance rfl rfl
  have hdecides : (topSupervisor calling).handler (.mapping callingStart.state) (.bare n) =
      (.ok (.mapping _), .bare (n + 1)) := Supervisor.handler_of_request hrequest rfl rfl
  have hturn : ({ callingStart with phase := .opened } : Run Nat).Turns (.bare n)
      { callingStart with phase := .opened, status := .running } (.bare n) := .first rfl
  have hnext := hturn.next_of_call rfl hdecides
  exact ⟨_, rfl, .asks (x := ⟨.bare n, _, callingNamed, _⟩) (.opens .fresh rfl) hnext⟩

def talkStart : Run Nat where
  graph := scribes
  limit := .usual
  store := ⟨[("messages", .list [overview]), ("next", .str supervisorNode),
    ("instructions", .str "")]⟩
  count := 0
  current := supervisorNode
  status := .pending
  error := none
  phase := .unopened

/-- That run between two steps. -/
def talking (said : List Value) (next : String) (count : Nat) (current : String) : Run Nat :=
  { talkStart with
    store := ⟨[("messages", .list said), ("next", .str next), ("instructions", .str "")]⟩
    count := count
    current := current
    status := .running
    phase := .paused }

def done : Value := Message.ofWorker "Scribe" "done"

/-- The whole run, if its supervisor is the second one to be asked. -/
def spokenRun : TeamRun scribes [] [overview] (.bare 1) (.bare 3) where
  start := talkStart
  begun := .bare 1
  opened := { talkStart with phase := .opened }
  starts := rfl
  opens := rfl
  course := by
    have hnames : ({ talkStart with phase := .opened } : Run Nat).next (.bare 1) =
        ((.step _, talking [overview] "Scribe" 1 supervisorNode), .bare 2) := rfl
    have hsays : (talking [overview] "Scribe" 1 supervisorNode).next (.bare 2) =
        ((.step _, talking [overview, done] "Scribe" 2 "Scribe"), .bare 2) := rfl
    have hstops : (talking [overview, done] "Scribe" 2 "Scribe").next (.bare 2) =
        ((.step _, talking [overview, done] finishName 3 supervisorNode), .bare 3) := rfl
    exact ⟨_, _, _, .step hnames (.step hsays (.step hstops (.here _ _))),
      fun _ hstep => by cases hstep⟩
  ends := rfl
  leaves := rfl

/-- The whole run, if its supervisor is asked later: nobody says anything. -/
def silentRun : TeamRun scribes [] [overview] (.bare 2) (.bare 3) where
  start := talkStart
  begun := .bare 2
  opened := { talkStart with phase := .opened }
  starts := rfl
  opens := rfl
  course := ⟨_, talking [overview] finishName 1 supervisorNode, .bare 3, .step rfl (.here _ _),
    fun _ hstep => by cases hstep⟩
  ends := rfl
  leaves := rfl

/-- The member has its turn in the run of the team: what it says is reported. -/
theorem scribes_report_back : Conversing scribes second ["Scribe"] ∧ ∃ g log mid t r',
    hierarchy scribes scribes calling .null = .ok g ∧
    g.start (.mapping [(.str "messages", .list [overview])]) .null (.bare 0) =
      (.ok callingStart, .bare 0) ∧ History callingStart log callingNamed ∧
    callingNamed.next (.bare 1) = ((.step t, r'), .bare 3) ∧
    t.delta = [(.str "messages", .list [done])] ∧
    TopStep scribes scribes ["Scribe"] ["Scribe"] [overview] mid (.bare 3) t := by
  have h := scribes_conversing
  obtain ⟨g, hmade, hsteps⟩ := teams_report_back h h calling .null
  obtain rfl : callingStart.graph = g :=
    Except.ok.inj ((hierarchy_eq scribes scribes calling .null).1.symm.trans hmade)
  obtain ⟨log, hstart, hlog⟩ := callingNamed_history 0
  have hturn : callingNamed.Turns (.bare 1) { callingNamed with current := researchTeamName }
      (.bare 1) := .next rfl rfl (by decide) (by decide)
  have hcall : (teamNode scribes researchTeamName []).handler (.mapping callingNamed.state)
      (.bare 1) = (.ok _, .bare 3) := spokenRun.handler_eq h researchTeamName rfl
  have hnext := hturn.next_of_call rfl hcall
  obtain ⟨_, mid, said, _, hsaid, _, htop⟩ := hsteps _ _ _ _ _ _ _ hstart hlog _ _ _ _ hnext
  obtain rfl : [overview] = said := Value.list.inj (Option.some.inj hsaid)
  exact ⟨h, _, log, mid, _, _, hmade, hstart, hlog, hnext, rfl, htop⟩

/-- So a team that says nothing can still add a message to the conversation. -/
theorem silence_refuted : ¬ ∀ (research document : Graph Nat) (s s' : Supervisor Nat)
    (names names' : List String), Conversing research s names → Conversing document s' names' →
    ∀ (oracle : Oracle Nat) (limit : Value) (g : Graph Nat),
    hierarchy research document oracle limit = .ok g →
    ∀ (initial given : Value) (site left : Site Nat) (start r : Run Nat)
      (log : List (Exchange Nat)), g.start initial given site = (.ok start, left) →
    History start log r → ∀ (here mid after : Site Nat) (t : Step) (r' p : Run Nat),
    r.next here = ((.step t, r'), after) → r.Turns here p mid → t.node = researchTeamName →
    ∀ (said : List Value) (inner : TeamRun research [] said mid after), inner.spoken = [] →
    Store.added t.delta "messages" = [] := by
  intro hall
  have h := scribes_conversing
  obtain ⟨log, hstart, hlog⟩ := callingNamed_history 1
  have hturn : callingNamed.Turns (.bare 2) { callingNamed with current := researchTeamName }
      (.bare 2) := .next rfl rfl (by decide) (by decide)
  have hcall : (teamNode scribes researchTeamName []).handler (.mapping callingNamed.state)
      (.bare 2) = (.ok _, .bare 3) := silentRun.handler_eq h researchTeamName rfl
  have hsilent := hall _ _ _ _ _ _ h h _ _ _ (hierarchy_eq scribes scribes calling .null).1
    _ _ _ _ _ _ _ hstart hlog _ _ _ _ _ _ (hturn.next_of_call rfl hcall) hturn rfl _ silentRun rfl
  cases hsilent

end TeamFlow.Team
