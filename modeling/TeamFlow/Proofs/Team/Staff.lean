import TeamFlow.Proofs.Channel.Logs
import TeamFlow.Proofs.Team.Turns
import TeamFlow.Team.Hierarchy

/-! # The teams, with their members

The research team, the document team and the hierarchy compile, whatever models,
tools and oracles they are given, and their graphs are stars (`researchGraph`,
`documentGraph`, `hierarchyGraph`). The document team is the only one that may
fail to be made: its workspace may not be there and not be makeable. -/
namespace TeamFlow.Team

variable {μ : Type}

/-! ## Channels -/

/-- The channel of a declared field, if its first mark is one that can be called. -/
def channelOf? (field : String × Schema.FieldDeclaration) : Option Channel :=
  (Schema.firstChannel? field.2.marks).bind fun mark =>
    mark.1.toOption.map fun reducer =>
      ⟨field.1, reducer, mark.2.bind Offered.toOption, field.2.declared⟩

def StateForm.channels (s : StateForm) : List Channel := s.fields.filterMap channelOf?

def researchSchema : Schema := ⟨researchState.channels, false, by decide⟩

def documentSchema : Schema := ⟨documentState.channels, false, by decide⟩

def topSchema : Schema := ⟨topState.channels, false, by decide⟩

theorem schema_researchState : researchState.schema = .ok researchSchema := rfl

theorem schema_documentState : documentState.schema = .ok documentSchema := rfl

theorem schema_topState : topState.schema = .ok topSchema := rfl

/-! ## Supervisors -/

def supervisorOf (oracle : Oracle μ) (prompt : String) (names : List String)
    (topicsChannel : Option String) (h : finishName ∉ names) : Supervisor μ where
  oracle := oracle
  prompt := prompt
  members := names.map .str
  topicsChannel := topicsChannel
  finish_not_among := by
    rw [← Bool.not_eq_true, Value.isAmong_texts_iff]
    rintro ⟨name, hname, heq⟩
    cases heq
    exact h hname

theorem make_eq {oracle : Oracle μ} {prompt : String} {names : List String}
    {topicsChannel : Option String} (h : finishName ∉ names) :
    Supervisor.make oracle prompt (names.map .str) topicsChannel =
      .ok (supervisorOf oracle prompt names topicsChannel h) :=
  dif_pos (supervisorOf oracle prompt names topicsChannel h).finish_not_among

/-- The names of members: all different, and none with a meaning of its own. -/
structure Naming (names : List String) : Prop where
  distinct : names.Nodup
  reserved : ∀ n ∈ names, n ≠ finishName ∧ n ≠ supervisorNode ∧ n ≠ startName ∧ n ≠ endName

theorem Naming.finish {names : List String} (h : Naming names) : finishName ∉ names :=
  fun hmem => (h.reserved _ hmem).1 rfl

theorem naming_research (scrape : Option Tool) : Naming (researchMembers scrape) := by
  cases scrape with
  | none =>
    have h : Naming [brainstormerName, searcherName] := ⟨by decide, by decide⟩
    exact h
  | some tool =>
    have h : Naming [brainstormerName, searcherName, scraperName] := ⟨by decide, by decide⟩
    exact h

theorem naming_document : Naming documentMembers := ⟨by decide, by decide⟩

theorem naming_top : Naming topMembers := ⟨by decide, by decide⟩

def researchSupervisor (oracle : Oracle μ) (scrape : Option Tool) : Supervisor μ :=
  supervisorOf oracle Prompt.researchSupervisor (researchMembers scrape)
    (some "brainstormed_queries") (naming_research scrape).finish

def documentSupervisor (oracle : Oracle μ) : Supervisor μ :=
  supervisorOf oracle Prompt.documentSupervisor documentMembers none naming_document.finish

def topSupervisor (oracle : Oracle μ) : Supervisor μ :=
  supervisorOf oracle Prompt.topSupervisor topMembers none naming_top.finish

theorem suits_research (oracle : Oracle μ) (scrape : Option Tool) :
    Suits (researchSupervisor oracle scrape) researchSchema := by
  refine ⟨by decide, fun name hwrites => ?_⟩
  rcases hwrites with rfl | rfl | ⟨rfl, _⟩
  · exact ⟨_, .tail _ (.tail _ (.tail _ (.head _))), rfl, rfl⟩
  · exact ⟨_, .tail _ (.tail _ (.tail _ (.tail _ (.head _)))), rfl, rfl⟩
  · exact ⟨_, .tail _ (.tail _ (.tail _ (.tail _ (.tail _ (.head _))))), rfl, rfl⟩

theorem suits_document (oracle : Oracle μ) :
    Suits (documentSupervisor oracle) documentSchema := by
  refine ⟨by decide, fun name hwrites => ?_⟩
  rcases hwrites with rfl | rfl | ⟨_, htopics⟩
  · exact ⟨_, .tail _ (.tail _ (.head _)), rfl, rfl⟩
  · exact ⟨_, .tail _ (.tail _ (.tail _ (.tail _ (.head _)))), rfl, rfl⟩
  · exact absurd rfl htopics

theorem suits_top (oracle : Oracle μ) : Suits (topSupervisor oracle) topSchema := by
  refine ⟨by decide, fun name hwrites => ?_⟩
  rcases hwrites with rfl | rfl | ⟨_, htopics⟩
  · exact ⟨_, .tail _ (.head _), rfl, rfl⟩
  · exact ⟨_, .tail _ (.tail _ (.head _)), rfl, rfl⟩
  · exact absurd rfl htopics

/-! ## Members -/

def researchHandlers (model searchModel : ChatModel μ) (scrape : Option Tool) :
    Table (Handler μ) :=
  [(brainstormerName, Brainstormer.handler ⟨model, brainstormerName⟩),
    (searcherName, Searcher.handler ⟨searchModel, searcherName⟩)] ++
  match scrape with
  | none => []
  | some tool => [(scraperName, (scraper model tool).handler)]

def documentHandlers (model : ChatModel μ) (w : Workspace) : Table (Handler μ) :=
  (documentAgents model w).map fun a => (a.name, withListing w a.handler)

def topHandlers (research document : Graph μ) : Table (Handler μ) :=
  [(researchTeamName, (teamNode research researchTeamName []).handler),
    (documentTeamName,
      (teamNode document documentTeamName (documentMembers.map .str)).handler)]

/-! ## Graphs -/

/-- A team compiles with the supervisor of its members, and its graph is a star. -/
theorem staffed_eq {oracle : Oracle μ} {prompt : String} {names : List String}
    {topicsChannel : Option String} (hnames : Naming names) {handlers : Table (Handler μ)}
    (hworkers : Table.names handlers = names) {schema : Schema}
    (hsuits : Suits (supervisorOf oracle prompt names topicsChannel hnames.finish) schema)
    (limit : Value) (name : Option String) :
    (do
      let s ← Supervisor.make oracle prompt (names.map .str) topicsChannel
      star (.ok schema) s (Table.mapRows .callable handlers) limit name) =
        .ok ((assembled schema name (supervisorOf oracle prompt names topicsChannel hnames.finish)
          handlers).graph limit) ∧
      IsStar ((assembled schema name (supervisorOf oracle prompt names topicsChannel hnames.finish)
        handlers).graph limit) (supervisorOf oracle prompt names topicsChannel hnames.finish)
        names := by
  have hlegal : Legal (supervisorOf oracle prompt names topicsChannel hnames.finish) names
      handlers := ⟨rfl, .of_eq hworkers.symm, hnames.distinct, hnames.reserved⟩
  rw [make_eq hnames.finish]
  exact hlegal.star_eq hsuits.channels_ne_nil hsuits.defaults limit name

def researchGraph (model searchModel : ChatModel μ) (oracle : Oracle μ) (scrape : Option Tool)
    (limit : Value) : Graph μ :=
  (assembled researchSchema (some "ResearchTeam") (researchSupervisor oracle scrape)
    (researchHandlers model searchModel scrape)).graph limit

def documentGraph (model : ChatModel μ) (oracle : Oracle μ) (w : Workspace) (limit : Value) :
    Graph μ :=
  (assembled documentSchema (some "PaperWritingTeam") (documentSupervisor oracle)
    (documentHandlers model w)).graph limit

def hierarchyGraph (research document : Graph μ) (oracle : Oracle μ) (limit : Value) : Graph μ :=
  (assembled topSchema (some "TopLevel") (topSupervisor oracle)
    (topHandlers research document)).graph limit

/-- The research team compiles, and its graph is a star. -/
theorem research_eq (model searchModel : ChatModel μ) (oracle : Oracle μ) (scrape : Option Tool)
    (limit : Value) :
    research model searchModel oracle scrape limit =
        .ok (researchGraph model searchModel oracle scrape limit) ∧
      IsStar (researchGraph model searchModel oracle scrape limit)
        (researchSupervisor oracle scrape) (researchMembers scrape) := by
  have hworkers : researchWorkers model searchModel scrape =
      Table.mapRows .callable (researchHandlers model searchModel scrape) := by
    cases scrape <;> rfl
  have hnames : Table.names (researchHandlers model searchModel scrape) =
      researchMembers scrape := by
    cases scrape <;> rfl
  unfold research
  rw [hworkers, schema_researchState]
  exact staffed_eq (naming_research scrape) hnames (suits_research oracle scrape) limit
    (some "ResearchTeam")

/-- The document team compiles once its workspace is made, and its graph is a star. -/
theorem document_eq (model : ChatModel μ) (oracle : Oracle μ) (w : Workspace) (limit : Value)
    (site : Site μ) :
    document model oracle w limit site = (Site.onFiles w.ensure >>= fun _ =>
        pure (documentGraph model oracle w limit)) site ∧
      IsStar (documentGraph model oracle w limit) (documentSupervisor oracle) documentMembers := by
  have hworkers : Table.names (documentHandlers model w) = documentMembers := rfl
  obtain ⟨hmade, hstar⟩ := staffed_eq naming_document hworkers (suits_document oracle) limit
    (some "PaperWritingTeam")
  refine ⟨?_, hstar⟩
  unfold document
  rw [schema_documentState]
  exact congrArg (fun built => (Site.onFiles w.ensure >>= fun _ => Act.ofExcept built) site) hmade

/-- The hierarchy compiles, and its graph is a star. -/
theorem hierarchy_eq (research document : Graph μ) (oracle : Oracle μ) (limit : Value) :
    hierarchy research document oracle limit =
        .ok (hierarchyGraph research document oracle limit) ∧
      IsStar (hierarchyGraph research document oracle limit) (topSupervisor oracle)
        topMembers := by
  have hworkers : Table.names (topHandlers research document) = topMembers := rfl
  unfold hierarchy
  rw [schema_topState]
  exact staffed_eq naming_top hworkers (suits_top oracle) limit (some "TopLevel")

end TeamFlow.Team
