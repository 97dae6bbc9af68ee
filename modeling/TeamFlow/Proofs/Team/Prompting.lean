import TeamFlow.Proofs.Team.Contract
import TeamFlow.Proofs.Team.DocumentTeam
import TeamFlow.Proofs.Workspace.Listed

/-! # What models are told

Whatever texts the topic, the members, the instructions, the tools, the known
topics and the files are named with, a prompt is its own text with these in the
place of its fields, as they are (`Told`). A worker's prompt that was filled in is
put into the preamble like any other text (`Worker.Begins`). So nothing that comes
from a model or from the files is taken for a template, and no prompt fails. -/
namespace TeamFlow

open Text

variable {μ : Type}

/-! ## Prompts with texts in their fields -/

/-- What a prompt says with texts in the place of all its fields. -/
inductive Told (prompt : String) (data : Table String) : String → Prop where
  | told {parts : List Part} (hreads : Reads prompt parts)
      (hslots : ∀ name ∈ slots parts, name ∈ Table.names data) :
      Told prompt data (filledWith (fun name => (Table.row? data name).getD "") parts)

section Told

variable {prompt text : String} {data : Table String}

theorem Told.fill (h : Told prompt data text) :
    Value.fill prompt (Entries.ofFields (Table.mapRows .str data)) = .ok text := by
  cases h with
  | told hreads hslots => exact hreads.fill_texts data hslots

/-- However the parts of a prompt are read, it says the same. -/
theorem Told.eq_of_reads (h : Told prompt data text) {parts : List Part}
    (hreads : Reads prompt parts) (hslots : ∀ name ∈ slots parts, name ∈ Table.names data) :
    text = filledWith (fun name => (Table.row? data name).getD "") parts :=
  Except.ok.inj (h.fill.symm.trans (Told.told hreads hslots).fill)

end Told

/-! ## What a state says -/

namespace State

/-- A state holds a text under a name; where nothing is, the empty text counts as held. -/
def HoldsText (state : State) (name text : String) : Prop :=
  state.peek name = .str text ∨ text = "" ∧ state.peek name = .null

/-- A state holds a list under a name; where nothing is, the empty list counts as held. -/
def HoldsList (state : State) (name : String) (items : List Value) : Prop :=
  state.peek name = .list items ∨ items = [] ∧ state.peek name = .null

variable {state : State} {name other : String}

theorem HoldsText.orElse {text : String} (h : state.HoldsText name text) (fallback : String) :
    (state.peek name).orElse (.str fallback) = .str (if text = "" then fallback else text) := by
  rcases h with h | ⟨rfl, h⟩
  · rw [h, Value.orElse, Value.isTruthy]
    by_cases hempty : text = "" <;> simp [hempty]
  · rw [h]
    rfl

theorem HoldsList.itemsOf {items : List Value} (h : state.HoldsList name items) :
    state.itemsOf name = .ok items := by
  rcases h with h | ⟨rfl, h⟩
  · exact itemsOf_list h
  · rw [State.itemsOf, h]
    rfl

theorem HoldsList.orElse {items : List Value} (h : state.HoldsList name items)
    (fallback : Value) :
    (state.peek name).orElse fallback = if items = [] then fallback else .list items := by
  rcases h with h | ⟨rfl, h⟩
  · rw [h, Value.orElse, Value.isTruthy]
    cases items <;> rfl
  · rw [h]
    rfl

theorem peek_put_of_ne (hne : name ≠ other) (v : Value) :
    State.peek (Entries.put state other v) name = state.peek name := by
  rw [State.peek, Entries.get?, Entries.find?_put, if_neg hne]
  rfl

end State

/-! ## Supervisors and their oracles -/

/-- What the question about a choice says. -/
def Request.Questions (options : List String) : Option (List String) → String → Prop
  | none => Told Prompt.routeSelection [("options", Value.commas options)]
  | some topics => Told Prompt.routeTopicSelection
      [("options", Value.commas options), ("topics", Value.commas (noTopic :: topics))]

/-- An oracle is asked about options and topics in text as they are. -/
theorem Request.selection_told {r : Request} {options : List String}
    {topics : Option (List String)} (h : r.Offers options topics) :
    ∃ text, Questions options topics text ∧ r.selection = .ok text := by
  have hoptions : Value.joined r.options = .ok (Value.commas options) := by
    rw [h.options, Value.joined_texts]
  cases topics with
  | none =>
    have htold : Told Prompt.routeSelection [("options", Value.commas options)] _ :=
      .told Prompt.routeSelection_reads (by simp [slots, Table.names])
    refine ⟨_, htold, bind_eq_ok.mpr ⟨_, hoptions, ?_⟩⟩
    rw [h.topics]
    exact htold.fill
  | some topics =>
    have htold : Told Prompt.routeTopicSelection [("options", Value.commas options),
        ("topics", Value.commas (noTopic :: topics))] _ :=
      .told Prompt.routeTopicSelection_reads (by simp [slots, Table.names])
    refine ⟨_, htold, bind_eq_ok.mpr ⟨_, hoptions, ?_⟩⟩
    rw [h.topics]
    exact bind_eq_ok.mpr ⟨_, Value.joined_texts (noTopic :: topics), htold.fill⟩

theorem Request.ask_eq {r : Request} {text : String} (hsome : r.options ≠ [])
    (h : r.selection = .ok text) : r.ask = .ok {
      messages := Message.system r.guidance :: r.conversation ++ [Message.human text]
      form := some (Route.form r.options r.topics) } := by
  refine bind_eq_ok.mpr ⟨(), ?_, bind_eq_ok.mpr ⟨text, h, rfl⟩⟩
  cases hoptions : r.options with
  | nil => exact absurd hoptions hsome
  | cons v vs => rfl

def Prompt.supervisors : List String := [topSupervisor, researchSupervisor, documentSupervisor]

theorem Prompt.supervisors_told {prompt : String} (h : prompt ∈ supervisors)
    (members topic : String) :
    ∃ guidance, Told prompt [("team_members", members), ("topic", topic)] guidance := by
  simp only [supervisors, List.mem_cons, List.not_mem_nil, or_false] at h
  rcases h with rfl | rfl | rfl
  · exact ⟨_, .told topSupervisor_reads (by simp [slots, Table.names])⟩
  · exact ⟨_, .told researchSupervisor_reads (by simp [slots, Table.names])⟩
  · exact ⟨_, .told documentSupervisor_reads (by simp [slots, Table.names])⟩

/-- A supervisor tells its oracle about members and a topic in text as they are. -/
theorem Supervisor.request_told {s : Supervisor μ} {members : List String}
    (hmembers : s.members = members.map .str) (hprompt : s.prompt ∈ Prompt.supervisors)
    {state : State} {topic : String} (htopic : state.HoldsText "topic" topic) {said : List Value}
    (hsaid : state.HoldsList "messages" said) {texts : List String}
    (htopics : ∀ channel, s.topicsChannel = some channel →
      state.HoldsList channel (texts.map .str)) : ∃ guidance,
    Told s.prompt [("team_members", Value.commas members),
      ("topic", if topic = "" then "the user's request" else topic)] guidance ∧
    s.request (.mapping state) = .ok ⟨said, (finishName :: members).map .str, guidance,
      s.topicsChannel.map fun _ => texts.eraseDups.map .str⟩ := by
  obtain ⟨guidance, htold⟩ := Prompt.supervisors_told hprompt (Value.commas members)
    (if topic = "" then "the user's request" else topic)
  refine ⟨guidance, htold, ?_⟩
  have hjoined : Value.joined s.members = .ok (Value.commas members) := by
    rw [hmembers, Value.joined_texts]
  have hoptions : s.options = (finishName :: members).map .str := by
    rw [options, hmembers]
    rfl
  have hguidance := htold.fill
  rw [← hoptions]
  refine request_eq hjoined ?_ hsaid.itemsOf
    (knownTopics_of_items fun channel hchannel => (htopics channel hchannel).itemsOf)
  rw [htopic.orElse]
  exact hguidance

/-! ## Workers -/

namespace Worker

/-- The names of tools as a worker is told them; names that come to nothing count as none. -/
def toolsTold (names : List String) : String :=
  if Value.commas names = "" then "none" else Value.commas names

/-- What a worker with a prompt begins with: the preamble with this prompt and the names of its
team, the messages so far, and the instructions with the names of its tools. -/
inductive Begins (prompt : String) (members toolNames : List String) (instructions : String)
    (said : List Value) : List Value → Prop where
  | begins {preamble closing : String}
      (hpreamble : Told Prompt.workerPreamble
        [("system_prompt", prompt), ("team_members", Value.commas members)] preamble)
      (hclosing : Told Prompt.workerInstructions
        [("instructions", instructions), ("tool_names", toolsTold toolNames)] closing) :
      Begins prompt members toolNames instructions said
        (Message.system preamble :: said ++ [Message.human closing])

/-- What a team holds about its work: its members, instructions and messages. -/
structure Informed (state : State) (named : List String) (instructions : String)
    (said : List Value) : Prop where
  team : state.HoldsList "team_members" (named.map .str)
  instructions : state.HoldsText "instructions" instructions
  said : state.HoldsList "messages" said

variable {state : State} {named : List String} {instructions : String} {said : List Value}

theorem Informed.put (h : Informed state named instructions said) {name : String}
    (hname : name ∉ ["team_members", "instructions", "messages"]) (v : Value) :
    Informed (Entries.put state name v) named instructions said := by
  simp only [List.mem_cons, List.not_mem_nil, or_false, not_or] at hname
  obtain ⟨hteam, hinstructions, hsaid⟩ := hname
  refine ⟨?_, ?_, ?_⟩
  · rw [State.HoldsList, State.peek_put_of_ne (Ne.symm hteam)]
    exact h.team
  · rw [State.HoldsText, State.peek_put_of_ne (Ne.symm hinstructions)]
    exact h.instructions
  · rw [State.HoldsList, State.peek_put_of_ne (Ne.symm hsaid)]
    exact h.said

/-- A worker begins with texts as they are, its own prompt among them. -/
theorem messages_begin (h : Informed state named instructions said) (prompt : String)
    (members toolNames : List String) : ∃ messages,
    Begins prompt members toolNames instructions said messages ∧
    Worker.messages prompt (.mapping state) toolNames (Value.ofText members) = .ok messages := by
  have hpreamble : Told Prompt.workerPreamble
      [("system_prompt", prompt), ("team_members", Value.commas members)] _ :=
    .told Prompt.workerPreamble_reads (by simp [slots, Table.names])
  have hclosing : Told Prompt.workerInstructions
      [("instructions", instructions), ("tool_names", toolsTold toolNames)] _ :=
    .told Prompt.workerInstructions_reads (by simp [slots, Table.names])
  refine ⟨_, .begins hpreamble hclosing, ?_⟩
  have htext : (if instructions = "" then "" else instructions) = instructions := by
    split
    next hempty => exact hempty.symm
    next => rfl
  have hinstructions := h.instructions.orElse ""
  rw [htext] at hinstructions
  have htools : (if (Value.commas toolNames).isEmpty = true then "none"
      else Value.commas toolNames) = toolsTold toolNames := by
    simp only [toolsTold, String.isEmpty_iff]
  refine messages_eq rfl (Value.joined_texts members) hpreamble.fill hinstructions ?_ h.said.itemsOf
  rw [htools]
  exact hclosing.fill

/-- The members that a worker is told: those that the state names, else its own. -/
def membersTold (named own : List String) : List String := if named = [] then own else named

theorem Informed.roster (h : Informed state named instructions said) {a : Agent μ}
    {own : List String} (hown : a.members = Value.ofText own) :
    a.roster state = Value.ofText (membersTold named own) := by
  rw [Agent.roster, h.team.orElse, hown, membersTold]
  cases named <;> rfl

end Worker

namespace Team

open Worker

variable {state : State} {named : List String} {instructions : String} {said : List Value}

/-- The scraper begins its conversation with texts as they are. -/
theorem scraper_told (model : ChatModel μ) (tool : Tool)
    (h : Informed state named instructions said) (site : Site μ) : ∃ messages,
    Begins Prompt.scraper (membersTold named (researchMembers (some tool))) [tool.name]
      instructions said messages ∧
    (scraper model tool).handler (.mapping state) site =
      (scraper model tool).converse ((scraper model tool).maxRounds + 1).toNat messages site := by
  obtain ⟨messages, hbegins, hmessages⟩ := messages_begin h Prompt.scraper
    (membersTold named (researchMembers (some tool))) [tool.name]
  refine ⟨messages, hbegins, ?_⟩
  have hroster : (scraper model tool).roster state = _ := h.roster rfl
  rw [Agent.handler_eq]
  refine Act.bind_ok (Act.bind_eq_ok.mpr ⟨_, site, rfl, Act.bind_eq_ok.mpr ⟨_, site, rfl, ?_⟩⟩)
  rw [hroster]
  exact congrArg (·, site) hmessages

/-- A worker of the document team begins its conversation with texts as they are: the names of
the files stand in its prompt, and its prompt in the preamble. -/
theorem documentWorker_told {model : ChatModel μ} {w : Workspace} {a : Agent μ}
    (ha : a ∈ documentAgents model w) (h : Informed state named instructions said)
    {site : Site μ} {files : List String} (hfiles : (w.listFiles site.files).1 = .ok files) :
    ∃ prompt messages, Told a.prompt [(filesChannel, Workspace.listing files)] prompt ∧
      Begins prompt (membersTold named documentMembers) a.toolNames instructions said messages ∧
      withListing w a.handler (.mapping state) site =
        withListing w (fun _ => a.converse (a.maxRounds + 1).toNat messages) (.mapping state)
          site := by
  obtain ⟨name, prompt, tools, lead, rfl, hreads⟩ := eq_documentWorker ha
  have htold : Told prompt [(filesChannel, Workspace.listing files)] _ :=
    .told hreads (by simp [slots, Table.names])
  have hinformed : Informed (Entries.put state filesChannel (.str (Workspace.listing files)))
      named instructions said := h.put (by decide) _
  obtain ⟨messages, hbegins, hmessages⟩ := messages_begin hinformed _
    (membersTold named documentMembers) (tools.map Tool.name)
  refine ⟨_, messages, htold, hbegins, ?_⟩
  have hlisting : Site.onFiles w.describeFiles site = (.ok (Workspace.listing files), site) := by
    rw [w.onFiles_describe, Workspace.describeFiles, Act.bind_apply]
    rcases hcall : w.listFiles site.files with ⟨r, left⟩
    rw [hcall] at hfiles
    rw [show r = .ok files from hfiles]
    rfl
  have hroster := hinformed.roster (a := documentWorker model name prompt tools) rfl
  have hopening : (documentWorker model name prompt tools).opening
      (.mapping (Entries.put state filesChannel (.str (Workspace.listing files)))) site =
        (.ok messages, site) := by
    rw [opening_eq]
    refine congrArg (·, site) (bind_eq_ok.mpr ⟨_, under_put state _, bind_eq_ok.mpr
      ⟨_, htold.fill, bind_eq_ok.mpr ⟨_, rfl, ?_⟩⟩⟩)
    rw [hroster]
    exact hmessages
  simp only [withListing, Act.bind_apply, Act.ofExcept, Value.state, hlisting, Agent.handler_eq,
    hopening]

/-! ## All of them -/

/-- Data is never read as a template. What the oracle of a supervisor is told, what a chat model
is asked as an oracle, and what the scraper and the workers of the document team begin with are the
prompts with all their fields filled with texts as they are, and none of these fails: whatever the
members, the topic, the instructions, the tools, the known topics and the files are called. -/
theorem texts_told (model : ChatModel μ) :
    (∀ (s : Supervisor μ) (members : List String), s.members = members.map .str →
      s.prompt ∈ Prompt.supervisors →
      ∀ (state : State) (topic : String) (said : List Value) (texts : List String),
        state.HoldsText "topic" topic → state.HoldsList "messages" said →
        (∀ channel, s.topicsChannel = some channel → state.HoldsList channel (texts.map .str)) →
        ∃ guidance, Told s.prompt [("team_members", Value.commas members),
            ("topic", if topic = "" then "the user's request" else topic)] guidance ∧
          s.request (.mapping state) = .ok ⟨said, (finishName :: members).map .str, guidance,
            s.topicsChannel.map fun _ => texts.eraseDups.map .str⟩) ∧
    (∀ (r : Request) (options : List String) (topics : Option (List String)),
      r.Offers options topics →
      ∃ text, Request.Questions options topics text ∧ r.selection = .ok text ∧
        (options ≠ [] → r.ask = .ok {
          messages := Message.system r.guidance :: r.conversation ++ [Message.human text]
          form := some (Route.form r.options r.topics) })) ∧
    (∀ (state : State) (named : List String) (instructions : String) (said : List Value)
      (site : Site μ), Informed state named instructions said →
      (∀ tool : Tool, ∃ messages,
        Begins Prompt.scraper (membersTold named (researchMembers (some tool))) [tool.name]
          instructions said messages ∧
        (scraper model tool).handler (.mapping state) site = (scraper model tool).converse
          ((scraper model tool).maxRounds + 1).toNat messages site) ∧
      ∀ (w : Workspace) (files : List String), (w.listFiles site.files).1 = .ok files →
        ∀ a ∈ documentAgents model w, ∃ prompt messages,
          Told a.prompt [(filesChannel, Workspace.listing files)] prompt ∧
          Begins prompt (membersTold named documentMembers) a.toolNames instructions said
            messages ∧
          withListing w a.handler (.mapping state) site =
            withListing w (fun _ => a.converse (a.maxRounds + 1).toNat messages)
              (.mapping state) site) := by
  refine ⟨fun s members hmembers hprompt state topic said texts htopic hsaid htopics =>
      Supervisor.request_told hmembers hprompt htopic hsaid htopics,
    fun r options topics hoffers => ?_, fun state named instructions said site hinformed =>
      ⟨fun tool => scraper_told model tool hinformed site,
        fun w files hfiles a ha => documentWorker_told ha hinformed hfiles⟩⟩
  obtain ⟨text, hquestions, hselection⟩ := Request.selection_told hoffers
  refine ⟨text, hquestions, hselection, fun hsome => Request.ask_eq ?_ hselection⟩
  rw [hoffers.options]
  simpa using hsome

/-- A supervisor whose only member is called like a field of its prompt. -/
def bracedSupervisor : Supervisor Nat :=
  ⟨charting, Prompt.researchSupervisor, [.str "\x7btopic!r\x7d"], none, rfl⟩

/-- A state with texts that look like fields, and a site with a file that is called like one. -/
def bracedState : State :=
  [(.str "topic", .str "\x7bteam_members\x7d"), (.str "instructions", .str "\x7b0.name\x7d \x7d")]

def bracedSite : Site Nat :=
  { Site.bare 0 with files :=
      ⟨[(["work"], .directory), (["work", "\x7bsystem_prompt\x7d"], .file (.text ""))]⟩ }

theorem listFiles_braced : (desk.listFiles bracedSite.files).1 = .ok ["\x7bsystem_prompt\x7d"] := by
  have hready : desk.Ready bracedSite.files := ⟨rfl, rfl⟩
  rw [Workspace.listFiles_of_ready hready]
  show Except.ok (([(_, _)].mergeSort _).filterMap _) = _
  rw [List.mergeSort_singleton]
  rfl

/-- Names that look like fields stand in the prompts as they are, also where a prompt is put into
the preamble. -/
theorem braced_told : ∃ guidance prompt preamble closing,
    bracedSupervisor.request (.mapping bracedState) =
      .ok ⟨[], [.str finishName, .str "\x7btopic!r\x7d"], guidance, none⟩ ∧
    Told Prompt.researchSupervisor
      [("team_members", "\x7btopic!r\x7d"), ("topic", "\x7bteam_members\x7d")] guidance ∧
    prompt = "You are a data viz expert tasked with generating charts for a research project. " ++
      "\nBelow are files your team has written to the directory:\n - \x7bsystem_prompt\x7d" ∧
    Told Prompt.workerPreamble [("system_prompt", prompt),
      ("team_members", "DocWriter, NoteTaker, ChartGenerator")] preamble ∧
    Told Prompt.workerInstructions [("instructions", "\x7b0.name\x7d \x7d"),
      ("tool_names", "read_document")] closing ∧
    withListing desk (chartist none).handler (.mapping bracedState) bracedSite =
      withListing desk (fun _ => (chartist none).converse 6
        [Message.system preamble, Message.human closing]) (.mapping bracedState) bracedSite := by
  obtain ⟨hsupervisors, _, hworkers⟩ := texts_told (scribbling none)
  obtain ⟨guidance, hguidance, hrequest⟩ := hsupervisors bracedSupervisor ["\x7btopic!r\x7d"] rfl
    (.tail _ (.head _)) bracedState "\x7bteam_members\x7d" [] [] (.inl rfl) (.inr ⟨rfl, rfl⟩) nofun
  obtain ⟨_, hdocument⟩ := hworkers bracedState [] "\x7b0.name\x7d \x7d" [] bracedSite
    ⟨.inr ⟨rfl, rfl⟩, .inl rfl, .inr ⟨rfl, rfl⟩⟩
  obtain ⟨prompt, messages, hprompt, hbegins, hnode⟩ :=
    hdocument desk _ listFiles_braced (chartist none) (chartist_mem none)
  cases hbegins with
  | begins hpreamble hclosing =>
    have heq := hprompt.eq_of_reads Prompt.chartGenerator_reads
      (by simp [slots, Table.names, filesChannel])
    exact ⟨guidance, prompt, _, _, hrequest, hguidance, heq, hpreamble, hclosing, hnode⟩

end Team

end TeamFlow
