import TeamFlow.Proofs.Team.Staff
import TeamFlow.Proofs.Worker.Conversation

/-! # The turns of the document team

A request to the document team comes to a turn of a worker, or it leaves the
files alone (`IsStar.next_leaves`). In its turn a worker is called with the
listing of the workspace in the place of what the channel holds (`Works`), and
the listing afterwards is recorded. Listing itself changes nothing. -/
namespace TeamFlow

variable {μ : Type}

theorem Site.files_of_onFiles {α : Type} {x : Act FileTree α} {site left : Site μ}
    {result : Except Failure α} (h : Site.onFiles x site = (result, left)) :
    x site.files = (result, left.files) := by
  simp only [Site.onFiles, Act.onPart] at h
  rcases hcall : x site.files with ⟨r, files⟩
  rw [hcall] at h
  cases h
  rfl

namespace Workspace

theorem listFiles_leaves (w : Workspace) (t : FileTree) : (w.listFiles t).2 = t := by
  unfold listFiles
  split
  next => rfl
  next => split <;> rfl

theorem describeFiles_leaves (w : Workspace) (t : FileTree) : (w.describeFiles t).2 = t := by
  have hlist := w.listFiles_leaves t
  unfold describeFiles
  rw [Act.bind_apply]
  rcases hcall : w.listFiles t with ⟨r | a, u⟩ <;> rw [hcall] at hlist <;> exact hlist

theorem onFiles_describe (w : Workspace) (site : Site μ) :
    Site.onFiles w.describeFiles site = ((w.describeFiles site.files).1, site) := by
  simp only [Site.onFiles, Act.onPart, w.describeFiles_leaves]

end Workspace

namespace Team

open Run

/-! ## Whose turn it is -/

section Star

variable {g : Graph μ} {s : Supervisor μ} {names : List String}

theorem IsStar.nextNode_leaves (hg : IsStar g s names) {node : String} (hnode : g.IsNode node)
    {given : Value} {here left : Site μ} {result : Except Failure String}
    (h : g.nextNode node given here = (result, left)) : left = here := by
  rcases (hg.nodes node).mp hnode with rfl | hn
  · obtain ⟨r, hedge, hanswer, _⟩ := hg.routed
    have hcall : r.answer given here = ((Supervisor.route.answer given here).1, here) := by
      rw [hanswer]
      rfl
    rw [Graph.nextNode_routed hedge hcall] at h
    exact (congrArg Prod.snd h).symm
  · rw [Graph.nextNode_fixed (hg.back node hn)] at h
    exact (congrArg Prod.snd h).symm

theorem IsStar.turns_here (hg : IsStar g s names) {r p : Run μ} (hr : Sound g r)
    {here mid : Site μ} (hturn : r.Turns here p mid) : mid = here := by
  cases hturn with
  | first _ => rfl
  | next hphase hroute _ _ =>
    have hactive := hr.active hphase
    rw [hactive.graph] at hroute
    exact hg.nextNode_leaves hactive.node hroute

/-- A request leaves what the handler whose turn it is leaves; without a turn it leaves the site as
it is. -/
theorem IsStar.next_leaves (hg : IsStar g s names) {r : Run μ} (hr : Sound g r) (here : Site μ) :
    (∃ p handler answer, r.Turns here p here ∧ Table.row? g.nodes p.current = some handler ∧
      handler (.mapping r.state) here = (answer, (r.next here).2)) ∨
    ((∀ p mid, ¬ r.Turns here p mid) ∧ (r.next here).2 = here) := by
  have hlinked := hg.compiled.linked
  by_cases hturns : ∃ p mid, r.Turns here p mid
  · obtain ⟨p, mid, hturn⟩ := hturns
    obtain rfl := hg.turns_here hr hturn
    have hp := (hturn.active hlinked hr).1
    obtain ⟨handler, hhandler⟩ := Option.isSome_iff_exists.mp
      ((Table.row?_isSome_iff _ _).mpr hp.node)
    cases hcall : handler (.mapping r.state) mid with
    | mk answer left =>
      have hcall' := hcall
      rw [Run.state, ← hturn.frame.2.1] at hcall'
      have hnext := hturn.next_of_call (by rw [hp.graph]; exact hhandler) hcall'
      exact .inl ⟨p, handler, answer, hturn, hhandler, by rw [hcall, hnext]⟩
  · have hnone : ∀ p mid, ¬ r.Turns here p mid := fun p mid hturn => hturns ⟨p, mid, hturn⟩
    refine .inr ⟨hnone, ?_⟩
    have hasked := r.asked_next here
    generalize (r.next here).1 = result, (r.next here).2 = left at hasked
    cases hasked with
    | idle _ => rfl
    | stepped hturn _ | nodeFailed hturn _ => exact absurd hturn (hnone _ _)
    | routingFailed hphase hroute | completed hphase hroute | exhausted hphase hroute _ _ =>
      have hactive := hr.active hphase
      rw [hactive.graph] at hroute
      exact hg.nextNode_leaves hactive.node hroute

theorem turns_unique {r p q : Run μ} {here mid mid' : Site μ} (h : r.Turns here p mid)
    (h' : r.Turns here q mid') : p = q :=
  Option.some.inj ((turn?_eq_some_iff.mpr ⟨mid, h⟩).symm.trans (turn?_eq_some_iff.mpr ⟨mid', h'⟩))

end Star

theorem failed_of_handler {r p : Run μ} {here mid left : Site μ} (hturn : r.Turns here p mid)
    {handler : Handler μ} (hhandler : Table.row? p.graph.nodes p.current = some handler)
    {why : Failure} (hcall : handler (.mapping r.state) mid = (.error why, left)) :
    ∃ raised, (r.next here).1.1 = .failed raised := by
  have hsettle : ∃ raised, p.graph.settle p.store p.current (.error why) = .error raised := by
    cases why <;> exact ⟨_, rfl⟩
  obtain ⟨raised, hsettle⟩ := hsettle
  rw [Run.state, ← hturn.frame.2.1] at hcall
  rw [hturn.next_of_call hhandler hcall, hsettle]
  exact failWith_failed _ _ _

theorem files_of_supervisor (s : Supervisor μ) (given : Value) (here : Site μ) :
    (s.handler given here).2.files = here.files := by
  rw [s.handler_leaves]
  cases (s.request given).toOption <;> rfl

/-! ## Workers with a listing -/

theorem opening_eq (model : ChatModel μ) (name prompt : String) (tools : List Tool)
    (given : Value) : (documentWorker model name prompt tools).opening given = Act.ofExcept (do
      let files ← given.under (.str filesChannel)
      let filled ← Value.fill prompt [(.str filesChannel, files)]
      let state ← given.state
      Worker.messages filled given (tools.map Tool.name)
        ((documentWorker model name prompt tools).roster state)) := by
  funext here
  simp only [Agent.opening, Agent.filledPrompt, documentWorker, filesContext, Agent.namedValues,
    Act.bind_apply, Act.ofExcept, Act.pure_apply, Agent.toolNames]
  cases given.under (.str filesChannel) with
  | error why => rfl
  | ok files =>
    cases hprompt : Value.fill prompt [(.str filesChannel, files)] with
    | error why => simp [bind, Except.bind, hprompt]
    | ok filled =>
      cases hstate : given.state with
      | error why => simp [bind, Except.bind, hprompt]
      | ok state => simp [bind, Except.bind, hprompt, pure, Except.pure]

/-- Every agent of the team is such a worker, whose prompt ends with the listing. -/
theorem eq_documentWorker {model : ChatModel μ} {w : Workspace} {a : Agent μ}
    (ha : a ∈ documentAgents model w) : ∃ name prompt tools lead,
      a = documentWorker model name prompt tools ∧
      Reads prompt [.plain lead, .slot filesChannel] := by
  simp only [documentAgents, List.mem_cons, List.not_mem_nil, or_false] at ha
  rcases ha with rfl | rfl | rfl
  · exact ⟨_, _, _, _, rfl, Prompt.documentWriter_reads⟩
  · exact ⟨_, _, _, _, rfl, Prompt.noteTaker_reads⟩
  · exact ⟨_, _, _, _, rfl, Prompt.chartGenerator_reads⟩

theorem opening_leaves {model : ChatModel μ} {w : Workspace} {a : Agent μ}
    (ha : a ∈ documentAgents model w) {given : Value} {here left : Site μ}
    {messages : Except Failure (List Value)} (h : a.opening given here = (messages, left)) :
    left = here := by
  obtain ⟨_, _, _, _, rfl, _⟩ := eq_documentWorker ha
  rw [opening_eq] at h
  exact (congrArg Prod.snd h).symm

theorem fill_prompt {prompt lead : String} (h : Reads prompt [.plain lead, .slot filesChannel])
    (listing : String) :
    Value.fill prompt [(.str filesChannel, .str listing)] = .ok (lead ++ listing) := by
  have hfill : Value.fill prompt [(.str filesChannel, .str listing)] = _ :=
    h.fill_texts [(filesChannel, listing)] (by simp [Text.slots, Table.names])
  simpa [Text.filledWith, Text.Part.filled, Table.row?] using hfill

theorem under_put (state : State) (listing : Value) :
    (Value.mapping (Entries.put state filesChannel listing)).under (.str filesChannel) =
      .ok listing := by
  refine bind_eq_ok.mpr ⟨.str filesChannel, rfl, ?_⟩
  rw [Entries.find?_put, if_pos rfl]

/-- A worker is shown its prompt with the listing that it is given, whatever the state says. -/
theorem opening_shows {model : ChatModel μ} {w : Workspace} {a : Agent μ}
    (ha : a ∈ documentAgents model w) {state : State} {listing : String} {here left : Site μ}
    {messages : List Value}
    (h : a.opening (.mapping (Entries.put state filesChannel (.str listing))) here =
      (.ok messages, left)) :
    ∃ lead text rest, a.prompt = Text.template [.plain lead, .slot filesChannel] ∧
      messages = Message.system (lead ++ listing ++ text) :: rest := by
  obtain ⟨name, prompt, tools, lead, rfl, hreads⟩ := eq_documentWorker ha
  rw [opening_eq] at h
  obtain ⟨files, hfiles, h⟩ := bind_eq_ok.mp (congrArg Prod.fst h)
  cases (under_put state (.str listing)).symm.trans hfiles
  obtain ⟨filled, hfilled, h⟩ := bind_eq_ok.mp h
  cases (fill_prompt hreads listing).symm.trans hfilled
  obtain ⟨_, _, h⟩ := bind_eq_ok.mp h
  obtain ⟨text, rest, hmessages⟩ := Worker.messages_eq_ok h
  exact ⟨lead, text, rest, hreads.eq, hmessages⟩

theorem opening_ok {model : ChatModel μ} {w : Workspace} {a : Agent μ}
    (ha : a ∈ documentAgents model w) {state : State} (listing : String) (here : Site μ)
    (members : List String) (instructions : String) (said : List Value)
    (hmembers : a.roster (Entries.put state filesChannel (.str listing)) = Value.ofText members)
    (hinstructions : (State.peek (Entries.put state filesChannel (.str listing))
      "instructions").orElse (.str "") = .str instructions)
    (hsaid : State.itemsOf (Entries.put state filesChannel (.str listing)) "messages" =
      .ok said) : ∃ messages,
    a.opening (.mapping (Entries.put state filesChannel (.str listing))) here =
      (.ok messages, here) := by
  obtain ⟨name, prompt, tools, lead, rfl, hreads⟩ := eq_documentWorker ha
  obtain ⟨messages, hmessages⟩ : ∃ messages, Worker.messages (lead ++ listing) _
      (tools.map Tool.name) _ = .ok messages :=
    Worker.messages_ok _ (congrArg Value.items hmembers) (Value.joined_texts members)
      hinstructions hsaid
  refine ⟨messages, ?_⟩
  rw [opening_eq]
  exact congrArg (·, here) (bind_eq_ok.mpr ⟨_, under_put state (.str listing),
    bind_eq_ok.mpr ⟨_, fill_prompt hreads listing, bind_eq_ok.mpr ⟨_, rfl, hmessages⟩⟩⟩)

/-- An update with the listing, unless the state holds it already. -/
def recorded (state : State) (update : Entries) (listing : String) : Entries :=
  if (State.peek state filesChannel).same (.str listing) then update
  else Entries.put update filesChannel (.str listing)

/-- What becomes of a call of a worker with the listing. -/
inductive Listed (w : Workspace) (handler : Handler μ) (state : State) (here : Site μ) :
    Except Failure Value → Site μ → Prop where
  | unlisted {why : Failure} (hbefore : (w.describeFiles here.files).1 = .error why) :
      Listed w handler state here (.error why) here
  | fails {listing : String} {result : Except Failure Value} {why : Failure} {left : Site μ}
      (hbefore : (w.describeFiles here.files).1 = .ok listing)
      (hcall : handler (.mapping (Entries.put state filesChannel (.str listing))) here =
        (result, left)) : Listed w handler state here (.error why) left
  | records {listing after : String} {answer : Value} {update : Entries} {left : Site μ}
      (hbefore : (w.describeFiles here.files).1 = .ok listing)
      (hcall : handler (.mapping (Entries.put state filesChannel (.str listing))) here =
        (.ok answer, left)) (hupdate : answer.entries = .ok update)
      (hafter : (w.describeFiles left.files).1 = .ok after) :
      Listed w handler state here (.ok (.mapping (recorded state update after))) left

theorem listed (w : Workspace) (handler : Handler μ) (state : State) (here : Site μ) :
    Listed w handler state here (withListing w handler (.mapping state) here).1
      (withListing w handler (.mapping state) here).2 := by
  simp only [withListing, Act.bind_apply, Act.ofExcept, Value.state, w.onFiles_describe]
  cases hbefore : (w.describeFiles here.files).1 with
  | error why => exact .unlisted hbefore
  | ok listing =>
    simp only
    rcases hcall : handler (.mapping (Entries.put state filesChannel (.str listing))) here with
      ⟨why | answer, left⟩
    · exact .fails hbefore hcall
    · cases hupdate : answer.entries with
      | error why => simp only [hupdate]; exact .fails hbefore hcall
      | ok update =>
        cases hafter : (w.describeFiles left.files).1 with
        | error why => simp only [hupdate, hafter]; exact .fails hbefore hcall
        | ok after =>
          have hrecords := Listed.records hbefore hcall hupdate hafter
          unfold recorded at hrecords
          simp only [hupdate, hafter]
          split at hrecords
          next hsame => rw [if_pos hsame]; exact hrecords
          next hsame => rw [if_neg hsame]; exact hrecords

theorem withListing_eq {w : Workspace} {handler : Handler μ} {state : State} {here left : Site μ}
    {listing after : String} {answer : Value} {update : Entries}
    (hbefore : (w.describeFiles here.files).1 = .ok listing)
    (hcall : handler (.mapping (Entries.put state filesChannel (.str listing))) here =
      (.ok answer, left)) (hupdate : answer.entries = .ok update)
    (hafter : (w.describeFiles left.files).1 = .ok after) :
    withListing w handler (.mapping state) here =
      (.ok (.mapping (recorded state update after)), left) := by
  simp only [withListing, Act.bind_apply, Act.ofExcept, Value.state, w.onFiles_describe, hbefore,
    hcall, hupdate, hafter, recorded]
  split <;> rfl

/-- How the turn of a worker goes, which starts from the listing of the workspace whatever the state
says: there is no listing, or the worker is called with it. -/
inductive Works (w : Workspace) (a : Agent μ) (state : State) (here : Site μ) :
    List Turn → Except Failure Value → Site μ → Prop where
  | unlisted {why : Failure} (hbefore : (w.describeFiles here.files).1 = .error why) :
      Works w a state here [] (.error why) here
  | handles {listing : String} {turns : List Turn} {result : Except Failure Value} {left : Site μ}
      (hbefore : (w.describeFiles here.files).1 = .ok listing)
      (hhandles : a.Handles (.mapping (Entries.put state filesChannel (.str listing))) here turns
        result left) : Works w a state here turns result left

theorem Works.fails_of_report {w : Workspace} {a : Agent μ} {state : State}
    {here left : Site μ} {turns : List Turn} {result : Except Failure Value}
    (h : Works w a state here turns result left) {t : Turn} (ht : t ∈ turns) {c : Called}
    (hc : c ∈ t.called) {why : Failure} (hreport : c.report = .error why) :
    result = .error why := by
  cases h with
  | unlisted _ => cases ht
  | handles _ hhandles => exact hhandles.fails_of_report ht hc hreport

theorem Works.calls {model : ChatModel μ} {w : Workspace} {a : Agent μ}
    (ha : a ∈ documentAgents model w) {state : State} {here left : Site μ} {turns : List Turn}
    {result : Except Failure Value} (h : Works w a state here turns result left) :
    Tool.Calls a.tools here.files (turns.flatMap Turn.called) left.files := by
  cases h with
  | unlisted _ => exact .none _
  | handles _ hhandles =>
    cases hhandles with
    | fails hopening =>
      rw [opening_leaves ha hopening]
      exact .none _
    | converses hopening hturns =>
      rw [← opening_leaves ha hopening]
      exact hturns.calls

theorem works_of_listed {w : Workspace} {a : Agent μ} {state : State} {here left : Site μ}
    {answer : Except Failure Value} (h : Listed w a.handler state here answer left) :
    ∃ turns result, Works w a state here turns result left ∧
      ∀ why, result = .error why → ∃ raised, answer = .error raised := by
  cases h with
  | unlisted hbefore => exact ⟨[], _, .unlisted hbefore, fun why _ => ⟨_, rfl⟩⟩
  | @fails listing _ _ _ hbefore hcall =>
    obtain ⟨turns, hhandles⟩ :=
      a.handles (.mapping (Entries.put state filesChannel (.str listing))) here
    rw [hcall] at hhandles
    exact ⟨turns, _, .handles hbefore hhandles, fun why _ => ⟨_, rfl⟩⟩
  | @records listing _ _ _ _ hbefore hcall hupdate hafter =>
    obtain ⟨turns, hhandles⟩ :=
      a.handles (.mapping (Entries.put state filesChannel (.str listing))) here
    rw [hcall] at hhandles
    exact ⟨turns, _, .handles hbefore hhandles, fun why hwhy => nomatch hwhy⟩

/-! ## The requests -/

/-- The nodes of the document team: its supervisor, and its agents with the listing. -/
theorem handler_of_document {model : ChatModel μ} {oracle : Oracle μ} {w : Workspace}
    {limit : Value} {node : String} {handler : Handler μ}
    (h : Table.row? (documentGraph model oracle w limit).nodes node = some handler) :
    (node = supervisorNode ∧ handler = (documentSupervisor oracle).handler) ∨
      ∃ a ∈ documentAgents model w, node = a.name ∧ handler = withListing w a.handler := by
  have hmem := Table.mem_of_row? h
  rcases List.mem_cons.mp hmem with heq | hmem
  · cases heq
    exact .inl ⟨rfl, rfl⟩
  · obtain ⟨a, ha, heq⟩ := List.mem_map.mp hmem
    cases heq
    exact .inr ⟨a, ha, rfl, rfl⟩

/-- What a request does to the files: a worker has its turn, or it is none's but perhaps the
supervisor's and they are left alone. -/
inductive FileTurn (model : ChatModel μ) (w : Workspace) (r : Run μ) (here : Site μ)
    (outcome : Outcome) (left : Site μ) : Prop where
  | works {a : Agent μ} {p : Run μ} {turns : List Turn} {result : Except Failure Value}
      (hagent : a ∈ documentAgents model w) (hturn : r.Turns here p here)
      (hnode : p.current = a.name) (hworks : Works w a r.state here turns result left)
      (hfails : ∀ why, result = .error why → ∃ raised, outcome = .failed raised) :
      FileTurn model w r here outcome left
  | leaves (hturn : ∀ p mid, r.Turns here p mid → p.current = supervisorNode)
      (hfiles : left.files = here.files) : FileTurn model w r here outcome left

/-- Every request to the document team turns out so. -/
theorem fileTurn_next (model : ChatModel μ) (oracle : Oracle μ) (w : Workspace) (limit : Value)
    {r : Run μ} (hr : Sound (documentGraph model oracle w limit) r) (here : Site μ) :
    FileTurn model w r here (r.next here).1.1 (r.next here).2 := by
  have hstar := (document_eq model oracle w limit here).2
  rcases hstar.next_leaves hr here with
    ⟨p, handler, answer, hturn, hhandler, hcall⟩ | ⟨hnone, hsame⟩
  · rcases handler_of_document hhandler with ⟨hnode, rfl⟩ | ⟨a, ha, hnode, rfl⟩
    · have hfiles := files_of_supervisor (documentSupervisor oracle) (.mapping r.state) here
      rw [hcall] at hfiles
      exact .leaves (fun q mid hturn' => turns_unique hturn hturn' ▸ hnode) hfiles
    · have hlisted := listed w a.handler r.state here
      rw [hcall] at hlisted
      obtain ⟨turns, result, hworks, hfails⟩ := works_of_listed hlisted
      refine .works ha hturn hnode hworks fun why hwhy => ?_
      obtain ⟨raised, rfl⟩ := hfails why hwhy
      rw [← (hturn.active hstar.compiled.linked hr).1.graph] at hhandler
      exact failed_of_handler hturn hhandler hcall
  · exact .leaves (fun p mid hturn => absurd hturn (hnone p mid)) (congrArg Site.files hsame)

/-! ## A run of the team -/

def desk : Workspace := ⟨["work"]⟩

/-- A site with that directory and nothing in it, and what the team remembers. -/
def deskSite (memory : Nat) : Site Nat :=
  { Site.bare memory with files := ⟨[(["work"], .directory)]⟩ }

theorem describe_desk (memory : Nat) :
    (desk.describeFiles (deskSite memory).files).1 = .ok "No files written." := by
  have hnone : (deskSite memory).files.fileNames desk.root = [] := by
    show ((([] : List (Place × Content)).mergeSort _).filterMap _) = []
    rw [List.mergeSort_nil]
    rfl
  show Except.ok (Workspace.listing ((deskSite memory).files.fileNames desk.root)) = _
  rw [hnone]
  rfl

/-- A call to write a document. -/
def scribble (id : Option String) : ToolCall :=
  ⟨"write_document", [("content", .str "x"), ("file_name", .str "a.txt")], id⟩

/-- A model that makes this call and then answers. It counts what it and the oracle are asked. -/
def scribbling (id : Option String) : ChatModel Nat := fun _ n =>
  (.ok (.message (if n = 1 then ⟨.ai [scribble id], .str "", none⟩
    else ⟨.ai [], .str "charted", none⟩)), n + 1)

/-- An oracle that always names the chart generator. -/
def charting : Oracle Nat := fun _ n =>
  (.ok (.mapping [(.str "next", .str chartGeneratorName), (.str "instructions", .str "")]), n + 1)

/-- A run of the team from a listing that is out of date. -/
def chartStart (id : Option String) : Run Nat where
  graph := documentGraph (scribbling id) charting desk .null
  limit := .usual
  store := ⟨[("messages", .list []), ("team_members", .list []), ("next", .str supervisorNode),
    (filesChannel, .str "stale"), ("instructions", .str "Solve the human's question.")]⟩
  count := 0
  current := supervisorNode
  status := .pending
  error := none
  phase := .unopened

/-- That run after its first step, the naming of the chart generator. -/
def chartNamed (id : Option String) : Run Nat :=
  { chartStart id with
    store := ⟨[("messages", .list []), ("team_members", .list []),
      ("next", .str chartGeneratorName), (filesChannel, .str "stale"), ("instructions", .str "")]⟩
    count := 1
    status := .running
    phase := .paused }

theorem document_desk (id : Option String) :
    document (scribbling id) charting desk .null (.bare 0) =
      (.ok (chartStart id).graph, deskSite 0) := by
  rw [(document_eq _ _ _ _ _).1]
  rfl

theorem chartStart_starts (id : Option String) :
    (chartStart id).graph.start (.mapping [(.str filesChannel, .str "stale")]) .null (deskSite 0) =
      (.ok (chartStart id), deskSite 0) := rfl

theorem chartNamed_history (id : Option String) : ∃ delta,
    History (chartStart id)
      [⟨deskSite 0, .step ⟨1, supervisorNode, delta⟩, chartNamed id, deskSite 1⟩]
      (chartNamed id) := by
  obtain ⟨guidance, hguidance⟩ := Prompt.documentSupervisor_reads.guides (by simp [Text.slots])
    (Value.commas documentMembers) "the user's request"
  have hrequest : (documentSupervisor charting).request (.mapping (chartStart id).state) = .ok _ :=
    Supervisor.request_eq (Value.joined_texts _) hguidance rfl rfl
  have hdecides : (documentSupervisor charting).handler (.mapping (chartStart id).state)
      (deskSite 0) = (.ok (.mapping _), deskSite 1) :=
    Supervisor.handler_of_request hrequest rfl rfl
  have hturn : ({ chartStart id with phase := .opened } : Run Nat).Turns (deskSite 0)
      { chartStart id with phase := .opened, status := .running } (deskSite 0) := .first rfl
  exact ⟨_, .asks (x := ⟨deskSite 0, _, chartNamed id, deskSite 1⟩) (.opens .fresh rfl)
    (hturn.next_of_call rfl hdecides)⟩

theorem chartNamed_turns (id : Option String) : (chartNamed id).Turns (deskSite 1)
    { chartNamed id with current := chartGeneratorName } (deskSite 1) :=
  .next rfl rfl (by decide) (by change 1 < StepLimit.usual.value; decide)

def chartist (id : Option String) : Agent Nat :=
  documentWorker (scribbling id) chartGeneratorName Prompt.chartGenerator [desk.readTool]

theorem chartist_mem (id : Option String) :
    chartist id ∈ documentAgents (scribbling id) desk := by
  simp [documentAgents, chartist]

theorem chartist_opening (id : Option String) : ∃ messages, (chartist id).opening
    (.mapping (Entries.put (chartNamed id).state filesChannel (.str "No files written.")))
      (deskSite 1) = (.ok messages, deskSite 1) :=
  opening_ok (chartist_mem id) _ _ documentMembers "" [] rfl rfl rfl

/-- It calls a tool that it is not given, answers then, and hands over the listing. -/
theorem chartist_lists : withListing desk (chartist (some "c1")).handler
    (.mapping (chartNamed (some "c1")).state) (deskSite 1) =
      (.ok (.mapping (recorded (chartNamed (some "c1")).state
        (Worker.reported chartGeneratorName "charted") "No files written.")), deskSite 3) := by
  obtain ⟨messages, hopening⟩ := chartist_opening (some "c1")
  have hcall : (chartist (some "c1")).handler (.mapping
      (Entries.put (chartNamed (some "c1")).state filesChannel (.str "No files written.")))
      (deskSite 1) = (.ok (.mapping (Worker.reported chartGeneratorName "charted")),
        deskSite 3) := by
    rw [Agent.handler_eq, Act.bind_ok hopening]
    rfl
  exact withListing_eq (describe_desk 1) hcall rfl (describe_desk 3)

end Team

end TeamFlow
