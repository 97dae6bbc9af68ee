import TeamFlow.Proofs.Prompt
import TeamFlow.Worker.Agent

/-! # The conversation of an agent

`Agent.converse` asks a model, runs the tools that it asks for and asks again.
`Converses` lists the ways in which this can go, with everything that happens on
the way: what the model is shown and answers each time (`Turn`), and each tool
call with the files before and after it (`Called`). A call that fails leaves its
changes, so a conversation that breaks off has its turns as well. -/
namespace TeamFlow

variable {μ : Type}

/-! ## Tool calls -/

/-- A tool call that was answered, or not even reported, with the files before and after it. -/
structure Called where
  call : ToolCall
  before : FileTree
  report : Except Failure Value
  after : FileTree

namespace Tool

theorem answer_unknown {tools : List Tool} {call : ToolCall} (h : find? tools call.name = none)
    (files : FileTree) : answer tools call files =
      (refused call.id ("Error: unknown tool " ++ Text.quoted call.name), files) := by
  simp only [answer, h]
  rfl

/-- A call of a tool leaves what the tool leaves, and a report tells whether it went well. -/
theorem answer_known {tools : List Tool} {call : ToolCall} {tool : Tool}
    (h : find? tools call.name = some tool) (files : FileTree) : answer tools call files =
      (match (tool.invoke (Entries.ofFields call.args) files).1 with
        | .ok text => .ok (tool.accepted call.id text)
        | .error why => do refused call.id ("Error: " ++ (← why.written)),
      (tool.invoke (Entries.ofFields call.args) files).2) := by
  simp only [answer, h, Act.bind_apply, Act.attempt]
  cases (tool.invoke (Entries.ofFields call.args) files).1 with
  | ok text => rfl
  | error why =>
    dsimp only
    cases why.written <;> rfl

theorem mem_of_find? {tools : List Tool} {name : String} {tool : Tool}
    (h : find? tools name = some tool) : tool ∈ tools ∧ tool.name = name :=
  ⟨List.mem_reverse.mp (List.mem_of_find?_eq_some h), by simpa using List.find?_some h⟩

/-- Tool calls one after the other: each finds the files that the one before it left. -/
inductive Calls (tools : List Tool) : FileTree → List Called → FileTree → Prop where
  | none (files : FileTree) : Calls tools files [] files
  | call {c : Called} {cs : List Called} {left : FileTree}
      (hcall : answer tools c.call c.before = (c.report, c.after))
      (hrest : Calls tools c.after cs left) : Calls tools c.before (c :: cs) left

theorem Calls.append {tools : List Tool} {files mid left : FileTree} {cs ds : List Called}
    (h : Calls tools files cs mid) (hrest : Calls tools mid ds left) :
    Calls tools files (cs ++ ds) left := by
  induction h with
  | none _ => exact hrest
  | call hcall _ ih => exact .call hcall (ih hrest)

theorem Calls.answered {tools : List Tool} {files left : FileTree} {cs : List Called}
    (h : Calls tools files cs left) :
    ∀ c ∈ cs, answer tools c.call c.before = (c.report, c.after) := by
  induction h with
  | none _ => simp
  | call hcall _ ih => exact List.forall_mem_cons.mpr ⟨hcall, ih⟩

theorem Calls.keeps {tools : List Tool} {Keeps : FileTree → Prop}
    (hstep : ∀ c : Called, answer tools c.call c.before = (c.report, c.after) →
      Keeps c.before → Keeps c.after)
    {files left : FileTree} {cs : List Called} (h : Calls tools files cs left)
    (hfiles : Keeps files) : Keeps left := by
  induction h with
  | none _ => exact hfiles
  | call hcall _ ih => exact ih (hstep _ hcall hfiles)

/-- How the calls of one answer go: all of them are reported, or the first one that cannot be
reported ends the matter. -/
inductive Answered (tools : List Tool) :
    List ToolCall → FileTree → List Called → Except Failure (List Value) → FileTree → Prop where
  | none (files : FileTree) : Answered tools [] files [] (.ok []) files
  | fails {call : ToolCall} {calls : List ToolCall} {files left : FileTree} {why : Failure}
      (hcall : answer tools call files = (.error why, left)) :
      Answered tools (call :: calls) files [⟨call, files, .error why, left⟩] (.error why) left
  | reports {call : ToolCall} {calls : List ToolCall} {files mid left : FileTree} {report : Value}
      {cs : List Called} {rest : Except Failure (List Value)}
      (hcall : answer tools call files = (.ok report, mid))
      (hrest : Answered tools calls mid cs rest left) :
      Answered tools (call :: calls) files (⟨call, files, .ok report, mid⟩ :: cs)
        (rest.map (report :: ·)) left

theorem answered (tools : List Tool) (calls : List ToolCall) (files : FileTree) :
    ∃ cs, Answered tools calls files cs (answers tools calls files).1
      (answers tools calls files).2 := by
  induction calls generalizing files with
  | nil => exact ⟨[], .none files⟩
  | cons call calls ih =>
    cases hcall : answer tools call files with
    | mk first mid =>
      cases first with
      | error why =>
        have heq : answers tools (call :: calls) files = (.error why, mid) := Act.bind_error hcall
        rw [heq]
        exact ⟨_, .fails hcall⟩
      | ok report =>
        obtain ⟨cs, hrest⟩ := ih mid
        have heq : answers tools (call :: calls) files =
            ((answers tools calls mid).1.map (report :: ·), (answers tools calls mid).2) := by
          refine (Act.bind_ok hcall).trans ?_
          rw [Act.bind_apply]
          rcases answers tools calls mid with ⟨rest | rest, left⟩ <;> rfl
        rw [heq]
        exact ⟨_, .reports hcall hrest⟩

theorem Answered.calls {tools : List Tool} {calls : List ToolCall} {files left : FileTree}
    {cs : List Called} {result : Except Failure (List Value)}
    (h : Answered tools calls files cs result left) : Calls tools files cs left := by
  induction h with
  | none files => exact .none files
  | @fails call _ files left why hcall =>
    exact .call (c := ⟨call, files, .error why, left⟩) hcall (.none left)
  | @reports call _ files mid _ report _ _ hcall _ ih =>
    exact .call (c := ⟨call, files, .ok report, mid⟩) hcall ih

theorem Answered.fails_of_report {tools : List Tool} {calls : List ToolCall}
    {files left : FileTree} {cs : List Called} {result : Except Failure (List Value)}
    (h : Answered tools calls files cs result left) {c : Called} (hc : c ∈ cs) {why : Failure}
    (hreport : c.report = .error why) : result = .error why := by
  induction h with
  | none _ => cases hc
  | fails _ =>
    obtain rfl := List.mem_singleton.mp hc
    cases hreport
    rfl
  | reports _ _ ih =>
    rcases List.mem_cons.mp hc with rfl | hc
    · cases hreport
    · rw [ih hc]
      rfl

theorem Answered.reports_eq {tools : List Tool} {calls : List ToolCall} {files left : FileTree}
    {cs : List Called} {result : Except Failure (List Value)} {reports : List Value}
    (h : Answered tools calls files cs result left) (hresult : result = .ok reports) :
    cs.map Called.call = calls ∧ cs.map Called.report = reports.map .ok := by
  induction h generalizing reports with
  | none _ => cases hresult; exact ⟨rfl, rfl⟩
  | fails _ => cases hresult
  | @reports call calls files mid left report cs rest _ _ ih =>
    cases rest with
    | error why => cases hresult
    | ok rest =>
      cases hresult
      obtain ⟨hcalls, hreports⟩ := ih rfl
      exact ⟨congrArg (List.cons call) hcalls, congrArg (List.cons (Except.ok report)) hreports⟩

end Tool

/-! ## Turns -/

/-- One time that a model is asked: what it is shown, what it answers, and the calls that the answer
leads to. -/
structure Turn where
  messages : List Value
  answer : Except Failure Value
  called : List Called

namespace Agent

/-- What the model is asked with the messages so far. -/
def ask (a : Agent μ) (messages : List Value) : Ask where
  messages := messages
  tools := if a.tools.isEmpty then none else some a.toolNames

def unfinished (a : Agent μ) : Failure :=
  .badRun ("Worker " ++ a.name ++ s!" did not finish within {a.maxRounds} tool rounds.")

theorem conclude_eq_ok {a : Agent μ} {answer update : Value} (h : a.conclude answer = .ok update) :
    ∃ text, Message.answerText answer = .ok text ∧ text ≠ "" ∧
      update = .mapping (Worker.reported a.name text) := by
  obtain ⟨text, htext, h⟩ := bind_eq_ok.mp h
  split at h
  next => cases h
  next hempty =>
    cases h
    exact ⟨text, htext, by simpa using hempty, rfl⟩

/-- How a conversation goes on from some messages, with a number of turns left. -/
inductive Converses (a : Agent μ) :
    Nat → List Value → Site μ → List Turn → Except Failure Value → Site μ → Prop where
  | givesUp (messages : List Value) (site : Site μ) :
      Converses a 0 messages site [] (.error a.unfinished) site
  | modelFails {rounds : Nat} {messages : List Value} {site left : Site μ} {why : Failure}
      (hmodel : Site.onMemory (a.model (a.ask messages)) site = (.error why, left)) :
      Converses a (rounds + 1) messages site [⟨messages, .error why, []⟩] (.error why) left
  | concludes {rounds : Nat} {messages : List Value} {site left : Site μ} {answer : Value}
      (hmodel : Site.onMemory (a.model (a.ask messages)) site = (.ok answer, left))
      (hcalls : Message.callsOf answer = []) :
      Converses a (rounds + 1) messages site [⟨messages, .ok answer, []⟩] (a.conclude answer) left
  | toolsFail {rounds : Nat} {messages : List Value} {site mid : Site μ} {answer : Value}
      {called : List Called} {why : Failure} {files : FileTree}
      (hmodel : Site.onMemory (a.model (a.ask messages)) site = (.ok answer, mid))
      (hcalls : Message.callsOf answer ≠ [])
      (htools : Tool.Answered a.tools (Message.callsOf answer) mid.files called (.error why)
        files) :
      Converses a (rounds + 1) messages site [⟨messages, .ok answer, called⟩] (.error why)
        { mid with files := files }
  | round {rounds : Nat} {messages reports : List Value} {site mid left : Site μ} {answer : Value}
      {called : List Called} {files : FileTree} {turns : List Turn} {result : Except Failure Value}
      (hmodel : Site.onMemory (a.model (a.ask messages)) site = (.ok answer, mid))
      (hcalls : Message.callsOf answer ≠ [])
      (htools : Tool.Answered a.tools (Message.callsOf answer) mid.files called (.ok reports)
        files)
      (hrest : Converses a rounds (messages ++ answer :: reports) { mid with files := files } turns
        result left) :
      Converses a (rounds + 1) messages site (⟨messages, .ok answer, called⟩ :: turns) result left

section Converse

variable {a : Agent μ} {messages : List Value} {site mid : Site μ} {answer : Value}

theorem converse_concludes (rounds : Nat)
    (hmodel : Site.onMemory (a.model (a.ask messages)) site = (.ok answer, mid))
    (hcalls : Message.callsOf answer = []) :
    a.converse (rounds + 1) messages site = (a.conclude answer, mid) := by
  refine (Act.bind_ok hmodel).trans ?_
  simp only [hcalls]
  rfl

theorem converse_calls (rounds : Nat)
    (hmodel : Site.onMemory (a.model (a.ask messages)) site = (.ok answer, mid))
    (hcalls : Message.callsOf answer ≠ []) :
    a.converse (rounds + 1) messages site =
      (Site.onFiles (Tool.answers a.tools (Message.callsOf answer)) >>= fun reports =>
        a.converse rounds (messages ++ answer :: reports)) mid := by
  refine (Act.bind_ok hmodel).trans ?_
  cases hlist : Message.callsOf answer with
  | nil => exact absurd hlist hcalls
  | cons call calls => rfl

/-- Every conversation goes in one of these ways. -/
theorem converses (a : Agent μ) (rounds : Nat) (messages : List Value) (site : Site μ) :
    ∃ turns, a.Converses rounds messages site turns (a.converse rounds messages site).1
      (a.converse rounds messages site).2 := by
  induction rounds generalizing messages site with
  | zero => exact ⟨[], .givesUp messages site⟩
  | succ rounds ih =>
    cases hmodel : Site.onMemory (a.model (a.ask messages)) site with
    | mk reply mid =>
      cases reply with
      | error why =>
        have heq : a.converse (rounds + 1) messages site = (.error why, mid) :=
          Act.bind_error hmodel
        rw [heq]
        exact ⟨_, .modelFails hmodel⟩
      | ok answer =>
        by_cases hcalls : Message.callsOf answer = []
        · rw [converse_concludes rounds hmodel hcalls]
          exact ⟨_, .concludes hmodel hcalls⟩
        · obtain ⟨cs, htools⟩ := Tool.answered a.tools (Message.callsOf answer) mid.files
          rw [converse_calls rounds hmodel hcalls]
          cases hanswers : Tool.answers a.tools (Message.callsOf answer) mid.files with
          | mk reports files =>
            rw [hanswers] at htools
            have hfiles : Site.onFiles (Tool.answers a.tools (Message.callsOf answer)) mid =
                (reports, { mid with files := files }) := by
              simp only [Site.onFiles, Act.onPart, hanswers]
            cases reports with
            | error why =>
              rw [Act.bind_error hfiles]
              exact ⟨_, .toolsFail hmodel hcalls htools⟩
            | ok reports =>
              rw [Act.bind_ok hfiles]
              obtain ⟨turns, hrest⟩ :=
                ih (messages ++ answer :: reports) { mid with files := files }
              exact ⟨_, .round hmodel hcalls htools hrest⟩

end Converse

namespace Converses

variable {a : Agent μ} {rounds : Nat} {messages : List Value} {site left : Site μ}
  {turns : List Turn} {result : Except Failure Value}

theorem calls (h : a.Converses rounds messages site turns result left) :
    Tool.Calls a.tools site.files (turns.flatMap Turn.called) left.files := by
  have hfiles : ∀ {α : Type} {x : Act μ α} {site mid : Site μ} {reply : Except Failure α},
      Site.onMemory x site = (reply, mid) → mid.files = site.files := by
    intro _ x site mid reply heq
    exact (congrArg (fun p => p.2.files) heq).symm
  induction h with
  | givesUp _ site => exact .none site.files
  | modelFails hmodel | concludes hmodel _ =>
    rw [hfiles hmodel]
    exact .none _
  | toolsFail hmodel _ htools =>
    have hcalls := htools.calls
    rw [hfiles hmodel] at hcalls
    simpa using hcalls
  | round hmodel _ htools _ ih =>
    have hcalls := htools.calls
    rw [hfiles hmodel] at hcalls
    exact hcalls.append ih

theorem messages_begin (h : a.Converses rounds messages site turns result left) :
    ∀ t ∈ turns, messages <+: t.messages := by
  induction h with
  | givesUp _ _ => simp
  | modelFails _ | concludes _ _ | toolsFail _ _ _ => simp
  | round _ _ _ _ ih =>
    intro t ht
    rcases List.mem_cons.mp ht with rfl | ht
    · exact List.prefix_refl _
    · exact (List.prefix_append _ _).trans (ih t ht)

/-- A conversation ends with a call that cannot be reported. -/
theorem fails_of_report (h : a.Converses rounds messages site turns result left) {t : Turn}
    (ht : t ∈ turns) {c : Called} (hc : c ∈ t.called) {why : Failure}
    (hreport : c.report = .error why) : result = .error why := by
  induction h with
  | givesUp _ _ => cases ht
  | modelFails _ | concludes _ _ =>
    obtain rfl := List.mem_singleton.mp ht
    cases hc
  | toolsFail _ _ htools =>
    obtain rfl := List.mem_singleton.mp ht
    cases htools.fails_of_report hc hreport
    rfl
  | round _ _ htools _ ih =>
    rcases List.mem_cons.mp ht with rfl | ht
    · cases htools.fails_of_report hc hreport
    · exact ih ht

/-- A conversation that succeeds comes to one message with a text. -/
theorem reported (h : a.Converses rounds messages site turns result left) {answer : Value}
    (hresult : result = .ok answer) :
    ∃ text, text ≠ "" ∧ answer = .mapping (Worker.reported a.name text) := by
  induction h with
  | givesUp _ _ | modelFails _ | toolsFail _ _ _ => cases hresult
  | concludes _ _ =>
    obtain ⟨text, _, htext, heq⟩ := conclude_eq_ok hresult
    exact ⟨text, htext, heq⟩
  | round _ _ _ _ ih => exact ih hresult

end Converses

end Agent

/-! ## What a worker begins with -/

namespace Worker

theorem fill_preamble (prompt members : String) : ∃ text, Value.fill Prompt.workerPreamble
    [(.str "system_prompt", .str prompt), (.str "team_members", .str members)] =
      .ok (prompt ++ text) :=
  ⟨_, Prompt.workerPreamble_reads.fill_texts
    [("system_prompt", prompt), ("team_members", members)] (by simp [Text.slots, Table.names])⟩

theorem messages_eq_ok {prompt : String} {given members : Value} {names : List String}
    {ms : List Value} (h : messages prompt given names members = .ok ms) :
    ∃ text rest, ms = Message.system (prompt ++ text) :: rest := by
  obtain ⟨_, _, h⟩ := bind_eq_ok.mp h
  obtain ⟨shown, _, h⟩ := bind_eq_ok.mp h
  obtain ⟨preamble, hpreamble, h⟩ := bind_eq_ok.mp h
  obtain ⟨text, htext⟩ := fill_preamble prompt shown
  rw [htext] at hpreamble
  cases hpreamble
  obtain ⟨_, _, h⟩ := bind_eq_ok.mp h
  obtain ⟨closing, _, h⟩ := bind_eq_ok.mp h
  obtain ⟨said, _, h⟩ := bind_eq_ok.mp h
  cases h
  exact ⟨text, _, rfl⟩

theorem fill_instructions (instructions tools : String) : ∃ closing,
    Value.fill Prompt.workerInstructions [(.str "instructions", .str instructions),
      (.str "tool_names", .str tools)] = .ok closing :=
  ⟨_, Prompt.workerInstructions_reads.fill_texts
    [("instructions", instructions), ("tool_names", tools)] (by simp [Text.slots, Table.names])⟩

theorem messages_eq {prompt : String} {state : State} {members : Value} {names : List String}
    {ms : List Value} {shown instructions preamble closing : String} {said : List Value}
    (hmembers : members.items = .ok ms) (hshown : Value.joined ms = .ok shown)
    (hpreamble : Value.fill Prompt.workerPreamble
      [(.str "system_prompt", .str prompt), (.str "team_members", .str shown)] = .ok preamble)
    (hinstructions : (State.peek state "instructions").orElse (.str "") = .str instructions)
    (hclosing : Value.fill Prompt.workerInstructions [(.str "instructions", .str instructions),
      (.str "tool_names", .str (if (Value.commas names).isEmpty then "none"
        else Value.commas names))] = .ok closing)
    (hsaid : State.itemsOf state "messages" = .ok said) :
    messages prompt (.mapping state) names members =
      .ok (Message.system preamble :: said ++ [Message.human closing]) := by
  rw [← hinstructions] at hclosing
  exact bind_eq_ok.mpr ⟨ms, hmembers, bind_eq_ok.mpr ⟨shown, hshown,
    bind_eq_ok.mpr ⟨preamble, hpreamble, bind_eq_ok.mpr ⟨state, rfl,
      bind_eq_ok.mpr ⟨closing, hclosing, bind_eq_ok.mpr ⟨said, hsaid, rfl⟩⟩⟩⟩⟩⟩

theorem messages_ok {prompt : String} {state : State} {members : Value} (names : List String)
    {ms : List Value} {shown instructions : String} {said : List Value}
    (hmembers : members.items = .ok ms) (hshown : Value.joined ms = .ok shown)
    (hinstructions : (State.peek state "instructions").orElse (.str "") = .str instructions)
    (hsaid : State.itemsOf state "messages" = .ok said) :
    ∃ opening, messages prompt (.mapping state) names members = .ok opening := by
  obtain ⟨text, htext⟩ := fill_preamble prompt shown
  obtain ⟨closing, hclosing⟩ := fill_instructions instructions
    (if (Value.commas names).isEmpty then "none" else Value.commas names)
  exact ⟨_, messages_eq hmembers hshown htext hinstructions hclosing hsaid⟩

end Worker

namespace Agent

/-! ## Agents -/

def opening (a : Agent μ) (given : Value) : Act (Site μ) (List Value) := do
  let prompt ← a.filledPrompt given
  let members ← Act.ofExcept do return a.roster (← given.state)
  Act.ofExcept (Worker.messages prompt given a.toolNames members)

theorem handler_eq (a : Agent μ) (given : Value) :
    a.handler given = a.opening given >>= a.converse (a.maxRounds + 1).toNat := by
  simp only [handler, opening, bind_assoc]

/-- An agent without a context has something to begin with even in an empty state. -/
theorem opening_plain {a : Agent μ} (hcontext : a.context = none) (names : List String)
    (hmembers : a.members = Value.ofText names) (site : Site μ) :
    ∃ messages, a.opening (.mapping []) site = (.ok messages, site) := by
  have hitems : a.members.items = .ok (names.map .str) := hmembers ▸ rfl
  have hinstructions : (State.peek [] "instructions").orElse (.str "") = .str "" := rfl
  have hsaid : State.itemsOf [] "messages" = .ok [] := rfl
  obtain ⟨messages, hmessages⟩ : ∃ messages,
      Worker.messages a.prompt (.mapping []) a.toolNames a.members = .ok messages :=
    Worker.messages_ok _ hitems (Value.joined_texts names) hinstructions hsaid
  have hprompt : a.filledPrompt (.mapping []) site = (.ok a.prompt, site) := by
    rw [filledPrompt, hcontext]
    rfl
  exact ⟨messages, (Act.bind_ok hprompt).trans (congrArg (·, site) hmessages)⟩

/-- How a call of an agent goes: it has nothing to begin with, or it converses. -/
inductive Handles (a : Agent μ) (given : Value) (site : Site μ) :
    List Turn → Except Failure Value → Site μ → Prop where
  | fails {why : Failure} {left : Site μ} (hopening : a.opening given site = (.error why, left)) :
      Handles a given site [] (.error why) left
  | converses {messages : List Value} {mid left : Site μ} {turns : List Turn}
      {result : Except Failure Value} (hopening : a.opening given site = (.ok messages, mid))
      (hturns : a.Converses (a.maxRounds + 1).toNat messages mid turns result left) :
      Handles a given site turns result left

/-- Every call of an agent goes in one of these ways. -/
theorem handles (a : Agent μ) (given : Value) (site : Site μ) :
    ∃ turns, a.Handles given site turns (a.handler given site).1 (a.handler given site).2 := by
  rw [handler_eq]
  cases hopening : a.opening given site with
  | mk messages mid =>
    cases messages with
    | error why =>
      rw [Act.bind_error hopening]
      exact ⟨[], .fails hopening⟩
    | ok messages =>
      obtain ⟨turns, hturns⟩ := a.converses (a.maxRounds + 1).toNat messages mid
      rw [Act.bind_ok hopening]
      exact ⟨turns, .converses hopening hturns⟩

theorem Handles.fails_of_report {a : Agent μ} {given : Value} {site left : Site μ}
    {turns : List Turn} {result : Except Failure Value}
    (h : a.Handles given site turns result left) {t : Turn} (ht : t ∈ turns) {c : Called}
    (hc : c ∈ t.called) {why : Failure} (hreport : c.report = .error why) :
    result = .error why := by
  cases h with
  | fails _ => cases ht
  | converses _ hturns => exact hturns.fails_of_report ht hc hreport

theorem handler_eq_ok {a : Agent μ} {given answer : Value} {site left : Site μ}
    (h : a.handler given site = (.ok answer, left)) :
    ∃ text, text ≠ "" ∧ answer = .mapping (Worker.reported a.name text) := by
  obtain ⟨turns, hturns⟩ := a.handles given site
  rw [h] at hturns
  cases hturns with
  | converses _ hturns => exact hturns.reported rfl

end Agent

end TeamFlow
