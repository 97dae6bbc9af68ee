import TeamFlow.Proofs.Form
import TeamFlow.Proofs.Team.DocumentTeam
import TeamFlow.Proofs.Text.Blank
import TeamFlow.Proofs.Worker.Rounds

/-! # Transcripts

Each time that a model is asked, it is shown what the agent began with and then
every answer so far, each with the reports on its calls behind it (`shown`). A call
with an id comes to one report under this id, whatever becomes of it, unless its
tool fails with something that cannot be put into words (`Reported`). So if all
calls have ids and all failures can be told, tools end no conversation, and it goes
on until an answer asks for none or the turns are used up (`Finishes`). -/
namespace TeamFlow

variable {μ : Type}

/-! ## Reports -/

namespace Tool

/-- The message that reports on a call with an id: a success, or a failure if there is no tool of
the name, the arguments do not fit, or the tool itself fails. -/
inductive Reported (tools : List Tool) (c : Called) (id : String) : Value → Prop where
  | succeeds {tool : Tool} {args : Table Value} {text : String}
      (htool : find? tools c.call.name = some tool)
      (hargs : (tool.form.fields? (Entries.ofFields c.call.args)).toExcept = .ok args)
      (hrun : (tool.run args c.before).1 = .ok text) :
      Reported tools c id (Message.report id tool.name text)
  | unknown (htool : find? tools c.call.name = none) :
      Reported tools c id
        (Message.failure id ("Error: unknown tool " ++ Text.quoted c.call.name))
  | misfits {tool : Tool} {why : Failure} (htool : find? tools c.call.name = some tool)
      (hargs : (tool.form.fields? (Entries.ofFields c.call.args)).toExcept = .error why) :
      Reported tools c id (Message.failure id ("Error: " ++ why.message))
  | fails {tool : Tool} {args : Table Value} {why : Failure}
      (htool : find? tools c.call.name = some tool)
      (hargs : (tool.form.fields? (Entries.ofFields c.call.args)).toExcept = .ok args)
      (hrun : (tool.run args c.before).1 = .error why) :
      Reported tools c id (Message.failure id ("Error: " ++ why.message))

theorem invoke_eq (t : Tool) (args : Entries) (files : FileTree) :
    (t.invoke args files).1 = match (t.form.fields? args).toExcept with
      | .ok fitted => (t.run fitted files).1
      | .error why => .error why := by
  rw [invoke, Act.bind_apply, Act.ofExcept]
  cases (t.form.fields? args).toExcept <;> rfl

/-- What becomes of a call that has an id: it has been reported under this id. -/
def ReportedAs (tools : List Tool) (c : Called) (report : Value) : Prop :=
  ∃ id, c.call.id = some id ∧ c.report = .ok report ∧ Reported tools c id report

/-- If the tool of a call fails, what it fails with can be put into words. -/
def Tellable (tools : List Tool) (c : Called) : Prop :=
  ∀ tool args why, find? tools c.call.name = some tool →
    (tool.form.fields? (Entries.ofFields c.call.args)).toExcept = .ok args →
    (tool.run args c.before).1 = .error why → why.isWritable = true

/-- A call with an id is reported under it, whatever becomes of it that can be told. -/
theorem reportedAs_of_id {tools : List Tool} {c : Called} {id : String}
    (h : answer tools c.call c.before = (c.report, c.after)) (hid : c.call.id = some id)
    (htell : Tellable tools c) : ∃ report, ReportedAs tools c report := by
  have hreport : c.report = (answer tools c.call c.before).1 := (congrArg Prod.fst h).symm
  have htold : ∀ why : Failure, why.isWritable = true →
      (do refused (some id) ("Error: " ++ (← why.written)) : Except Failure Value) =
        .ok (Message.failure id ("Error: " ++ why.message)) := by
    intro why hwritable
    rw [Failure.written, if_pos hwritable]
    rfl
  cases htool : find? tools c.call.name with
  | none =>
    rw [answer_unknown htool, hid] at hreport
    exact ⟨_, id, hid, hreport, .unknown htool⟩
  | some tool =>
    rw [answer_known htool, hid, invoke_eq] at hreport
    cases hargs : (tool.form.fields? (Entries.ofFields c.call.args)).toExcept with
    | error why =>
      -- the complaint about arguments names fields, not values
      obtain ⟨faults, _, rfl⟩ := Fit.toExcept_eq_error.mp hargs
      rw [hargs] at hreport
      exact ⟨_, id, hid, hreport.trans (htold _ rfl), .misfits htool hargs⟩
    | ok args =>
      rw [hargs] at hreport
      cases hrun : (tool.run args c.before).1 with
      | ok text =>
        simp only [hrun] at hreport
        exact ⟨_, id, hid, hreport, .succeeds htool hargs hrun⟩
      | error why =>
        simp only [hrun] at hreport
        have hwritable := htell tool args why htool hargs hrun
        exact ⟨_, id, hid, hreport.trans (htold why hwritable), .fails htool hargs hrun⟩

/-- Calls with ids whose failures can be told come to one report each, in their order. -/
theorem Answered.reported {tools : List Tool} {calls : List ToolCall} {files left : FileTree}
    {cs : List Called} {result : Except Failure (List Value)}
    (h : Answered tools calls files cs result left)
    (hids : ∀ call ∈ calls, ∃ id, call.id = some id) (htell : ∀ c ∈ cs, Tellable tools c) :
    ∃ reports, result = .ok reports ∧ List.Forall₂ (ReportedAs tools) cs reports := by
  induction h with
  | none _ => exact ⟨[], rfl, .nil⟩
  | @fails call calls files left why hcall =>
    obtain ⟨id, hid⟩ := hids call List.mem_cons_self
    obtain ⟨_, _, _, hreport, _⟩ :=
      reportedAs_of_id (c := ⟨call, files, .error why, left⟩) hcall hid (htell _ (.head _))
    cases hreport
  | @reports call calls files mid left report cs rest hcall _ ih =>
    obtain ⟨hfirst, hrest⟩ := List.forall_mem_cons.mp hids
    obtain ⟨htellFirst, htellRest⟩ := List.forall_mem_cons.mp htell
    obtain ⟨id, hid⟩ := hfirst
    obtain ⟨_, id, hid, hreport, hkind⟩ :=
      reportedAs_of_id (c := ⟨call, files, .ok report, mid⟩) hcall hid htellFirst
    cases hreport
    obtain ⟨reports, rfl, hreports⟩ := ih hrest htellRest
    exact ⟨report :: reports, rfl, .cons ⟨id, hid, rfl, hkind⟩ hreports⟩

theorem report_of_mem {tools : List Tool} {cs : List Called} {reports : List Value}
    (h : List.Forall₂ (ReportedAs tools) cs reports) {c : Called} (hc : c ∈ cs) :
    ∃ report, c.report = .ok report := by
  induction h with
  | nil => cases hc
  | cons hfirst _ ih =>
    rcases List.mem_cons.mp hc with rfl | hc
    · obtain ⟨_, _, hreport, _⟩ := hfirst
      exact ⟨_, hreport⟩
    · exact ih hc

end Tool

/-! ## Turns -/

/-- What a turn adds to the messages: the answer, and behind it the reports on its calls. -/
def Turn.exchange (t : Turn) : List Value :=
  match t.answer with
  | .ok answer => answer :: t.called.filterMap fun c => c.report.toOption
  | .error _ => []

/-- What the turn's calls fail with can be put into words. -/
def Turn.Tellable (tools : List Tool) (t : Turn) : Prop := ∀ c ∈ t.called, Tool.Tellable tools c

/-- The turn's exchange is its answer with one report on each of the answer's calls, in order. -/
def Turn.Reported (tools : List Tool) (t : Turn) : Prop :=
  ∀ answer, t.answer = .ok answer → ∃ reports, t.exchange = answer :: reports ∧
    t.called.map Called.call = Message.callsOf answer ∧
    List.Forall₂ (Tool.ReportedAs tools) t.called reports

theorem Turn.exchange_of_reports {t : Turn} {answer : Value} {reports : List Value}
    (hanswer : t.answer = .ok answer) (hreports : t.called.map Called.report = reports.map .ok) :
    t.exchange = answer :: reports := by
  have hall : t.called.filterMap (fun c => c.report.toOption) = reports := by
    rw [show (fun c : Called => c.report.toOption) = Except.toOption ∘ Called.report from rfl,
      ← List.filterMap_map, hreports, List.filterMap_map]
    exact List.filterMap_some
  simp only [exchange, hanswer, hall]

namespace Agent

/-! ## What the model is shown -/

section Converse

variable {a : Agent μ} {rounds : Nat} {messages : List Value} {site left : Site μ}
  {turns : List Turn} {result : Except Failure Value}

/-- What the model is shown each time, by induction on how the conversation goes. -/
theorem Converses.shown (h : a.Converses rounds messages site turns result left) {k : Nat}
    {t : Turn} (ht : turns[k]? = some t) :
    t.messages = messages ++ (turns.take k).flatMap Turn.exchange := by
  -- a single turn is shown what there is, and no turn comes before it
  have hsingle : ∀ {k : Nat} {t u : Turn}, [u][k]? = some t →
      t.messages = u.messages ++ ([u].take k).flatMap Turn.exchange := by
    intro k t u hu
    cases k with
    | zero =>
      cases hu
      simp
    | succ k => simp at hu
  induction h generalizing k with
  | givesUp _ _ => cases ht
  | modelFails _ | concludes _ _ | toolsFail _ _ _ => exact hsingle ht
  | @round _ messages reports _ _ _ answer called _ turns _ _ _ htools _ ih =>
    cases k with
    | zero =>
      cases ht
      simp
    | succ k =>
      have hexchange : Turn.exchange ⟨messages, .ok answer, called⟩ = answer :: reports :=
        Turn.exchange_of_reports rfl (htools.reports_eq rfl).2
      rw [ih ht, List.take_succ_cons, List.flatMap_cons, hexchange, List.append_assoc]

/-- How a conversation with so many turns ends if no tool call ends it: with the first answer that
asks for no tool, with a model that fails, or with the turns used up. -/
inductive Finishes (a : Agent μ) (allowed : Nat) : List Turn → Except Failure Value → Prop where
  | answers {turns : List Turn} (messages : List Value) {answer : Value}
      (hlength : turns.length < allowed) (hran : ∀ t ∈ turns, t.RanTools)
      (hcalls : Message.callsOf answer = []) :
      Finishes a allowed (turns ++ [⟨messages, .ok answer, []⟩]) (a.conclude answer)
  | modelFails {turns : List Turn} (messages : List Value) (why : Failure)
      (hlength : turns.length < allowed) (hran : ∀ t ∈ turns, t.RanTools) :
      Finishes a allowed (turns ++ [⟨messages, .error why, []⟩]) (.error why)
  | gaveUp {turns : List Turn} (hlength : turns.length = allowed)
      (hran : ∀ t ∈ turns, t.RanTools) : Finishes a allowed turns (.error a.unfinished)

theorem Ends.finishes {allowed : Nat} (h : a.Ends allowed turns result)
    (hreported : ∀ t ∈ turns, t.Reported a.tools) : a.Finishes allowed turns result := by
  cases h with
  | gaveUp hlength hran => exact .gaveUp hlength hran
  | @settled turns last _ hlength hran hlast =>
    cases hlast with
    | modelFails messages why => exact .modelFails messages why hlength hran
    | concludes messages hcalls => exact .answers messages hlength hran hcalls
    | @toolsFail messages answer before c why _ _ hc =>
      obtain ⟨_, hlast⟩ := List.forall_mem_append.mp hreported
      obtain ⟨_, _, _, hall⟩ := List.forall_mem_singleton.mp hlast answer rfl
      obtain ⟨report, hreport⟩ := Tool.report_of_mem hall List.mem_concat_self
      rw [hc] at hreport
      cases hreport

end Converse

def missing : ToolCall := ⟨"erase_document", [], some "c2"⟩

end Agent

end TeamFlow
