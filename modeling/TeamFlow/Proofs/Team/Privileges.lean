import TeamFlow.Proofs.Team.DocumentTeam
import TeamFlow.Proofs.Workspace.Confinement

/-! # What the document team may do

Whatever the models of the document team answer, the calls of its workers stay
inside the workspace and change files only with the tools that the worker was
given for it, if they succeed (`Privileged`). A call of any other tool changes
nothing. It is reported to the model if it has an id, and else ends the step. -/
namespace TeamFlow

variable {μ : Type}

namespace Team

open Run Workspace

/-- The tools with which a member can change files. -/
def changers (member : String) : List String :=
  if member = writerName then ["write_document", "edit_document"]
  else if member = noteTakerName then ["create_outline"]
  else []

/-- What a call of a worker can do, and what it can depend on. -/
structure Privileged (w : Workspace) (a : Agent μ) (c : Called) : Prop where
  inside : w.StaysInside c.before c.after
  confines : w.Confines (Tool.answer a.tools c.call)
  changes : ¬ c.before.SameFiles c.after → c.call.name ∈ changers a.name ∧
    ∃ tool, Tool.find? a.tools c.call.name = some tool ∧
      ∃ text, c.report = .ok (tool.accepted c.call.id text)
  charts : a.name = chartGeneratorName → c.after = c.before
  unknown : Tool.find? a.tools c.call.name = none → c.after = c.before ∧
    c.report = Tool.refused c.call.id ("Error: unknown tool " ++ Text.quoted c.call.name)

/-! ## Calls -/

section Calls

variable {w : Workspace} {tools : List Tool}

theorem confines_invoke {tool : Tool} (htool : tool ∈ w.tools) (args : Entries) :
    w.Confines (tool.invoke args) :=
  (Confines.ofExcept _).bind fun args => confines_tools htool args

theorem confines_answer (htools : ∀ tool ∈ tools, tool ∈ w.tools) (call : ToolCall) :
    w.Confines (Tool.answer tools call) := by
  unfold Tool.answer
  split
  next => exact .ofExcept _
  next tool htool =>
    have hmem := htools tool (Tool.mem_of_find? htool).1
    refine (confines_invoke hmem _).attempt.bind fun result => ?_
    cases result with
    | ok text => exact .ofExcept (.ok _)
    | error why => exact (Confines.ofExcept _).bind fun _ => .ofExcept _

theorem failsCleanly_tools {tool : Tool} (h : tool ∈ w.tools) (args : Table Value) :
    FailsCleanly (tool.run args) := by
  simp only [Workspace.tools, List.mem_cons, List.not_mem_nil, or_false] at h
  rcases h with rfl | rfl | rfl | rfl
  · exact failsCleanly_writeDocument _ _
  · exact fun t _ _ => by
      rw [show (w.readTool.run args t).2 = t from readDocument_leaves _ _ _ t]
      exact .refl t
  · exact failsCleanly_editDocument _ _
  · exact failsCleanly_createOutline _ _

/-- A call that changes files is one of a tool that succeeds. -/
theorem succeeds_of_changes (htools : ∀ tool ∈ tools, tool ∈ w.tools) {c : Called}
    (h : Tool.answer tools c.call c.before = (c.report, c.after))
    (hchanges : ¬ c.before.SameFiles c.after) :
    ∃ tool, Tool.find? tools c.call.name = some tool ∧
      ∃ text, c.report = .ok (tool.accepted c.call.id text) := by
  cases hfind : Tool.find? tools c.call.name with
  | none =>
    rw [Tool.answer_unknown hfind, Prod.mk.injEq] at h
    exact absurd (h.2 ▸ .refl _) hchanges
  | some tool =>
    have hmem := (Tool.mem_of_find? hfind).1
    have hclean : FailsCleanly (tool.invoke (Entries.ofFields c.call.args)) :=
      .after (fun t => .refl t) fun args => failsCleanly_tools (htools tool hmem) args
    rw [Tool.answer_known hfind, Prod.mk.injEq] at h
    obtain ⟨hreport, hafter⟩ := h
    cases hresult : (tool.invoke (Entries.ofFields c.call.args) c.before).1 with
    | error why => exact absurd (hafter ▸ hclean c.before why hresult) hchanges
    | ok text =>
      rw [hresult] at hreport
      exact ⟨tool, rfl, text, hreport.symm⟩

end Calls

/-! ## The members -/

section Members

variable {model : ChatModel μ} {w : Workspace} {a : Agent μ}

theorem tools_of_member (h : a ∈ documentAgents model w) : ∀ tool ∈ a.tools, tool ∈ w.tools := by
  simp only [documentAgents, List.mem_cons, List.not_mem_nil, or_false] at h
  rcases h with rfl | rfl | rfl <;> simp [documentWorker, Workspace.tools]

/-- A tool of a member that is not one to change files with is the one for reading. -/
theorem changer_or_reader (h : a ∈ documentAgents model w) {tool : Tool} (htool : tool ∈ a.tools) :
    tool.name ∈ changers a.name ∨ tool = w.readTool := by
  simp only [documentAgents, List.mem_cons, List.not_mem_nil, or_false] at h
  rcases h with rfl | rfl | rfl <;>
    simp only [documentWorker, List.mem_cons, List.not_mem_nil, or_false] at htool
  · rcases htool with rfl | rfl | rfl
    · exact .inl (.head _)
    · exact .inl (.tail _ (.head _))
    · exact .inr rfl
  · rcases htool with rfl | rfl
    · exact .inl (.head _)
    · exact .inr rfl
  · exact .inr htool

theorem after_of_reader {tools : List Tool} {c : Called}
    (hfind : Tool.find? tools c.call.name = some w.readTool)
    (h : Tool.answer tools c.call c.before = (c.report, c.after)) : c.after = c.before := by
  rw [Tool.answer_known hfind, Prod.mk.injEq] at h
  rw [← h.2]
  unfold Tool.invoke
  rw [Act.bind_apply, Act.ofExcept]
  cases (w.readTool.form.fields? (Entries.ofFields c.call.args)).toExcept with
  | error why => rfl
  | ok args => exact readDocument_leaves _ _ _ _

/-- What every call of a member can do. -/
theorem privileged (ha : a ∈ documentAgents model w) {c : Called}
    (h : Tool.answer a.tools c.call c.before = (c.report, c.after)) : Privileged w a c := by
  have hconfines := confines_answer (tools_of_member ha) c.call
  have hunknown : Tool.find? a.tools c.call.name = none → c.after = c.before ∧
      c.report = Tool.refused c.call.id ("Error: unknown tool " ++ Text.quoted c.call.name) := by
    intro hfind
    rw [Tool.answer_unknown hfind, Prod.mk.injEq] at h
    exact ⟨h.2.symm, h.1.symm⟩
  have hreads : c.call.name ∉ changers a.name → c.after = c.before := by
    intro hother
    cases hfind : Tool.find? a.tools c.call.name with
    | none => exact (hunknown hfind).1
    | some tool =>
      obtain ⟨hmem, hname⟩ := Tool.mem_of_find? hfind
      rcases changer_or_reader ha hmem with hchanger | rfl
      · exact absurd (hname ▸ hchanger) hother
      · exact after_of_reader hfind h
  refine ⟨?_, hconfines, fun hchanges => ⟨?_, succeeds_of_changes (tools_of_member ha) h hchanges⟩,
    fun hchart => hreads ?_, hunknown⟩
  · have hstays := hconfines.stays c.before
    rwa [h] at hstays
  · by_contra hother
    exact hchanges (hreads hother ▸ .refl _)
  · rw [hchart]
    exact List.not_mem_nil

end Members

/-! ## The requests -/

/-- What a request does to the files: the calls of the worker whose turn it is do it, and a call
that cannot be reported ends the request. Without such a turn the files are left alone. -/
inductive Behaves (model : ChatModel μ) (w : Workspace) (r : Run μ) (here : Site μ)
    (outcome : Outcome) (left : Site μ) : Prop where
  | works {a : Agent μ} {p : Run μ} {turns : List Turn} {result : Except Failure Value}
      (hagent : a ∈ documentAgents model w) (hturn : r.Turns here p here)
      (hnode : p.current = a.name) (hworks : Works w a r.state here turns result left)
      (hcalls : Tool.Calls a.tools here.files (turns.flatMap Turn.called) left.files)
      (hprivileged : ∀ t ∈ turns, ∀ c ∈ t.called, Privileged w a c)
      (hcharts : a.name = chartGeneratorName → left.files = here.files)
      (hreported : ∀ t ∈ turns, ∀ c ∈ t.called, ∀ why, c.report = .error why →
        ∃ raised, outcome = .failed raised) : Behaves model w r here outcome left
  | leaves (hturn : ∀ p mid, r.Turns here p mid → p.current = supervisorNode)
      (hfiles : left.files = here.files) : Behaves model w r here outcome left

theorem behaves_of_fileTurn {model : ChatModel μ} {w : Workspace} {r : Run μ}
    {here left : Site μ} {outcome : Outcome} (h : FileTurn model w r here outcome left) :
    Behaves model w r here outcome left := by
  cases h with
  | @works a p turns result hagent hturn hnode hworks hfails =>
    have hcalls := hworks.calls hagent
    have hprivileged : ∀ t ∈ turns, ∀ c ∈ t.called, Privileged w a c := fun t ht c hc =>
      privileged hagent (hcalls.answered c (List.mem_flatMap.mpr ⟨t, ht, hc⟩))
    refine .works hagent hturn hnode hworks hcalls hprivileged ?_ ?_
    · intro hchart
      have hstep : ∀ c : Called, Tool.answer a.tools c.call c.before = (c.report, c.after) →
          here.files = c.before → here.files = c.after := fun c hcall hfiles =>
        hfiles.trans ((privileged hagent hcall).charts hchart).symm
      exact (hcalls.keeps hstep rfl).symm
    · intro t ht c hc why hreport
      exact hfails why (hworks.fails_of_report ht hc hreport)
  | leaves hturn hfiles => exact .leaves hturn hfiles

theorem Behaves.ready {model : ChatModel μ} {w : Workspace} {r : Run μ} {here left : Site μ}
    {outcome : Outcome} (h : Behaves model w r here outcome left) (hready : w.Ready here.files) :
    w.Ready left.files := by
  cases h with
  | works hagent _ _ _ hcalls _ _ _ =>
    exact hcalls.keeps (fun c hcall hfiles =>
      hfiles.kept (privileged hagent hcall).inside.keeps) hready
  | leaves _ hfiles => rwa [hfiles]

/-- The document team is confined to its workspace, and its workers to their tools, whatever its
models and its oracle answer. -/
theorem document_confined {model : ChatModel μ} {oracle : Oracle μ} {w : Workspace} {limit : Value}
    {site built : Site μ} {g : Graph μ} (h : document model oracle w limit site = (.ok g, built)) :
    w.Ready built.files ∧ ∀ (initial given : Value) (before begun : Site μ) (start r : Run μ)
      (log : List (Exchange μ)), g.start initial given before = (.ok start, begun) →
      History start log r → ∀ here : Site μ,
        (w.Ready here.files → w.Ready (r.next here).2.files) ∧
        Behaves model w r here (r.next here).1.1 (r.next here).2 := by
  obtain ⟨hmade, hstar⟩ := document_eq model oracle w limit site
  rw [hmade] at h
  obtain ⟨⟨⟩, mid, hensure, heq⟩ := Act.bind_eq_ok.mp h
  cases heq
  constructor
  · exact ready_of_ensure (Site.files_of_onFiles hensure)
  · intro initial given before begun start r log hstart hlog here
    have hr := (hlog.sound hstar.compiled.linked (Sound.start hstart)).1
    have hbehaves := behaves_of_fileTurn (fileTurn_next model oracle w limit hr here)
    exact ⟨hbehaves.ready, hbehaves⟩

/-- The chart generator is not given a tool to write with: its turn leaves the files as they are. -/
theorem scribbler_confined : ∃ g built start r log,
    document (scribbling (some "c1")) charting desk .null (.bare 0) = (.ok g, built) ∧
    desk.Ready built.files ∧
    g.start (.mapping [(.str filesChannel, .str "stale")]) .null built = (.ok start, built) ∧
    History start log r ∧
    Behaves (scribbling (some "c1")) desk r (deskSite 1) (r.next (deskSite 1)).1.1
      (r.next (deskSite 1)).2 ∧
    ∃ p, r.Turns (deskSite 1) p (deskSite 1) ∧ p.current = chartGeneratorName ∧
      (r.next (deskSite 1)).2.files = (deskSite 1).files := by
  have hmade := document_desk (some "c1")
  have hstart := chartStart_starts (some "c1")
  obtain ⟨_, hlog⟩ := chartNamed_history (some "c1")
  have hturn := chartNamed_turns (some "c1")
  obtain ⟨hready, hconfined⟩ := document_confined hmade
  obtain ⟨_, hbehaves⟩ := hconfined _ _ _ _ _ _ _ hstart hlog (deskSite 1)
  refine ⟨_, _, _, _, _, hmade, hready, hstart, hlog, hbehaves, _, hturn, rfl, ?_⟩
  cases hbehaves with
  | works _ hturn' hnode _ _ _ hcharts _ =>
    rw [← turns_unique hturn hturn'] at hnode
    exact hcharts hnode.symm
  | leaves _ hfiles => exact hfiles

/-- But a call without an id of a tool that was not given is not answered with a message. -/
theorem unreported_call_refuted : ¬ ∀ (model : ChatModel Nat) (oracle : Oracle Nat) (w : Workspace)
    (limit : Value) (site built : Site Nat) (g : Graph Nat),
    document model oracle w limit site = (.ok g, built) →
    ∀ (initial given : Value) (before begun : Site Nat) (start r : Run Nat)
      (log : List (Exchange Nat)), g.start initial given before = (.ok start, begun) →
    History start log r → ∀ (here left : Site Nat) (p : Run Nat), r.Turns here p here →
    ∀ a ∈ documentAgents model w, p.current = a.name →
    ∀ (turns : List Turn) (result : Except Failure Value),
    Works w a r.state here turns result left → ∀ t ∈ turns, ∀ c ∈ t.called,
    Tool.find? a.tools c.call.name = none →
    ∃ id, c.report = .ok (Message.failure id
      ("Error: unknown tool " ++ Text.quoted c.call.name)) := by
  intro hall
  obtain ⟨_, hlog⟩ := chartNamed_history none
  obtain ⟨messages, hopening⟩ := chartist_opening none
  have hmodel : Site.onMemory ((chartist none).model ((chartist none).ask messages)) (deskSite 1) =
      (.ok (.message ⟨.ai [scribble none], .str "", none⟩), deskSite 2) := rfl
  have hanswer : Tool.answer (chartist none).tools (scribble none) (deskSite 2).files =
      (.error Tool.idMissing, (deskSite 2).files) := Tool.answer_unknown rfl _
  have hturns : (chartist none).Converses 6 messages (deskSite 1)
      [⟨messages, .ok (.message ⟨.ai [scribble none], .str "", none⟩),
        [⟨scribble none, (deskSite 2).files, .error Tool.idMissing, (deskSite 2).files⟩]⟩]
      (.error Tool.idMissing) { deskSite 2 with files := (deskSite 2).files } :=
    .toolsFail hmodel nofun (.fails hanswer)
  have hworks : Works desk (chartist none) (chartNamed none).state (deskSite 1) _ _ _ :=
    .handles (describe_desk 1) (.converses hopening hturns)
  obtain ⟨_, hreport⟩ := hall _ _ _ _ _ _ _ (document_desk none) _ _ _ _ _ _ _
    (chartStart_starts none) hlog _ _ _ (chartNamed_turns none) _ (chartist_mem none) rfl _ _
    hworks _ (.head _) _ (.head _) rfl
  cases hreport

end Team

end TeamFlow
