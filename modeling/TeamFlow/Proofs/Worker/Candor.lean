import TeamFlow.Proofs.Failing
import TeamFlow.Proofs.Prompt
import TeamFlow.Proofs.Worker.Conversation
import TeamFlow.Worker.Brainstorm
import TeamFlow.Worker.Search

/-! # What workers fail with

A worker fails as its model does, or in an ordinary way: because of the state it
is given, of an answer that it cannot use, or of a tool call without an id. What
a tool fails with it reports to its model. So no worker is out of steps unless
its model says so. -/
namespace TeamFlow

open Failure

variable {μ : Type}

/-- A model that never fails with a step-limit error. -/
def ChatModel.Candid (model : ChatModel μ) : Prop :=
  ∀ ask, (model ask).FailsOnly (·.isStepLimit = false)

namespace Tool

theorem refused_failsOnly (id : Option String) (text : String) :
    FailsOnly Ordinary (refused id text) := by
  unfold refused
  split
  · exact .ok _
  · exact .error (ordinary_invalid _)

/-- Whatever a tool fails with becomes a report, if it can be told and there is an id for it. -/
theorem answer_failsOnly (tools : List Tool) (call : ToolCall) :
    (answer tools call).FailsOnly Ordinary := by
  unfold answer
  split
  next => exact .ofExcept (refused_failsOnly _ _)
  next t _ =>
    refine (Act.FailsOnly.attempt _).bind fun result => ?_
    cases result with
    | ok text => exact .pure _
    | error why =>
      exact (Act.FailsOnly.ofExcept why.written_failsOnly).bind fun _ =>
        .ofExcept (refused_failsOnly _ _)

theorem answers_failsOnly (tools : List Tool) (calls : List ToolCall) :
    (answers tools calls).FailsOnly Ordinary := by
  induction calls with
  | nil => exact .pure []
  | cons call calls ih => exact (answer_failsOnly tools call).bind fun _ => ih.bind fun _ => .pure _

end Tool

namespace Worker

theorem messages_failsOnly (prompt : String) (given : Value) (toolNames : List String)
    (members : Value) : FailsOnly Ordinary (messages prompt given toolNames members) := by
  refine members.items_failsOnly.bind fun ms => (Value.joined_failsOnly ms).bind fun shown => ?_
  obtain ⟨text, hpreamble⟩ := fill_preamble prompt shown
  rw [hpreamble]
  refine FailsOnly.bind (.ok _) fun preamble => given.state_failsOnly.bind fun state => ?_
  refine FailsOnly.bind ?_ fun closing => (State.itemsOf_failsOnly _ _).bind fun _ => .ok _
  have hasks : Value.AsksOnly ["instructions", "tool_names"] Prompt.workerInstructions :=
    Prompt.workerInstructions_reads.asksOnly (by simp [Text.slots])
  refine Value.fill_failsOnly hasks fun name hname => ?_
  rcases List.mem_pair.mp hname with rfl | rfl
  · exact ⟨by decide, _, rfl⟩
  · exact ⟨by decide, _, rfl⟩

end Worker

namespace Agent

theorem conclude_failsOnly (a : Agent μ) (answer : Value) :
    FailsOnly Ordinary (a.conclude answer) := by
  refine (Message.answerText_failsOnly answer).bind fun text => ?_
  split
  · exact .error (ordinary_plain _ _)
  · exact .ok _

/-- A conversation fails as the model does or in an ordinary way, by induction on the rounds that
are left. -/
theorem converse_candid {a : Agent μ} (hmodel : a.model.Candid) (rounds : Nat)
    (messages : List Value) :
    (a.converse rounds messages).FailsOnly (·.isStepLimit = false) := by
  induction rounds generalizing messages with
  | zero => exact .fail rfl
  | succ rounds ih =>
    refine (Act.FailsOnly.onPart (hmodel _)).bind fun answer => ?_
    split
    · exact (a.conclude_failsOnly answer).candid
    · have htools := Tool.answers_failsOnly a.tools (Message.callsOf answer)
      exact (htools.imp fun _ h => h.not_stepLimit).onPart.bind fun reports => ih _

/-- An agent that begins in an ordinary way fails as its model does. -/
theorem handler_candid {a : Agent μ} (hmodel : a.model.Candid) {given : Value}
    (hopening : (a.opening given).FailsOnly Ordinary) :
    (a.handler given).FailsOnly (·.isStepLimit = false) := by
  rw [handler_eq]
  exact (hopening.imp fun _ h => h.not_stepLimit).bind fun messages =>
    converse_candid hmodel _ messages

theorem opening_failsOnly {a : Agent μ} (hcontext : a.context = none) (given : Value) :
    (a.opening given).FailsOnly Ordinary := by
  have hprompt : (a.filledPrompt given).FailsOnly Ordinary := by
    rw [filledPrompt, hcontext]
    exact .pure _
  refine hprompt.bind fun prompt => Act.FailsOnly.bind (.ofExcept ?_) fun members =>
    .ofExcept (Worker.messages_failsOnly _ _ _ _)
  exact given.state_failsOnly.bind fun _ => .ok _

end Agent

namespace Brainstormer

theorem question_failsOnly (known : List Value) : FailsOnly Ordinary (question known) := by
  unfold question
  split
  · exact .ok _
  · exact (FailsOnly.mapM (fun v => v.unlessLong_failsOnly _) known).bind fun _ => .ok _

theorem proposals_failsOnly (answer : Value) : FailsOnly Ordinary (proposals answer) := by
  unfold proposals
  dsimp only
  split
  · exact .ok _
  · exact .error (ordinary_plain _ _)

theorem handler_candid {b : Brainstormer μ} (hmodel : b.model.Candid) (given : Value) :
    (b.handler given).FailsOnly (·.isStepLimit = false) :=
  given.state_failsOnly.candid.bind fun state =>
    (state.itemsOf_failsOnly _).candid.bind fun known =>
    (question_failsOnly known).candid.bind fun _ =>
    (state.itemsOf_failsOnly _).candid.bind fun _ =>
    (Act.FailsOnly.onPart (hmodel _)).bind fun answer =>
    (proposals_failsOnly answer).candid.bind fun _ => .pure _

end Brainstormer

namespace Searcher

theorem note_failsOnly (label : String) (v : Value) : FailsOnly Ordinary (note label v) := by
  unfold note
  split
  · exact (v.unlessLong_failsOnly _).bind fun _ => .ok _
  · exact .ok _

theorem messages_failsOnly (state : State) : FailsOnly Ordinary (messages state) := by
  have hguidance : FailsOnly Ordinary (guidance state) :=
    (note_failsOnly _ _).bind fun _ => (note_failsOnly _ _).bind fun _ => .ok _
  refine hguidance.bind fun guidance => (state.itemsOf_failsOnly _).bind fun said => ?_
  cases said with
  | nil =>
    have hquestion : FailsOnly Ordinary (Message.make .human
        ((State.peek state "instructions").orElse (.str "")) none) :=
      (Fit.toExcept_failsOnly _).bind fun _ => .ok _
    exact hquestion.bind fun _ => .ok _
  | cons m ms => exact .ok _

theorem handler_candid {s : Searcher μ} (hmodel : s.model.Candid) (given : Value) :
    (s.handler given).FailsOnly (·.isStepLimit = false) := by
  have hmessages : FailsOnly Ordinary (do messages (← given.state)) :=
    given.state_failsOnly.bind messages_failsOnly
  refine hmessages.candid.bind fun messages =>
    (Act.FailsOnly.onPart (hmodel _)).bind fun answer =>
    (Message.answerText_failsOnly answer).candid.bind fun text => ?_
  split
  · exact .fail rfl
  · exact .pure _

end Searcher

end TeamFlow
