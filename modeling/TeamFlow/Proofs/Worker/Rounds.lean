import TeamFlow.Proofs.Worker.Conversation

/-! # Rounds of tool calls

An agent asks its model once more than it has rounds. The calls of an answer are
run before it is known whether another answer comes, so an agent that gives up has
run those of the last one as well, of which no model gets to know. Every call ends
in one of these ways: a turn settles it (`Settles`), after fewer rounds than there
are turns, or all turns have passed with their tools run (`Ends`). -/
namespace TeamFlow

variable {μ : Type}

/-- All tool calls of an answer, of which there are some, have been run and reported. -/
def Turn.RanTools (t : Turn) : Prop :=
  ∃ (answer : Value) (reports : List Value), t.answer = .ok answer ∧
    Message.callsOf answer ≠ [] ∧ t.called.map Called.call = Message.callsOf answer ∧
    t.called.map Called.report = reports.map .ok

/-- Has some tool call been run? -/
def Turn.ranSome (t : Turn) : Bool := !t.called.isEmpty

theorem Turn.RanTools.ranSome {t : Turn} (h : t.RanTools) : t.ranSome = true := by
  obtain ⟨answer, _, _, hcalls, hran, _⟩ := h
  rw [Turn.ranSome, Bool.not_eq_true', List.isEmpty_eq_false_iff]
  intro hnone
  rw [hnone] at hran
  exact hcalls hran.symm

/-- If a call cannot be reported, the calls before it have been, and none has been run after it. -/
theorem Tool.Answered.error_eq {tools : List Tool} {calls : List ToolCall} {files left : FileTree}
    {cs : List Called} {result : Except Failure (List Value)} {why : Failure}
    (h : Answered tools calls files cs result left) (hresult : result = .error why) :
    cs.map Called.call <+: calls ∧ ∃ before c, cs = before ++ [c] ∧ c.report = .error why ∧
      ∀ b ∈ before, ∃ report, b.report = .ok report := by
  induction h with
  | none _ => cases hresult
  | @fails call calls files left _ _ =>
    cases hresult
    exact ⟨⟨calls, rfl⟩, [], _, rfl, rfl, by simp⟩
  | @reports call calls files mid left report cs rest _ _ ih =>
    cases rest with
    | ok _ => cases hresult
    | error _ =>
      cases hresult
      obtain ⟨hran, before, c, rfl, hc, hbefore⟩ := ih rfl
      refine ⟨(List.prefix_cons_inj call).mpr hran, _ :: before, c, rfl, hc, ?_⟩
      exact List.forall_mem_cons.mpr ⟨⟨report, rfl⟩, hbefore⟩

namespace Agent

/-- How a turn settles a conversation: the model fails, its answer asks for no tool, or a call
cannot be reported. -/
inductive Settles (a : Agent μ) : Turn → Except Failure Value → Prop where
  | modelFails (messages : List Value) (why : Failure) :
      Settles a ⟨messages, .error why, []⟩ (.error why)
  | concludes (messages : List Value) {answer : Value} (hcalls : Message.callsOf answer = []) :
      Settles a ⟨messages, .ok answer, []⟩ (a.conclude answer)
  | toolsFail (messages : List Value) {answer : Value} {before : List Called} {c : Called}
      {why : Failure}
      (hcalls : (before ++ [c]).map Called.call <+: Message.callsOf answer)
      (hbefore : ∀ b ∈ before, ∃ report, b.report = .ok report) (hc : c.report = .error why) :
      Settles a ⟨messages, .ok answer, before ++ [c]⟩ (.error why)

/-- How the turns of a conversation end it, of which there may be so many: one of them settles it,
after others with their tools run, or all have passed. -/
inductive Ends (a : Agent μ) (allowed : Nat) : List Turn → Except Failure Value → Prop where
  | settled {turns : List Turn} {last : Turn} {result : Except Failure Value}
      (hlength : turns.length < allowed) (hran : ∀ t ∈ turns, t.RanTools)
      (hlast : a.Settles last result) : Ends a allowed (turns ++ [last]) result
  | gaveUp {turns : List Turn} (hlength : turns.length = allowed)
      (hran : ∀ t ∈ turns, t.RanTools) : Ends a allowed turns (.error a.unfinished)

namespace Ends

variable {a : Agent μ} {allowed : Nat} {turns : List Turn} {result : Except Failure Value}

theorem once {last : Turn} (h : a.Settles last result) : a.Ends (allowed + 1) [last] result := by
  show a.Ends (allowed + 1) ([] ++ [last]) result
  exact .settled (Nat.succ_pos allowed) (by simp) h

theorem cons {t : Turn} (h : a.Ends allowed turns result) (ht : t.RanTools) :
    a.Ends (allowed + 1) (t :: turns) result := by
  cases h with
  | @settled turns last _ hlength hran hlast =>
    show a.Ends (allowed + 1) ((t :: turns) ++ [last]) result
    exact .settled (Nat.succ_lt_succ hlength) (List.forall_mem_cons.mpr ⟨ht, hran⟩) hlast
  | gaveUp hlength hran =>
    exact .gaveUp (congrArg (· + 1) hlength) (List.forall_mem_cons.mpr ⟨ht, hran⟩)

theorem length_le (h : a.Ends allowed turns result) : turns.length ≤ allowed := by
  cases h with
  | settled hlength _ _ => simpa using Nat.succ_le_of_lt hlength
  | gaveUp hlength _ => exact hlength.le

/-- Only an agent that fails has run tools once more than it has rounds. -/
theorem ran {rounds : Nat} (h : a.Ends (rounds + 1) turns result) :
    turns.countP Turn.ranSome ≤ rounds ∨
      turns.countP Turn.ranSome = rounds + 1 ∧ ∃ why, result = .error why := by
  have hall : turns.countP Turn.ranSome ≤ turns.length := List.countP_le_length
  cases h with
  | @settled turns last _ hlength _ hlast =>
    have hbefore : turns.countP Turn.ranSome ≤ turns.length := List.countP_le_length
    cases hlast with
    | modelFails | concludes =>
      rw [List.countP_append]
      exact .inl (hbefore.trans (Nat.le_of_lt_succ hlength))
    | toolsFail _ _ _ _ =>
      rw [List.length_append, List.length_singleton] at hall
      rcases Nat.lt_or_eq_of_le (hall.trans hlength) with hle | heq
      · exact .inl (Nat.le_of_lt_succ hle)
      · exact .inr ⟨heq, _, rfl⟩
  | gaveUp hlength hran =>
    refine .inr ⟨?_, _, rfl⟩
    rw [List.countP_eq_length.mpr fun t ht => (hran t ht).ranSome, hlength]

end Ends

/-- Every conversation ends in one of these ways, by induction on how it goes. -/
theorem Converses.ends {a : Agent μ} {rounds : Nat} {messages : List Value} {site left : Site μ}
    {turns : List Turn} {result : Except Failure Value}
    (h : a.Converses rounds messages site turns result left) : a.Ends rounds turns result := by
  induction h with
  | givesUp _ _ => exact .gaveUp rfl (by simp)
  | modelFails _ => exact .once (.modelFails _ _)
  | concludes _ hcalls => exact .once (.concludes _ hcalls)
  | toolsFail _ _ htools =>
    obtain ⟨hran, before, c, rfl, hc, hbefore⟩ := htools.error_eq rfl
    exact .once (.toolsFail _ hran hbefore hc)
  | @round _ _ reports _ _ _ answer _ _ _ _ _ hcalls htools _ ih =>
    obtain ⟨hran, hreports⟩ := htools.reports_eq rfl
    exact ih.cons ⟨answer, reports, rfl, hcalls, hran, hreports⟩

/-- What comes of a call of an agent with so many rounds, told by its turns: each time that its
model is asked is one, and after what it begins with files change only through the calls that they
tell of. -/
structure Bounded (a : Agent μ) (rounds : Nat) (given : Value) (site : Site μ) (turns : List Turn)
    (result : Except Failure Value) (left : Site μ) : Prop where
  asked : turns.length ≤ rounds + 1
  ran : turns.countP Turn.ranSome ≤ rounds ∨
    turns.countP Turn.ranSome = rounds + 1 ∧ ∃ why, result = .error why
  called : Tool.Calls a.tools (a.opening given site).2.files (turns.flatMap Turn.called) left.files
  ends : (turns = [] ∧ ∃ why, (a.opening given site).1 = .error why ∧ result = .error why) ∨
    a.Ends (rounds + 1) turns result

/-- An agent asks its model once more than it has rounds, and runs the tools that each of these
answers asks for, the last one not excepted. -/
theorem rounds_bounded (a : Agent μ) {rounds : Nat} (hrounds : a.maxRounds = rounds) (given : Value)
    (site : Site μ) :
    (∃ turns, a.Handles given site turns (a.handler given site).1 (a.handler given site).2) ∧
    ∀ turns result left, a.Handles given site turns result left →
      a.Bounded rounds given site turns result left := by
  refine ⟨a.handles given site, fun turns result left h => ?_⟩
  cases h with
  | fails hopening =>
    refine ⟨Nat.zero_le _, .inl (Nat.zero_le _), ?_, .inl ⟨rfl, _, by rw [hopening], rfl⟩⟩
    rw [hopening]
    exact .none _
  | @converses messages mid _ _ _ hopening hturns =>
    have hallowed : (a.maxRounds + 1).toNat = rounds + 1 := by omega
    rw [hallowed] at hturns
    have hends := hturns.ends
    refine ⟨hends.length_le, hends.ran, ?_, .inr hends⟩
    rw [hopening]
    exact hturns.calls

/-! ## One round too many -/

/-- A call that writes a file. -/
def keeping : ToolCall :=
  ⟨"write_document", [("content", .str "x"), ("file_name", .str "a.txt")], some "c1"⟩

/-- An agent without rounds whose model always asks for this call. -/
def hasty : Agent Unit where
  model _ m := (.ok (.message ⟨.ai [keeping], .str "", none⟩), m)
  name := "W"
  prompt := "You write."
  tools := [(⟨["work"]⟩ : Workspace).writeTool]
  members := .list [.str "W"]
  maxRounds := 0

/-- A site with a directory and, maybe, a file in it. -/
def hastySite (file : List (Place × FileNode)) : Site Unit :=
  { settings := .none, here := [], files := ⟨(["work"], .directory) :: file⟩, memory := () }

def kept : List (Place × FileNode) := [(["work", "a.txt"], .file (.text "x"))]

theorem keeping_answer : Tool.answer hasty.tools keeping (hastySite []).files =
    (.ok (Message.report "c1" "write_document" "Document saved to a.txt"),
      (hastySite kept).files) := rfl

theorem hasty_opening : ∃ messages,
    hasty.opening (.mapping []) (hastySite []) = (.ok messages, hastySite []) :=
  opening_plain rfl ["W"] rfl _

/-- It is asked once, the file is written, and it gives up. -/
theorem hasty_handles : ∃ messages, hasty.Handles (.mapping []) (hastySite [])
    [⟨messages, .ok (.message ⟨.ai [keeping], .str "", none⟩), [⟨keeping, (hastySite []).files,
      .ok (Message.report "c1" "write_document" "Document saved to a.txt"),
      (hastySite kept).files⟩]⟩] (.error hasty.unfinished) (hastySite kept) := by
  obtain ⟨messages, hopening⟩ := hasty_opening
  have hmodel : Site.onMemory (hasty.model (hasty.ask messages)) (hastySite []) =
      (.ok (.message ⟨.ai [keeping], .str "", none⟩), hastySite []) := rfl
  exact ⟨messages, .converses hopening
    (.round hmodel nofun (.reports keeping_answer (.none _)) (.givesUp _ _))⟩

theorem hasty_bounded : hasty.maxRounds = (0 : Nat) ∧ ∃ turns,
    hasty.Handles (.mapping []) (hastySite []) turns (.error hasty.unfinished) (hastySite kept) ∧
    hasty.Bounded 0 (.mapping []) (hastySite []) turns (.error hasty.unfinished) (hastySite kept) ∧
    turns.countP Turn.ranSome = 1 := by
  obtain ⟨messages, hhandles⟩ := hasty_handles
  exact ⟨rfl, _, hhandles, (rounds_bounded hasty rfl _ _).2 _ _ _ hhandles, rfl⟩

/-- So not only as many answers have their tools run as there are rounds. -/
theorem rounds_refuted : ¬ ∀ (a : Agent Unit) (rounds : Nat), a.maxRounds = rounds →
    ∀ (given : Value) (site left : Site Unit) (turns : List Turn) (result : Except Failure Value),
    a.Handles given site turns result left →
    turns.length ≤ rounds + 1 ∧ turns.countP Turn.ranSome ≤ rounds ∧
    (result = .error a.unfinished → turns.countP Turn.ranSome = rounds) := by
  intro hall
  obtain ⟨messages, hhandles⟩ := hasty_handles
  obtain ⟨_, hran, _⟩ := hall hasty 0 rfl _ _ _ _ _ hhandles
  exact Nat.not_succ_le_zero 0 hran

end Agent

end TeamFlow
