import TeamFlow.Demo
import TeamFlow.Proofs.Run.Mirroring
import TeamFlow.Proofs.StepLimit
import TeamFlow.Proofs.Team.Crew
import TeamFlow.Proofs.Workspace.Listed

/-! # What the demonstration tells

A demonstration shows the steps of one run of a hierarchy, a block for each of
them, and says how the run ended. Its code tells the same (`exit_code`): 0 if the
run is completed, 2 if it or a run inside it is out of steps, and 1 if anything
else ended it. -/
namespace TeamFlow.Demo

open Run Team

variable {μ α : Type}

/-! ## Printing -/

/-- What is shown of a text: all of it without the blanks around it, or the first five hundred
characters of that. -/
inductive Shortened (text : String) : String → Prop where
  | whole (hlength : (Text.trim text).toList.length ≤ 500) : Shortened text (Text.trim text)
  | cut {head rest : List Char} (htext : (Text.trim text).toList = head ++ rest)
      (hhead : head.length = 500) (hrest : rest ≠ []) :
      Shortened text (String.ofList head ++ "...")

/-- The line for a message shows in green who says it, a person without a name as such, and what. -/
inductive IsMessageLine : Value → String → Prop where
  | named {text name shown : String} (hname : name ≠ "") (hshown : Shortened text shown) :
      IsMessageLine (.message ⟨.human, .str text, some name⟩)
        ("  \x1b[92m" ++ name ++ ":\x1b[0m " ++ shown ++ "\n")
  | unnamed {text shown : String} {name : Option String} (hname : name = none ∨ name = some "")
      (hshown : Shortened text shown) :
      IsMessageLine (.message ⟨.human, .str text, name⟩)
        ("  \x1b[92mhuman:\x1b[0m " ++ shown ++ "\n")

/-- The lines of a step's block between the first and the last: one for each entry of a decision,
one for each message of a report. -/
inductive AreLines : Entries → List String → Prop where
  | decision (choice instructions : String) :
      AreLines [(.str "next", .str choice), (.str "instructions", .str instructions)]
        ["  next=" ++ Text.quoted choice ++ "\n",
          "  instructions=" ++ Text.quoted instructions ++ "\n"]
  | report {messages : List Value} {lines : List String}
      (h : List.Forall₂ IsMessageLine messages lines) :
      AreLines [(.str "messages", .list messages)] lines

/-- The block of a step: a line with its number and its node, the lines for what the node handed
over, and a rule. -/
inductive IsBlock (t : Step × Run μ) : String → Prop where
  | block {lines : List String} (h : AreLines t.1.delta lines) :
      IsBlock t ("\x1b[96m\x1b[1mStep " ++ toString t.1.number ++ ": " ++ t.1.node ++ "\x1b[0m\n" ++
        String.join lines ++ "---\n")

def finalMessage (shown : String) : String :=
  "\n" ++ bold ++ "Final message:" ++ reset ++ "\n" ++ shown ++ "\n"

def filesLine (w : Workspace) (files : List String) : String :=
  "\nFiles in " ++ w.path ++ ": " ++
    (if files.isEmpty then "(none)" else Value.commas files) ++ "\n"

def outOfStepsLine (e : RunError) : String :=
  "\n" ++ yellow ++ "Ran out of steps: " ++ e.message ++ reset ++ "\n"

def failureLine (e : RunError) : String :=
  "\n" ++ yellow ++ "Run failed at " ++ nodeText e.node ++ ": " ++ e.message ++ reset ++ "\n"

theorem listFiles_eq {w : Workspace} {site : Site μ} (h : w.Ready site.files) :
    Site.onFiles w.listFiles site = (.ok (site.files.fileNames w.root), site) := by
  have hlist : w.listFiles site.files = (.ok (site.files.fileNames w.root), site.files) :=
    Prod.ext (Workspace.listFiles_of_ready h) (w.listFiles_leaves _)
  simp only [Site.onFiles, Act.onPart, hlist]

/-- What is printed after the steps of a course, and the code that is returned then. -/
inductive Concludes {opened : Run μ} {site : Site μ} (w : Workspace)
    (c : Course (fun _ site => site) opened site) : Nat → String → Prop where
  | completed {said : List Value} {text shown : String} {name : Option String}
      (hover : c.outcome = .over)
      (hsaid : Table.row? c.final.store.values "messages" = some (.list said))
      (hlast : said.getLast? = some (.message ⟨.human, .str text, name⟩))
      (hshown : Shortened text shown) : Concludes w c 0 (finalMessage shown ++
        filesLine w ((c.last.next c.here).2.files.fileNames w.root))
  | outOfSteps {e : RunError} (hfailed : c.outcome = .failed (.run e))
      (hfault : e.fault.isStepLimit = true) : Concludes w c 2 (outOfStepsLine e)
  | failed {e : RunError} (hfailed : c.outcome = .failed (.run e))
      (hfault : e.fault.isStepLimit = false) : Concludes w c 1 (failureLine e)

section RunGraph

variable {g : Graph μ} {w : Workspace} {request : String} {site : Site μ} {limit : StepLimit}
  {start opened : Run μ}

end RunGraph

/-! ## The code -/

/-- The code tells how a run has ended that takes this course. -/
structure TellsEnd {opened : Run μ} {site : Site μ} (c : Course (fun _ site => site) opened site)
    (code : Nat) : Prop where
  zero_iff : code = 0 ↔ c.final.status = .completed
  two_iff : code = 2 ↔ RunsOut opened site
  one_iff : code = 1 ↔ c.final.status ≠ .completed ∧ ¬ RunsOut opened site

/-- What comes of a demonstration in which the run of the hierarchy takes this course. A block is
printed for each of its steps, and a code is returned. -/
inductive Ends {opened : Run μ} {built : Site μ} (w : Workspace)
    (c : Course (fun _ site => site) opened built) (shown : String) :
    Except Failure Nat × (Site μ × String) → Prop where
  | returns {blocks : List String} {code : Nat} {ending : String}
      (hblocks : List.Forall₂ IsBlock c.taken blocks) (hcode : TellsEnd c code)
      (hending : Concludes w c code ending) : Ends w c shown
        (.ok code, ((c.last.next c.here).2, shown ++ String.join blocks ++ ending))

def asked : List Value := [Message.human (requestOf ["overview"])]

end TeamFlow.Demo
