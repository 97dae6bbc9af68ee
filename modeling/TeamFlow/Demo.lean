import TeamFlow.Team.Hierarchy

/-! The demonstration: one request to the hierarchy, with every top-level step printed as it
happens. It ends with 0 when the run completes, with 2 when it is out of steps and with 1 when it
fails. -/

namespace TeamFlow.Demo

variable {μ α : Type}

def escape (code : String) : String := "\x1b[" ++ code ++ "m"

def green : String := escape "92"

def cyan : String := escape "96"

def yellow : String := escape "93"

def bold : String := escape "1"

def reset : String := escape "0"

def longest : Nat := 500

/-- A text without blanks around it, cut off when it is long. -/
def truncate (text : String) : String :=
  let cs := (Text.trim text).toList
  if longest < cs.length then String.ofList (cs.take longest) ++ "..." else String.ofList cs

def usualRequest : String :=
  "Create a comprehensive overview of what tax sales are in Tarrant county TX " ++
  "and what the process is to buy property."

/-- A line for a message: who says it, and what. -/
def messageLine : Value → Except Failure String
  | .message m => do
    let sender := match m.name with
      | some n => if n.isEmpty then m.role.label else n
      | none => m.role.label
    return "  " ++ green ++ sender ++ ":" ++ reset ++ " " ++ truncate (← m.content.shown) ++ "\n"
  | _ => .error .noAttribute

def messageLines : List Value → Except Failure String
  | [] => .ok ""
  | m :: ms => do return (← messageLine m) ++ (← messageLines ms)

def deltaLines : Entries → Except Failure String
  | [] => .ok ""
  | (key, v) :: es => do
    let here ← if key.same (.str "messages") then do messageLines (← v.items)
      else do pure ("  " ++ (← key.shown) ++ "=" ++ (← v.written) ++ "\n")
    return here ++ (← deltaLines es)

def stepBlock (number : Int) (node : String) (delta : Entries) : Except Failure String := do
  let lines ← deltaLines delta
  return cyan ++ bold ++ s!"Step {number}: " ++ node ++ reset ++ "\n" ++ lines ++ "---\n"

/-- A site, and what has been printed. -/
abbrev Printing (μ α : Type) := Act (Site μ × String) α

def onSite (x : Act (Site μ) α) : Printing μ α :=
  Act.onPart Prod.fst (fun site s => (site, s.2)) x

def print (text : String) : Printing μ Unit := Act.modify fun s => (s.1, s.2 ++ text)

/-- The outcome of the next step, and the run after it. -/
def advance (r : Run μ) : Act (Site μ) (Outcome × Run μ) := fun site =>
  match r.next site with
  | (answer, site) => (.ok answer, site)

/-- Take and print all steps; the run after the last one. -/
def printSteps : Nat → Run μ → Printing μ (Run μ)
  | 0, r => pure r
  | fuel + 1, r => do
    match ← onSite (advance r) with
    | (.over, r) => return r
    | (.failed why, _) => Act.fail why
    | (.step s, r) => do
      print (← Act.ofExcept (stepBlock s.number s.node s.delta))
      printSteps fuel r

/-- What is printed at the end of a run that completed. -/
def closing (r : Run μ) : Except Failure String := do
  let said ← State.itemsOf r.state "messages"
  match said.getLast? with
  | none => return ""
  | some (.message m) =>
    return "\n" ++ bold ++ "Final message:" ++ reset ++ "\n" ++ truncate (← m.content.shown) ++ "\n"
  | some _ => .error .noAttribute

def nodeText (node : Option String) : String := node.getD "None"

def requestOf (arguments : List String) : String :=
  let text := String.intercalate " " arguments
  if text.isEmpty then usualRequest else text

def runGraph (graph : Graph μ) (w : Workspace) (request : String) : Printing μ Nat := do
  let site ← onSite Act.get
  let limit ← Act.ofExcept site.settings.limit
  let r ← onSite (graph.start
    (.mapping [(.str "messages", .list [Message.human request])]) (.int limit.value))
  let r ← Act.ofExcept r.opened?
  match ← (printSteps r.remaining r).attempt with
  | .error (.run e) =>
    if e.fault.isStepLimit then
      print ("\n" ++ yellow ++ "Ran out of steps: " ++ e.message ++ reset ++ "\n")
      return 2
    else
      print ("\n" ++ yellow ++ "Run failed at " ++ nodeText e.node ++ ": " ++ e.message ++ reset ++
        "\n")
      return 1
  | .error why => Act.fail why
  | .ok r => do
    print (← Act.ofExcept (closing r))
    let files ← onSite (Site.onFiles w.listFiles)
    print ("\nFiles in " ++ w.path ++ ": " ++
      (if files.isEmpty then "(none)" else Value.commas files) ++ "\n")
    return 0

/-- Build the graph and run it on the request that the arguments make. -/
def demonstrate (build : Act (Site μ) (Graph μ)) (w : Workspace) (arguments : List String) :
    Printing μ Nat := do
  let request := requestOf arguments
  print (bold ++ "Building teams..." ++ reset ++ "\n")
  let graph ← onSite build
  print (bold ++ "Graph built." ++ reset ++ "\n")
  print (green ++ bold ++ "User request:" ++ reset ++ " " ++ green ++ request ++ reset ++ "\n\n")
  runGraph graph w request

end TeamFlow.Demo
