import TeamFlow.Proofs.Graph.Reordering
import TeamFlow.Proofs.Run.History

/-! # Runs do not tell in which order a graph was built

Of its graph a run sees the node that it is at and the edge that leaves it, each
looked up by name. Over a graph that is alike it is asked the same and answers
the same (`next_onGraph`), so every history of one is a history of the other. -/
namespace TeamFlow

variable {μ : Type}

/-! ## One request -/

namespace Graph.Alike

variable {g g' : Graph μ}

theorem symm (h : g.Alike g') : g'.Alike g :=
  ⟨h.name.symm, h.schema.symm, h.entry.symm, h.stepLimit.symm, fun n => (h.node n).symm,
    fun n => (h.edge n).symm⟩

theorem settle (h : g.Alike g') (store : Store) (node : String) (answer : Except Failure Value) :
    g'.settle store node answer = g.settle store node answer := by
  simp only [Graph.settle, h.schema]

theorem perform (h : g.Alike g') (store : Store) (node : String) :
    g'.perform store node = g.perform store node := by
  simp only [Graph.perform, h.node, h.settle]

theorem nextNode (h : g.Alike g') (node : String) (given : Value) :
    g'.nextNode node given = g.nextNode node given := by
  simp only [Graph.nextNode, h.edge]

theorem resolveLimit (h : g.Alike g') (given : Value) :
    g'.resolveLimit given = g.resolveLimit given := by
  simp only [Graph.resolveLimit, h.stepLimit]

end Graph.Alike

namespace Run

/-- The same run of another graph. -/
def onGraph (r : Run μ) (g : Graph μ) : Run μ := { r with graph := g }

variable {g' : Graph μ} {r : Run μ}

@[simp]
theorem onGraph_graph (r : Run μ) (g : Graph μ) : (r.onGraph g).graph = g := rfl

@[simp]
theorem onGraph_store (r : Run μ) (g : Graph μ) : (r.onGraph g).store = r.store := rfl

@[simp]
theorem onGraph_phase (r : Run μ) (g : Graph μ) : (r.onGraph g).phase = r.phase := rfl

@[simp]
theorem onGraph_current (r : Run μ) (g : Graph μ) : (r.onGraph g).current = r.current := rfl

@[simp]
theorem onGraph_state (r : Run μ) (g : Graph μ) : (r.onGraph g).state = r.state := rfl

def resultOn {α : Type} (g : Graph μ) (result : (α × Run μ) × Site μ) : (α × Run μ) × Site μ :=
  ((result.1.1, result.1.2.onGraph g), result.2)

theorem failWith_onGraph (r : Run μ) (g : Graph μ) (why : Failure) (node : String) (site : Site μ) :
    ((r.onGraph g).failWith why node, site) = resultOn g (r.failWith why node, site) := by
  cases why <;> rfl

theorem execute_onGraph (h : r.graph.Alike g') (site : Site μ) :
    (r.onGraph g').execute site = resultOn g' (r.execute site) := by
  simp only [execute, onGraph_graph, onGraph_store, onGraph_current, h.perform]
  cases r.graph.perform r.store r.current site with
  | mk answer left =>
    cases answer with
    | ok answer => rfl
    | error why => exact failWith_onGraph r g' why r.current left

/-- A request does not tell which of two graphs is run, if they are alike. -/
theorem next_onGraph (h : r.graph.Alike g') (site : Site μ) :
    (r.onGraph g').next site = resultOn g' (r.next site) := by
  cases hphase : r.phase with
  | unopened | closed =>
    simp only [next, onGraph_phase, hphase]
    rfl
  | opened =>
    simp only [next, onGraph_phase, hphase]
    exact execute_onGraph (r := { r with status := .running }) h site
  | paused =>
    simp only [next, onGraph_phase, onGraph_graph, onGraph_current, onGraph_state, hphase,
      h.nextNode]
    split
    next target left _ =>
      by_cases htarget : target = endName
      · simp only [moveTo, if_pos htarget]
        rfl
      · by_cases hfull : r.limit.value ≤ r.count
        · have hfull' : (r.onGraph g').limit.value ≤ (r.onGraph g').count := hfull
          simp only [moveTo, if_neg htarget, if_pos hfull, if_pos hfull']
          rfl
        · have hfull' : ¬ (r.onGraph g').limit.value ≤ (r.onGraph g').count := hfull
          simp only [moveTo, if_neg htarget, if_neg hfull, if_neg hfull']
          exact execute_onGraph (r := { r with current := target }) h left
    next why left _ => exact failWith_onGraph r g' why r.current left

theorem opened?_onGraph (r : Run μ) (g : Graph μ) :
    (r.onGraph g).opened? = r.opened?.map fun opened => opened.onGraph g := by
  simp only [opened?, onGraph_phase]
  cases r.phase <;> rfl

/-! ## Histories -/

/-- The same exchange with a run of another graph. -/
def Exchange.onGraph (x : Exchange μ) (g : Graph μ) : Exchange μ :=
  { x with after := x.after.onGraph g }

theorem History.onGraph {start : Run μ} {log : List (Exchange μ)} (h : History start log r)
    (halike : start.graph.Alike g') :
    History (start.onGraph g') (log.map fun x => x.onGraph g') (r.onGraph g') := by
  induction h with
  | fresh => exact .fresh
  | opens _ hopen ih => exact ih.opens (by rw [opened?_onGraph, hopen]; rfl)
  | @asks log r x h hnext ih =>
    have hnext' := next_onGraph (h.graph ▸ halike) x.site
    rw [hnext] at hnext'
    rw [List.map_append]
    exact ih.asks (x := x.onGraph g') hnext'

/-! ## Runs to the end -/

theorem takeAll_onGraph (watch : Step → Run μ → Act (Site μ) Unit) (fuel : Nat)
    (h : r.graph.Alike g') (site : Site μ) :
    takeAll watch fuel (r.onGraph g') site =
      resultOn g' (takeAll (fun s after => watch s (after.onGraph g')) fuel r site) := by
  induction fuel generalizing r site with
  | zero => rfl
  | succ fuel ih =>
    have hgraph := r.next_graph site
    simp only [takeAll, next_onGraph h]
    generalize r.next site = result at hgraph
    obtain ⟨⟨outcome, after⟩, left⟩ := result
    cases outcome with
    | step s =>
      simp only [resultOn]
      cases watch s (after.onGraph g') left with
      | mk shown left =>
        cases shown with
        | ok _ => exact ih (hgraph ▸ h) left
        | error _ => rfl
    | _ => rfl

theorem finish_onGraph (watch : Step → Run μ → Act (Site μ) Unit) (h : r.graph.Alike g')
    (site : Site μ) : (r.onGraph g').finish watch site =
      resultOn g' (r.finish (fun s after => watch s (after.onGraph g')) site) := by
  simp only [finish, opened?_onGraph]
  cases hopen : r.opened? with
  | error why => rfl
  | ok opened =>
    obtain ⟨_, rfl⟩ := opened?_eq_ok hopen
    exact takeAll_onGraph (r := { r with phase := .opened }) watch _ h site

end Run

namespace Graph

/-- How the runs of two graphs compare that nobody can tell apart by running them: they start alike
or fail to start alike, and whatever is asked of a run of one is answered by the run of the other in
the same way, at the same sites; so running them to the end, whoever watches, comes to the same. -/
structure RunsAlike (g g' : Graph μ) : Prop where
  start : ∀ initial given site, g'.start initial given site =
    ((g.start initial given site).1.map (Run.onGraph · g'), (g.start initial given site).2)
  history : ∀ {initial given : Value} {site left : Site μ} {start r : Run μ}
    {log : List (Run.Exchange μ)}, g.start initial given site = (.ok start, left) →
      Run.History start log r →
      Run.History (start.onGraph g') (log.map fun x => x.onGraph g') (r.onGraph g')
  invoke : ∀ initial given (watch : Step → Run μ → Act (Site μ) Unit),
    g'.invoke initial given watch = g.invoke initial given fun s after => watch s (after.onGraph g')

theorem Alike.start {g g' : Graph μ} (h : g.Alike g') (initial given : Value) (site : Site μ) :
    g'.start initial given site =
      ((g.start initial given site).1.map (Run.onGraph · g'), (g.start initial given site).2) := by
  simp only [Graph.start, Act.bind_apply, Act.ofExcept, h.resolveLimit, h.schema, h.entry]
  cases g.resolveLimit given site with
  | mk limit left =>
    cases limit with
    | error _ => rfl
    | ok limit => cases Store.create g.schema initial <;> rfl

/-- Graphs that are alike run alike. -/
theorem Alike.runs {g g' : Graph μ} (h : g.Alike g') : g.RunsAlike g' := by
  have hstarted : ∀ {initial given : Value} {site left : Site μ} {start : Run μ},
      g.start initial given site = (.ok start, left) → start.graph.Alike g' := fun hstart =>
    (Run.start_eq_ok hstart).1 ▸ h
  refine ⟨h.start, fun hstart hlog => hlog.onGraph (hstarted hstart), fun initial given watch => ?_⟩
  funext site
  have hstart' := h.start initial given site
  cases hstart : g.start initial given site with
  | mk started left =>
    rw [hstart] at hstart'
    cases started with
    | error _ => exact (Act.bind_error hstart').trans (Act.bind_error hstart).symm
    | ok start =>
      refine (Act.bind_ok hstart').trans ((Act.bind_ok hstart).trans ?_).symm
      simp only [Run.finish_onGraph watch (hstarted hstart)]
      generalize start.finish _ left = result
      obtain ⟨⟨_ | _, _⟩, _⟩ := result <;> rfl

end Graph

/-! ## All orders -/

namespace Builder

/-- The order of calls does not matter. Calls that add nodes under names of their own, edges
and no more than one entry leave validation with the same to say, in whichever order they are made:
the same problems, or else the same failure, for which one of the keys has to be too long to be
written. What is compiled from them runs alike. -/
theorem calls_commute {calls calls' : List (Call μ)} (h : Arrangeable calls)
    (hperm : calls'.Perm calls) (schema : Schema) (name : Option String) (limit : Value) :
    Compare ((new schema name).after calls) ((new schema name).after calls') limit ∧
      ((∀ c ∈ calls, HasLegibleKeys c) → ∃ ps ps', ((new schema name).after calls).problems =
        .ok ps ∧ ((new schema name).after calls').problems = .ok ps' ∧ ps'.Perm ps) ∧
      ∀ g g', ((new schema name).after calls).compile limit = .ok g →
        ((new schema name).after calls').compile limit = .ok g' →
        g.RunsAlike g' ∧ g'.RunsAlike g := by
  have hcompare := h.compare hperm schema name limit
  refine ⟨hcompare, fun hlegible => ?_, fun g g' hg hg' => ?_⟩
  · have htold := ((regular_after schema name calls).problems_tells
      (text_after schema name h.text)).eq_ok (named_legible hlegible schema name)
    obtain ⟨ps', hps', hperm⟩ := (htold ▸ hcompare.problems).of_ok
    exact ⟨_, ps', htold, hps', hperm⟩
  · have halike := hcompare.alike g g' hg hg'
    exact ⟨halike.runs, halike.symm.runs⟩

/-- Two nodes that are added the other way round. -/
theorem idling_reversed : Arrangeable idling ∧ idling.reverse.Perm idling ∧ ∃ g g',
    ((new (oneChannel .append (.list [])) none).after idling).compile .null = .ok g ∧
      ((new (oneChannel .append (.list [])) none).after idling.reverse).compile .null = .ok g' ∧
      Table.names g.nodes = ["boss", "hand"] ∧ Table.names g'.nodes = ["hand", "boss"] ∧
      g.RunsAlike g' ∧ g'.RunsAlike g := by
  have harrangeable : Arrangeable idling := turnTaking_arrangeable _ _ _
  obtain ⟨hcompare, -, hruns⟩ := calls_commute harrangeable idling.reverse_perm
    (oneChannel .append (.list [])) none .null
  have hg := turnTaking_compiles (μ := Unit) .append (.list []) (fun _ => pure .null)
    (fun _ => pure .null) (fun _ => pure (.int 1))
  obtain ⟨g', hg'⟩ := hcompare.compile.mp ⟨_, hg⟩
  refine ⟨harrangeable, idling.reverse_perm, _, g', hg, hg', rfl, ?_, hruns _ g' hg hg'⟩
  rw [(compile_eq_ok_iff.mp hg').2]
  rfl

end Builder

end TeamFlow
