import TeamFlow.Proofs.Failing
import TeamFlow.Proofs.Run.Containment
import TeamFlow.Proofs.Run.Course
import TeamFlow.Proofs.Run.Ending
import TeamFlow.Run.Subgraph

/-! # Failures of nested runs

A run error that ends a run inside a node is re-issued as the failure of that
node: with the same kind and wording, about the enclosing run, and with the
nested error inside (`Reissues`). So from the error of the outermost run a trail
leads inward, level by level, to that of the innermost one. What a subgraph
fails with otherwise is the cause of an error about its node. -/
namespace TeamFlow

variable {μ : Type}

namespace Run

/-! ## Runs inside a node -/

/-- The turn of a request comes to a node that is a subgraph, whose run is at a request of its own
then. -/
inductive Wraps (r : Run μ) (site : Site μ) (turn inner : Run μ) (there : Site μ) : Prop where
  | intro {mid here begun : Site μ} {s : Subgraph μ} {initial : Value} {start opened : Run μ}
      {taken : List (Step × Run μ)} (hturn : r.Turns site turn mid)
      (hnode : Table.row? turn.graph.nodes turn.current = some s.handler)
      (hgraph : s.graph.Compiled)
      (henter : s.enter (.mapping turn.state) mid = (.ok initial, here))
      (hstart : s.graph.start initial s.stepLimit here = (.ok start, begun))
      (hopen : start.opened? = .ok opened)
      (hpasses : Passes (fun _ site => site) opened begun taken inner there)

/-- A request of a run, and the run at the turn of the node that it comes to. -/
structure Level (μ : Type) where
  asked : Run μ
  site : Site μ
  turn : Run μ

/-- The levels from a request down to one of a run that is nested inside it, outermost first. -/
inductive Nests : Run μ → Site μ → List (Level μ) → Run μ → Site μ → Prop where
  | here (r : Run μ) (site : Site μ) : Nests r site [] r site
  | wraps {r turn inner innermost : Run μ} {site there last : Site μ} {levels : List (Level μ)}
      (h : r.Wraps site turn inner there) (hrest : Nests inner there levels innermost last) :
      Nests r site (⟨r, site, turn⟩ :: levels) innermost last

theorem Passes.takeAll {r last : Run μ} {site here : Site μ} {taken : List (Step × Run μ)}
    (h : Passes (fun _ site => site) r site taken last here) {why : Failure}
    (hfailed : (last.next here).1.1 = .failed why) {fuel : Nat} (hfuel : taken.length < fuel) :
    takeAll (fun _ _ => pure ()) fuel r site =
      ((.error why, (last.next here).1.2), (last.next here).2) := by
  rw [h.takeAll_of_ended (by simp [hfailed]) hfuel, hfailed]
  rfl

end Run

/-- A subgraph breaks off outside its run: an adapter or the start of the run fails, or what the
last adapter answers is no mapping. -/
inductive Subgraph.Breaks (s : Subgraph μ) (given : Value) (site : Site μ) (why : Failure) :
    Prop where
  | enter {left : Site μ} (hcall : s.enter given site = (.error why, left))
  | start {initial : Value} {mid left : Site μ} (henter : s.enter given site = (.ok initial, mid))
      (hstart : s.graph.start initial s.stepLimit mid = (.error why, left))
  | leave {initial : Value} {final : State} {mid here left : Site μ}
      (henter : s.enter given site = (.ok initial, mid))
      (hinvoke : s.graph.invoke initial s.stepLimit (fun _ _ => pure ()) mid = (.ok final, here))
      (hcall : s.leave (.mapping final) here = (.error why, left))
  | answer {initial answer : Value} {final : State} {mid here left : Site μ}
      (henter : s.enter given site = (.ok initial, mid))
      (hinvoke : s.graph.invoke initial s.stepLimit (fun _ _ => pure ()) mid = (.ok final, here))
      (hcall : s.leave (.mapping final) here = (.ok answer, left))
      (hentries : answer.entries = .error why)

theorem Subgraph.Breaks.handler_eq {s : Subgraph μ} {given : Value} {site : Site μ} {why : Failure}
    (h : s.Breaks given site why) : ∃ left, s.handler given site = (.error why, left) := by
  cases h with
  | enter hcall => exact ⟨_, Act.bind_error hcall⟩
  | start henter hstart =>
    have hinvoke : s.graph.invoke _ s.stepLimit (fun _ _ => pure ()) _ = (.error why, _) :=
      Act.bind_error hstart
    exact ⟨_, (Act.bind_ok henter).trans (Act.bind_error hinvoke)⟩
  | leave henter hinvoke hcall =>
    exact ⟨_, (Act.bind_ok henter).trans ((Act.bind_ok hinvoke).trans (Act.bind_error hcall))⟩
  | @answer _ answer _ _ _ left henter hinvoke hcall hentries =>
    have hconvert : (Act.ofExcept answer.entries : Act (Site μ) Entries) left =
        (.error why, left) := by
      rw [hentries]
      rfl
    exact ⟨_, (Act.bind_ok henter).trans ((Act.bind_ok hinvoke).trans
      ((Act.bind_ok hcall).trans (Act.bind_error hconvert)))⟩

/-! ## What is handed in -/

namespace Subgraph

/-- What is handed in with a subgraph fails only in certain ways: its adapters, and the reducers and
the defaults of its graph. -/
structure Raises (P : Failure → Prop) (s : Subgraph μ) : Prop where
  schema : s.graph.schema.Raises P
  enter : ∀ given, (s.enter given).FailsOnly P
  leave : ∀ given, (s.leave given).FailsOnly P

/-- A subgraph with nothing handed in that fails in an unusual way. -/
abbrev Steady (s : Subgraph μ) : Prop := s.Raises Failure.Ordinary

end Subgraph

namespace Run

/-- A request fails because of what the node whose turn it was failed with. -/
structure Reports (r : Run μ) (site : Site μ) (turn : Run μ) (why : Failure) (e : RunError) :
    Prop where
  failed : (r.next site).1.1 = .failed (.run e)
  ended : (r.next site).1.2.EndedWith e
  status : (r.next site).1.2.status = .failed
  fault : e.fault = .handler ("Node '" ++ turn.current ++ "' failed: " ++ why.message)
  node : e.node = some turn.current
  inner : e.inner = none
  cause : e.cause = some why

/-- What a handler fails with, if it is no run error and can be written, is reported as the cause of
an error about its node. -/
theorem Turns.reports {r turn : Run μ} {site mid left : Site μ} (hturn : r.Turns site turn mid)
    {handler : Handler μ} (hnode : Table.row? turn.graph.nodes turn.current = some handler)
    {why : Failure} (hcall : handler (.mapping turn.state) mid = (.error why, left))
    (hwhy : why.Ordinary) : ∃ e, r.Reports site turn why e := by
  have hsettle : turn.graph.settle turn.store turn.current (.error why) =
      .error (.ifWritable why.isWritable (.nodeFailed turn.current why)) := by
    cases why with
    | run e => exact absurd rfl (hwhy.noRun e)
    | _ => rfl
  have hperform : turn.graph.perform turn.store turn.current mid =
      (.error (.run (.nodeFailed turn.current why)), left) := by
    rw [Graph.perform_eq hnode hcall, hsettle, hwhy.writable]
    rfl
  have hnext : r.next site = (turn.endWith (.nodeFailed turn.current why) turn.current, left) := by
    rw [hturn.next_eq, execute, hperform]
    rfl
  have hfailed : (r.next site).1.1 = .failed (.run _) := congrArg (fun result => result.1.1) hnext
  refine ⟨_, hfailed, (r.asked_next site).endedWith hfailed, ?_, rfl, rfl, rfl, rfl⟩
  rw [hnext]
  rfl

end Run

end TeamFlow
