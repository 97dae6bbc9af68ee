import TeamFlow.Proofs.Graph.Pipeline
import TeamFlow.Proofs.Run.Containment
import TeamFlow.Proofs.Run.Course

/-! # Runs of a pipeline

Where no router has a say, the nodes whose turn it will be are known before the
run: those in the line that the graph makes, as long as the limit allows them. A
step takes the first of them away (`Ahead.step`), and when none is left or the
limit is reached, the next request says so. So a run goes down the line
(`follows_line`). -/
namespace TeamFlow

open Reach

variable {μ : Type}

/-- What a graph takes for an update to a store: nothing, or a mapping that can be merged. -/
def Graph.Accepts (g : Graph μ) (store : Store) : Value → Prop
  | .null => True
  | .mapping update => ∃ merged, store.apply g.schema update = .ok merged
  | _ => False

theorem Graph.settle_of_accepts {g : Graph μ} {store : Store} {answer : Value}
    (h : g.Accepts store answer) (node : String) :
    ∃ delta new, g.settle store node (.ok answer) = .ok (delta, new) := by
  cases answer with
  | null => exact ⟨[], store, rfl⟩
  | mapping update =>
    obtain ⟨merged, hmerged⟩ := h
    exact ⟨update, merged, by simp [settle, hmerged]⟩
  | _ => cases h

namespace Run

variable {meanwhile : Step → Site μ → Site μ}

/-- Whenever the turn comes to a node in the course of a run, it returns an acceptable update. -/
def AnswersAcceptably (meanwhile : Step → Site μ → Site μ) (r : Run μ) (site : Site μ) : Prop :=
  ∀ taken p here, Passes meanwhile r site taken p here → ∀ q mid, p.Turns here q mid →
    ∀ handler, Table.row? q.graph.nodes q.current = some handler →
      ∃ answer left, handler (.mapping q.store.snapshot) mid = (.ok answer, left) ∧
        q.graph.Accepts q.store answer

theorem AnswersAcceptably.after {r after : Run μ} {site mid : Site μ} {s : Step}
    (h : AnswersAcceptably meanwhile r site) (hnext : r.next site = ((.step s, after), mid)) :
    AnswersAcceptably meanwhile after (meanwhile s mid) :=
  fun _ p here hpasses => h _ p here (.step hnext hpasses)

/-! ## Courses, request by request -/

theorem Course.of_step {r after : Run μ} {site mid : Site μ} {s : Step}
    (c : Course meanwhile r site) (hnext : r.next site = ((.step s, after), mid)) :
    ∃ rest : Course meanwhile after (meanwhile s mid), c.taken = (s, after) :: rest.taken ∧
      c.outcome = rest.outcome ∧ c.final = rest.final := by
  obtain ⟨taken, heq, hpasses⟩ := c.goesOn (.step hnext (.here _ _))
  exact ⟨⟨taken, c.last, c.here, hpasses, c.ended⟩, heq, rfl, rfl⟩

theorem Course.of_ended {r after : Run μ} {site mid : Site μ} {outcome : Outcome}
    (c : Course meanwhile r site) (hnext : r.next site = ((outcome, after), mid))
    (hended : ∀ s, outcome ≠ .step s) :
    c.taken = [] ∧ c.outcome = outcome ∧ c.final = after := by
  obtain ⟨taken, last, here, hpasses, hended'⟩ := c
  obtain ⟨rfl, rfl, rfl⟩ := hpasses.eq_nil fun s => by rw [hnext]; exact hended s
  exact ⟨rfl, congrArg (fun result => result.1.1) hnext, congrArg (fun result => result.1.2) hnext⟩

/-! ## What is ahead -/

/-- Where a run goes next: to the entry before the first step, and after a step where the edge of
its node leads. -/
inductive GoesTo (g : Graph μ) (r : Run μ) : String → Prop where
  | first (hphase : r.phase = .opened) : GoesTo g r g.entry
  | next {target : String} (hphase : r.phase = .paused)
      (hedge : Table.row? g.edges r.current = some (.fixed target)) : GoesTo g r target

/-- The nodes that are ahead of a run. -/
def Ahead (g : Graph μ) (r : Run μ) (nodes : List String) : Prop :=
  ∃ due, GoesTo g r due ∧ Chain g.following endName due nodes

section Ahead

variable {g : Graph μ} {r : Run μ} {n : String} {nodes : List String} {site : Site μ}

theorem GoesTo.turns (h : GoesTo g r n) (hr : Sound g r) (hn : n ≠ endName)
    (hlimit : r.count < r.limit.value) (site : Site μ) :
    ∃ q, r.Turns site q site ∧ q.current = n := by
  cases h with
  | first hphase =>
    refine ⟨_, .first hphase, ?_⟩
    show r.current = g.entry
    rw [(hr.standing.of_fresh (.inr hphase)).2.2.2, hr.graph]
  | next hphase hedge =>
    have hroute : r.graph.nextNode r.current (.mapping r.state) site = (.ok n, site) :=
      Graph.nextNode_fixed (hr.graph ▸ hedge) _ _
    exact ⟨_, .next hphase hroute hn hlimit, rfl⟩

theorem Ahead.ne_end (h : Ahead g r (n :: nodes)) (hg : g.Compiled) : n ≠ endName := by
  obtain ⟨_, _, hchain⟩ := h
  have hnode : g.IsNode n := hg.connected.sources n (hchain.leads List.mem_cons_self)
  rintro rfl
  exact hg.linked.reserved hnode

/-- A step takes the first node that is ahead away, if its handler returns an acceptable update. -/
theorem Ahead.step (h : Ahead g r (n :: nodes)) (hr : Sound g r) (hg : g.Compiled)
    (hpipeline : g.IsPipeline) (hlimit : r.count < r.limit.value)
    (hanswers : AnswersAcceptably meanwhile r site) :
    ∃ s after left, r.next site = ((.step s, after), left) ∧ s.node = n ∧ Ahead g after nodes := by
  have hn := h.ne_end hg
  obtain ⟨_, hdue, hchain⟩ := h
  cases hchain with
  | @step _ target _ hnext hrest =>
    obtain ⟨q, hturn, hcurrent⟩ := hdue.turns hr hn hlimit site
    have hq := (hturn.active hg.linked hr).1
    obtain ⟨handler, hhandler⟩ := Graph.handler_of_isNode hq.node
    rw [← hq.graph] at hhandler
    obtain ⟨answer, left, hcall, haccepts⟩ :=
      hanswers [] r site (.here r site) q site hturn handler hhandler
    obtain ⟨delta, new, hsettle⟩ := Graph.settle_of_accepts haccepts q.current
    have hperform : q.graph.perform q.store q.current site = (.ok (delta, new), left) := by
      rw [Graph.perform_eq hhandler hcall, hsettle]
    have hstep : r.next site = ((.step ⟨q.count + 1, q.current, delta⟩,
        { q with store := new, count := q.count + 1, phase := .paused }), left) := by
      rw [hturn.next_eq, execute, hperform]
    refine ⟨_, _, left, hstep, hcurrent, target, .next rfl ?_, hrest⟩
    show Table.row? g.edges q.current = _
    rw [hcurrent]
    exact hpipeline.edge hnext

theorem Ahead.over (h : Ahead g r []) (hr : Sound g r) (hg : g.Compiled) (site : Site μ) :
    r.next site = ((.over, { r with
      current := endName, status := .completed, phase := .closed }), site) := by
  obtain ⟨due, hdue, hchain⟩ := h
  have hend := hchain.eq_goal
  cases hdue with
  | first _ => exact absurd (hend ▸ hg.linked.entry) hg.linked.reserved
  | next hphase hedge =>
    have hroute : r.graph.nextNode r.current (.mapping r.state) site = (.ok endName, site) :=
      Graph.nextNode_fixed (by rw [hr.graph, hedge, hend]) _ _
    simp only [next, hphase, hroute, moveTo, if_true]

theorem Ahead.stopped (h : Ahead g r (n :: nodes)) (hr : Sound g r) (hg : g.Compiled)
    (hlimit : r.limit.value ≤ r.count) (site : Site μ) :
    r.next site = (r.endWith (.stepLimit r.limit.value (some n)) n, site) := by
  have hn := h.ne_end hg
  obtain ⟨_, hdue, hchain⟩ := h
  cases hchain with
  | step _ _ =>
    cases hdue with
    | first hphase =>
      -- no step has been taken yet, and every limit allows one
      have hcount := (hr.standing.of_fresh (.inr hphase)).2.2.1
      have hpositive := r.limit.positive
      omega
    | next hphase hedge =>
      have hroute : r.graph.nextNode r.current (.mapping r.state) site = (.ok n, site) :=
        Graph.nextNode_fixed (hr.graph ▸ hedge) _ _
      simp only [next, hphase, hroute, moveTo, if_neg hn, if_pos hlimit]

end Ahead

/-! ## Down the line -/

/-- How a run goes that has some nodes ahead of it and may take so many steps. -/
structure GoesDown {r : Run μ} {site : Site μ} (c : Course meanwhile r site) (nodes : List String)
    (allowed : Nat) : Prop where
  visits : c.taken.map (fun t => t.1.node) = nodes.take allowed
  completes : nodes.length ≤ allowed → c.outcome = .over ∧ c.final.status = .completed
  aborts : allowed < nodes.length → c.final.status = .aborted ∧
    ∃ e, c.outcome = .failed (.run e) ∧ e.fault = .stepLimit r.limit.value

/-- A run goes down the line of nodes that are ahead of it, by induction on these. -/
theorem follows_line {g : Graph μ} (hg : g.Compiled) (hpipeline : g.IsPipeline) {r : Run μ}
    (hr : Sound g r) {nodes : List String} (h : Ahead g r nodes) {site : Site μ}
    (hanswers : AnswersAcceptably meanwhile r site) (c : Course meanwhile r site) :
    GoesDown c nodes (r.limit.value - r.count) := by
  induction nodes generalizing r site with
  | nil =>
    obtain ⟨htaken, houtcome, hfinal⟩ := c.of_ended (h.over hr hg site) nofun
    exact ⟨by rw [htaken, List.take_nil, List.map_nil], fun _ => ⟨houtcome, by rw [hfinal]⟩,
      fun hless => absurd hless (Nat.not_lt_zero _)⟩
  | cons n nodes ih =>
    by_cases hlimit : r.count < r.limit.value
    · obtain ⟨s, after, left, hnext, hnode, hahead⟩ := h.step hr hg hpipeline hlimit hanswers
      obtain ⟨rest, htaken, houtcome, hfinal⟩ := c.of_step hnext
      obtain ⟨hafter, _, hcount, hsame⟩ := hr.stepped hg.linked hnext
      have hdown := ih hafter hahead (hanswers.after hnext) rest
      have hallowed : r.limit.value - r.count = (after.limit.value - after.count) + 1 := by
        rw [hcount, hsame]
        omega
      rw [hallowed]
      refine ⟨?_, fun hmost => ?_, fun hless => ?_⟩
      · rw [htaken, List.map_cons, hdown.visits, List.take_succ_cons, hnode]
      · rw [houtcome, hfinal]
        exact hdown.completes (Nat.le_of_succ_le_succ hmost)
      · rw [houtcome, hfinal, ← hsame]
        exact hdown.aborts (Nat.lt_of_succ_lt_succ hless)
    · have hfull : r.limit.value ≤ r.count := Nat.le_of_not_lt hlimit
      obtain ⟨htaken, houtcome, hfinal⟩ :=
        c.of_ended (h.stopped hr hg hfull site) nofun
      have hnone : r.limit.value - r.count = 0 := Nat.sub_eq_zero_of_le hfull
      rw [hnone]
      exact ⟨by rw [htaken]; rfl, fun hmost => absurd hmost (Nat.not_succ_le_zero _),
        fun _ => ⟨by rw [hfinal]; rfl, _, houtcome, rfl⟩⟩

/-- A pipeline runs each node exactly once. The nodes of a compiled graph without routers stand
in one order, which begins with the entry. Every run whose handlers return acceptable updates takes
the nodes in this order: if the limit allows as many steps as there are nodes, it completes after
just so many, and otherwise it is aborted after as many steps as the limit allows. -/
theorem pipeline_visits_once {g : Graph μ} (hg : g.Compiled) (hpipeline : g.IsPipeline) :
    ∃ order, order.Perm (Table.names g.nodes) ∧ order.Nodup ∧ order.head? = some g.entry ∧
      ∀ (initial given : Value) (site begun : Site μ) (start opened : Run μ),
        g.start initial given site = (.ok start, begun) → start.opened? = .ok opened →
        ∀ (meanwhile : Step → Site μ → Site μ) (here : Site μ),
          AnswersAcceptably meanwhile opened here →
          Nonempty (Course meanwhile opened here) ∧ ∀ c : Course meanwhile opened here,
            (g.nodes.length ≤ start.limit.value →
              c.taken.length = g.nodes.length ∧ c.taken.map (fun t => t.1.node) = order ∧
              c.outcome = .over ∧ c.final.status = .completed) ∧
            (start.limit.value < g.nodes.length →
              c.taken.length = start.limit.value ∧
              c.taken.map (fun t => t.1.node) = order.take start.limit.value ∧
              c.final.status = .aborted ∧ ∃ e, c.outcome = .failed (.run e) ∧
                e.fault = .stepLimit start.limit.value) := by
  obtain ⟨order, hchain, hperm⟩ := hg.pipeline hpipeline
  have hlength : order.length = g.nodes.length := by
    rw [hperm.length_eq]
    exact List.length_map _
  have hhead : order.head? = some g.entry := by
    cases horder : order with
    | nil =>
      rw [horder] at hchain
      exact absurd (hchain.eq_goal ▸ hg.linked.entry) hg.linked.reserved
    | cons n rest =>
      rw [horder] at hchain
      rw [hchain.head_eq]
      rfl
  refine ⟨order, hperm, hperm.nodup_iff.mpr hg.connected.distinct, hhead, ?_⟩
  intro initial given site begun start opened hstart hopen meanwhile here hanswers
  have hsound := (Sound.start hstart).opened hopen
  obtain ⟨_, _, hcount, _⟩ := start_eq_ok hstart
  obtain ⟨_, rfl⟩ := opened?_eq_ok hopen
  refine ⟨hsound.course hg.linked here, fun c => ?_⟩
  have hdown := follows_line hg hpipeline hsound ⟨g.entry, .first rfl, hchain⟩ hanswers c
  -- a new run has all of its limit left
  have hallowed : start.limit.value - start.count = start.limit.value := by rw [hcount]; rfl
  have hvisits : c.taken.map (fun t => t.1.node) = order.take start.limit.value :=
    hallowed ▸ hdown.visits
  have htaken : c.taken.length = min start.limit.value order.length := by
    rw [← List.length_take, ← hvisits, List.length_map]
  rw [← hlength]
  refine ⟨fun hmost => ?_, fun hless => ?_⟩
  · have hall := hdown.completes (by rw [hallowed]; exact hmost)
    refine ⟨by rw [htaken, Nat.min_eq_right hmost], ?_, hall⟩
    rw [hvisits, List.take_of_length_le hmost]
  · have haborted := hdown.aborts (by rw [hallowed]; exact hless)
    exact ⟨by rw [htaken, Nat.min_eq_left (Nat.le_of_lt hless)], hvisits, haborted⟩

/-- Two nodes in a line that both contribute the same. -/
def relaying : Graph Unit :=
  Builder.relayed (fun _ => pure (.mapping [(.str "x", .int 1)]))
    (fun _ => pure (.mapping [(.str "x", .int 1)]))

def relayingStart (limit : StepLimit) : Run Unit where
  graph := relaying
  limit := limit
  store := ⟨[("x", .null)]⟩
  count := 0
  current := "a"
  status := .pending
  error := none
  phase := .unopened

theorem relaying_acceptable (limit : StepLimit) :
    AnswersAcceptably (fun _ site => site) { relayingStart limit with phase := .opened }
      (.bare ()) := by
  intro taken p here hpasses q mid hturn handler hhandler
  have hcompiled : relaying.Compiled := Builder.relayed_compiled _ _
  have hsound : Sound relaying { relayingStart limit with phase := .opened } :=
    ⟨rfl, rfl, Nat.zero_le _, .fresh (.inr rfl) rfl rfl rfl rfl⟩
  have hq := (hturn.active hcompiled.linked (hpasses.sound hcompiled.linked hsound).1).1
  have hnodes : q.graph.nodes = [("a", fun _ => pure (.mapping [(.str "x", .int 1)])),
      ("b", fun _ => pure (.mapping [(.str "x", .int 1)]))] := by
    rw [hq.graph]
    rfl
  have hsame : handler = fun _ => pure (.mapping [(.str "x", .int 1)]) := by
    rw [hnodes] at hhandler
    rcases List.mem_cons.mp (Table.mem_of_row? hhandler) with heq | hrest
    · exact congrArg Prod.snd heq
    · exact congrArg Prod.snd (List.mem_singleton.mp hrest)
  have hnames : Table.names q.store.values = ["x"] := by
    have hcomplete := hq.complete
    exact hcomplete
  obtain ⟨old, hold⟩ : ∃ old, Table.row? q.store.values "x" = some old :=
    Option.isSome_iff_exists.mp ((Table.row?_isSome_iff _ _).mpr (by rw [hnames]; exact .head _))
  have hmerged : Store.mergeAll relaying.schema q.store [("x", .int 1)] =
      .ok ⟨Table.put q.store.values "x" (.int 1)⟩ :=
    Store.mergeAll_cons_eq_ok.mpr ⟨_, Store.merge_eq_ok.mpr
      ⟨_, .head _, rfl, old, .int 1, hold, rfl, rfl⟩, rfl⟩
  refine ⟨.mapping [(.str "x", .int 1)], mid, by rw [hsame]; rfl, ?_⟩
  rw [hq.graph]
  exact ⟨_, hmerged⟩

/-- With two steps allowed the run completes after both nodes; with one it is aborted after the
first. -/
theorem relaying_visits_once : relaying.Compiled ∧ relaying.IsPipeline ∧ ∃ order,
    order.Perm ["a", "b"] ∧ order.head? = some "a" ∧
    (∀ c : Course (fun _ site => site)
        { relayingStart ⟨2, by decide⟩ with phase := .opened } (.bare ()),
      c.taken.map (fun t => t.1.node) = order ∧ c.final.status = .completed) ∧
    ∀ c : Course (fun _ site => site)
        { relayingStart ⟨1, by decide⟩ with phase := .opened } (.bare ()),
      c.taken.map (fun t => t.1.node) = order.take 1 ∧ c.final.status = .aborted := by
  have hcompiled : relaying.Compiled := Builder.relayed_compiled _ _
  have hpipeline : relaying.IsPipeline := Builder.relayed_isPipeline _ _
  obtain ⟨order, hperm, _, hhead, hruns⟩ := pipeline_visits_once hcompiled hpipeline
  refine ⟨hcompiled, hpipeline, order, hperm, hhead, fun c => ?_, fun c => ?_⟩
  · obtain ⟨_, hgoes⟩ := hruns .null (.int 2) (.bare ()) (.bare ()) (relayingStart ⟨2, by decide⟩)
      _ rfl rfl _ _ (relaying_acceptable _)
    obtain ⟨_, hvisits, _, hstatus⟩ := (hgoes c).1 (by decide)
    exact ⟨hvisits, hstatus⟩
  · obtain ⟨_, hgoes⟩ := hruns .null (.int 1) (.bare ()) (.bare ()) (relayingStart ⟨1, by decide⟩)
      _ rfl rfl _ _ (relaying_acceptable _)
    obtain ⟨_, hvisits, hstatus, _⟩ := (hgoes c).2 (by decide)
    exact ⟨hvisits, hstatus⟩

end Run

end TeamFlow
