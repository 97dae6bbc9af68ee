import TeamFlow.Proofs.Run.History

/-! # Failures end a run, or break it off

What handlers, routers and reducers fail with should end a run with a run error
that says where it ended. A run that fails otherwise is broken off: it stays as
if it were running, without an error. `CrashesAt` lists the failures that do so:
reports that cannot be written, and reducers. -/
namespace TeamFlow.Run

variable {μ : Type}

/-- A run is over as it should be: it is completed and nothing is raised, or the run error that is
raised is kept with it and says at which count and with which state it ended. -/
inductive Contained : Outcome × Run μ → Prop where
  | completed {r : Run μ} (hstatus : r.status = .completed) (herror : r.error = none) :
      Contained (.over, r)
  | ended {r : Run μ} {e : RunError} (herror : r.error = some e)
      (hstatus : r.status = if e.fault.isStepLimit then .aborted else .failed)
      (hannotated : e.isAnnotated = true) (hstep : e.step = some (r.count : Int))
      (hstate : e.lastState = some (.mapping r.state)) : Contained (.failed (.run e), r)

/-- Something that is no run error is raised, and the run looks as if it were on its way. -/
inductive BrokenOff : Outcome × Run μ → Prop where
  | escaped {r : Run μ} {why : Failure} (hescaped : ∀ e, why ≠ .run e)
      (hstatus : r.status = .running) (herror : r.error = none) : BrokenOff (.failed why, r)

/-- A request breaks the run off: the call of the node whose turn it is does, or that of the router
that is asked for the next node. -/
inductive CrashesAt (r : Run μ) (site : Site μ) : Prop where
  | node {p : Run μ} {mid : Site μ} {why : Failure} (hturn : r.Turns site p mid)
      (hcrash : p.graph.NodeCrashes p.store p.current mid why)
  | router (hphase : r.phase = .paused)
      (hcrash : r.graph.RouterCrashes r.current (.mapping r.state) site)

theorem Turns.next_eq {r p : Run μ} {site mid : Site μ} (hturn : r.Turns site p mid) :
    r.next site = p.execute mid := by
  cases hturn with
  | first hphase => simp only [Run.next, hphase]
  | next hphase hroute htarget hlimit =>
    simp only [Run.next, hphase, hroute, moveTo, if_neg htarget, if_neg (Nat.not_le.mpr hlimit)]

theorem Turns.next_of_call {r p : Run μ} {site mid left : Site μ} (hturn : r.Turns site p mid)
    {handler : Handler μ} (hnode : Table.row? p.graph.nodes p.current = some handler)
    {answer : Except Failure Value}
    (hcall : handler (.mapping p.state) mid = (answer, left)) :
    r.next site = (match p.graph.settle p.store p.current answer with
      | .ok (delta, store) => (.step ⟨p.count + 1, p.current, delta⟩,
          { p with store := store, count := p.count + 1, phase := .paused })
      | .error why => p.failWith why p.current, left) := by
  rw [hturn.next_eq, execute, Graph.perform_eq hnode hcall]
  cases p.graph.settle p.store p.current answer <;> rfl

theorem next_of_routing_error {r : Run μ} {site left : Site μ} {why : Failure}
    (hphase : r.phase = .paused)
    (hroute : r.graph.nextNode r.current (.mapping r.state) site = (.error why, left)) :
    r.next site = (r.failWith why r.current, left) := by
  simp only [next, hphase, hroute]

theorem ne_run_of_failWith {r : Run μ} {why raised : Failure} {node : String}
    (h : (r.failWith why node).1 = .failed raised) (hrun : ∀ e, raised ≠ .run e) :
    ∀ e, why ≠ .run e := by
  intro e he
  subst he
  cases h
  exact hrun _ rfl

/-- Exactly the listed failures leave a run as something that is no run error. -/
theorem Sound.crashesAt_iff {g : Graph μ} (hg : g.Linked) {r : Run μ} (h : Sound g r)
    (site : Site μ) :
    r.CrashesAt site ↔ ∃ why, (r.next site).1.1 = .failed why ∧ ∀ e, why ≠ .run e := by
  constructor
  · intro hcrash
    cases hcrash with
    | @node p mid why hturn hcrash =>
      have hp := (hturn.active hg h).1
      rw [hp.graph] at hcrash
      obtain ⟨left, hcall, hrun⟩ :=
        (Graph.perform_crashes_iff hp.complete hp.node mid why).mp hcrash
      refine ⟨escaping why, ?_, escaping_ne_run hrun⟩
      simp only [hturn.next_eq, execute, hp.graph, hcall, failWith_of_ne_run p hrun]
    | router hphase hcrash =>
      have hr := h.active hphase
      rw [hr.graph] at hcrash
      obtain ⟨left, hroute, hrun⟩ :=
        (Graph.nextNode_crashes_iff hg hr.node _ site _).mp ⟨hcrash, rfl⟩
      rw [← hr.graph] at hroute
      refine ⟨_, ?_, escaping_ne_run hrun⟩
      rw [next_of_routing_error hphase hroute, failWith_of_ne_run r hrun]
  · intro hfailed
    obtain ⟨why, hwhy, hrun⟩ := hfailed
    have hasked := r.asked_next site
    generalize (r.next site).1 = result, (r.next site).2 = left at hasked hwhy
    cases hasked with
    -- a call and a route are all that can raise anything else
    | idle _ | stepped _ _ | completed _ _ => cases hwhy
    | exhausted _ _ _ _ => cases hwhy; exact absurd rfl (hrun _)
    | @nodeFailed p mid left raised hturn hcall =>
      have hp := (hturn.active hg h).1
      have hraised := ne_run_of_failWith hwhy hrun
      rw [hp.graph] at hcall
      have hcrash :=
        (Graph.perform_crashes_iff hp.complete hp.node mid raised).mpr ⟨left, hcall, hraised⟩
      rw [← hp.graph] at hcrash
      exact .node hturn hcrash
    | @routingFailed raised left hphase hroute =>
      have hr := h.active hphase
      have hraised := ne_run_of_failWith hwhy hrun
      refine .router hphase ?_
      rw [hr.graph] at hroute ⊢
      exact ((Graph.nextNode_crashes_iff hg hr.node _ site raised).mpr ⟨left, hroute, hraised⟩).1

theorem contained_endWith (r : Run μ) (e : RunError) (node : String) :
    Contained (r.endWith e node) :=
  .ended rfl rfl rfl rfl rfl

theorem Active.contained_or_brokenOff {g : Graph μ} {r : Run μ} (h : Active g r) (why : Failure)
    (node : String) : Contained (r.failWith why node) ∨ BrokenOff (r.failWith why node) := by
  rcases r.failWith_cases why node with ⟨e, _, heq⟩ | ⟨hrun, heq⟩
  · rw [heq]
    exact .inl (r.contained_endWith e node)
  · rw [heq]
    exact .inr (.escaped (escaping_ne_run hrun) h.status h.error)

theorem Sound.next_cases {g : Graph μ} (hg : g.Linked) {r : Run μ} (h : Sound g r)
    (hopen : r.phase = .opened ∨ r.phase = .paused) (site : Site μ) :
    (∃ s, (r.next site).1.1 = .step s) ∨ Contained (r.next site).1 ∨
      BrokenOff (r.next site).1 := by
  have hasked := r.asked_next site
  generalize (r.next site).1 = result, (r.next site).2 = left at hasked
  cases hasked with
  | idle hphase => exact absurd hphase (not_idle hopen)
  | stepped _ _ => exact .inl ⟨_, rfl⟩
  | nodeFailed hturn _ => exact .inr ((hturn.active hg h).1.contained_or_brokenOff _ _)
  | routingFailed hphase _ => exact .inr ((h.active hphase).contained_or_brokenOff _ _)
  | completed hphase _ => exact .inr (.inl (.completed rfl (h.active hphase).error))
  | exhausted _ _ _ _ => exact .inr (.inl (r.contained_endWith _ _))

/-- Failures are contained, apart from crashes. A run of a compiled graph hands over at most as
many steps as its limit says. Whatever was asked of it before, the next request hands over a step or
ends the run as it should, unless a report cannot be written or a reducer fails on it; exactly then
the run is broken off. -/
theorem failure_contained_or_crash {g : Graph μ} (hg : g.Compiled) {initial given : Value}
    {site left : Site μ} {start r : Run μ} {log : List (Exchange μ)}
    (hstart : g.start initial given site = (.ok start, left)) (h : History start log r)
    (hopen : r.phase = .opened ∨ r.phase = .paused) (here : Site μ) :
    (steps log).length ≤ start.limit.value ∧
      (((∃ s, (r.next here).1.1 = .step s) ∧ ¬ r.CrashesAt here) ∨
        (Contained (r.next here).1 ∧ ¬ r.CrashesAt here) ∨
        (BrokenOff (r.next here).1 ∧ r.CrashesAt here)) := by
  have hlinked := hg.linked
  obtain ⟨hsound, hlimit, hcount⟩ := h.sound hlinked (.start hstart)
  have hcrash := hsound.crashesAt_iff hlinked here
  constructor
  · have hwithin := hsound.within
    rw [hlimit] at hwithin
    omega
  · rcases hsound.next_cases hlinked hopen here with hstep | hcontained | hbroken
    · refine .inl ⟨hstep, fun hc => ?_⟩
      obtain ⟨s, hs⟩ := hstep
      obtain ⟨why, hwhy, _⟩ := hcrash.mp hc
      rw [hs] at hwhy
      cases hwhy
    · refine .inr (.inl ⟨hcontained, fun hc => ?_⟩)
      obtain ⟨why, hwhy, hrun⟩ := hcrash.mp hc
      generalize (r.next here).1 = result at hcontained hwhy
      cases hcontained with
      | completed _ _ => cases hwhy
      | ended _ _ _ _ _ => cases hwhy; exact hrun _ rfl
    · refine .inr (.inr ⟨hbroken, hcrash.mpr ?_⟩)
      generalize (r.next here).1 = result at hbroken
      cases hbroken with
      | escaped hescaped _ _ => exact ⟨_, rfl, hescaped⟩

/-- A graph whose only channel refuses every contribution. -/
def refusing : Graph Unit :=
  ((Builder.new (Builder.oneChannel (fun _ _ => .error (.badValue "refused")) (.int 0)) none).after
    (Builder.turnTaking (fun _ => pure (.mapping [(.str "x", .int 1)])) (fun _ => pure .null)
      (fun _ => pure (.str "go")))).graph .null

theorem refusing_compiled : refusing.Compiled :=
  ⟨_, _, _, _, Builder.turnTaking_compiles _ _ _ _ _⟩

theorem refusing_fails : ∃ start left opened,
    refusing.start .null .null (.bare ()) = (.ok start, left) ∧ start.opened? = .ok opened ∧
      (opened.next left).1.1 = .failed (.badValue "refused") := ⟨_, _, _, rfl, rfl, rfl⟩

/-- The first request of a run of this graph raises what the reducer raised, and nothing in the run
tells that it is over. -/
theorem refusing_breaks_off : refusing.Compiled ∧ ∃ start left opened,
    refusing.start .null .null (.bare ()) = (.ok start, left) ∧ start.opened? = .ok opened ∧
      BrokenOff (opened.next left).1 ∧ opened.CrashesAt left := by
  obtain ⟨start, left, opened, hstart, hopen, hfailed⟩ := refusing_fails
  have hphase : opened.phase = .opened := by
    obtain ⟨_, rfl⟩ := opened?_eq_ok hopen
    rfl
  have hcases := (failure_contained_or_crash refusing_compiled hstart (.opens .fresh hopen)
    (.inl hphase) left).2
  refine ⟨refusing_compiled, start, left, opened, hstart, hopen, ?_⟩
  generalize (opened.next left).1 = result at hfailed hcases ⊢
  rcases hcases with ⟨⟨s, hstep⟩, _⟩ | ⟨hcontained, _⟩ | hbroken
  · rw [hfailed] at hstep
    cases hstep
  · cases hcontained <;> cases hfailed
  · exact hbroken

/-- So not every run ends as it should. -/
theorem containment_refuted : ¬ ∀ (g : Graph Unit), g.Compiled → ∀ (initial given : Value)
    (site left : Site Unit) (start opened : Run Unit),
    g.start initial given site = (.ok start, left) → start.opened? = .ok opened →
    ∀ here, (∃ s, (opened.next here).1.1 = .step s) ∨ Contained (opened.next here).1 := by
  intro hall
  obtain ⟨start, left, opened, hstart, hopen, hfailed⟩ := refusing_fails
  have hcases := hall refusing refusing_compiled _ _ _ left start opened hstart hopen left
  generalize (opened.next left).1 = result at hfailed hcases
  rcases hcases with ⟨s, hstep⟩ | hcontained
  · rw [hfailed] at hstep
    cases hstep
  · cases hcontained <;> cases hfailed

end TeamFlow.Run
