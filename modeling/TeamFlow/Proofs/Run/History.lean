import TeamFlow.Proofs.Run.Request

/-! # What all runs have in common

A run is opened and asked any number of times, each time at a site of its own.
Of a run of a compiled graph `Standing` lists how it can stand then: it waits to
be opened or asked, or it is over in one of three ways. Every request keeps this
(`Sound.next`), so every history does. -/
namespace TeamFlow

variable {μ : Type}

namespace Run

/-! ## Histories -/

/-- One request: where it was made, what came of it, and the run and the site that it left. -/
structure Exchange (μ : Type) where
  site : Site μ
  outcome : Outcome
  after : Run μ
  left : Site μ

/-- What was asked of a run from its start, and what it has become. It may be opened at any time;
what happens at the sites between two requests is left open. -/
inductive History (start : Run μ) : List (Exchange μ) → Run μ → Prop where
  | fresh : History start [] start
  | opens {log : List (Exchange μ)} {r opened : Run μ} (h : History start log r)
      (hopen : r.opened? = .ok opened) : History start log opened
  | asks {log : List (Exchange μ)} {r : Run μ} {x : Exchange μ} (h : History start log r)
      (hnext : r.next x.site = ((x.outcome, x.after), x.left)) :
      History start (log ++ [x]) x.after

/-- The steps that were handed over, each with the site at which it was asked for. -/
def steps (log : List (Exchange μ)) : List (Site μ × Step) :=
  log.filterMap fun x => match x.outcome with
    | .step s => some (x.site, s)
    | _ => none

theorem steps_snoc_step {x : Exchange μ} {s : Step} (h : x.outcome = .step s)
    (log : List (Exchange μ)) : steps (log ++ [x]) = steps log ++ [(x.site, s)] := by
  simp [steps, h]

theorem steps_snoc_other {x : Exchange μ} (h : ∀ s, x.outcome ≠ .step s)
    (log : List (Exchange μ)) : steps (log ++ [x]) = steps log := by
  cases hx : x.outcome with
  | step s => exact absurd hx (h s)
  | _ => simp [steps, hx]

theorem step_or_other (outcome : Outcome) :
    (∃ s, outcome = .step s) ∨ ∀ s, outcome ≠ .step s := by
  cases outcome with
  | step s => exact .inl ⟨s, rfl⟩
  | _ => exact .inr fun s h => by cases h

/-! ## How a run stands -/

/-- The ways in which a run can stand between two requests. -/
inductive Standing (r : Run μ) : Prop where
  | fresh (hphase : r.phase = .unopened ∨ r.phase = .opened) (hstatus : r.status = .pending)
      (herror : r.error = none) (hcount : r.count = 0) (hcurrent : r.current = r.graph.entry)
  | paused (hphase : r.phase = .paused) (hstatus : r.status = .running) (herror : r.error = none)
      (hcount : 0 < r.count) (hcurrent : r.graph.IsNode r.current)
  | completed (hphase : r.phase = .closed) (hstatus : r.status = .completed)
      (herror : r.error = none) (hcount : 0 < r.count) (hcurrent : r.current = endName)
  | ended {e : RunError} (hphase : r.phase = .closed) (herror : r.error = some e)
      (hstatus : r.status = if e.fault.isStepLimit then .aborted else .failed)
      (hstep : e.step = some (r.count : Int)) (hstate : e.lastState = some (.mapping r.state))
      (hcurrent : r.graph.IsNode r.current)
  | brokenOff (hphase : r.phase = .closed) (hstatus : r.status = .running)
      (herror : r.error = none) (hcurrent : r.graph.IsNode r.current)

/-- A run of a graph as requests leave it. -/
structure Sound (g : Graph μ) (r : Run μ) : Prop where
  graph : r.graph = g
  complete : r.store.Complete g.schema
  within : r.count ≤ r.limit.value
  standing : r.Standing

theorem Standing.of_fresh {r : Run μ} (h : r.Standing)
    (hphase : r.phase = .unopened ∨ r.phase = .opened) :
    r.status = .pending ∧ r.error = none ∧ r.count = 0 ∧ r.current = r.graph.entry := by
  cases h with
  | fresh _ hstatus herror hcount hcurrent => exact ⟨hstatus, herror, hcount, hcurrent⟩
  | paused hother | completed hother | ended hother | brokenOff hother =>
    rw [hother] at hphase
    rcases hphase with hphase | hphase <;> cases hphase

theorem Standing.of_paused {r : Run μ} (h : r.Standing) (hphase : r.phase = .paused) :
    r.status = .running ∧ r.error = none ∧ 0 < r.count ∧ r.graph.IsNode r.current := by
  cases h with
  | paused _ hstatus herror hcount hcurrent => exact ⟨hstatus, herror, hcount, hcurrent⟩
  | fresh hfresh =>
    rw [hphase] at hfresh
    rcases hfresh with hfresh | hfresh <;> cases hfresh
  | completed hother | ended hother | brokenOff hother => rw [hphase] at hother; cases hother

theorem Standing.lastState {r : Run μ} (h : r.Standing) {e : RunError} (he : r.error = some e) :
    e.lastState = some (.mapping r.state) := by
  cases h with
  | ended _ herror _ _ hstate =>
    cases he.symm.trans herror
    exact hstate
  | fresh _ _ herror | paused _ _ herror | completed _ _ herror | brokenOff _ _ herror =>
    cases he.symm.trans herror

/-- A run that is on its way, at a node. -/
structure Active (g : Graph μ) (r : Run μ) : Prop where
  graph : r.graph = g
  complete : r.store.Complete g.schema
  within : r.count ≤ r.limit.value
  status : r.status = .running
  error : r.error = none
  node : g.IsNode r.current

theorem Sound.active {g : Graph μ} {r : Run μ} (h : Sound g r) (hphase : r.phase = .paused) :
    Active g r := by
  obtain ⟨hstatus, herror, _, hnode⟩ := h.standing.of_paused hphase
  exact ⟨h.graph, h.complete, h.within, hstatus, herror, h.graph ▸ hnode⟩

theorem Turns.active {g : Graph μ} (hg : g.Linked) {r p : Run μ} (h : Sound g r)
    {site mid : Site μ} (hturn : r.Turns site p mid) :
    Active g p ∧ p.count < p.limit.value := by
  cases hturn with
  | first hphase =>
    obtain ⟨_, herror, hcount, hcurrent⟩ := h.standing.of_fresh (.inr hphase)
    refine ⟨⟨h.graph, h.complete, h.within, rfl, herror, ?_⟩, ?_⟩
    · show g.IsNode r.current
      rw [hcurrent, h.graph]
      exact hg.entry
    · show r.count < r.limit.value
      rw [hcount]
      exact r.limit.positive
  | next hphase hroute htarget hlimit =>
    have hr := h.active hphase
    rw [hr.graph] at hroute
    have hnode := (Graph.nextNode_eq_ok hg hr.node hroute).resolve_left htarget
    exact ⟨⟨hr.graph, hr.complete, hr.within, hr.status, hr.error, hnode⟩, hlimit⟩

theorem Turns.frame {r p : Run μ} {site mid : Site μ} (hturn : r.Turns site p mid) :
    p.graph = r.graph ∧ p.store = r.store ∧ p.count = r.count ∧ p.limit = r.limit := by
  cases hturn <;> exact ⟨rfl, rfl, rfl, rfl⟩

theorem Turns.paused {g : Graph μ} {r p : Run μ} {site mid : Site μ} (hturn : r.Turns site p mid)
    (hr : Sound g r) (hcount : 0 < r.count) : r.phase = .paused := by
  cases hturn with
  | first hphase =>
    obtain ⟨_, _, hzero, _⟩ := hr.standing.of_fresh (.inr hphase)
    omega
  | next hphase _ _ _ => exact hphase

/-! ## Failures -/

/-- A run error ends a run, anything else breaks it off. -/
theorem failWith_cases (r : Run μ) (why : Failure) (node : String) :
    (∃ e, why = .run e ∧ r.failWith why node = r.endWith e node) ∨
      ((∀ e, why ≠ .run e) ∧
        r.failWith why node = (.failed (escaping why), { r with phase := .closed })) := by
  cases why with
  | run e => exact .inl ⟨e, rfl, rfl⟩
  | _ => exact .inr ⟨fun e h => (by cases h), rfl⟩

theorem failWith_of_ne_run (r : Run μ) {why : Failure} (h : ∀ e, why ≠ .run e) (node : String) :
    r.failWith why node = (.failed (escaping why), { r with phase := .closed }) := by
  rcases r.failWith_cases why node with ⟨e, he, _⟩ | ⟨_, heq⟩
  · exact absurd he (h e)
  · exact heq

theorem escaping_ne_run {why : Failure} (h : ∀ e, why ≠ .run e) : ∀ e, escaping why ≠ .run e := by
  intro e he
  unfold escaping at he
  split at he
  next => cases he
  next => exact h e he

theorem Active.endWith {g : Graph μ} {r : Run μ} (h : Active g r) (e : RunError) (node : String) :
    Sound g (r.endWith e node).2 := by
  refine ⟨h.graph, h.complete, h.within, .ended rfl rfl rfl rfl rfl ?_⟩
  show r.graph.IsNode r.current
  rw [h.graph]
  exact h.node

theorem Active.failWith {g : Graph μ} {r : Run μ} (h : Active g r) (why : Failure)
    (node : String) : Sound g (r.failWith why node).2 := by
  rcases r.failWith_cases why node with ⟨e, _, heq⟩ | ⟨_, heq⟩
  · rw [heq]
    exact h.endWith e node
  · rw [heq]
    refine ⟨h.graph, h.complete, h.within, .brokenOff rfl h.status h.error ?_⟩
    show r.graph.IsNode r.current
    rw [h.graph]
    exact h.node

theorem failWith_frame (r : Run μ) (why : Failure) (node : String) :
    (r.failWith why node).2.store = r.store ∧ (r.failWith why node).2.count = r.count ∧
      (r.failWith why node).2.limit = r.limit ∧ (r.failWith why node).2.phase = .closed := by
  cases why <;> exact ⟨rfl, rfl, rfl, rfl⟩

theorem failWith_graph (r : Run μ) (why : Failure) (node : String) :
    (r.failWith why node).2.graph = r.graph := by
  cases why <;> rfl

theorem failWith_failed (r : Run μ) (why : Failure) (node : String) :
    ∃ raised, (r.failWith why node).1 = .failed raised := by
  cases why <;> exact ⟨_, rfl⟩

/-! ## One request -/

theorem opened?_eq_ok {r opened : Run μ} (h : r.opened? = .ok opened) :
    r.phase = .unopened ∧ opened = { r with phase := .opened } := by
  unfold opened? at h
  split at h
  next hphase => cases h; exact ⟨hphase, rfl⟩
  next => cases h

theorem Sound.opened {g : Graph μ} {r opened : Run μ} (h : Sound g r)
    (hopen : r.opened? = .ok opened) : Sound g opened := by
  obtain ⟨hphase, rfl⟩ := opened?_eq_ok hopen
  obtain ⟨hstatus, herror, hcount, hcurrent⟩ := h.standing.of_fresh (.inl hphase)
  exact ⟨h.graph, h.complete, h.within, .fresh (.inr rfl) hstatus herror hcount hcurrent⟩

/-- Every request keeps a run sound. -/
theorem Sound.next {g : Graph μ} (hg : g.Linked) {r : Run μ} (h : Sound g r) (site : Site μ) :
    Sound g (r.next site).1.2 := by
  have hasked := r.asked_next site
  generalize (r.next site).1 = result, (r.next site).2 = left at hasked
  cases hasked with
  | idle _ => exact h
  | stepped hturn hcall =>
    obtain ⟨hp, hbelow⟩ := hturn.active hg h
    rw [hp.graph] at hcall
    obtain ⟨_, hmerges⟩ := Graph.perform_eq_ok hp.complete hp.node hcall
    refine ⟨hp.graph, hmerges.complete hp.complete, hbelow, ?_⟩
    refine .paused rfl hp.status hp.error (Nat.succ_pos _) ?_
    show Graph.IsNode _ _
    rw [hp.graph]
    exact hp.node
  | nodeFailed hturn hcall => exact (hturn.active hg h).1.failWith _ _
  | routingFailed hphase hroute => exact (h.active hphase).failWith _ _
  | completed hphase hroute =>
    obtain ⟨_, herror, hcount, _⟩ := h.standing.of_paused hphase
    exact ⟨h.graph, h.complete, h.within, .completed rfl rfl herror hcount rfl⟩
  | exhausted hphase hroute htarget hlimit => exact (h.active hphase).endWith _ _

theorem asked_of_next {r : Run μ} {site left : Site μ} {result : Outcome × Run μ}
    (h : r.next site = (result, left)) : r.Asked site result left := by
  have hasked := r.asked_next site
  rw [h] at hasked
  exact hasked

theorem next_graph (r : Run μ) (site : Site μ) : (r.next site).1.2.graph = r.graph := by
  have hasked := r.asked_next site
  generalize (r.next site).1 = result, (r.next site).2 = left at hasked
  cases hasked with
  | idle _ | completed _ _ | exhausted _ _ _ _ => rfl
  | stepped hturn _ => exact hturn.frame.1
  | nodeFailed hturn _ => exact (failWith_graph _ _ _).trans hturn.frame.1
  | routingFailed _ _ => exact failWith_graph r _ _

theorem Asked.step {r : Run μ} {site left : Site μ} {result : Outcome × Run μ} {s : Step}
    (h : r.Asked site result left) (hs : result.1 = .step s) :
    ∃ p mid delta store, r.Turns site p mid ∧
      p.graph.perform p.store p.current mid = (.ok (delta, store), left) ∧
      s = ⟨p.count + 1, p.current, delta⟩ ∧
      result.2 = { p with store := store, count := p.count + 1, phase := .paused } := by
  cases h with
  | idle _ | completed _ _ | exhausted _ _ _ _ => cases hs
  | @stepped p mid _ delta store hturn hcall =>
    cases hs
    exact ⟨p, mid, delta, store, hturn, hcall, rfl, rfl⟩
  | nodeFailed _ _ | routingFailed _ _ =>
    obtain ⟨raised, hraised⟩ := failWith_failed _ _ _
    cases hraised.symm.trans hs

theorem Sound.stepped {g : Graph μ} (hg : g.Linked) {r after : Run μ} (h : Sound g r)
    {site left : Site μ} {s : Step} (hnext : r.next site = ((.step s, after), left)) :
    Sound g after ∧ after.phase = .paused ∧ after.count = r.count + 1 ∧ after.limit = r.limit := by
  have hafter := h.next hg site
  rw [hnext] at hafter
  obtain ⟨p, _, _, _, hturn, _, _, heq⟩ := (asked_of_next hnext).step rfl
  have heq : after = _ := heq
  obtain ⟨_, _, hcount, hlimit⟩ := hturn.frame
  refine ⟨hafter, ?_⟩
  rw [heq, ← hcount, ← hlimit]
  exact ⟨rfl, rfl, rfl⟩

theorem Asked.frame {r : Run μ} {site left : Site μ} {result : Outcome × Run μ}
    (h : r.Asked site result left) (hother : ∀ s, result.1 ≠ .step s) :
    result.2.limit = r.limit ∧ result.2.count = r.count ∧ result.2.store = r.store ∧
      result.2.phase ≠ .paused := by
  cases h with
  | idle hphase =>
    exact ⟨rfl, rfl, rfl, fun hpaused => not_idle (.inr hpaused) hphase⟩
  | stepped _ _ => exact absurd rfl (hother _)
  | nodeFailed hturn _ =>
    obtain ⟨_, hstore, hcount, hlimit⟩ := hturn.frame
    obtain ⟨hstore', hcount', hlimit', hclosed⟩ := failWith_frame _ _ _
    refine ⟨hlimit'.trans hlimit, hcount'.trans hcount, hstore'.trans hstore, ?_⟩
    simp [hclosed]
  | routingFailed _ _ =>
    obtain ⟨hstore, hcount, hlimit, hclosed⟩ := failWith_frame r _ _
    exact ⟨hlimit, hcount, hstore, by simp [hclosed]⟩
  | completed _ _ => exact ⟨rfl, rfl, rfl, fun hpaused => by cases hpaused⟩
  | exhausted _ _ _ _ => exact ⟨rfl, rfl, rfl, fun hpaused => by cases hpaused⟩

/-! ## All requests -/

theorem start_eq_ok {g : Graph μ} {initial given : Value} {site left : Site μ} {r : Run μ}
    (h : g.start initial given site = (.ok r, left)) :
    r.graph = g ∧ r.store.Begins g.schema initial ∧ r.count = 0 ∧ r.current = g.entry ∧
      r.status = .pending ∧ r.error = none ∧ r.phase = .unopened := by
  obtain ⟨limit, mid, _, h⟩ := Act.bind_eq_ok.mp h
  obtain ⟨store, mid', hstore, h⟩ := Act.bind_eq_ok.mp h
  cases h
  exact ⟨rfl, Store.begins_of_create (congrArg Prod.fst hstore), rfl, rfl, rfl, rfl, rfl⟩

theorem Sound.start {g : Graph μ} {initial given : Value} {site left : Site μ} {r : Run μ}
    (h : g.start initial given site = (.ok r, left)) : Sound g r := by
  obtain ⟨hgraph, hbegins, hcount, hcurrent, hstatus, herror, hphase⟩ := start_eq_ok h
  refine ⟨hgraph, hbegins.complete, by omega, ?_⟩
  exact .fresh (.inl hphase) hstatus herror hcount (by rw [hcurrent, hgraph])

theorem opens_of_start {g : Graph μ} {initial given : Value} {site left : Site μ} {r : Run μ}
    (h : g.start initial given site = (.ok r, left)) :
    r.opened? = .ok { r with phase := .opened } := by
  obtain ⟨_, _, _, _, _, _, hphase⟩ := start_eq_ok h
  simp only [opened?, hphase]

/-- Every history keeps a run sound, and its count is that of the steps handed over. -/
theorem History.sound {g : Graph μ} (hg : g.Linked) {start r : Run μ} {log : List (Exchange μ)}
    (h : History start log r) (hstart : Sound g start) :
    Sound g r ∧ r.limit = start.limit ∧ r.count = start.count + (steps log).length := by
  induction h with
  | fresh => exact ⟨hstart, rfl, rfl⟩
  | opens _ hopen ih =>
    obtain ⟨hsound, hlimit, hcount⟩ := ih
    refine ⟨hsound.opened hopen, ?_⟩
    obtain ⟨_, rfl⟩ := opened?_eq_ok hopen
    exact ⟨hlimit, hcount⟩
  | @asks log r x _ hnext ih =>
    obtain ⟨hsound, hlimit, hcount⟩ := ih
    have hsound' := hsound.next hg x.site
    rw [hnext] at hsound'
    refine ⟨hsound', ?_⟩
    rcases step_or_other x.outcome with ⟨s, hs⟩ | hother
    · rw [hs] at hnext
      obtain ⟨_, _, hcount', hlimit'⟩ := hsound.stepped hg hnext
      rw [steps_snoc_step hs, List.length_append, List.length_singleton]
      exact ⟨hlimit'.trans hlimit, by omega⟩
    · obtain ⟨hlimit', hcount', _⟩ := (asked_of_next hnext).frame hother
      rw [steps_snoc_other hother]
      exact ⟨hlimit'.trans hlimit, hcount'.trans hcount⟩

theorem History.graph {start r : Run μ} {log : List (Exchange μ)} (h : History start log r) :
    r.graph = start.graph := by
  induction h with
  | fresh => rfl
  | opens _ hopen ih =>
    obtain ⟨_, rfl⟩ := opened?_eq_ok hopen
    exact ih
  | @asks _ r x _ hnext ih =>
    have hgraph := r.next_graph x.site
    rw [hnext] at hgraph
    exact hgraph.trans ih

theorem History.paused_of_step {start r : Run μ} {log : List (Exchange μ)}
    (h : History start log r) {x : Exchange μ} {s : Step} (hlast : log.getLast? = some x)
    (hstep : x.outcome = .step s) : r.phase = .paused := by
  induction h with
  | fresh => cases hlast
  | opens _ hopen ih =>
    obtain ⟨hphase, _⟩ := opened?_eq_ok hopen
    cases (ih hlast).symm.trans hphase
  | asks _ hnext _ =>
    rw [List.getLast?_append, List.getLast?_singleton] at hlast
    cases hlast
    obtain ⟨_, _, _, _, _, _, _, hafter⟩ := (asked_of_next hnext).step hstep
    exact congrArg Run.phase hafter

/-- A request that hands over a step merges what the node whose turn it was answered. -/
theorem Sound.answered {g : Graph μ} (hg : g.Linked) {r after : Run μ} (h : Sound g r)
    {site left : Site μ} {s : Step} (hnext : r.next site = ((.step s, after), left)) :
    ∃ p mid, r.Turns site p mid ∧ p.current = s.node ∧
      g.Answers s.node r.store.snapshot mid s.delta left ∧
      r.store.Merges g.schema s.delta after.store := by
  obtain ⟨p, mid, delta, new, hturn, hcall, rfl, hafter⟩ := (asked_of_next hnext).step rfl
  have hstore : after.store = new := congrArg Run.store hafter
  have hp := (hturn.active hg h).1
  rw [hp.graph] at hcall
  obtain ⟨hanswer, hmerges⟩ := Graph.perform_eq_ok hp.complete hp.node hcall
  rw [hturn.frame.2.1] at hanswer hmerges
  rw [hstore]
  exact ⟨p, mid, hturn, rfl, hanswer, hmerges⟩

/-- What every step keeps of a store holds after every history that began with it. -/
theorem History.keeps {g : Graph μ} (hg : g.Linked) (Keeps : Store → Prop)
    (hstep : ∀ {old new : Store} {node : String} {delta : Entries} {mid left : Site μ},
      old.Complete g.schema → g.Answers node old.snapshot mid delta left →
      old.Merges g.schema delta new → Keeps old → Keeps new)
    {start r : Run μ} {log : List (Exchange μ)} (h : History start log r) (hstart : Sound g start)
    (hkeeps : Keeps start.store) : Keeps r.store := by
  induction h with
  | fresh => exact hkeeps
  | opens _ hopen ih =>
    obtain ⟨_, rfl⟩ := opened?_eq_ok hopen
    exact ih
  | @asks log r x h hnext ih =>
    have hr := (h.sound hg hstart).1
    rcases step_or_other x.outcome with ⟨s, hs⟩ | hother
    · rw [hs] at hnext
      obtain ⟨_, _, _, _, hanswer, hmerges⟩ := hr.answered hg hnext
      exact hstep hr.complete hanswer hmerges ih
    · obtain ⟨_, _, hstore, _⟩ := (asked_of_next hnext).frame hother
      have hstore : x.after.store = r.store := hstore
      rw [hstore]
      exact ih

end Run

/-- A site without settings and files. -/
def Site.bare (memory : μ) : Site μ := ⟨.none, [], ⟨[]⟩, memory⟩

end TeamFlow
