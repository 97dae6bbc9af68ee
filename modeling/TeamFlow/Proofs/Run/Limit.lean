import TeamFlow.Proofs.Run.Course
import TeamFlow.Proofs.Run.Ending

/-! # A step limit only truncates

Two runs of a graph that differ in their limits take the same steps as long as
neither is at its limit: no request but the one that overruns a limit looks at
it (`next_within`). So the course of the run with the smaller limit is that of
the other one, or the part of it that the limit allows. -/
namespace TeamFlow.Run

variable {μ : Type} {meanwhile : Step → Site μ → Site μ}

/-- The same run under another limit. -/
def within (r : Run μ) (limit : StepLimit) : Run μ := { r with limit := limit }

@[simp]
theorem within_phase (r : Run μ) (limit : StepLimit) : (r.within limit).phase = r.phase := rfl

@[simp]
theorem within_graph (r : Run μ) (limit : StepLimit) : (r.within limit).graph = r.graph := rfl

@[simp]
theorem within_store (r : Run μ) (limit : StepLimit) : (r.within limit).store = r.store := rfl

@[simp]
theorem within_current (r : Run μ) (limit : StepLimit) : (r.within limit).current = r.current := rfl

@[simp]
theorem within_state (r : Run μ) (limit : StepLimit) : (r.within limit).state = r.state := rfl

@[simp]
theorem within_count (r : Run μ) (limit : StepLimit) : (r.within limit).count = r.count := rfl

@[simp]
theorem within_limit (r : Run μ) (limit : StepLimit) : (r.within limit).limit = limit := rfl

/-! ## Requests -/

theorem failWith_within (r : Run μ) (limit : StepLimit) (why : Failure) (node : String) :
    (r.within limit).failWith why node =
      ((r.failWith why node).1, (r.failWith why node).2.within limit) := by
  cases why <;> rfl

theorem execute_within (r : Run μ) (limit : StepLimit) (site : Site μ) :
    (r.within limit).execute site =
      (((r.execute site).1.1, (r.execute site).1.2.within limit), (r.execute site).2) := by
  cases hcall : r.graph.perform r.store r.current site with
  | mk answer left =>
    cases answer with
    | ok answer =>
      simp only [execute, within_graph, within_store, within_current, hcall]
      rfl
    | error why => simp only [execute, within_graph, within_store, within_current, hcall,
        failWith_within]

/-- A request does not depend on the limit, unless it overruns one. -/
theorem next_within {r : Run μ} {site : Site μ} (h : ¬ r.Overruns site) {limit : StepLimit}
    (hle : r.limit.value ≤ limit.value) :
    (r.within limit).next site =
      (((r.next site).1.1, (r.next site).1.2.within limit), (r.next site).2) := by
  cases hphase : r.phase with
  | unopened | closed => simp only [next, within_phase, hphase]
  | opened =>
    simp only [next, within_phase, hphase]
    exact execute_within { r with status := .running } limit site
  | paused =>
    simp only [next, within_phase, within_graph, within_current, within_state, hphase]
    cases hroute : r.graph.nextNode r.current (.mapping r.state) site with
    | mk answer left =>
      cases answer with
      | error why => simp only [failWith_within]
      | ok target =>
        by_cases htarget : target = endName
        · simp only [moveTo, if_pos htarget]
          rfl
        · have hbelow : ¬ r.limit.value ≤ r.count := by
            intro hfull
            exact h ⟨hphase, hfull, target, left, hroute, htarget⟩
          have hbelow' : ¬ (r.within limit).limit.value ≤ (r.within limit).count := by
            rw [within_limit, within_count]
            omega
          simp only [moveTo, if_neg htarget, if_neg hbelow, if_neg hbelow']
          exact execute_within { r with current := target } limit left

theorem Overruns.no_step {r : Run μ} {site : Site μ} (h : r.Overruns site) (s : Step) :
    (r.next site).1.1 ≠ .step s := by
  obtain ⟨target, left, hnext⟩ := h.next_eq
  rw [hnext]
  exact nofun

/-! ## Courses -/

theorem Passes.within {r last : Run μ} {site here : Site μ} {taken : List (Step × Run μ)}
    (h : Passes meanwhile r site taken last here) {g : Graph μ} (hg : g.Linked) (hr : Sound g r)
    {limit : StepLimit} (hle : r.limit.value ≤ limit.value) :
    Passes meanwhile (r.within limit) site (taken.map fun t => (t.1, t.2.within limit))
      (last.within limit) here := by
  induction h with
  | here r site => exact .here _ _
  | step hnext _ ih =>
    obtain ⟨hafter, _, _, hlimit⟩ := hr.stepped hg hnext
    have hover : ¬ Overruns _ _ := fun hover => hover.no_step _ (congrArg (·.1.1) hnext)
    have hnext' := next_within hover hle
    rw [hnext] at hnext'
    exact .step hnext' (ih hafter (by rw [hlimit]; exact hle))

/-- How the course of a run and that of a run with a larger limit compare. -/
structure Truncates {r₁ r₂ : Run μ} {site : Site μ} (short : Course meanwhile r₁ site)
    (long : Course meanwhile r₂ site) : Prop where
  stops_iff : short.last.StopsAtLimit short.here ↔ short.taken.length = r₁.limit.value ∧
    ∃ target left, r₁.graph.nextNode short.last.current (.mapping short.last.state) short.here =
      (.ok target, left) ∧ target ≠ endName
  stopped : short.last.StopsAtLimit short.here →
    short.taken.length = r₁.limit.value ∧
    short.taken.map (fun t => (t.1, t.2.within r₂.limit)) = long.taken.take r₁.limit.value ∧
    ∃ e t, short.outcome = .failed (.run e) ∧ e.fault = .stepLimit r₁.limit.value ∧
      short.taken.getLast? = some t ∧ e.lastState = some (.mapping t.2.state)
  otherwise : ¬ short.last.StopsAtLimit short.here →
    short.taken.map (fun t => (t.1, t.2.within r₂.limit)) = long.taken ∧
    short.outcome = long.outcome ∧ short.final.within r₂.limit = long.final

/-- An opened run stops at its own limit once it has taken all steps that this allows and the last
of them does not lead to the end. -/
theorem Course.stopsAtLimit_iff {g : Graph μ} (hg : g.Linked) {r : Run μ} (h : Sound g r)
    (hopened : r.phase = .opened) {site : Site μ} (c : Course meanwhile r site) :
    c.last.StopsAtLimit c.here ↔ c.taken.length = r.limit.value ∧
      ∃ target left, r.graph.nextNode c.last.current (.mapping c.last.state) c.here =
        (.ok target, left) ∧ target ≠ endName := by
  obtain ⟨hlast, hlimit, hcount⟩ := c.passes.sound hg h
  have hzero : r.count = 0 := (h.standing.of_fresh (.inr hopened)).2.2.1
  have hgraph : c.last.graph = r.graph := hlast.graph.trans h.graph.symm
  rw [hlast.stopsAtLimit_iff hg, Overruns, hlimit, hcount, hzero, hgraph]
  constructor
  · intro hover
    obtain ⟨_, hfull, htarget⟩ := hover
    have hwithin := hlast.within
    rw [hlimit, hcount, hzero] at hwithin
    exact ⟨by omega, htarget⟩
  · intro hfull
    obtain ⟨hlength, htarget⟩ := hfull
    have hpositive := r.limit.positive
    have htaken : c.taken ≠ [] := List.ne_nil_of_length_pos (by omega)
    exact ⟨c.passes.phase htaken, by omega, htarget⟩

theorem start_within {g : Graph μ} {initial given₁ given₂ : Value} {site left₁ left₂ : Site μ}
    {start₁ start₂ : Run μ} (hstart₁ : g.start initial given₁ site = (.ok start₁, left₁))
    (hstart₂ : g.start initial given₂ site = (.ok start₂, left₂)) :
    start₂ = start₁.within start₂.limit := by
  obtain ⟨limit₁, mid₁, _, hrest₁⟩ := Act.bind_eq_ok.mp hstart₁
  obtain ⟨limit₂, mid₂, _, hrest₂⟩ := Act.bind_eq_ok.mp hstart₂
  obtain ⟨store₁, _, hstore₁, hrun₁⟩ := Act.bind_eq_ok.mp hrest₁
  obtain ⟨store₂, _, hstore₂, hrun₂⟩ := Act.bind_eq_ok.mp hrest₂
  have hstore : (.ok store₁ : Except Failure Store) = .ok store₂ :=
    (congrArg Prod.fst hstore₁).symm.trans (congrArg Prod.fst hstore₂)
  cases hstore
  cases hrun₁
  cases hrun₂
  rfl

/-- A step limit only truncates. Beside the course of a run with a larger limit, that of a run
with a smaller one is the part that its limit allows, if it stops there, and else the same. -/
theorem limit_truncates {g : Graph μ} (hg : g.Compiled) {initial given₁ given₂ : Value}
    {site left₁ left₂ : Site μ} {start₁ start₂ opened₁ opened₂ : Run μ}
    (hstart₁ : g.start initial given₁ site = (.ok start₁, left₁))
    (hstart₂ : g.start initial given₂ site = (.ok start₂, left₂))
    (hopen₁ : start₁.opened? = .ok opened₁) (hopen₂ : start₂.opened? = .ok opened₂)
    (hle : start₁.limit.value ≤ start₂.limit.value) (meanwhile : Step → Site μ → Site μ)
    (here : Site μ) : Nonempty (Course meanwhile opened₁ here) ∧
      Nonempty (Course meanwhile opened₂ here) ∧
      ∀ (short : Course meanwhile opened₁ here) (long : Course meanwhile opened₂ here),
        Truncates short long := by
  have hlinked := hg.linked
  have hsound₁ : Sound g opened₁ := (Sound.start hstart₁).opened hopen₁
  have hsound₂ : Sound g opened₂ := (Sound.start hstart₂).opened hopen₂
  have hwithin : opened₂ = opened₁.within start₂.limit := by
    obtain ⟨_, rfl⟩ := opened?_eq_ok hopen₁
    obtain ⟨_, rfl⟩ := opened?_eq_ok hopen₂
    exact congrArg (fun r : Run μ => { r with phase := .opened }) (start_within hstart₁ hstart₂)
  obtain ⟨_, hopened₁⟩ := opened?_eq_ok hopen₁
  have hphase : opened₁.phase = .opened := by rw [hopened₁]
  have hle : opened₁.limit.value ≤ start₂.limit.value := by
    rw [hopened₁]
    exact hle
  generalize start₂.limit = limit at hwithin hle
  subst hwithin
  refine ⟨hsound₁.course hlinked here, hsound₂.course hlinked here, fun short long => ?_⟩
  have hstops := short.stopsAtLimit_iff hlinked hsound₁ hphase
  obtain ⟨hlast, hlimit, _⟩ := short.passes.sound hlinked hsound₁
  -- the longer course begins as the shorter one does; what comes after that is `rest`
  obtain ⟨rest, hrest, hpasses⟩ := long.goesOn (short.passes.within hlinked hsound₁ hle)
  refine ⟨hstops, fun hstop => ?_, fun hno => ?_⟩
  · obtain ⟨hlength, _⟩ := hstops.mp hstop
    refine ⟨hlength, ?_, ?_⟩
    · rw [hrest, ← hlength, within_limit]
      simp
    · obtain ⟨target, left, hnext⟩ := ((hlast.stopsAtLimit_iff hlinked _).mp hstop).next_eq
      have hpositive := opened₁.limit.positive
      obtain ⟨s, ht⟩ := short.passes.getLast? (List.ne_nil_of_length_pos (by omega))
      refine ⟨_, (s, short.last), congrArg (fun result => result.1.1) hnext, ?_, ht, rfl⟩
      rw [← hlimit]
      rfl
  · have hover : ¬ short.last.Overruns short.here :=
      fun hover => hno ((hlast.stopsAtLimit_iff hlinked _).mpr hover)
    have hnext : (short.last.within limit).next short.here = _ :=
      next_within hover (by rw [hlimit]; exact hle)
    obtain ⟨hnil, heq, hsame⟩ := hpasses.eq_nil (by rw [hnext]; exact short.ended)
    refine ⟨by rw [hrest, hnil, List.append_nil]; rfl, ?_, ?_⟩
    · rw [Course.outcome, Course.outcome, heq, hsame, hnext]
    · rw [Course.final, Course.final, heq, hsame, hnext]
      rfl

/-- With a limit of two steps, a run of this graph takes the first two of those that it takes with a
limit of three. -/
theorem circling_truncated : circling.Compiled ∧ ∃ start₁ start₂ opened₁ opened₂ left,
    circling.start .null (.int 2) (.bare ()) = (.ok start₁, left) ∧
      circling.start .null (.int 3) (.bare ()) = (.ok start₂, left) ∧
      start₁.opened? = .ok opened₁ ∧ start₂.opened? = .ok opened₂ ∧
      start₁.limit.value ≤ start₂.limit.value ∧
      ∃ (short : Course (fun _ site => site) opened₁ (.bare ()))
        (long : Course (fun _ site => site) opened₂ (.bare ())),
        short.taken.length = 2 ∧ long.taken.length = 3 ∧ Truncates short long := by
  have hcompiled : circling.Compiled := ⟨_, _, _, _, Builder.turnTaking_compiles _ _ _ _ _⟩
  obtain ⟨start₁, start₂, opened₁, opened₂, left, hstart₁, hstart₂, hopen₁, hopen₂, hle,
      ⟨short, hshort⟩, ⟨long, hlong⟩⟩ :
      ∃ (start₁ start₂ opened₁ opened₂ : Run Unit) (left : Site Unit),
        circling.start .null (.int 2) (.bare ()) = (.ok start₁, left) ∧
        circling.start .null (.int 3) (.bare ()) = (.ok start₂, left) ∧
        start₁.opened? = .ok opened₁ ∧ start₂.opened? = .ok opened₂ ∧
        start₁.limit.value ≤ start₂.limit.value ∧
        (∃ short : Course (fun _ site => site) opened₁ (.bare ()), short.taken.length = 2) ∧
        ∃ long : Course (fun _ site => site) opened₂ (.bare ()), long.taken.length = 3 := by
    refine ⟨_, _, _, _, _, rfl, rfl, rfl, rfl, by decide,
      ⟨⟨_, _, _, .step rfl (.step rfl (.here _ _)), fun s hs => ?_⟩, rfl⟩,
      ⟨⟨_, _, _, .step rfl (.step rfl (.step rfl (.here _ _))), fun s hs => ?_⟩, rfl⟩⟩
    all_goals cases hs
  obtain ⟨_, _, htruncates⟩ :=
    limit_truncates hcompiled hstart₁ hstart₂ hopen₁ hopen₂ hle (fun _ site => site) (.bare ())
  exact ⟨hcompiled, start₁, start₂, opened₁, opened₂, left, hstart₁, hstart₂, hopen₁, hopen₂, hle,
    short, long, hshort, hlong, htruncates short long⟩

end TeamFlow.Run
