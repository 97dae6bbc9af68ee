import TeamFlow.Proofs.Channel.Restoring
import TeamFlow.Proofs.Run.Containment
import TeamFlow.Proofs.Run.Course

/-! # Runs over stores that show the same

Handlers and routers see of a store what it shows. Where all channels are
overridden, two runs that differ in their stores, but not in what these show,
are asked the same and answer the same (`next_keeping`). So a graph may as well be
run from a state that another run of it showed at its start (`invoke_shown`). -/
namespace TeamFlow

variable {μ : Type}

namespace Graph

variable {g : Graph μ} {a b : Store}

/-- How the calls of a node compare with two stores: they fail alike, or they leave stores that show
the same. -/
inductive Mirrors : Except Failure (Entries × Store) → Except Failure (Entries × Store) → Prop where
  | failed (why : Failure) : Mirrors (.error why) (.error why)
  | merged (delta : Entries) {a b : Store} (hshown : a.snapshot = b.snapshot) :
      Mirrors (.ok (delta, a)) (.ok (delta, b))

theorem settle_shown (hoverriding : g.schema.Overriding) (ha : a.Complete g.schema)
    (hshown : a.snapshot = b.snapshot) (node : String) (answer : Except Failure Value) :
    Mirrors (g.settle a node answer) (g.settle b node answer) := by
  cases answer with
  | error why => cases why <;> exact .failed _
  | ok answer =>
    cases answer with
    | null => exact .merged [] hshown
    | mapping update =>
      rcases Store.apply_shown hoverriding ha hshown update with
        ⟨why, hfails, hfails'⟩ | ⟨a', b', ha', hb', hshown'⟩
      · simp only [settle, hfails, hfails']
        exact .failed _
      · simp only [settle, ha', hb']
        exact .merged update hshown'
    | _ => exact .failed _

/-- A call of a node mirrors the call with another store, and leaves the site as that does. -/
theorem perform_shown (hoverriding : g.schema.Overriding) (ha : a.Complete g.schema)
    (hshown : a.snapshot = b.snapshot) (node : String) (site : Site μ) :
    Mirrors (g.perform a node site).1 (g.perform b node site).1 ∧
      (g.perform a node site).2 = (g.perform b node site).2 := by
  cases hnode : Table.row? g.nodes node with
  | none =>
    simp only [perform, hnode]
    exact ⟨.failed _, trivial⟩
  | some handler =>
    cases hcall : handler (.mapping a.snapshot) site with
    | mk answer left =>
      have hcall' := hcall
      rw [hshown] at hcall'
      rw [perform_eq hnode hcall, perform_eq hnode hcall']
      exact ⟨settle_shown hoverriding ha hshown node answer, rfl⟩

end Graph

namespace Run

/-- The same run over another store. -/
def keeping (r : Run μ) (store : Store) : Run μ := { r with store := store }

variable {g : Graph μ} {r : Run μ} {store : Store}

@[simp]
theorem keeping_graph (r : Run μ) (store : Store) : (r.keeping store).graph = r.graph := rfl

@[simp]
theorem keeping_store (r : Run μ) (store : Store) : (r.keeping store).store = store := rfl

@[simp]
theorem keeping_phase (r : Run μ) (store : Store) : (r.keeping store).phase = r.phase := rfl

@[simp]
theorem keeping_current (r : Run μ) (store : Store) : (r.keeping store).current = r.current := rfl

theorem state_keeping (h : store.snapshot = r.store.snapshot) :
    (r.keeping store).state = r.state := h

/-! ## Requests -/

/-- How requests to a run and to the same one over another store compare. -/
structure Mirrored (result mirrored : (Outcome × Run μ) × Site μ) : Prop where
  outcome : mirrored.1.1 = result.1.1
  left : mirrored.2 = result.2
  after : ∃ store, store.snapshot = result.1.2.store.snapshot ∧
    mirrored.1.2 = result.1.2.keeping store

theorem failWith_keeping (h : store.snapshot = r.store.snapshot) (why : Failure) (node : String)
    (site : Site μ) :
    Mirrored (r.failWith why node, site) ((r.keeping store).failWith why node, site) := by
  rcases r.failWith_cases why node with ⟨e, rfl, heq⟩ | ⟨hrun, heq⟩
  · rw [heq]
    show Mirrored _ ((r.keeping store).endWith e node, site)
    unfold endWith
    rw [state_keeping h]
    exact ⟨rfl, rfl, store, h, rfl⟩
  · rw [heq, failWith_of_ne_run _ hrun]
    exact ⟨rfl, rfl, store, h, rfl⟩

theorem execute_keeping (hoverriding : r.graph.schema.Overriding)
    (hcomplete : r.store.Complete r.graph.schema) (h : store.snapshot = r.store.snapshot)
    (site : Site μ) : Mirrored (r.execute site) ((r.keeping store).execute site) := by
  obtain ⟨hmirrors, hleft⟩ := Graph.perform_shown hoverriding hcomplete h.symm r.current site
  generalize hcall : r.graph.perform r.store r.current site = result at hmirrors hleft
  generalize hcall' : r.graph.perform store r.current site = result' at hmirrors hleft
  obtain ⟨answer, left⟩ := result
  obtain ⟨answer', left'⟩ := result'
  obtain rfl : left = left' := hleft
  simp only [execute, keeping_graph, keeping_store, keeping_current, hcall, hcall']
  cases hmirrors with
  | failed why => exact failWith_keeping h why r.current left
  | merged delta hshown => exact ⟨rfl, rfl, _, hshown.symm, rfl⟩

/-- A request does not depend on more of the store than what it shows. -/
theorem next_keeping (hoverriding : g.schema.Overriding) (hr : Sound g r)
    (h : store.snapshot = r.store.snapshot) (site : Site μ) :
    Mirrored (r.next site) ((r.keeping store).next site) := by
  have hoverriding : r.graph.schema.Overriding := by rwa [hr.graph]
  have hcomplete : r.store.Complete r.graph.schema := by
    rw [hr.graph]
    exact hr.complete
  cases hphase : r.phase with
  | unopened | closed =>
    simp only [next, keeping_phase, hphase]
    exact ⟨rfl, rfl, store, h, rfl⟩
  | opened =>
    simp only [next, keeping_phase, hphase]
    exact execute_keeping (r := { r with status := .running }) hoverriding hcomplete h site
  | paused =>
    simp only [next, keeping_phase, keeping_graph, keeping_current, state_keeping h, hphase]
    split
    next target left _ =>
      by_cases htarget : target = endName
      · simp only [moveTo, if_pos htarget]
        exact ⟨rfl, rfl, store, h, rfl⟩
      · by_cases hlimit : r.limit.value ≤ r.count
        · have hlimit' : (r.keeping store).limit.value ≤ (r.keeping store).count := hlimit
          simp only [moveTo, if_neg htarget, if_pos hlimit, if_pos hlimit']
          exact failWith_keeping h (.run (.stepLimit r.limit.value (some target))) target left
        · have hlimit' : ¬ (r.keeping store).limit.value ≤ (r.keeping store).count := hlimit
          simp only [moveTo, if_neg htarget, if_neg hlimit, if_neg hlimit']
          exact execute_keeping (r := { r with current := target }) hoverriding hcomplete h left
    next why left _ => exact failWith_keeping h why r.current left

/-! ## Whole runs -/

theorem opened?_keeping {opened : Run μ} (hopen : r.opened? = .ok opened) (store : Store) :
    (r.keeping store).opened? = .ok (opened.keeping store) := by
  obtain ⟨hphase, rfl⟩ := opened?_eq_ok hopen
  simp only [opened?, keeping_phase, hphase]
  rfl

theorem Passes.mirrored (hg : g.Linked) (hoverriding : g.schema.Overriding) {last : Run μ}
    {meanwhile : Step → Site μ → Site μ} {site here : Site μ} {taken : List (Step × Run μ)}
    (hpasses : Passes meanwhile r site taken last here) (hr : Sound g r)
    (h : store.snapshot = r.store.snapshot) : ∃ taken' store',
    Passes meanwhile (r.keeping store) site taken' (last.keeping store') here ∧
      store'.snapshot = last.store.snapshot := by
  induction hpasses generalizing store with
  | here r site => exact ⟨[], store, .here _ _, h⟩
  | @step r after last site mid here s taken hnext _ ih =>
    obtain ⟨houtcome, hleft, store', hshown, hafter⟩ := next_keeping hoverriding hr h site
    rw [hnext] at houtcome hleft hshown hafter
    obtain ⟨taken', last', hrest, hlast⟩ := ih (hr.stepped hg hnext).1 hshown
    have hnext' : (r.keeping store).next site = ((.step s, after.keeping store'), mid) :=
      Prod.ext (Prod.ext houtcome hafter) hleft
    exact ⟨_, last', .step hnext' hrest, hlast⟩

theorem Course.mirrored (hg : g.Linked) (hoverriding : g.schema.Overriding)
    {meanwhile : Step → Site μ → Site μ} {site : Site μ} (c : Course meanwhile r site)
    (hr : Sound g r) (h : store.snapshot = r.store.snapshot) :
    ∃ c' : Course meanwhile (r.keeping store) site, c'.outcome = c.outcome ∧
      c'.final.state = c.final.state ∧ (c'.last.next c'.here).2 = (c.last.next c.here).2 := by
  obtain ⟨taken, store', hpasses, hshown⟩ := c.passes.mirrored hg hoverriding hr h
  obtain ⟨houtcome, hleft, _, hfinal, hafter⟩ :=
    next_keeping hoverriding (c.passes.sound hg hr).1 hshown c.here
  refine ⟨⟨taken, _, c.here, hpasses, by rw [houtcome]; exact c.ended⟩, houtcome, ?_, hleft⟩
  show (((c.last.keeping store').next c.here).1.2).state = _
  rw [hafter]
  exact hfinal

end Run

namespace Graph

variable {g : Graph μ}

/-- A run that has not been asked for anything. -/
def fresh (g : Graph μ) (limit : StepLimit) (store : Store) : Run μ where
  graph := g
  limit := limit
  store := store
  count := 0
  current := g.entry
  status := .pending
  error := none
  phase := .unopened

theorem start_iff {initial given : Value} {site left : Site μ} {start : Run μ} :
    g.start initial given site = (.ok start, left) ↔ ∃ limit store,
      StepLimit.resolve given g.stepLimit site.settings.stepLimit = .ok limit ∧
      Store.create g.schema initial = .ok store ∧ start = g.fresh limit store ∧ left = site := by
  constructor
  · intro h
    obtain ⟨limit, mid, hlimit, h⟩ := Act.bind_eq_ok.mp h
    obtain ⟨store, mid', hstore, h⟩ := Act.bind_eq_ok.mp h
    obtain rfl : mid = mid' := congrArg Prod.snd hstore
    obtain rfl : site = mid := congrArg Prod.snd hlimit
    cases h
    exact ⟨limit, store, congrArg Prod.fst hlimit, congrArg Prod.fst hstore, rfl, rfl⟩
  · rintro ⟨limit, store, hlimit, hstore, rfl, rfl⟩
    have hresolve : g.resolveLimit given left = (.ok limit, left) := congrArg (·, left) hlimit
    exact (Act.bind_ok hresolve).trans (Act.bind_ok (Act.ofExcept_ok hstore left))

theorem start_shown (hoverriding : g.schema.Overriding) {initial given : Value}
    {site begun : Site μ} {start : Run μ}
    (hstart : g.start initial given site = (.ok start, begun)) : ∃ copy,
    copy.snapshot = start.store.snapshot ∧
    g.start (.mapping start.store.snapshot) given site = (.ok (start.keeping copy), begun) := by
  obtain ⟨limit, store, hlimit, hstore, rfl, hleft⟩ := start_iff.mp hstart
  obtain ⟨copy, hcopy, hshown⟩ := (Store.restorable_of_create hoverriding.restoring hstore).create
  exact ⟨copy, hshown, start_iff.mpr ⟨limit, copy, hlimit, hcopy, rfl, hleft⟩⟩

/-- What a graph does with an initial state it also does with what its first store shows. -/
theorem invoke_shown (hg : g.Linked) (hoverriding : g.schema.Overriding) {initial given : Value}
    {site begun : Site μ} {start : Run μ}
    (hstart : g.start initial given site = (.ok start, begun)) :
    g.invoke (.mapping start.store.snapshot) given (fun _ _ => pure ()) site =
      g.invoke initial given (fun _ _ => pure ()) site := by
  obtain ⟨copy, hshown, hstart'⟩ := start_shown hoverriding hstart
  have hopen := Run.opens_of_start hstart
  have hsound := (Run.Sound.start hstart).opened hopen
  obtain ⟨c⟩ : Nonempty (Run.Course (fun _ site => site) _ begun) := hsound.course hg begun
  obtain ⟨c', houtcome, hfinal, hleft⟩ := c.mirrored hg hoverriding hsound hshown
  rw [invoke_eq hg hstart hopen c, invoke_eq hg hstart' (Run.opened?_keeping hopen copy) c',
    houtcome, hfinal, hleft]

end Graph

end TeamFlow
