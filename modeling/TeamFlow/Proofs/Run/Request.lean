import TeamFlow.Proofs.Channel.Merging
import TeamFlow.Proofs.Graph.Compiled
import TeamFlow.Run.Basic

/-! # What one request of a run comes to

A run is asked for one step at a time. `Asked` lists all ways in which a request
can turn out, with the calls that lead there. Whatever is proved of runs goes
through these cases; `Run.next` itself is opened here only. -/
namespace TeamFlow

variable {μ : Type}

namespace Graph

/-! ## Calls of a node -/

/-- What a node answers to a state: an update, or nothing, which counts as the empty update. -/
inductive Answers (g : Graph μ) (node : String) (given : State) (site : Site μ) (delta : Entries)
    (left : Site μ) : Prop where
  | update {handler : Handler μ} (hnode : Table.row? g.nodes node = some handler)
      (hcall : handler (.mapping given) site = (.ok (.mapping delta), left))
  | nothing {handler : Handler μ} (hnode : Table.row? g.nodes node = some handler)
      (hcall : handler (.mapping given) site = (.ok .null, left)) (hdelta : delta = [])

theorem Answers.of_handler {g : Graph μ} {node : String} {given : State} {site left : Site μ}
    {delta : Entries} (h : g.Answers node given site delta left) {handler : Handler μ}
    (hnode : Table.row? g.nodes node = some handler) :
    ∃ answer, handler (.mapping given) site = (.ok answer, left) ∧
      (answer = .mapping delta ∨ (answer = .null ∧ delta = [])) := by
  cases h with
  | update hnode' hcall =>
    cases hnode.symm.trans hnode'
    exact ⟨_, hcall, .inl rfl⟩
  | nothing hnode' hcall hdelta =>
    cases hnode.symm.trans hnode'
    exact ⟨_, hcall, .inr ⟨rfl, hdelta⟩⟩

/-- How a call of a node breaks off without a run error: the report on what its handler raised
cannot be written, or merging its update breaks off. -/
inductive NodeCrashes (g : Graph μ) (store : Store) (node : String) (site : Site μ) :
    Failure → Prop where
  | report {handler : Handler μ} {why : Failure} {left : Site μ}
      (hnode : Table.row? g.nodes node = some handler)
      (hcall : handler (.mapping store.snapshot) site = (.error why, left))
      (hwritable : why.isWritable = false) :
      NodeCrashes g store node site (.badValue Text.notWritable)
  | update {handler : Handler μ} {update : Entries} {why : Failure} {left : Site μ}
      (hnode : Table.row? g.nodes node = some handler)
      (hcall : handler (.mapping store.snapshot) site = (.ok (.mapping update), left))
      (hcrash : Store.Crashes g.schema store update why) : NodeCrashes g store node site why

theorem perform_eq {g : Graph μ} {store : Store} {node : String} {handler : Handler μ}
    (hnode : Table.row? g.nodes node = some handler) {site left : Site μ}
    {answer : Except Failure Value}
    (hcall : handler (.mapping store.snapshot) site = (answer, left)) :
    g.perform store node site = (g.settle store node answer, left) := by
  have hattempt : (handler (.mapping store.snapshot)).attempt site = (.ok answer, left) := by
    simp only [Act.attempt, hcall]
  simp only [perform, hnode]
  exact Act.bind_ok hattempt

/-- What is made of the answer of a handler, case by case. -/
inductive Settled (g : Graph μ) (store : Store) (node : String) :
    Except Failure Value → Except Failure (Entries × Store) → Prop where
  | nothing : Settled g store node (.ok .null) (.ok ([], store))
  | merged {update : Entries} {new : Store} (happly : store.apply g.schema update = .ok new) :
      Settled g store node (.ok (.mapping update)) (.ok (update, new))
  | refused {update : Entries} {why : Failure} (happly : store.apply g.schema update = .error why)
      (hconfiguration : why.isConfiguration = true) :
      Settled g store node (.ok (.mapping update)) (.error (.run (.badUpdate node why)))
  | crashed {update : Entries} {why : Failure} (happly : store.apply g.schema update = .error why)
      (hconfiguration : why.isConfiguration = false) :
      Settled g store node (.ok (.mapping update)) (.error why)
  | noUpdate {answer : Value} (hnull : answer ≠ .null) (hmapping : ∀ es, answer ≠ .mapping es) :
      Settled g store node (.ok answer) (.error (.run (.notMapping node answer)))
  | nested {e : RunError} (hannotated : e.isAnnotated = true) :
      Settled g store node (.error (.run e))
        (.error (.run { e.nestedIn node with cause := some (.run e) }))
  | raised {e : RunError} (hannotated : e.isAnnotated = false) :
      Settled g store node (.error (.run e)) (.error (.run e))
  | reported {why : Failure} (hrun : ∀ e, why ≠ .run e) : Settled g store node (.error why)
      (.error (.ifWritable why.isWritable (.nodeFailed node why)))

theorem settled (g : Graph μ) (store : Store) (node : String) (answer : Except Failure Value) :
    g.Settled store node answer (g.settle store node answer) := by
  unfold settle
  split
  next e =>
    split
    next hannotated => exact .nested hannotated
    next hannotated => exact .raised (by simpa using hannotated)
  next hrun => exact .reported hrun
  next => exact .nothing
  next =>
    split
    next happly => exact .merged happly
    next happly =>
      split
      next hconfiguration => exact .refused happly hconfiguration
      next hconfiguration => exact .crashed happly (by simpa using hconfiguration)
  next hnull hmapping => exact .noUpdate hnull hmapping

theorem settled_of_perform {g : Graph μ} {store : Store} {node : String} (hnode : g.IsNode node)
    {site left : Site μ} {result : Except Failure (Entries × Store)}
    (h : g.perform store node site = (result, left)) :
    ∃ handler answer, Table.row? g.nodes node = some handler ∧
      handler (.mapping store.snapshot) site = (answer, left) ∧
      g.Settled store node answer result := by
  obtain ⟨handler, hhandler⟩ := handler_of_isNode hnode
  cases hcall : handler (.mapping store.snapshot) site with
  | mk answer left' =>
    rw [perform_eq hhandler hcall, Prod.mk.injEq] at h
    obtain ⟨hsettle, rfl⟩ := h
    exact ⟨handler, answer, hhandler, hcall, hsettle ▸ g.settled store node answer⟩

theorem perform_eq_ok {g : Graph μ} {store new : Store} (hs : store.Complete g.schema)
    {node : String} (hnode : g.IsNode node) {site left : Site μ} {delta : Entries}
    (h : g.perform store node site = (.ok (delta, new), left)) :
    g.Answers node store.snapshot site delta left ∧ store.Merges g.schema delta new := by
  obtain ⟨handler, answer, hhandler, hcall, hsettled⟩ := settled_of_perform hnode h
  cases hsettled with
  | nothing => exact ⟨.nothing hhandler hcall rfl, Store.merges_nothing hs⟩
  | merged happly => exact ⟨.update hhandler hcall, Store.merges_of_apply hs happly⟩

theorem ifWritable_eq_run {writable : Bool} {e e' : RunError}
    (h : Failure.ifWritable writable e = .run e') : writable = true ∧ e = e' := by
  cases writable with
  | true => cases h; exact ⟨rfl, rfl⟩
  | false => cases h

theorem ifWritable_of_ne_run {writable : Bool} {e : RunError}
    (h : ∀ e', Failure.ifWritable writable e ≠ .run e') :
    writable = false ∧ Failure.ifWritable writable e = .badValue Text.notWritable := by
  cases writable with
  | true => exact absurd rfl (h e)
  | false => exact ⟨rfl, rfl⟩

theorem perform_crashes_iff {g : Graph μ} {store : Store} (hs : store.Complete g.schema)
    {node : String} (hnode : g.IsNode node) (site : Site μ) (why : Failure) :
    g.NodeCrashes store node site why ↔
      ∃ left, g.perform store node site = (.error why, left) ∧ ∀ e, why ≠ .run e := by
  constructor
  · intro h
    cases h with
    | @report handler raised left hnode hcall hwritable =>
      refine ⟨left, ?_, fun e h => by cases h⟩
      rw [perform_eq hnode hcall]
      -- only the text of a missing key can be too long
      cases raised with
      | missingKey key => simp [settle, hwritable, Failure.ifWritable]
      | _ => cases hwritable
    | @update handler update _ left hnode hcall hcrash =>
      obtain ⟨happly, hconfiguration, hrun⟩ := (Store.crashes_iff hs update why).mp hcrash
      refine ⟨left, ?_, hrun⟩
      rw [perform_eq hnode hcall]
      simp [settle, happly, hconfiguration]
  · intro h
    obtain ⟨left, h, hrun⟩ := h
    obtain ⟨handler, answer, hhandler, hcall, hsettled⟩ := settled_of_perform hnode h
    cases hsettled with
    | refused _ _ | noUpdate _ _ | nested _ | raised _ => exact absurd rfl (hrun _)
    | crashed happly hconfiguration =>
      have hcrash := (Store.crashes_iff hs _ why).mpr ⟨happly, hconfiguration, hrun⟩
      exact .update hhandler hcall hcrash
    | reported _ =>
      obtain ⟨hwritable, hwhy⟩ := ifWritable_of_ne_run hrun
      rw [hwhy]
      exact .report hhandler hcall hwritable

/-! ## Calls of a router -/

/-- How resolving the next node breaks off: the report on what the router raised cannot be written,
or the router answers a key that has no path and cannot be written. -/
inductive RouterCrashes (g : Graph μ) (node : String) (given : Value) (site : Site μ) : Prop where
  | report {r : Routing μ String} {why : Failure} {left : Site μ}
      (hedge : Table.row? g.edges node = some (.routed r))
      (hcall : r.answer given site = (.error why, left)) (hwritable : why.isWritable = false)
  | key {r : Routing μ String} {key : Value} {left : Site μ}
      (hedge : Table.row? g.edges node = some (.routed r))
      (hcall : r.answer given site = (.ok key, left)) (hpath : r.pathOf? key = none)
      (hwritable : key.isWritable = false)

theorem nextNode_fixed {g : Graph μ} {node target : String}
    (hedge : Table.row? g.edges node = some (.fixed target)) (given : Value) (site : Site μ) :
    g.nextNode node given site = (.ok target, site) := by
  simp only [nextNode, hedge]
  rfl

theorem nextNode_routed {g : Graph μ} {node : String} {r : Routing μ String}
    (hedge : Table.row? g.edges node = some (.routed r)) {given : Value} {site left : Site μ}
    {answer : Except Failure Value} (hcall : r.answer given site = (answer, left)) :
    g.nextNode node given site = (r.resolve node answer, left) := by
  have hattempt : (r.answer given).attempt site = (.ok answer, left) := by
    simp only [Act.attempt, hcall]
  simp only [nextNode, hedge]
  exact Act.bind_ok hattempt

/-- What is made of the answer of a router, case by case. -/
inductive Resolved (node : String) (r : Routing μ String) :
    Except Failure Value → Except Failure String → Prop where
  | found {key : Value} {target : String} (hpath : r.pathOf? key = some target) :
      Resolved node r (.ok key) (.ok target)
  | unmapped {key : Value} (hpath : r.pathOf? key = none) : Resolved node r (.ok key)
      (.error (.ifWritable key.isWritable (.routing node key)))
  | reported {why : Failure} : Resolved node r (.error why)
      (.error (.ifWritable why.isWritable (.routerFailed node why)))

theorem resolved (node : String) (r : Routing μ String) (answer : Except Failure Value) :
    Resolved node r answer (r.resolve node answer) := by
  unfold Routing.resolve
  split
  next => exact .reported
  next =>
    split
    next hpath => exact .found hpath
    next hpath => exact .unmapped hpath

theorem resolved_of_nextNode {g : Graph μ} (hg : g.Linked) {node : String} (hnode : g.IsNode node)
    {given : Value} {site left : Site μ} {result : Except Failure String}
    (h : g.nextNode node given site = (result, left)) :
    (∃ target, Table.row? g.edges node = some (.fixed target) ∧ result = .ok target) ∨
      ∃ r answer, Table.row? g.edges node = some (.routed r) ∧
        r.answer given site = (answer, left) ∧ Resolved node r answer result := by
  obtain ⟨e, hedge, _⟩ := hg.targets node hnode
  cases e with
  | fixed target =>
    rw [nextNode_fixed hedge, Prod.mk.injEq] at h
    exact .inl ⟨target, hedge, h.1.symm⟩
  | routed r =>
    cases hcall : r.answer given site with
    | mk answer left' =>
      rw [nextNode_routed hedge hcall, Prod.mk.injEq] at h
      obtain ⟨hresolve, rfl⟩ := h
      exact .inr ⟨r, answer, hedge, hcall, hresolve ▸ resolved node r answer⟩

theorem Linked.target {g : Graph μ} (hg : g.Linked) {node target : String} (hnode : g.IsNode node)
    {e : Edge μ String} (hedge : Table.row? g.edges node = some e) (ht : target ∈ e.targets) :
    target = endName ∨ g.IsNode target := by
  obtain ⟨e', hedge', htargets⟩ := hg.targets node hnode
  rw [hedge] at hedge'
  cases hedge'
  exact htargets target ht

theorem nextNode_eq_ok {g : Graph μ} (hg : g.Linked) {node target : String} (hnode : g.IsNode node)
    {given : Value} {site left : Site μ} (h : g.nextNode node given site = (.ok target, left)) :
    target = endName ∨ g.IsNode target := by
  rcases resolved_of_nextNode hg hnode h with ⟨t, hedge, heq⟩ | ⟨r, answer, hedge, _, hresolved⟩
  · cases heq
    exact hg.target hnode hedge (List.mem_singleton.mpr rfl)
  · cases hresolved with
    | found hpath => exact hg.target hnode hedge (Routing.mem_targets_of_pathOf? hpath)

theorem nextNode_crashes_iff {g : Graph μ} (hg : g.Linked) {node : String} (hnode : g.IsNode node)
    (given : Value) (site : Site μ) (why : Failure) :
    (g.RouterCrashes node given site ∧ why = .badValue Text.notWritable) ↔
      ∃ left, g.nextNode node given site = (.error why, left) ∧ ∀ e, why ≠ .run e := by
  constructor
  · intro h
    obtain ⟨h, rfl⟩ := h
    cases h with
    | @report r raised left hedge hcall hwritable =>
      refine ⟨left, ?_, fun e h => by cases h⟩
      rw [nextNode_routed hedge hcall, Routing.resolve, hwritable]
      rfl
    | @key r key left hedge hcall hpath hwritable =>
      refine ⟨left, ?_, fun e h => by cases h⟩
      rw [nextNode_routed hedge hcall]
      simp only [Routing.resolve, hpath, hwritable]
      rfl
  · intro h
    obtain ⟨left, h, hrun⟩ := h
    rcases resolved_of_nextNode hg hnode h with ⟨t, _, heq⟩ | ⟨r, answer, hedge, hcall, hresolved⟩
    · cases heq
    · cases hresolved with
      | unmapped hpath =>
        obtain ⟨hwritable, hwhy⟩ := ifWritable_of_ne_run hrun
        exact ⟨.key hedge hcall hpath hwritable, hwhy⟩
      | reported =>
        obtain ⟨hwritable, hwhy⟩ := ifWritable_of_ne_run hrun
        exact ⟨.report hedge hcall hwritable, hwhy⟩

end Graph

namespace Run

/-! ## Requests -/

/-- The turn comes to a node: the first one, or the one that the last step leads to. The run is then
about to run this node. -/
inductive Turns (r : Run μ) (site : Site μ) : Run μ → Site μ → Prop where
  | first (hphase : r.phase = .opened) : Turns r site { r with status := .running } site
  | next {target : String} {left : Site μ} (hphase : r.phase = .paused)
      (hroute : r.graph.nextNode r.current (.mapping r.state) site = (.ok target, left))
      (htarget : target ≠ endName) (hlimit : r.count < r.limit.value) :
      Turns r site { r with current := target } left

/-- What a request comes to. -/
inductive Asked (r : Run μ) (site : Site μ) : Outcome × Run μ → Site μ → Prop where
  | idle (hphase : r.phase = .unopened ∨ r.phase = .closed) : Asked r site (.over, r) site
  | stepped {p : Run μ} {mid left : Site μ} {delta : Entries} {store : Store}
      (hturn : r.Turns site p mid)
      (hcall : p.graph.perform p.store p.current mid = (.ok (delta, store), left)) :
      Asked r site (.step ⟨p.count + 1, p.current, delta⟩,
        { p with store := store, count := p.count + 1, phase := .paused }) left
  | nodeFailed {p : Run μ} {mid left : Site μ} {why : Failure} (hturn : r.Turns site p mid)
      (hcall : p.graph.perform p.store p.current mid = (.error why, left)) :
      Asked r site (p.failWith why p.current) left
  | routingFailed {why : Failure} {left : Site μ} (hphase : r.phase = .paused)
      (hroute : r.graph.nextNode r.current (.mapping r.state) site = (.error why, left)) :
      Asked r site (r.failWith why r.current) left
  | completed {left : Site μ} (hphase : r.phase = .paused)
      (hroute : r.graph.nextNode r.current (.mapping r.state) site = (.ok endName, left)) :
      Asked r site
        (.over, { r with current := endName, status := .completed, phase := .closed }) left
  | exhausted {target : String} {left : Site μ} (hphase : r.phase = .paused)
      (hroute : r.graph.nextNode r.current (.mapping r.state) site = (.ok target, left))
      (htarget : target ≠ endName) (hlimit : r.limit.value ≤ r.count) :
      Asked r site (r.endWith (.stepLimit r.limit.value (some target)) target) left

theorem not_idle {r : Run μ} (h : r.phase = .opened ∨ r.phase = .paused) :
    ¬ (r.phase = .unopened ∨ r.phase = .closed) := by
  intro hidle
  rcases h with h | h <;> rw [h] at hidle <;> rcases hidle with hidle | hidle <;> cases hidle

theorem Turns.asked {r p : Run μ} {site mid : Site μ} (h : r.Turns site p mid) :
    r.Asked site (p.execute mid).1 (p.execute mid).2 := by
  unfold execute
  split
  next hcall => exact .stepped h hcall
  next hcall => exact .nodeFailed h hcall

/-- Every request turns out in one of these ways. -/
theorem asked_next (r : Run μ) (site : Site μ) : r.Asked site (r.next site).1 (r.next site).2 := by
  unfold next
  split
  next hphase => exact .idle (.inl hphase)
  next hphase => exact .idle (.inr hphase)
  next hphase => exact (Turns.first hphase).asked
  next hphase =>
    split
    next target left hroute =>
      unfold moveTo
      split
      next htarget => subst htarget; exact .completed hphase hroute
      next htarget =>
        split
        next hlimit => exact .exhausted hphase hroute htarget hlimit
        next hlimit =>
          exact (Turns.next hphase hroute htarget (Nat.lt_of_not_le hlimit)).asked
    next hroute => exact .routingFailed hphase hroute

end Run

end TeamFlow
