import TeamFlow.Proofs.Run.History

/-! # Runs of compiled graphs never lose their way

The tables of a compiled graph have a row wherever a run looks: its current node
has a handler and an edge, and what an edge leads to is a node or the end. What
is left to go wrong is the answer of a router. It is unmapped exactly if no path
is under an equal key, and an answer that is equal to a declared key is not. -/
namespace TeamFlow

variable {μ : Type}

def RunFault.IsRouting (fault : RunFault) : Prop := ∃ node key, fault = .routing node key

namespace Graph

/-- Resolving the node after a node fails with a routing error. -/
def RoutingFails (g : Graph μ) (node : String) (given : Value) (site : Site μ) : Prop :=
  ∃ e left, g.nextNode node given site = (.error (.run e), left) ∧ e.fault.IsRouting

/-- The router of a node answers a key that no path is under. -/
def AnswersUnmapped (g : Graph μ) (node : String) (given : Value) (site : Site μ) : Prop :=
  ∃ r key left, Table.row? g.edges node = some (.routed r) ∧
    r.answer given site = (.ok key, left) ∧ key.isWritable = true ∧
      (key.isHashable = false ∨ ∀ p ∈ r.paths, p.1.alike key = false)

/-- All routers have declared keys and answer nothing that is not equal to one of them. -/
def AnswersDeclared (g : Graph μ) : Prop :=
  ∀ node r, Table.row? g.edges node = some (.routed r) → ∃ keys, r.keys = some keys ∧
    ∀ given site key left, r.answer given site = (.ok key, left) →
      ∃ k ∈ keys, k.alike key = true

/-- A handler raises a run error of its own, or a reducer does on its update. -/
inductive Raises (g : Graph μ) (store : Store) (node : String) (site : Site μ) (fault : RunFault) :
    Prop where
  | handler {handler : Handler μ} {e : RunError} {left : Site μ}
      (hnode : Table.row? g.nodes node = some handler)
      (hcall : handler (.mapping store.snapshot) site = (.error (.run e), left))
      (hfault : e.fault = fault)
  | reducer {handler : Handler μ} {update : Entries} {e : RunError} {left : Site μ}
      (hnode : Table.row? g.nodes node = some handler)
      (hcall : handler (.mapping store.snapshot) site = (.ok (.mapping update), left))
      (happly : store.apply g.schema update = .error (.run e)) (hfault : e.fault = fault)

/-! ## Answers of routers -/

theorem pathOf?_eq_none_iff {g : Graph μ} (hg : g.Linked) {node : String} {r : Routing μ String}
    (hedge : Table.row? g.edges node = some (.routed r)) (key : Value) :
    r.pathOf? key = none ↔
      (key.isHashable = false ∨ ∀ p ∈ r.paths, p.1.alike key = false) := by
  have hnone : r.pathOf? key = none ↔ ∀ p ∈ r.paths, p.1.alike key = false := by
    simp [Routing.pathOf?]
  rw [hnone]
  constructor
  · exact .inr
  · intro h p hp
    rcases h with hhash | hall
    · cases hal : p.1.alike key with
      | false => rfl
      | true =>
        rw [Value.isHashable_of_alike (hg.hashable node r hedge p hp) hal] at hhash
        cases hhash
    · exact hall p hp

theorem routingFails_iff {g : Graph μ} (hg : g.Linked) {node : String} (hnode : g.IsNode node)
    (given : Value) (site : Site μ) :
    g.RoutingFails node given site ↔ g.AnswersUnmapped node given site := by
  constructor
  · intro h
    obtain ⟨e, left, hnext, n, k, hfault⟩ := h
    rcases resolved_of_nextNode hg hnode hnext with ⟨_, _, heq⟩ | ⟨r, answer, hedge, hcall, hres⟩
    · cases heq
    · generalize hwhy : Failure.run e = why at hres
      cases hres with
      | @unmapped key hpath =>
        obtain ⟨hwritable, _⟩ := ifWritable_eq_run hwhy.symm
        exact ⟨r, key, left, hedge, hcall, hwritable, (pathOf?_eq_none_iff hg hedge key).mp hpath⟩
      | reported =>
        obtain ⟨_, rfl⟩ := ifWritable_eq_run hwhy.symm
        cases hfault
  · intro h
    obtain ⟨r, key, left, hedge, hcall, hwritable, hunmapped⟩ := h
    have hpath := (pathOf?_eq_none_iff hg hedge key).mpr hunmapped
    refine ⟨.routing node key, left, ?_, node, key, rfl⟩
    rw [nextNode_routed hedge hcall]
    simp only [Routing.resolve, hpath, hwritable]
    rfl

theorem AnswersDeclared.not_unmapped {g : Graph μ} (hg : g.Linked) (h : g.AnswersDeclared)
    (node : String) (given : Value) (site : Site μ) : ¬ g.AnswersUnmapped node given site := by
  intro hunmapped
  obtain ⟨r, key, left, hedge, hcall, _, hunmapped⟩ := hunmapped
  obtain ⟨keys, hkeys, hanswer⟩ := h node r hedge
  obtain ⟨k, hk, hal⟩ := hanswer given site key left hcall
  have hmapped := (Routing.unmapped_eq_nil_iff r).mp (hg.mapped node r hedge) k
    (by rw [hkeys]; exact hk)
  have hsome := Routing.pathOf?_isSome_of_alike (hg.hashable node r hedge) hmapped hal
  rw [(pathOf?_eq_none_iff hg hedge key).mpr hunmapped] at hsome
  cases hsome

/-- A call of a node fails with another error than one about its handler or its update only if a
collaborator raises it. -/
theorem raises_of_perform {g : Graph μ} {store : Store} {node : String} (hnode : g.IsNode node)
    {site left : Site μ} {e : RunError}
    (h : g.perform store node site = (.error (.run e), left))
    (hfault : ∀ text, e.fault ≠ .handler text) : g.Raises store node site e.fault := by
  obtain ⟨handler, answer, hhandler, hcall, hsettled⟩ := settled_of_perform hnode h
  generalize hwhy : Failure.run e = why at hsettled
  cases hsettled with
  | refused _ _ | noUpdate _ _ => cases hwhy; exact absurd rfl (hfault _)
  | crashed happly _ => subst hwhy; exact .reducer hhandler hcall happly rfl
  | nested _ | raised _ => cases hwhy; exact .handler hhandler hcall rfl
  | reported _ =>
    obtain ⟨_, rfl⟩ := ifWritable_eq_run hwhy.symm
    exact absurd rfl (hfault _)

end Graph

namespace Run

/-- What a run of a compiled graph can rely on, wherever its history has brought it. -/
structure NeverStuck (g : Graph μ) (log : List (Exchange μ)) (r : Run μ) : Prop where
  graph : r.graph = g
  executed : ∀ t ∈ steps log, g.IsNode t.2.node
  turns : ∀ here p mid, r.Turns here p mid → p.graph = g ∧ g.IsNode p.current ∧
    (∃ handler, Table.row? g.nodes p.current = some handler) ∧
    ∃ e, Table.row? g.edges p.current = some e
  routes : r.phase = .paused → g.IsNode r.current ∧ ∃ e, Table.row? g.edges r.current = some e
  targets : ∀ here target left, r.phase = .paused →
    g.nextNode r.current (.mapping r.state) here = (.ok target, left) →
    target = endName ∨ g.IsNode target
  unmapped : r.phase = .paused → ∀ here,
    g.RoutingFails r.current (.mapping r.state) here ↔
      g.AnswersUnmapped r.current (.mapping r.state) here
  sources : ∀ here e, (r.next here).1.1 = .failed (.run e) → e.fault.IsRouting →
    (r.phase = .paused ∧ g.RoutingFails r.current (.mapping r.state) here) ∨
      ∃ p mid, r.Turns here p mid ∧ g.Raises p.store p.current mid e.fault
  declared : g.AnswersDeclared → r.phase = .paused → ∀ here,
    ¬ g.RoutingFails r.current (.mapping r.state) here

theorem History.executed {g : Graph μ} (hg : g.Linked) {start r : Run μ} {log : List (Exchange μ)}
    (h : History start log r) (hstart : Sound g start) : ∀ t ∈ steps log, g.IsNode t.2.node := by
  induction h with
  | fresh => intro t ht; cases ht
  | opens _ _ ih => exact ih
  | @asks log r x h hnext ih =>
    rcases step_or_other x.outcome with ⟨s, hs⟩ | hother
    · obtain ⟨p, _, _, _, hturn, _, rfl, _⟩ := (asked_of_next hnext).step hs
      have hnode := (hturn.active hg (h.sound hg hstart).1).1.node
      rw [steps_snoc_step hs]
      intro t ht
      rcases List.mem_append.mp ht with ht | ht
      · exact ih t ht
      · rw [List.mem_singleton.mp ht]
        exact hnode
    · rw [steps_snoc_other hother]
      exact ih

theorem endWith_fault {r : Run μ} {e e' : RunError} {node : String}
    (h : (r.endWith e node).1 = .failed (.run e')) : e'.fault = e.fault := by
  cases h
  rfl

theorem failWith_fault {r : Run μ} {why : Failure} {e' : RunError} {node : String}
    (h : (r.failWith why node).1 = .failed (.run e')) : ∃ e, why = .run e ∧ e'.fault = e.fault := by
  rcases r.failWith_cases why node with ⟨e, he, heq⟩ | ⟨hrun, heq⟩
  · rw [heq] at h
    exact ⟨e, he, endWith_fault h⟩
  · rw [heq] at h
    exact absurd (Outcome.failed.inj h) (escaping_ne_run hrun e')

/-- A routing error comes from resolving the next node, or a collaborator raised it. -/
theorem Sound.routing_sources {g : Graph μ} (hg : g.Linked) {r : Run μ} (h : Sound g r)
    {here : Site μ} {e : RunError} (hfailed : (r.next here).1.1 = .failed (.run e))
    (hrouting : e.fault.IsRouting) :
    (r.phase = .paused ∧ g.RoutingFails r.current (.mapping r.state) here) ∨
      ∃ p mid, r.Turns here p mid ∧ g.Raises p.store p.current mid e.fault := by
  have hasked := r.asked_next here
  generalize (r.next here).1 = result, (r.next here).2 = left at hasked hfailed
  cases hasked with
  | idle _ | stepped _ _ | completed _ _ => cases hfailed
  | nodeFailed hturn hcall =>
    obtain ⟨raised, rfl, hfault⟩ := failWith_fault hfailed
    have hp := (hturn.active hg h).1
    rw [hp.graph] at hcall
    rw [hfault] at hrouting ⊢
    have hother : ∀ text, raised.fault ≠ .handler text := by
      obtain ⟨n, k, hk⟩ := hrouting
      simp [hk]
    exact .inr ⟨_, _, hturn, Graph.raises_of_perform hp.node hcall hother⟩
  | routingFailed hphase hroute =>
    obtain ⟨raised, rfl, hfault⟩ := failWith_fault hfailed
    rw [h.graph] at hroute
    rw [hfault] at hrouting
    exact .inl ⟨hphase, raised, _, hroute, hrouting⟩
  | exhausted _ _ _ _ =>
    have hfault := endWith_fault hfailed
    obtain ⟨n, k, hk⟩ := hrouting
    cases hk.symm.trans hfault

/-- No run of a compiled graph gets stuck. -/
theorem never_stuck {g : Graph μ} (hg : g.Compiled) {initial given : Value} {site left : Site μ}
    {start r : Run μ} {log : List (Exchange μ)}
    (hstart : g.start initial given site = (.ok start, left)) (h : History start log r) :
    NeverStuck g log r := by
  have hlinked := hg.linked
  have hsound := (h.sound hlinked (.start hstart)).1
  have hrow : ∀ n, g.IsNode n → ∃ e, Table.row? g.edges n = some e := by
    intro n hn
    obtain ⟨e, he, _⟩ := hlinked.targets n hn
    exact ⟨e, he⟩
  refine ⟨hsound.graph, h.executed hlinked (.start hstart), ?_, ?_, ?_, ?_, ?_, ?_⟩
  · intro here p mid hturn
    have hp := (hturn.active hlinked hsound).1
    exact ⟨hp.graph, hp.node, Graph.handler_of_isNode hp.node, hrow _ hp.node⟩
  · intro hphase
    exact ⟨(hsound.active hphase).node, hrow _ (hsound.active hphase).node⟩
  · intro here target left hphase hroute
    exact Graph.nextNode_eq_ok hlinked (hsound.active hphase).node hroute
  · intro hphase here
    exact Graph.routingFails_iff hlinked (hsound.active hphase).node _ here
  · intro here e hfailed hrouting
    exact hsound.routing_sources hlinked hfailed hrouting
  · intro hdeclared hphase here hfails
    have hunmapped :=
      (Graph.routingFails_iff hlinked (hsound.active hphase).node _ here).mp hfails
    exact hdeclared.not_unmapped hlinked _ _ _ hunmapped

/-- A graph whose router answers 1, which is declared and equal to the key of a path. -/
def circling : Graph Unit :=
  ((Builder.new (Builder.oneChannel .append (.list [])) none).after
    (Builder.turnTaking (fun _ => pure .null) (fun _ => pure .null)
      (fun _ => pure (.int 1)))).graph .null

theorem circling_answersDeclared : circling.AnswersDeclared := by
  intro node r hedge
  have hedges : circling.edges = [("hand", .fixed "boss"), ("boss", .routed
      ⟨fun _ => pure (.int 1), [(.bool true, "hand"), (.str "go", endName)],
        some [.int 1, .str "go"]⟩)] := rfl
  rw [hedges] at hedge
  have hmem := Table.mem_of_row? hedge
  simp only [List.mem_cons, Prod.mk.injEq, reduceCtorEq, and_false, Edge.routed.injEq,
    List.not_mem_nil, or_false, false_or] at hmem
  obtain ⟨_, rfl⟩ := hmem
  refine ⟨_, rfl, fun given site key left hcall => ?_⟩
  cases hcall
  exact ⟨.int 1, by simp, by decide⟩

/-- After its first step the run of this graph can be routed on, whatever happens until then. -/
theorem circling_never_stuck : circling.Compiled ∧ circling.AnswersDeclared ∧
    ∃ start left log r, circling.start .null .null (.bare ()) = (.ok start, left) ∧
      History start log r ∧ r.phase = .paused ∧
      ∀ here, ¬ circling.RoutingFails r.current (.mapping r.state) here := by
  have hcompiled : circling.Compiled := ⟨_, _, _, _, Builder.turnTaking_compiles _ _ _ _ _⟩
  obtain ⟨start, left, opened, x, hstart, hopen, hnext, hphase⟩ :
      ∃ (start : Run Unit) (left : Site Unit) (opened : Run Unit) (x : Exchange Unit),
        circling.start .null .null (.bare ()) = (.ok start, left) ∧ start.opened? = .ok opened ∧
          opened.next x.site = ((x.outcome, x.after), x.left) ∧ x.after.phase = .paused :=
    ⟨_, _, _, ⟨.bare (), _, _, _⟩, rfl, rfl, rfl, rfl⟩
  have hhistory : History start [x] x.after := .asks (.opens .fresh hopen) hnext
  refine ⟨hcompiled, circling_answersDeclared, start, left, [x], x.after, hstart, hhistory,
    hphase, ?_⟩
  exact (never_stuck hcompiled hstart hhistory).declared circling_answersDeclared hphase

end Run

end TeamFlow
