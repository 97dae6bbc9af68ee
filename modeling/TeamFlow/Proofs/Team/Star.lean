import TeamFlow.Proofs.Graph.Compiled
import TeamFlow.Proofs.Table
import TeamFlow.Proofs.Value.Text
import TeamFlow.Team.Star

/-! # Stars compile

The calls that assemble a team all succeed if its workers have names of their
own that are not reserved, and what they leave is written down in full
(`assembled`). It is well-formed, since the supervisor leads to every worker and
to the end and every worker leads back. What a run of the team relies on is kept
in `IsStar`, without the builder. -/
namespace TeamFlow

variable {μ : Type}

namespace Team

/-! ## Assembling a team -/

/-- A supervisor and its workers, which bear the names of its members, in any order. The names are
all different and none has a meaning of its own. -/
structure Legal (s : Supervisor μ) (names : List String) (handlers : Table (Handler μ)) :
    Prop where
  members : s.members = names.map .str
  workers : names.Perm (Table.names handlers)
  distinct : names.Nodup
  reserved : ∀ n ∈ names, n ≠ finishName ∧ n ≠ supervisorNode ∧ n ≠ startName ∧ n ≠ endName

theorem Legal.mem_iff {s : Supervisor μ} {names : List String} {handlers : Table (Handler μ)}
    (h : Legal s names handlers) (n : String) : n ∈ Table.names handlers ↔ n ∈ names :=
  h.workers.mem_iff.symm

theorem Legal.supervisor_not_mem {s : Supervisor μ} {names : List String}
    {handlers : Table (Handler μ)} (h : Legal s names handlers) :
    supervisorNode ∉ Table.names handlers :=
  fun hmem => (h.reserved _ ((h.mem_iff _).mp hmem)).2.1 rfl

theorem Legal.nodup {s : Supervisor μ} {names : List String} {handlers : Table (Handler μ)}
    (h : Legal s names handlers) : (Table.names handlers).Nodup :=
  h.workers.nodup_iff.mp h.distinct

def workerCalls (handlers : Table (Handler μ)) : List (Call μ) :=
  handlers.flatMap fun w => [.node w.1 (.callable w.2), .edge w.1 supervisorNode]

/-- The calls that assemble a team. -/
def calls (s : Supervisor μ) (handlers : Table (Handler μ)) : List (Call μ) :=
  .node supervisorNode (.callable s.handler) :: workerCalls handlers ++
    [.routing supervisorNode Supervisor.route (paths (Table.mapRows .callable handlers))
      (.list s.options), .edge startName supervisorNode]

/-- Where the supervisor leads to: each worker under its name, and the end. -/
def pathFields (names : List String) : List (String × Value) :=
  names.map (fun n => (n, .str n)) ++ [(finishName, .str endName)]

/-- The edge of the supervisor. -/
def routing (s : Supervisor μ) (names : List String) : Routing μ Value :=
  ⟨Supervisor.route.answer, Entries.ofFields (pathFields names), some (Value.distinct s.options)⟩

def backEdge : Edge μ Value := .fixed (.str supervisorNode)

/-- The builder that assembling a team leaves. -/
def assembled (schema : Schema) (name : Option String) (s : Supervisor μ)
    (handlers : Table (Handler μ)) : Builder μ where
  schema := schema
  name := name
  nodes := (supervisorNode, s.handler) :: handlers
  edges := Table.mapRows (fun _ => [backEdge]) handlers ++
    [(supervisorNode, [.routed (routing s (Table.names handlers))])]
  entry := some supervisorNode

theorem pushEdge_eq {source : String} {b : Builder μ} (hnew : source ∉ Table.names b.edges)
    (e : Edge μ Value) :
    Builder.pushEdge source e b = (.ok (), { b with edges := b.edges ++ [(source, [e])] }) := by
  have hout : b.outgoing source = [] := by
    rw [Builder.outgoing, (Table.row?_eq_none_iff _ _).mpr hnew]
    rfl
  rw [Builder.pushEdge_state, hout, Table.put_new hnew]
  rfl

/-- Each worker gets a node and an edge back, by induction on the workers that are left. -/
theorem addWorkers_eq {handlers : Table (Handler μ)}
    (hreserved : ∀ n ∈ Table.names handlers, n ≠ startName ∧ n ≠ endName) {b : Builder μ}
    (hnodes : (Table.names b.nodes ++ Table.names handlers).Nodup)
    (hedges : (Table.names b.edges ++ Table.names handlers).Nodup) :
    addWorkers (Table.mapRows .callable handlers) b = (.ok (), { b with
      nodes := b.nodes ++ handlers
      edges := b.edges ++ Table.mapRows (fun _ => [backEdge]) handlers }) := by
  induction handlers generalizing b with
  | nil => simp [addWorkers, Table.mapRows, Act.pure_apply]
  | cons w handlers ih =>
    obtain ⟨name, h⟩ := w
    obtain ⟨hstart, hend⟩ := hreserved name (by simp [Table.names])
    rw [Table.names_cons] at hnodes hedges
    have hnode : name ∉ Table.names b.nodes := fun hmem =>
      (List.nodup_cons.mp (List.nodup_middle.mp hnodes)).1 (List.mem_append_left _ hmem)
    have hedge : name ∉ Table.names b.edges := fun hmem =>
      (List.nodup_cons.mp (List.nodup_middle.mp hedges)).1 (List.mem_append_left _ hmem)
    have hadd := Builder.addNode_new hstart hend hnode h
    have hback : Builder.addEdge name supervisorNode { b with nodes := b.nodes ++ [(name, h)] } =
        (.ok (), { b with
          nodes := b.nodes ++ [(name, h)]
          edges := b.edges ++ [(name, [backEdge])] }) := by
      rw [Builder.addEdge, if_neg hstart]
      exact pushEdge_eq (b := { b with nodes := b.nodes ++ [(name, h)] }) hedge backEdge
    have hrest := ih (fun n hn => hreserved n (by simp [Table.names_cons, hn]))
      (b := { b with
        nodes := b.nodes ++ [(name, h)]
        edges := b.edges ++ [(name, [backEdge])] })
      (by simpa [Table.names] using hnodes) (by simpa [Table.names] using hedges)
    refine (Act.bind_ok hadd).trans ((Act.bind_ok hback).trans (hrest.trans ?_))
    simp [Table.mapRows]

theorem names_of_workers (handlers : Table (Handler μ)) :
    Table.names (Table.mapRows Offered.callable handlers) = Table.names handlers :=
  Table.names_mapRows _ _

theorem map_fst_pathFields (names : List String) :
    (pathFields names).map Prod.fst = names ++ [finishName] := by
  simp [pathFields, Function.comp_def]

theorem Legal.pathFields_nodup {s : Supervisor μ} {names : List String}
    {handlers : Table (Handler μ)} (h : Legal s names handlers) :
    ((pathFields (Table.names handlers)).map Prod.fst).Nodup := by
  have hfinish : finishName ∉ Table.names handlers := fun hmem =>
    (h.reserved _ ((h.mem_iff _).mp hmem)).1 rfl
  rw [map_fst_pathFields, List.nodup_append]
  refine ⟨h.nodup, by simp, ?_⟩
  rintro n hn m hm rfl
  rw [List.mem_singleton] at hm
  exact hfinish (hm ▸ hn)

theorem Legal.options {s : Supervisor μ} {names : List String} {handlers : Table (Handler μ)}
    (h : Legal s names handlers) : s.options = (finishName :: names).map .str := by
  rw [Supervisor.options, h.members]
  rfl

theorem Legal.make_routing {s : Supervisor μ} {names : List String} {handlers : Table (Handler μ)}
    (h : Legal s names handlers) :
    Routing.make Supervisor.route (paths (Table.mapRows .callable handlers)) (.list s.options) =
      .ok (routing s (Table.names handlers)) := by
  have hpaths : (paths (Table.mapRows .callable handlers)).toEntries =
      .ok (Entries.ofFields (pathFields (Table.names handlers))) := by
    have hpairs : (Table.names handlers).map (fun n => (Value.str n, Value.str n)) ++
        [(.str finishName, .str endName)] =
          Entries.ofFields (pathFields (Table.names handlers)) := by
      simp [pathFields, Entries.ofFields]
    have hhash : (Entries.ofFields (pathFields (Table.names handlers))).all
        (fun e => e.1.isHashable) = true := by
      rw [List.all_eq_true]
      intro e he
      obtain ⟨f, _, rfl⟩ := List.mem_map.mp he
      rfl
    rw [paths, names_of_workers, hpairs, PathMap.toEntries, if_pos hhash,
      Entries.ofPairs_ofFields h.pathFields_nodup]
  have hkeys : asKeys s.options = .ok (Value.distinct s.options) := by
    have hhash : s.options.all Value.isHashable = true := by
      rw [h.options, List.all_eq_true]
      exact Value.isHashable_texts
    rw [asKeys, if_pos hhash]
  simp only [Routing.make, Value.items, bind, Except.bind, hkeys, hpaths]
  rfl

theorem targets_routing (s : Supervisor μ) (names : List String) :
    (Edge.routed (routing s names)).targets = (names ++ [endName]).map .str := by
  simp [Edge.targets, routing, pathFields, Entries.ofFields]

theorem sortedTargets_routing (s : Supervisor μ) (names : List String) :
    ∃ targets, (routing s names).sortedTargets = .ok targets := by
  have htargets : (routing s names).paths.map Prod.snd = (names ++ [endName]).map .str :=
    targets_routing s names
  have hkeys : (routing s names).targets =
      .ok (Value.distinct ((names ++ [endName]).map .str)) := by
    have hhash : ((names ++ [endName]).map Value.str).all Value.isHashable = true := by
      rw [List.all_eq_true]
      exact Value.isHashable_texts
    rw [Routing.targets, htargets, asKeys, if_pos hhash]
  rw [Routing.sortedTargets, hkeys, Value.distinct_texts]
  exact ⟨_, Value.sorted_texts _⟩

theorem Legal.addRouting_eq {s : Supervisor μ} {names : List String}
    {handlers : Table (Handler μ)} (h : Legal s names handlers) {b : Builder μ}
    (hnew : supervisorNode ∉ Table.names b.edges) :
    Builder.addRouting supervisorNode Supervisor.route (paths (Table.mapRows .callable handlers))
        (.list s.options) b =
      (.ok (), { b with edges := b.edges ++
        [(supervisorNode, [.routed (routing s (Table.names handlers))])] }) := by
  obtain ⟨targets, htargets⟩ := sortedTargets_routing s (Table.names handlers)
  have hpush := pushEdge_eq hnew (.routed (routing s (Table.names handlers)))
  simp only [Builder.addRouting, h.make_routing, Act.bind_apply, Act.ofExcept, hpush, htargets]
  rfl

/-- A team can be assembled. -/
theorem Legal.assemble_eq {s : Supervisor μ} {names : List String} {handlers : Table (Handler μ)}
    (h : Legal s names handlers) (schema : Schema) (name : Option String) :
    assemble s (Table.mapRows .callable handlers) (Builder.new schema name) =
      (.ok (), assembled schema name s handlers) := by
  have hboss : Builder.addNode supervisorNode (.callable s.handler) (Builder.new schema name) =
      (.ok (), ⟨schema, name, [(supervisorNode, s.handler)], [], none⟩) :=
    Builder.addNode_new (by decide) (by decide) List.not_mem_nil _
  have hworkers : addWorkers (Table.mapRows .callable handlers)
      ⟨schema, name, [(supervisorNode, s.handler)], [], none⟩ = (.ok (), ⟨schema, name,
        (supervisorNode, s.handler) :: handlers, Table.mapRows (fun _ => [backEdge]) handlers,
        none⟩) :=
    addWorkers_eq (fun n hn => (h.reserved n ((h.mem_iff n).mp hn)).2.2)
      (List.nodup_cons.mpr ⟨h.supervisor_not_mem, h.nodup⟩) h.nodup
  have hrouting := h.addRouting_eq (b := ⟨schema, name, (supervisorNode, s.handler) :: handlers,
    Table.mapRows (fun _ => [backEdge]) handlers, none⟩) (by
      rw [Table.names_mapRows]
      exact h.supervisor_not_mem)
  exact (Act.bind_ok hboss).trans ((Act.bind_ok hworkers).trans (Act.bind_ok hrouting))

theorem after_call (c : Call μ) {b b' : Builder μ} (h : c.act b = (.ok (), b'))
    (rest : List (Call μ)) : b.after (c :: rest) = b'.after rest := by
  rw [Builder.after_cons, h]

theorem after_workerCalls {handlers : Table (Handler μ)} {b b' : Builder μ}
    (h : addWorkers (Table.mapRows .callable handlers) b = (.ok (), b')) (rest : List (Call μ)) :
    b.after (workerCalls handlers ++ rest) = b'.after rest := by
  induction handlers generalizing b with
  | nil => cases h; rfl
  | cons w handlers ih =>
    obtain ⟨⟨⟩, _, hnode, h⟩ := Act.bind_eq_ok.mp h
    obtain ⟨⟨⟩, _, hedge, h⟩ := Act.bind_eq_ok.mp h
    exact (after_call (.node w.1 (.callable w.2)) hnode _).trans
      ((after_call (.edge w.1 supervisorNode) hedge _).trans (ih h))

theorem after_of_assemble {s : Supervisor μ} {handlers : Table (Handler μ)} {b b' : Builder μ}
    (h : assemble s (Table.mapRows .callable handlers) b = (.ok (), b')) :
    b.after (calls s handlers) = b' := by
  obtain ⟨⟨⟩, _, hboss, h⟩ := Act.bind_eq_ok.mp h
  obtain ⟨⟨⟩, _, hworkers, h⟩ := Act.bind_eq_ok.mp h
  obtain ⟨⟨⟩, _, hrouting, hedge⟩ := Act.bind_eq_ok.mp h
  exact (after_call (.node supervisorNode (.callable s.handler)) hboss _).trans
    ((after_workerCalls hworkers _).trans
      ((after_call (.routing supervisorNode Supervisor.route
        (paths (Table.mapRows .callable handlers)) (.list s.options)) hrouting _).trans
        (after_call (.edge startName supervisorNode) hedge [])))

/-! ## The assembled builder -/

section Assembled

variable {s : Supervisor μ} {names : List String} {handlers : Table (Handler μ)}

theorem isNode_assembled_iff (h : Legal s names handlers) (schema : Schema) (name : Option String)
    (n : String) :
    (assembled schema name s handlers).IsNode n ↔ n = supervisorNode ∨ n ∈ names := by
  rw [← h.mem_iff n]
  exact List.mem_cons

theorem outgoing_assembled (schema : Schema) (name : Option String) (n : String) :
    (assembled schema name s handlers).outgoing n =
      if n ∈ Table.names handlers then [backEdge]
      else if n = supervisorNode then [.routed (routing s (Table.names handlers))] else [] := by
  have hrow : Table.row? (assembled schema name s handlers).edges n =
      ((Table.row? handlers n).map fun _ => [backEdge]).or (if supervisorNode = n then
        some [.routed (routing s (Table.names handlers))] else none) := by
    rw [assembled, Table.row?_append, Table.row?_mapRows]
    rfl
  rw [Builder.outgoing, hrow]
  by_cases hn : n ∈ Table.names handlers
  · obtain ⟨h, hh⟩ := Option.isSome_iff_exists.mp ((Table.row?_isSome_iff handlers n).mpr hn)
    rw [hh, if_pos hn]
    rfl
  · rw [(Table.row?_eq_none_iff handlers n).mpr hn, if_neg hn]
    by_cases hs : n = supervisorNode
    · simp [hs]
    · simp [hs, Ne.symm hs]

theorem outgoing_supervisor (h : Legal s names handlers) (schema : Schema) (name : Option String) :
    (assembled schema name s handlers).outgoing supervisorNode =
      [.routed (routing s (Table.names handlers))] := by
  rw [outgoing_assembled, if_neg h.supervisor_not_mem, if_pos rfl]

theorem outgoing_worker (h : Legal s names handlers) (schema : Schema) (name : Option String)
    {n : String} (hn : n ∈ names) : (assembled schema name s handlers).outgoing n = [backEdge] := by
  rw [outgoing_assembled, if_pos ((h.mem_iff n).mpr hn)]

theorem routing_mem_calls {source : String} {router : Router μ} {paths : PathMap} {keys : Value}
    (h : Call.routing source router paths keys ∈ calls s handlers) :
    router = Supervisor.route ∧ paths = Team.paths (Table.mapRows .callable handlers) ∧
      keys = .list s.options := by
  have hworkers : Call.routing source router paths keys ∉ workerCalls handlers := by
    simp [workerCalls]
  simp only [calls, List.cons_append, List.mem_cons, List.mem_append, hworkers, reduceCtorEq,
    false_or, Call.routing.injEq, List.not_mem_nil, or_false] at h
  exact h.2

theorem path_of_option (h : Legal s names handlers) {k : Value} (hk : k ∈ s.options) :
    ∃ p ∈ (routing s (Table.names handlers)).paths, p.1.alike k = true := by
  rw [h.options] at hk
  obtain ⟨n, hn, rfl⟩ := List.mem_map.mp hk
  have hfield : n ∈ (pathFields (Table.names handlers)).map Prod.fst := by
    rw [map_fst_pathFields, List.mem_append, h.mem_iff n, List.mem_singleton]
    exact (List.mem_cons.mp hn).symm
  obtain ⟨f, hf, rfl⟩ := List.mem_map.mp hfield
  exact ⟨_, List.mem_map.mpr ⟨f, hf, rfl⟩, (Value.alike_str_iff _ _).mpr rfl⟩

theorem source_assembled (h : Legal s names handlers) {schema : Schema} {name : Option String}
    {n : String} (hn : (assembled schema name s handlers).outgoing n ≠ []) :
    n = supervisorNode ∨ n ∈ names := by
  rw [outgoing_assembled] at hn
  split at hn
  next hmem => exact .inr ((h.mem_iff n).mp hmem)
  next =>
    split at hn
    next heq => exact .inl heq
    next => exact absurd rfl hn

theorem successors_supervisor (h : Legal s names handlers) (schema : Schema) (name : Option String)
    {n : String} (hn : n ∈ names ∨ n = endName) :
    n ∈ (assembled schema name s handlers).successors supervisorNode := by
  rw [Builder.mem_successors_iff, outgoing_supervisor h]
  refine ⟨_, List.mem_singleton.mpr rfl, ?_⟩
  rw [targets_routing]
  refine List.mem_map.mpr ⟨n, ?_, rfl⟩
  rwa [List.mem_append, List.mem_singleton, h.mem_iff n]

theorem successors_worker (h : Legal s names handlers) (schema : Schema) (name : Option String)
    {n : String} (hn : n ∈ names) :
    supervisorNode ∈ (assembled schema name s handlers).successors n := by
  rw [Builder.mem_successors_iff, outgoing_worker h schema name hn]
  exact ⟨_, List.mem_singleton.mpr rfl, List.mem_singleton.mpr rfl⟩

theorem targets_assembled (h : Legal s names handlers) {schema : Schema} {name : Option String}
    {n : String} {e : Edge μ Value} (he : e ∈ (assembled schema name s handlers).outgoing n)
    {t : Value} (ht : t ∈ e.targets) :
    ∃ m, t = .str m ∧ (m = endName ∨ (assembled schema name s handlers).IsNode m) := by
  have hnode := isNode_assembled_iff h schema name
  rcases source_assembled h (List.ne_nil_of_mem he) with rfl | hn
  · rw [outgoing_supervisor h, List.mem_singleton] at he
    rw [he, targets_routing] at ht
    obtain ⟨m, hm, rfl⟩ := List.mem_map.mp ht
    rw [List.mem_append, List.mem_singleton, h.mem_iff m] at hm
    exact ⟨m, rfl, hm.symm.imp_right fun hm => (hnode m).mpr (.inr hm)⟩
  · rw [outgoing_worker h schema name hn, List.mem_singleton] at he
    rw [he] at ht
    exact ⟨_, List.mem_singleton.mp ht, .inr ((hnode _).mpr (.inl rfl))⟩

/-- The builder of a team is well-formed. -/
theorem assembled_wellFormed (h : Legal s names handlers) {schema : Schema}
    (hchannels : schema.channels ≠ []) (hdefaults : ∀ c ∈ schema.channels, c.default.isSome = true)
    (name : Option String) :
    (assembled schema name s handlers).WellFormed (calls s handlers) := by
  have hnode := isNode_assembled_iff h schema name
  have hto : ∀ n, n ∈ names ∨ n = endName →
      n ∈ (assembled schema name s handlers).successors supervisorNode :=
    fun n hn => successors_supervisor h schema name hn
  refine ⟨hchannels, hdefaults, ⟨supervisorNode, rfl, (hnode _).mpr (.inl rfl)⟩, ?_, ?_,
    fun n e he t ht => targets_assembled h he ht, ?_, ?_, ?_⟩
  · intro n hn
    exact (hnode n).mpr (source_assembled h hn)
  · intro n hn
    rcases (hnode n).mp hn with rfl | hn
    · exact ⟨_, outgoing_supervisor h schema name⟩
    · exact ⟨_, outgoing_worker h schema name hn⟩
  · intro source router paths keys hc r hmake
    obtain ⟨rfl, rfl, rfl⟩ := routing_mem_calls hc
    rw [h.make_routing] at hmake
    cases hmake
    refine ⟨by simp [routing, pathFields, Entries.ofFields], fun k hk => ?_⟩
    cases hk with
    | given _ hkeys hk => cases hkeys; exact path_of_option h hk
    | attached hnone => cases hnone
    | answers hnone => cases hnone
  · intro n hn e he
    cases he
    rcases (hnode n).mp hn with rfl | hn
    · exact .refl _
    · exact .step (hto n (.inl hn)) (.refl _)
  · intro n hn
    have hend : Reach.Path (assembled schema name s handlers).successors supervisorNode endName :=
      .step (hto endName (.inr rfl)) (.refl _)
    rcases (hnode n).mp hn with rfl | hn
    · exact hend
    · exact .step (successors_worker h schema name hn) hend

end Assembled

/-! ## The compiled team -/

/-- What a run of a team can rely on: it starts at the supervisor, whose router leads to the member
that it named or to the end, and every member leads back to it. -/
structure IsStar (g : Graph μ) (s : Supervisor μ) (names : List String) : Prop where
  compiled : g.Compiled
  entry : g.entry = supervisorNode
  options : s.options = (finishName :: names).map .str
  nodes : ∀ n, g.IsNode n ↔ n = supervisorNode ∨ n ∈ names
  handler : Table.row? g.nodes supervisorNode = some s.handler
  apart : supervisorNode ∉ names
  back : ∀ n ∈ names, Table.row? g.edges n = some (.fixed supervisorNode)
  routed : ∃ r : Routing μ String, Table.row? g.edges supervisorNode = some (.routed r) ∧
    r.answer = Supervisor.route.answer ∧ r.pathOf? (.str finishName) = some endName ∧
    ∀ n ∈ names, r.pathOf? (.str n) = some n

theorem Legal.pathOf?_routing {s : Supervisor μ} {names : List String}
    {handlers : Table (Handler μ)} (h : Legal s names handlers) {n : String} {target : Value}
    (hn : (n, target) ∈ pathFields (Table.names handlers)) :
    (routing s (Table.names handlers)).pathOf? (.str n) = some target :=
  (Entries.find?_ofFields _ n).trans (Table.row?_of_mem h.pathFields_nodup hn)

theorem Legal.isStar {s : Supervisor μ} {names : List String} {handlers : Table (Handler μ)}
    (h : Legal s names handlers) {schema : Schema} {name : Option String} {limit : Value}
    (hcompile : (assembled schema name s handlers).compile limit =
      .ok ((assembled schema name s handlers).graph limit)) :
    IsStar ((assembled schema name s handlers).graph limit) s names := by
  have hafter := after_of_assemble (h.assemble_eq schema name)
  have hregular := Builder.regular_after schema name (calls s handlers)
  rw [hafter] at hregular
  have hrow : ∀ n, Table.row? ((assembled schema name s handlers).graph limit).edges n = _ :=
    Builder.row?_settledEdges hregular
  refine ⟨⟨schema, name, calls s handlers, limit, by rw [hafter, hcompile]⟩, rfl, h.options,
    isNode_assembled_iff h schema name, rfl, ?_, ?_, ?_⟩
  · exact fun hmem => h.supervisor_not_mem ((h.mem_iff _).mpr hmem)
  · intro n hn
    rw [hrow, outgoing_worker h schema name hn]
    rfl
  · have hpath : ∀ n target, (n, target) ∈ pathFields (Table.names handlers) →
        ((routing s (Table.names handlers)).mapTargets fun t => t.text?.getD "").pathOf? (.str n) =
          some (target.text?.getD "") := by
      intro n target hn
      rw [Routing.pathOf?_mapTargets, h.pathOf?_routing hn]
      rfl
    refine ⟨_, ?_, rfl, hpath finishName (.str endName) (by simp [pathFields]), fun n hn => ?_⟩
    · rw [hrow, outgoing_supervisor h schema name]
      rfl
    · exact hpath n (.str n) (by simp [pathFields, (h.mem_iff n).mpr hn])

theorem calls_hasTextTargets (s : Supervisor μ) (handlers : Table (Handler μ)) :
    ∀ c ∈ calls s handlers, c.HasTextTargets := by
  intro c hc
  cases c with
  | node _ _ | edge _ _ | entry _ | finish _ => trivial
  | routing source router paths keys =>
    obtain ⟨_, rfl, _⟩ := routing_mem_calls hc
    intro e he
    rcases List.mem_append.mp he with he | he
    · obtain ⟨n, _, rfl⟩ := List.mem_map.mp he
      exact ⟨n, rfl⟩
    · rw [List.mem_singleton.mp he]
      exact ⟨endName, rfl⟩

/-- A team compiles, and its graph is a star. -/
theorem Legal.star_eq {s : Supervisor μ} {names : List String} {handlers : Table (Handler μ)}
    (h : Legal s names handlers) {schema : Schema} (hchannels : schema.channels ≠ [])
    (hdefaults : ∀ c ∈ schema.channels, c.default.isSome = true) (limit : Value)
    (name : Option String) :
    star (.ok schema) s (Table.mapRows .callable handlers) limit name =
        .ok ((assembled schema name s handlers).graph limit) ∧
      IsStar ((assembled schema name s handlers).graph limit) s names := by
  have hassemble := h.assemble_eq schema name
  have hafter := after_of_assemble hassemble
  have hcompile : (assembled schema name s handlers).compile limit =
      .ok ((assembled schema name s handlers).graph limit) := by
    have hcases := Builder.compile_cases schema name _ (calls_hasTextTargets s handlers) limit
    rw [hafter] at hcases
    rcases hcases with ⟨_, hgraph⟩ | ⟨hill, _⟩
    · exact hgraph
    · exact absurd (assembled_wellFormed h hchannels hdefaults name) hill
  have hmembers : Value.sorted s.members =
      Value.sorted ((Table.names (Table.mapRows Offered.callable handlers)).map .str) := by
    rw [h.members, names_of_workers, Value.sorted_texts_of_perm h.workers]
  have hsorted := Value.sorted_texts (Table.names (Table.mapRows Offered.callable handlers))
  refine ⟨?_, h.isStar hcompile⟩
  simp only [star, hmembers, hsorted, bind, Except.bind, Value.alike, Value.alikeItems_texts,
    hassemble, hcompile]
  rfl

end Team

end TeamFlow
