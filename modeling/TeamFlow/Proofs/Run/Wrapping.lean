import TeamFlow.Proofs.Run.Mirroring
import TeamFlow.Run.Subgraph

/-! # Graphs around graphs

A graph can be the only node of another one over the same schema, which enters
it with all channels and merges all that it ends with. Where all channels are
overridden such a layer changes nothing: the inner run starts from what the
outer store shows, and what it ends with can be merged back. So any number of
layers come to what the graph inside comes to, in one step (`Transparent`). -/
namespace TeamFlow

variable {μ : Type}

/-! ## A graph with one node -/

/-- What a graph with a single node is made from, but for the node itself and the channels. -/
structure Layer where
  node : String
  graphName : Option String
  stepLimit : Value
  legal : node ≠ startName ∧ node ≠ endName

namespace Layer

/-- The calls that make the graph: its node is the entry, and the end follows it. -/
def calls (l : Layer) (h : Handler μ) : List (Call μ) :=
  [.node l.node (.callable h), .entry l.node, .finish l.node]

def builder (l : Layer) (schema : Schema) (h : Handler μ) : Builder μ where
  schema := schema
  name := l.graphName
  nodes := [(l.node, h)]
  edges := [(l.node, [.fixed (.str endName)])]
  entry := some l.node

theorem after_calls (l : Layer) (schema : Schema) (h : Handler μ) :
    (Builder.new schema l.graphName).after (l.calls h) = l.builder schema h := by
  have hnode : (Builder.addNode l.node (.callable h) (Builder.new schema l.graphName)).2 =
      ⟨schema, l.graphName, [(l.node, h)], [], none⟩ :=
    congrArg Prod.snd (Builder.addNode_new l.legal.1 l.legal.2 List.not_mem_nil h)
  have hfinish : (Builder.setFinish l.node
      (⟨schema, l.graphName, [(l.node, h)], [], some l.node⟩ : Builder μ)).2 =
        l.builder schema h := by
    simp only [Builder.setFinish, Builder.addEdge, if_neg l.legal.1]
    rfl
  simp only [calls, Builder.after_cons, Call.act, hnode]
  exact hfinish

theorem outgoing_builder (l : Layer) (schema : Schema) (h : Handler μ) (n : String) :
    (l.builder schema h).outgoing n = if l.node = n then [.fixed (.str endName)] else [] := by
  simp only [Builder.outgoing, builder, Table.row?]
  split <;> rfl

theorem builder_wellFormed (l : Layer) {schema : Schema} (hchannels : schema.channels ≠ [])
    (hdefaults : ∀ c ∈ schema.channels, c.default.isSome = true) (h : Handler μ) :
    (l.builder schema h).WellFormed (l.calls h) := by
  have hnode : ∀ n, (l.builder schema h).IsNode n ↔ n = l.node := by
    simp [Builder.IsNode, builder, Table.names]
  have hout : (l.builder schema h).outgoing l.node = [.fixed (.str endName)] := by
    rw [outgoing_builder, if_pos rfl]
  have hsource : ∀ n, (l.builder schema h).outgoing n ≠ [] → n = l.node := by
    intro n hn
    rw [outgoing_builder] at hn
    split at hn
    next heq => exact heq.symm
    next => exact absurd rfl hn
  refine ⟨hchannels, hdefaults, ⟨l.node, rfl, (hnode _).mpr rfl⟩,
    fun n hn => (hnode n).mpr (hsource n hn), ?_, ?_, ?_, ?_, ?_⟩
  · intro n hn
    obtain rfl := (hnode n).mp hn
    exact ⟨_, hout⟩
  · intro n e he t ht
    obtain rfl := hsource n (List.ne_nil_of_mem he)
    rw [hout, List.mem_singleton] at he
    cases he
    exact ⟨endName, List.mem_singleton.mp ht, .inl rfl⟩
  · intro source router paths keys hc
    simp [calls] at hc
  · intro n hn e he
    cases he
    obtain rfl := (hnode n).mp hn
    exact .refl _
  · intro n hn
    obtain rfl := (hnode n).mp hn
    have hend : endName ∈ (l.builder schema h).successors l.node := by
      rw [Builder.mem_successors_iff]
      exact ⟨_, by rw [hout]; exact List.mem_singleton.mpr rfl, List.mem_singleton.mpr rfl⟩
    exact .step hend (.refl _)

theorem compile_eq (l : Layer) {schema : Schema} (hchannels : schema.channels ≠ [])
    (hdefaults : ∀ c ∈ schema.channels, c.default.isSome = true) (h : Handler μ) :
    ((Builder.new schema l.graphName).after (l.calls h)).compile l.stepLimit =
      .ok ((l.builder schema h).graph l.stepLimit) := by
  have htext : ∀ c ∈ l.calls h, c.HasTextTargets := by
    intro c hc
    simp only [calls, List.mem_cons, List.not_mem_nil, or_false] at hc
    rcases hc with rfl | rfl | rfl <;> trivial
  have hwell := l.builder_wellFormed hchannels hdefaults h
  rw [← l.after_calls schema h] at hwell ⊢
  rcases Builder.compile_cases schema l.graphName _ htext l.stepLimit with ⟨_, hgraph⟩ | ⟨hill, _⟩
  · exact hgraph
  · exact absurd hwell hill

end Layer

/-! ## A graph inside a graph -/

/-- A graph as a node that is entered with all channels and left with all that it ends with. -/
def Subgraph.whole (schema : Schema) (inner : Graph μ) (limit : Value) : Subgraph μ :=
  .of inner (Adapter.selectChannels (schema.names.map .str)) pure limit none

/-- A layer around a graph. -/
def Layer.around (l : Layer) (schema : Schema) (inner : Graph μ) (limit : Value) :
    Except Failure (Graph μ) :=
  ((Builder.new schema l.graphName).after
    (l.calls (Subgraph.whole schema inner limit).handler)).compile l.stepLimit

/-- Layers around a graph, from the inside outward. Only the graph is given a limit. -/
def Graph.wrapped (schema : Schema) : Graph μ → Value → List Layer → Except Failure (Graph μ)
  | g, _, [] => .ok g
  | g, limit, l :: ls => do wrapped schema (← l.around schema g limit) .null ls

/-- What a layer is made of. -/
structure Layer.Surrounds (l : Layer) (schema : Schema) (inner : Graph μ) (limit : Value)
    (w : Graph μ) : Prop where
  compiled : w.Compiled
  channels : w.schema = schema.freeze
  stepLimit : w.stepLimit = l.stepLimit
  entry : w.entry = l.node
  handler : Table.row? w.nodes l.node = some (Subgraph.whole schema inner limit).handler
  finish : Table.row? w.edges l.node = some (.fixed endName)

theorem Layer.around_eq (l : Layer) {schema : Schema} (hchannels : schema.channels ≠ [])
    (hdefaults : ∀ c ∈ schema.channels, c.default.isSome = true) (inner : Graph μ)
    (limit : Value) : ∃ w, l.around schema inner limit = .ok w ∧
      l.Surrounds schema inner limit w := by
  have hcompile := l.compile_eq hchannels hdefaults (Subgraph.whole schema inner limit).handler
  refine ⟨_, hcompile, ⟨_, _, _, _, hcompile⟩, rfl, rfl, rfl, ?_, ?_⟩
  · simp [Builder.graph, builder, Table.row?]
  · simp [Builder.graph, Builder.settledEdges, Builder.settledRow, builder, Table.row?,
      Edge.mapTargets, Value.text?]

/-! ## Entering with all channels -/

namespace Adapter

theorem select_eq {state : State} {name : String} {v : Value}
    (h : Entries.find? state (.str name) = some v) :
    (do
      if ← (Value.mapping state).holds (.str name) then
        return some (← (Value.str name).hashed, ← (Value.mapping state).under (.str name))
      else return none : Except Failure (Option (Value × Value))) = .ok (some (.str name, v)) := by
  have hhas : Entries.has state (.str name) = true := by
    obtain ⟨e, he, rfl⟩ := Option.map_eq_some_iff.mp h
    have halike : e.1.alike (.str name) = true := by simpa using List.find?_some he
    exact List.any_eq_true.mpr ⟨e, List.mem_of_find?_eq_some he, halike⟩
  have hholds : (Value.mapping state).holds (.str name) = .ok true := congrArg Except.ok hhas
  have hunder : (Value.mapping state).under (.str name) = .ok v :=
    bind_eq_ok.mpr ⟨.str name, rfl, by rw [h]⟩
  simp only [hholds, hunder, bind, Except.bind, if_true]
  rfl

theorem selectChannels_rows {state : State} {rows : Table Value}
    (h : ∀ row ∈ rows, Entries.find? state (.str row.1) = some row.2)
    (hdistinct : (Table.names rows).Nodup) (site : Site μ) :
    selectChannels ((Table.names rows).map .str) (.mapping state) site =
      (.ok (.mapping (Entries.ofFields rows)), site) := by
  have hselect : ((Table.names rows).map Value.str).filterMapM (fun n => do
      if ← (Value.mapping state).holds n then
        return some (← n.hashed, ← (Value.mapping state).under n)
      else return none) = Except.ok (ε := Failure) (Entries.ofFields rows) := by
    clear hdistinct
    induction rows with
    | nil => rfl
    | cons row rows ih =>
      rw [Table.names_cons, List.map_cons, List.filterMapM_cons, select_eq (h row (by simp)),
        ih fun r hr => h r (by simp [hr])]
      rfl
  refine congrArg (·, site) (bind_eq_ok.mpr ⟨_, hselect, ?_⟩)
  rw [Entries.ofPairs_ofFields hdistinct]
  rfl

theorem selectChannels_all {schema : Schema} {store : Store} (hs : store.Complete schema)
    (site : Site μ) : selectChannels (schema.names.map .str) (.mapping store.snapshot) site =
      (.ok (.mapping store.snapshot), site) := by
  have hnames : Table.names (Table.mapRows Value.copied store.values) = schema.names := by
    rw [Table.names_mapRows, hs]
  have hdistinct : (Table.names (Table.mapRows Value.copied store.values)).Nodup := by
    rw [hnames]
    exact schema.distinct
  rw [← hnames, store.snapshot_eq_ofFields]
  refine selectChannels_rows (fun row hrow => ?_) hdistinct site
  rw [Entries.find?_ofFields, Table.row?_of_mem hdistinct hrow]

end Adapter

/-! ## One layer -/

/-- What a graph around another one comes to with an initial state: what the other one does under
its limit. It ends with the same state, after a single step, or with an error of the same kind and
wording. -/
structure Transparent (g : Graph μ) (limit : Value) (w : Graph μ) (initial : Value)
    (site : Site μ) : Prop where
  completes : ∀ final left, g.invoke initial limit (fun _ _ => pure ()) site = (.ok final, left) →
    w.invoke initial .null (fun _ _ => pure ()) site = (.ok final, left)
  oneStep : ∀ final left, g.invoke initial limit (fun _ _ => pure ()) site = (.ok final, left) →
    ∀ start begun opened, w.start initial .null site = (.ok start, begun) →
      start.opened? = .ok opened → ∀ meanwhile (c : Run.Course meanwhile opened begun),
        c.taken.length = 1 ∧ c.outcome = .over ∧ c.final.state = final
  fails : ∀ e left, g.invoke initial limit (fun _ _ => pure ()) site = (.error (.run e), left) →
    ∃ e', w.invoke initial .null (fun _ _ => pure ()) site = (.error (.run e'), left) ∧
      e'.fault = e.fault

namespace Subgraph

variable {schema : Schema} {inner : Graph μ} {limit : Value} {store : Store} {site left : Site μ}

theorem whole_ok (hs : store.Complete schema) {final : State}
    (h : inner.invoke (.mapping store.snapshot) limit (fun _ _ => pure ()) site =
      (.ok final, left)) :
    (whole schema inner limit).handler (.mapping store.snapshot) site =
      (.ok (.mapping final), left) :=
  (Act.bind_ok (Adapter.selectChannels_all hs site)).trans (Act.bind_ok h)

theorem whole_error (hs : store.Complete schema) {why : Failure}
    (h : inner.invoke (.mapping store.snapshot) limit (fun _ _ => pure ()) site =
      (.error why, left)) :
    (whole schema inner limit).handler (.mapping store.snapshot) site = (.error why, left) :=
  (Act.bind_ok (Adapter.selectChannels_all hs site)).trans (Act.bind_error h)

end Subgraph

namespace Run

theorem Passes.fills {g : Graph μ} (hg : g.Linked) (hoverriding : g.schema.Overriding)
    {meanwhile : Step → Site μ → Site μ} {r last : Run μ} {site here : Site μ}
    {taken : List (Step × Run μ)} (h : Passes meanwhile r site taken last here) (hr : Sound g r) :
    Store.Fills g.schema r.store last.store := by
  induction h with
  | here r _ => exact .refl _
  | step hnext _ ih =>
    obtain ⟨_, _, _, _, _, hmerges⟩ := hr.answered hg hnext
    exact (hmerges.fills hoverriding).trans (ih (hr.stepped hg hnext).1)

end Run

theorem Graph.fills_of_invoke {g : Graph μ} (hg : g.Linked) (hoverriding : g.schema.Overriding)
    {initial given : Value} {site begun left : Site μ} {start : Run μ} {final : State}
    (hstart : g.start initial given site = (.ok start, begun))
    (hinvoke : g.invoke initial given (fun _ _ => pure ()) site = (.ok final, left)) :
    ∃ store, store.snapshot = final ∧ store.Complete g.schema ∧
      Store.Fills g.schema start.store store := by
  obtain ⟨start', begun', opened, hstart', hopen, c, _, rfl, _⟩ := invoke_eq_ok hg hinvoke
  cases hstart.symm.trans hstart'
  have hsound := (Run.Sound.start hstart).opened hopen
  refine ⟨c.final.store, rfl, ?_, ?_⟩
  · rw [c.final_store]
    exact (c.passes.sound hg hsound).1.complete
  · obtain ⟨_, rfl⟩ := Run.opened?_eq_ok hopen
    rw [c.final_store]
    exact c.passes.fills hg hoverriding hsound

section Layer

variable {l : Layer} {schema : Schema} {g w : Graph μ} {limit initial : Value}
  {site begun left : Site μ} {start : Run μ}

/-- The run of a layer once its steps were asked for. -/
def Graph.ready (w : Graph μ) (n : StepLimit) (store : Store) : Run μ :=
  { w.fresh n store with phase := .opened }

/-- The run of a layer after its step. -/
def Graph.entered (w : Graph μ) (n : StepLimit) (store : Store) : Run μ :=
  { w.fresh n store with status := .running, count := 1, phase := .paused }

theorem Layer.Surrounds.next_ready (h : l.Surrounds schema g limit w) (n : StepLimit)
    {store : Store} {answer : Except Failure Value}
    (hcall : (Subgraph.whole schema g limit).handler (.mapping store.snapshot) site =
      (answer, left)) :
    (w.ready n store).next site = (match w.settle store l.node answer with
      | .ok (delta, new) => (.step ⟨1, l.node, delta⟩, w.entered n new)
      | .error why => Run.failWith { w.ready n store with status := .running } why l.node,
      left) := by
  have hturn : (w.ready n store).Turns site { w.ready n store with status := .running } site :=
    .first rfl
  have hcurrent : w.entry = l.node := h.entry
  have hnode : Table.row? w.nodes w.entry = some (Subgraph.whole schema g limit).handler := by
    rw [hcurrent]
    exact h.handler
  rw [hturn.next_of_call hnode hcall]
  show (match w.settle store w.entry answer with
    | .ok (delta, new) => _
    | .error why => _, left) = _
  rw [← hcurrent]
  rfl

theorem Layer.Surrounds.next_entered (h : l.Surrounds schema g limit w) (n : StepLimit)
    (store : Store) (here : Site μ) :
    ∃ after, (w.entered n store).next here = ((.over, after), here) ∧
      after.state = store.snapshot := by
  have hedge : Table.row? w.edges w.entry = some (.fixed endName) := by
    rw [h.entry]
    exact h.finish
  have hroute : (w.entered n store).graph.nextNode (w.entered n store).current
      (.mapping (w.entered n store).state) here = (.ok endName, here) :=
    Graph.nextNode_fixed hedge _ here
  have hpaused : (w.entered n store).phase = .paused := rfl
  refine ⟨{ w.entered n store with
    current := endName, status := .completed, phase := .closed }, ?_, rfl⟩
  simp only [Run.next, hpaused, hroute]
  rfl

/-- Where the graph inside comes to an end, the step of the layer merges what it ends with. -/
theorem Layer.Surrounds.steps (h : l.Surrounds schema g limit w) (hg : g.Linked)
    (hschema : g.schema = schema.freeze) (hoverriding : schema.Overriding)
    (hstart : g.start initial limit site = (.ok start, begun)) {final : State}
    (hinvoke : g.invoke initial limit (fun _ _ => pure ()) site = (.ok final, left))
    (n : StepLimit) : ∃ new, new.snapshot = final ∧
    (w.ready n start.store).next site = ((.step ⟨1, l.node, final⟩, w.entered n new), left) := by
  have hg' : g.schema.Overriding := by rwa [hschema]
  have hfrozen : schema.freeze.Overriding := hoverriding
  have hs : start.store.Complete schema := by
    obtain ⟨hgraph, hbegins, _⟩ := Run.start_eq_ok hstart
    have hcomplete := hbegins.complete
    rwa [hschema] at hcomplete
  obtain ⟨store, rfl, hstore, hfills⟩ := Graph.fills_of_invoke hg hg' hstart hinvoke
  rw [hschema] at hstore hfills
  obtain ⟨new, hnew, hshown⟩ := Store.apply_snapshot hfrozen hs hstore hfills
  have hsettle : w.settle start.store l.node (.ok (.mapping store.snapshot)) =
      .ok (store.snapshot, new) := by
    simp only [Graph.settle, h.channels, hnew]
  rw [← Graph.invoke_shown hg hg' hstart] at hinvoke
  have hnext := h.next_ready n (Subgraph.whole_ok hs hinvoke)
  rw [hsettle] at hnext
  exact ⟨new, hshown, hnext⟩

/-- Where the graph inside ends with an error, the layer ends with one of the same kind. -/
theorem Layer.Surrounds.ends (h : l.Surrounds schema g limit w) (hg : g.Linked)
    (hschema : g.schema = schema.freeze) (hoverriding : schema.Overriding)
    (hstart : g.start initial limit site = (.ok start, begun)) {e : RunError}
    (hinvoke : g.invoke initial limit (fun _ _ => pure ()) site = (.error (.run e), left))
    (n : StepLimit) : ∃ e' after, e'.fault = e.fault ∧
    (w.ready n start.store).next site = ((.failed (.run e'), after), left) := by
  have hs : start.store.Complete schema := by
    obtain ⟨hgraph, hbegins, _⟩ := Run.start_eq_ok hstart
    have hcomplete := hbegins.complete
    rwa [hschema] at hcomplete
  obtain ⟨raised, hfault, hsettle⟩ : ∃ raised : RunError, raised.fault = e.fault ∧
      w.settle start.store l.node (.error (.run e)) = .error (.run raised) := by
    by_cases hannotated : e.isAnnotated = true
    · exact ⟨{ e.nestedIn l.node with cause := some (.run e) }, rfl, by
        simp only [Graph.settle, if_pos hannotated]⟩
    · exact ⟨e, rfl, by simp only [Graph.settle, if_neg hannotated]⟩
  rw [← Graph.invoke_shown hg (by rwa [hschema]) hstart] at hinvoke
  have hnext := h.next_ready n (Subgraph.whole_error hs hinvoke)
  rw [hsettle] at hnext
  exact ⟨raised.annotate l.node _ _, _, hfault, hnext⟩

/-- One layer changes nothing. -/
theorem Layer.Surrounds.transparent (h : l.Surrounds schema g limit w) (hg : g.Linked)
    (hschema : g.schema = schema.freeze) (hoverriding : schema.Overriding)
    (hstart : g.start initial limit site = (.ok start, begun)) {n : StepLimit}
    (hlimit : StepLimit.resolve .null l.stepLimit site.settings.stepLimit = .ok n) :
    w.start initial .null site = (.ok (w.fresh n start.store), site) ∧
      Transparent g limit w initial site := by
  have hlinked := h.compiled.linked
  have hstart' : w.start initial .null site = (.ok (w.fresh n start.store), site) := by
    obtain ⟨_, store, _, hstore, rfl, _⟩ := Graph.start_iff.mp hstart
    refine Graph.start_iff.mpr ⟨n, store, by rw [h.stepLimit]; exact hlimit, ?_, rfl, rfl⟩
    rw [h.channels, ← hschema]
    exact hstore
  have hopen : (w.fresh n start.store).opened? = .ok (w.ready n start.store) := rfl
  refine ⟨hstart', fun final left hinvoke => ?_, fun final left hinvoke => ?_,
    fun e left hinvoke => ?_⟩
  · obtain ⟨new, rfl, hnext⟩ := h.steps hg hschema hoverriding hstart hinvoke n
    obtain ⟨after, hover, hstate⟩ := h.next_entered n new left
    -- the layer takes one step, and its next request finds it over
    let c : Run.Course (fun _ site => site) (w.ready n start.store) site :=
      ⟨_, _, _, .step hnext (.here _ _), by rw [hover]; exact nofun⟩
    have houtcome : c.outcome = .over := congrArg (fun result => result.1.1) hover
    rw [Graph.invoke_of_course hlinked hstart' hopen c houtcome]
    show (Except.ok (((w.entered n new).next left).1.2.state), ((w.entered n new).next left).2) = _
    rw [hover, ← hstate]
  · intro start' begun' opened hstarted hopened meanwhile c
    cases hstart'.symm.trans hstarted
    cases hopen.symm.trans hopened
    obtain ⟨new, rfl, hnext⟩ := h.steps hg hschema hoverriding hstart hinvoke n
    obtain ⟨rest, htaken, hpasses⟩ := c.goesOn (.step hnext (.here _ _))
    obtain ⟨after, hover, hstate⟩ := h.next_entered n new (meanwhile ⟨1, l.node, new.snapshot⟩ left)
    obtain ⟨rfl, hlast, hhere⟩ := hpasses.eq_nil (by rw [hover]; exact nofun)
    refine ⟨by rw [htaken]; rfl, ?_, ?_⟩
    · rw [Run.Course.outcome, hlast, hhere, hover]
    · rw [Run.Course.final, hlast, hhere, hover, hstate]
  · obtain ⟨e', after, hfault, hnext⟩ := h.ends hg hschema hoverriding hstart hinvoke n
    let c : Run.Course (fun _ site => site) (w.ready n start.store) site :=
      ⟨[], _, _, .here _ _, by rw [hnext]; exact nofun⟩
    have houtcome : c.outcome = .failed (.run e') := congrArg (fun result => result.1.1) hnext
    refine ⟨e', ?_, hfault⟩
    rw [Graph.invoke_eq hlinked hstart' hopen c, houtcome]
    exact congrArg (Prod.mk _) (congrArg Prod.snd hnext)

end Layer

/-! ## Any number of layers -/

theorem Transparent.trans {g mid w : Graph μ} {limit initial : Value} {site : Site μ}
    (h : Transparent g limit mid initial site) (h' : Transparent mid .null w initial site) :
    Transparent g limit w initial site where
  completes final left hinvoke := h'.completes final left (h.completes final left hinvoke)
  oneStep final left hinvoke := h'.oneStep final left (h.completes final left hinvoke)
  fails e left hinvoke := by
    obtain ⟨e', hinvoke', hfault⟩ := h.fails e left hinvoke
    obtain ⟨e'', hinvoke'', hfault'⟩ := h'.fails e' left hinvoke'
    exact ⟨e'', hinvoke'', hfault'.trans hfault⟩

/-- A run of a layer has a limit, its own or that of the settings. -/
def Layer.HasLimit (l : Layer) (settings : Settings) : Prop :=
  ∃ n, StepLimit.resolve .null l.stepLimit settings.stepLimit = .ok n

/-- Layers change nothing, by induction on them, as long as the limits of their own runs are in
order. -/
theorem wrapping_transparent {g : Graph μ} (hg : g.Compiled) {schema : Schema}
    (hschema : g.schema = schema.freeze) (hoverriding : schema.Overriding) (limit : Value)
    {layers : List Layer} (hlayers : layers ≠ []) : ∃ w, g.wrapped schema limit layers = .ok w ∧
      ∀ (initial : Value) (site begun : Site μ) (start : Run μ),
        g.start initial limit site = (.ok start, begun) →
        (∀ l ∈ layers, l.HasLimit site.settings) → Transparent g limit w initial site := by
  induction layers generalizing g limit with
  | nil => exact absurd rfl hlayers
  | cons l ls ih =>
    obtain ⟨hchannels, hdefaults⟩ : schema.channels ≠ [] ∧
        ∀ c ∈ schema.channels, c.default.isSome = true := by
      have hdefaults := hg.defaults
      rwa [hschema] at hdefaults
    obtain ⟨mid, haround, hmid⟩ := l.around_eq hchannels hdefaults g limit
    cases ls with
    | nil =>
      refine ⟨mid, bind_eq_ok.mpr ⟨mid, haround, rfl⟩,
        fun initial site begun start hstart hlimits => ?_⟩
      obtain ⟨n, hn⟩ := hlimits l (by simp)
      exact (hmid.transparent hg.linked hschema hoverriding hstart hn).2
    | cons l' ls =>
      obtain ⟨w, hwrapped, hw⟩ := ih hmid.compiled hmid.channels .null (List.cons_ne_nil l' ls)
      refine ⟨w, bind_eq_ok.mpr ⟨mid, haround, hwrapped⟩,
        fun initial site begun start hstart hlimits => ?_⟩
      obtain ⟨n, hn⟩ := hlimits l (by simp)
      obtain ⟨hstart', hinner⟩ := hmid.transparent hg.linked hschema hoverriding hstart hn
      exact hinner.trans (hw initial site site _ hstart' fun k hk => hlimits k (by simp [hk]))

/-- Two nodes of which the second one hands over nothing for a channel that begins with nothing. -/
def shuttling : Graph Nat :=
  ((Builder.new (Builder.oneChannel .overrideIfPresent .null) none).after
    (Builder.turnTaking (fun _ => pure (.mapping [(.str "x", .str "boss")]))
      (fun _ => pure (.mapping [(.str "x", .null)]))
      (fun _ site => (.ok (if site.memory = 0 then .int 1 else .str "go"),
        { site with memory := site.memory + 1 })))).graph .null

theorem shuttling_compiled : shuttling.Compiled :=
  ⟨_, _, _, _, Builder.turnTaking_compiles _ _ _ _ _⟩

/-- A layer with no limit of its own. -/
def plainLayer (node : String) (legal : node ≠ startName ∧ node ≠ endName) : Layer :=
  ⟨node, none, .null, legal⟩

def twoLayers : List Layer :=
  [plainLayer "inner" (by decide), plainLayer "outer" (by decide)]

theorem oneChannel_overriding (first : Value) :
    (Builder.oneChannel Reducer.overrideIfPresent first).Overriding := by
  simp [Schema.Overriding, Builder.oneChannel]

/-- Wrapped twice the graph ends with the same state, and under a limit of one step with the same
error. -/
theorem shuttling_wrapped : shuttling.Compiled ∧ ∃ w left,
    shuttling.wrapped (Builder.oneChannel .overrideIfPresent .null) (.int 5) twoLayers = .ok w ∧
    w.invoke .null .null (fun _ _ => pure ()) (.bare 0) =
      (.ok [(.str "x", .str "boss")], left) ∧ ∃ w' e left',
    shuttling.wrapped (Builder.oneChannel .overrideIfPresent .null) (.int 1) twoLayers = .ok w' ∧
    w'.invoke .null .null (fun _ _ => pure ()) (.bare 0) = (.error (.run e), left') ∧
    e.fault = .stepLimit 1 := by
  have hlimits : ∀ l ∈ twoLayers, l.HasLimit (Site.bare 0).settings := by
    intro l hl
    rcases List.mem_pair.mp hl with rfl | rfl <;> exact ⟨.usual, rfl⟩
  have htwo : twoLayers ≠ [] := by simp [twoLayers]
  obtain ⟨w, hw, hcompletes⟩ := wrapping_transparent shuttling_compiled rfl
    (oneChannel_overriding .null) (.int 5) htwo
  obtain ⟨w', hw', hfails⟩ := wrapping_transparent shuttling_compiled rfl
    (oneChannel_overriding .null) (.int 1) htwo
  obtain ⟨start, left, hstart, hinvoke⟩ : ∃ start left,
      shuttling.start .null (.int 5) (.bare 0) = (.ok start, .bare 0) ∧
      shuttling.invoke .null (.int 5) (fun _ _ => pure ()) (.bare 0) =
        (.ok [(.str "x", .str "boss")], left) := ⟨_, _, rfl, rfl⟩
  obtain ⟨start', e, left', hstart', hinvoke', hfault⟩ : ∃ start' e left',
      shuttling.start .null (.int 1) (.bare 0) = (.ok start', .bare 0) ∧
      shuttling.invoke .null (.int 1) (fun _ _ => pure ()) (.bare 0) = (.error (.run e), left') ∧
      e.fault = .stepLimit 1 := ⟨_, _, _, rfl, rfl, rfl⟩
  obtain ⟨e', he', hsame⟩ := (hfails _ _ _ _ hstart' hlimits).fails e left' hinvoke'
  exact ⟨shuttling_compiled, w, left, hw, (hcompletes _ _ _ _ hstart hlimits).completes _ _ hinvoke,
    w', e', left', hw', he', hsame.trans hfault⟩

/-- But a run of a layer needs a limit of its own even if the graph inside is given one. -/
theorem transparency_refuted : ¬ ∀ (g : Graph Nat), g.Compiled → ∀ (schema : Schema),
    g.schema = schema.freeze → schema.Overriding → ∀ (limit : Value) (layers : List Layer),
    layers ≠ [] → ∀ w, g.wrapped schema limit layers = .ok w →
    ∀ (initial : Value) (site begun : Site Nat) (start : Run Nat),
      g.start initial limit site = (.ok start, begun) → Transparent g limit w initial site := by
  intro hall
  have hchannels : (Builder.oneChannel Reducer.overrideIfPresent .null).channels ≠ [] := by
    simp [Builder.oneChannel]
  obtain ⟨w, haround, hw⟩ := (plainLayer "inner" (by decide)).around_eq hchannels
    (by simp [Builder.oneChannel]) shuttling (.int 5)
  obtain ⟨site, start, left, hsettings, hstart, hinvoke⟩ : ∃ (site : Site Nat) (start : Run Nat)
      (left : Site Nat), site.settings.stepLimit = some "abc" ∧
      shuttling.start .null (.int 5) site = (.ok start, site) ∧
      shuttling.invoke .null (.int 5) (fun _ _ => pure ()) site =
        (.ok [(.str "x", .str "boss")], left) :=
    ⟨{ Site.bare 0 with settings := { Settings.none with stepLimit := some "abc" } }, _, _, rfl, rfl, rfl⟩
  have htransparent := hall shuttling shuttling_compiled _ rfl (oneChannel_overriding .null)
    (.int 5) [plainLayer "inner" (by decide)] (by simp) w (bind_eq_ok.mpr ⟨w, haround, rfl⟩)
    .null site site start hstart
  obtain ⟨_, _, hstarted, _⟩ := Act.bind_eq_ok.mp (htransparent.completes _ _ hinvoke)
  obtain ⟨_, _, hlimit, _⟩ := Graph.start_iff.mp hstarted
  rw [hw.stepLimit, hsettings] at hlimit
  have hrefused : ∃ why, StepLimit.ofSetting (some "abc") = .error why := ⟨_, rfl⟩
  obtain ⟨why, hwhy⟩ := hrefused
  cases hwhy.symm.trans hlimit

end TeamFlow
