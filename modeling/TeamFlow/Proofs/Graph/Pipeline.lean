import TeamFlow.Proofs.Graph.Compiled

/-! # Graphs without routers

If the edge of every node is fixed, one node leads to one other. A way from the
entry to the end then cannot come by a node again, or it would come by it for
ever; so it comes by each node that it reaches exactly once (`Reach.Chain`). In a
compiled graph it reaches all of them: the nodes stand in one line
(`Compiled.pipeline`). -/
namespace TeamFlow

/-! ## Ways without a choice -/

namespace Reach

/-- The names on the way to a goal, where each of them leads to one other. -/
inductive Chain (next : String → List String) (goal : String) : String → List String → Prop where
  | done : Chain next goal goal []
  | step {a b : String} {rest : List String} (hnext : next a = [b])
      (hrest : Chain next goal b rest) : Chain next goal a (a :: rest)

namespace Chain

variable {next : String → List String} {goal a : String} {names : List String}

theorem eq_goal (h : Chain next goal a []) : a = goal := by
  cases h
  rfl

theorem head_eq {b : String} (h : Chain next goal a (b :: names)) : a = b := by
  cases h
  rfl

theorem unique (hgoal : next goal = []) (h : Chain next goal a names) {others : List String}
    (h' : Chain next goal a others) : names = others := by
  induction h generalizing others with
  | done =>
    cases h' with
    | done => rfl
    | step hnext _ => cases hgoal.symm.trans hnext
  | step hnext _ ih =>
    cases h' with
    | done => cases hgoal.symm.trans hnext
    | step hnext' hrest' =>
      cases hnext.symm.trans hnext'
      rw [ih hrest']

theorem suffix {before after : List String} {b : String}
    (h : Chain next goal a (before ++ b :: after)) : Chain next goal b (b :: after) := by
  induction before generalizing a with
  | nil => cases h with
    | step hnext hrest => exact .step hnext hrest
  | cons _ _ ih => cases h with
    | step _ hrest => exact ih hrest

/-- No name comes twice: from its second place on, the way would have to be the same as from its
first. -/
theorem nodup (hgoal : next goal = []) (h : Chain next goal a names) : names.Nodup := by
  induction h with
  | done => exact List.nodup_nil
  | @step a _ rest hnext hrest ih =>
    refine List.nodup_cons.mpr ⟨fun hagain => ?_, ih⟩
    obtain ⟨before, after, rfl⟩ := List.append_of_mem hagain
    have hsame := (Chain.step hnext hrest).unique hgoal hrest.suffix
    have hlength := congrArg List.length hsame
    simp only [List.length_cons, List.length_append] at hlength
    omega

theorem mem_of_path (hgoal : next goal = []) (h : Chain next goal a names) {b : String}
    (hpath : Path next a b) : b = goal ∨ b ∈ names := by
  induction hpath generalizing names with
  | refl a =>
    cases h with
    | done => exact .inl rfl
    | step _ _ => exact .inr List.mem_cons_self
  | step hb _ ih =>
    cases h with
    | done => rw [hgoal] at hb; cases hb
    | step hnext hrest =>
      rw [hnext, List.mem_singleton] at hb
      exact (ih (hb ▸ hrest)).imp_right (List.mem_cons_of_mem _)

theorem leads (h : Chain next goal a names) {b : String} (hb : b ∈ names) : next b ≠ [] := by
  induction h with
  | done => cases hb
  | step hnext _ ih =>
    rcases List.mem_cons.mp hb with rfl | hb
    · rw [hnext]
      exact List.cons_ne_nil _ _
    · exact ih hb

end Chain

/-- Where no name leads to several others, a path is such a way. -/
theorem exists_chain {next : String → List String} (hsingle : ∀ n, (next n).length ≤ 1)
    {a goal : String} (h : Path next a goal) : ∃ names, Chain next goal a names := by
  induction h with
  | refl a => exact ⟨[], .done⟩
  | @step a b _ hb _ ih =>
    obtain ⟨names, hnames⟩ := ih
    have hlength : (next a).length = 1 :=
      Nat.le_antisymm (hsingle a) (List.length_pos_of_mem hb)
    obtain ⟨c, hc⟩ := List.length_eq_one_iff.mp hlength
    rw [hc, List.mem_singleton] at hb
    exact ⟨a :: names, .step (hb ▸ hc) hnames⟩

end Reach

variable {μ : Type}

/-! ## The nodes of a compiled graph -/

namespace Graph

def following (g : Graph μ) (n : String) : List String :=
  ((Table.row? g.edges n).map Edge.targets).getD []

/-- How the nodes of a graph hang together. -/
structure Connected (g : Graph μ) : Prop where
  distinct : (Table.names g.nodes).Nodup
  sources : ∀ n, g.following n ≠ [] → g.IsNode n
  reached : ∀ n, g.IsNode n → Reach.Path g.following g.entry n
  finishes : ∀ n, g.IsNode n → Reach.Path g.following n endName

theorem filterMap_text? {ts : List Value} (h : ∀ t ∈ ts, ∃ m, t = .str m) :
    ts.filterMap Value.text? = ts.map fun t => t.text?.getD "" := by
  induction ts with
  | nil => rfl
  | cons t ts ih =>
    obtain ⟨⟨m, rfl⟩, hts⟩ := List.forall_mem_cons.mp h
    simp [Value.text?, ih hts]

theorem Compiled.connected {g : Graph μ} (h : g.Compiled) : g.Connected := by
  obtain ⟨schema, name, calls, limit, h⟩ := h
  have hb := Builder.regular_after schema name calls
  have hdistinct : (Table.names ((Builder.new schema name).after calls).nodes).Nodup :=
    Builder.distinct_after (b := Builder.new schema name) List.nodup_nil calls
  generalize (Builder.new schema name).after calls = b at h hb hdistinct
  obtain ⟨hps, rfl⟩ := Builder.compile_eq_ok_iff.mp h
  obtain ⟨hl, hpaths⟩ := (hb.problems_reports [] hps).mp rfl
  obtain ⟨hreached, hfinishes⟩ := (hb.pathsProblems_eq_nil_iff hl).mp hpaths
  have hfollowing : ∀ n, (b.graph limit).following n =
      ((b.outgoing n).head?.map fun e => e.targets.map fun t => t.text?.getD "").getD [] := by
    intro n
    show ((Table.row? b.settledEdges n).map Edge.targets).getD [] = _
    rw [Builder.row?_settledEdges hb, Option.map_map]
    congr 2
    funext e
    exact Edge.targets_mapTargets _ e
  have hsuccessors : (b.graph limit).following = b.successors := by
    funext n
    rw [hfollowing]
    cases hout : b.outgoing n with
    | nil => simp [Builder.successors, hout]
    | cons e es =>
      -- a node has a single edge, so the first of its edges is all of them
      obtain ⟨e', he'⟩ := hl.single n (hl.sources n (by simp [hout]))
      cases hout.symm.trans he'
      have htexts : ∀ t ∈ e.targets, ∃ m, t = .str m := by
        intro t ht
        obtain ⟨m, hm, _⟩ := (hl.fits n e (by simp [hout])).targets t ht
        exact ⟨m, hm⟩
      simp only [Builder.successors, hout, List.head?_cons, Option.map_some, Option.getD_some,
        List.flatMap_cons, List.flatMap_nil, List.append_nil]
      exact (filterMap_text? htexts).symm
  obtain ⟨e, he, _⟩ := hl.entry
  refine ⟨hdistinct, fun n hn => ?_, fun n hn => ?_, fun n hn => ?_⟩
  · refine hl.sources n fun hnone => hn ?_
    rw [hfollowing, hnone]
    rfl
  · rw [hsuccessors]
    show Reach.Path b.successors (b.entry.getD "") n
    rw [he]
    exact hreached n hn e he
  · rw [hsuccessors]
    exact hfinishes n hn

/-! ## Pipelines -/

/-- A graph without routers. -/
def IsPipeline (g : Graph μ) : Prop :=
  ∀ n e, Table.row? g.edges n = some e → ∃ target, e = .fixed target

section Pipeline

variable {g : Graph μ}

theorem IsPipeline.single (h : g.IsPipeline) (n : String) : (g.following n).length ≤ 1 := by
  unfold following
  cases hedge : Table.row? g.edges n with
  | none => exact Nat.zero_le 1
  | some e =>
    obtain ⟨target, rfl⟩ := h n e hedge
    exact Nat.le_refl 1

theorem IsPipeline.edge (h : g.IsPipeline) {n target : String} (hn : g.following n = [target]) :
    Table.row? g.edges n = some (.fixed target) := by
  unfold following at hn
  cases hedge : Table.row? g.edges n with
  | none => rw [hedge] at hn; cases hn
  | some e =>
    obtain ⟨t, rfl⟩ := h n e hedge
    rw [hedge] at hn
    cases hn
    rfl

/-- The nodes of a compiled graph without routers stand in one line from the entry to the end. -/
theorem Compiled.pipeline (hg : g.Compiled) (h : g.IsPipeline) :
    ∃ order, Reach.Chain g.following endName g.entry order ∧
      order.Perm (Table.names g.nodes) := by
  have hconnected := hg.connected
  have hlinked := hg.linked
  have hend : g.following endName = [] := Decidable.byContradiction fun hleads =>
    hlinked.reserved (hconnected.sources endName hleads)
  obtain ⟨order, hchain⟩ :=
    Reach.exists_chain h.single (hconnected.finishes g.entry hlinked.entry)
  refine ⟨order, hchain, ?_⟩
  refine (List.perm_ext_iff_of_nodup (hchain.nodup hend) hconnected.distinct).mpr fun n => ?_
  constructor
  · exact fun hn => hconnected.sources n (hchain.leads hn)
  · intro hn
    refine (hchain.mem_of_path hend (hconnected.reached n hn)).resolve_left ?_
    rintro rfl
    exact hlinked.reserved hn

end Pipeline

end Graph

/-! ## Two nodes in a line -/

namespace Builder

def relay (first second : Handler μ) : List (Call μ) :=
  [.node "a" (.callable first), .node "b" (.callable second), .entry "a", .edge "a" "b",
    .finish "b"]

theorem relay_wellFormed {s : Schema} (hchannels : s.channels ≠ [])
    (hdefaults : ∀ c ∈ s.channels, c.default.isSome = true) (first second : Handler μ) :
    ((new s none).after (relay first second)).WellFormed (relay first second) := by
  have hnode : ∀ n, ((new s none).after (relay first second)).IsNode n ↔ n = "a" ∨ n = "b" := by
    intro n
    have hnames : Table.names ((new s none).after (relay first second)).nodes = ["a", "b"] := rfl
    simp [IsNode, hnames]
  have ha : ((new s none).after (relay first second)).outgoing "a" = [.fixed (.str "b")] := rfl
  have hb : ((new s none).after (relay first second)).outgoing "b" = [.fixed (.str endName)] := rfl
  have hsource : ∀ n, ((new s none).after (relay first second)).outgoing n ≠ [] →
      n = "a" ∨ n = "b" := by
    intro n hn
    rw [outgoing_after] at hn
    simp only [relay, List.flatMap_cons, List.flatMap_nil, Call.edgesFrom] at hn
    by_cases hfirst : n = "a"
    · exact .inl hfirst
    by_cases hsecond : n = "b"
    · exact .inr hsecond
    simp [outgoing, new, Table.row?, Ne.symm hfirst, Ne.symm hsecond] at hn
  have hlast : Reach.Path ((new s none).after (relay first second)).successors "b" endName :=
    .step (List.mem_singleton.mpr rfl) (.refl _)
  have hstep : "b" ∈ ((new s none).after (relay first second)).successors "a" :=
    List.mem_singleton.mpr rfl
  refine ⟨hchannels, hdefaults, ⟨"a", rfl, (hnode _).mpr (.inl rfl)⟩, ?_, ?_, ?_, ?_, ?_, ?_⟩
  · exact fun n hn => (hnode n).mpr (hsource n hn)
  · intro n hn
    rcases (hnode n).mp hn with rfl | rfl
    · exact ⟨_, ha⟩
    · exact ⟨_, hb⟩
  · intro n e he
    rcases hsource n (List.ne_nil_of_mem he) with rfl | rfl
    · obtain rfl := List.mem_singleton.mp (ha ▸ he)
      intro t ht
      exact ⟨"b", List.mem_singleton.mp ht, .inr ((hnode _).mpr (.inr rfl))⟩
    · obtain rfl := List.mem_singleton.mp (hb ▸ he)
      intro t ht
      exact ⟨endName, List.mem_singleton.mp ht, .inl rfl⟩
  · intro source router paths keys hc
    simp [relay] at hc
  · intro n hn e he
    cases he
    rcases (hnode n).mp hn with rfl | rfl
    · exact .refl _
    · exact .step hstep (.refl _)
  · intro n hn
    rcases (hnode n).mp hn with rfl | rfl
    · exact .step hstep hlast
    · exact hlast

/-- The graph of the two, with a channel that holds what was contributed last. -/
def relayed (first second : Handler μ) : Graph μ :=
  ((new (oneChannel Reducer.overrideIfPresent .null) none).after (relay first second)).graph .null

theorem relayed_compiled (first second : Handler μ) : (relayed first second).Compiled := by
  have hwell := relay_wellFormed (s := oneChannel Reducer.overrideIfPresent .null)
    (by simp [oneChannel]) (by simp [oneChannel]) first second
  have htext : ∀ c ∈ relay first second, c.HasTextTargets := by
    simp [relay, Call.HasTextTargets]
  refine ⟨oneChannel Reducer.overrideIfPresent .null, none, relay first second, .null, ?_⟩
  rcases compile_cases (oneChannel Reducer.overrideIfPresent .null) none _ htext .null with
    ⟨_, hgraph⟩ | ⟨hill, _⟩
  · exact hgraph
  · exact absurd hwell hill

theorem relayed_isPipeline (first second : Handler μ) : (relayed first second).IsPipeline := by
  have hedges : (relayed first second).edges = [("a", .fixed "b"), ("b", .fixed endName)] := rfl
  intro n e he
  rw [hedges] at he
  rcases List.mem_cons.mp (Table.mem_of_row? he) with heq | hrest
  · cases heq
    exact ⟨_, rfl⟩
  · cases List.mem_singleton.mp hrest
    exact ⟨_, rfl⟩

end Builder

end TeamFlow
