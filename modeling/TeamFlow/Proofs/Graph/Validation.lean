import TeamFlow.Proofs.Graph.Calls
import TeamFlow.Proofs.Graph.Reach

/-! # Validation accepts exactly the well-formed builders

`WellFormed` says what a graph needs without saying how to test it: its paths
are those of `Reach.Path`. Each function that lists problems lists none exactly
if its part of this holds (`Reports`), and the two searches are entered only
once all edges lead to nodes or to the end, which is what makes them exact. -/
namespace TeamFlow.Builder

variable {μ : Type}

def IsNode (b : Builder μ) (n : String) : Prop := n ∈ Table.names b.nodes

instance (b : Builder μ) (n : String) : Decidable (b.IsNode n) :=
  inferInstanceAs (Decidable (n ∈ Table.names b.nodes))

/-- What a builder needs to be compiled: a schema with channels that have
defaults, an entry, one edge for each node and none for anything else, targets
that are nodes or the end, paths for all declared keys, and paths from the entry
to each node and from each node to the end. -/
structure WellFormed (b : Builder μ) (calls : List (Call μ)) : Prop where
  channels : b.schema.channels ≠ []
  defaults : ∀ c ∈ b.schema.channels, c.default.isSome = true
  entry : ∃ e, b.entry = some e ∧ b.IsNode e
  sources : ∀ n, b.outgoing n ≠ [] → b.IsNode n
  single : ∀ n, b.IsNode n → ∃ e, b.outgoing n = [e]
  targets : ∀ n, ∀ e ∈ b.outgoing n, ∀ t ∈ e.targets,
    ∃ m, t = .str m ∧ (m = endName ∨ b.IsNode m)
  mapped : ∀ source router paths keys, Call.routing source router paths keys ∈ calls →
    ∀ r, Routing.make router paths keys = .ok r → r.paths ≠ [] ∧
      ∀ k, Declares router keys k → ∃ p ∈ r.paths, p.1.alike k = true
  reached : ∀ n, b.IsNode n → ∀ e, b.entry = some e → Reach.Path b.successors e n
  finishes : ∀ n, b.IsNode n → Reach.Path b.successors n endName

/-! ## Problems of edges -/

/-- What is asked of an edge on its own. -/
def Fits (b : Builder μ) : Edge μ Value → Prop
  | .fixed t => b.isTarget t = true
  | .routed r => r.paths ≠ [] ∧ (∀ p ∈ r.paths, b.isTarget p.2 = true) ∧ r.unmapped = []

/-- A list of problems, if there is one, is empty exactly if something holds. -/
def Reports (x : Except Failure (List String)) (P : Prop) : Prop :=
  ∀ ps, x = .ok ps → (ps = [] ↔ P)

theorem ite_nil_iff {c : Prop} [Decidable c] {problem : String} :
    (if c then [] else [problem]) = [] ↔ c := by
  split <;> simp [*]

theorem nil_ite_iff {c : Prop} [Decidable c] {problem : String} :
    (if c then [problem] else []) = [] ↔ ¬ c := by
  split <;> simp [*]

theorem isTarget_iff (b : Builder μ) (v : Value) :
    b.isTarget v = true ↔ ∃ m, v = .str m ∧ (m = endName ∨ b.IsNode m) := by
  cases v <;> simp [isTarget, Table.has, IsNode]

theorem has_nodes_iff (b : Builder μ) (n : String) :
    Table.has b.nodes n = true ↔ b.IsNode n := by
  simp [Table.has, IsNode]

theorem pathProblem_reports (b : Builder μ) (source : String) (key target : Value) :
    Reports (b.pathProblem source key target) (b.isTarget target = true) := by
  intro ps h
  unfold pathProblem at h
  split at h
  next => cases h
  next =>
    split at h
    next htarget => cases h; simp [htarget]
    next htarget =>
      obtain ⟨_, _, h⟩ := bind_eq_ok.mp h
      obtain ⟨_, _, h⟩ := bind_eq_ok.mp h
      cases h
      simp [htarget]

theorem pathProblems_reports (b : Builder μ) (source : String) (paths : List (Value × Value)) :
    Reports (b.pathProblems source paths) (∀ p ∈ paths, b.isTarget p.2 = true) := by
  induction paths with
  | nil => intro ps h; cases h; simp
  | cons p paths ih =>
    intro ps h
    obtain ⟨here, hhere, h⟩ := bind_eq_ok.mp h
    obtain ⟨rest, hrest, h⟩ := bind_eq_ok.mp h
    cases h
    rw [List.append_eq_nil_iff, b.pathProblem_reports source p.1 p.2 here hhere, ih rest hrest,
      List.forall_mem_cons]

theorem eq_nil_iff_of_perm {α : Type} {xs ys : List α} (h : xs.Perm ys) : xs = [] ↔ ys = [] := by
  rw [← List.isEmpty_iff, ← List.isEmpty_iff, h.isEmpty_eq]

theorem sorted_eq_nil_iff (texts : List String) : Schema.sorted texts = [] ↔ texts = [] :=
  eq_nil_iff_of_perm (List.mergeSort_perm texts fun a b => decide (a ≤ b))

theorem mapM_eq_nil_iff {α β : Type} {f : α → Except Failure β} {as : List α} {bs : List β}
    (h : as.mapM f = .ok bs) : bs = [] ↔ as = [] := by
  cases as with
  | nil => cases h; simp
  | cons a as =>
    rw [List.mapM_cons] at h
    obtain ⟨_, _, h⟩ := bind_eq_ok.mp h
    obtain ⟨_, _, h⟩ := bind_eq_ok.mp h
    cases h
    simp

theorem unmappedProblems_reports (source : String) (r : Routing μ Value) :
    Reports (unmappedProblems source r) (r.unmapped = []) := by
  intro ps h
  obtain ⟨texts, htexts, h⟩ := bind_eq_ok.mp h
  cases h
  rw [List.map_eq_nil_iff, sorted_eq_nil_iff, mapM_eq_nil_iff htexts]

theorem edgeProblems_reports (b : Builder μ) (source : String) (e : Edge μ Value) :
    Reports (b.edgeProblems source e) (b.Fits e) := by
  intro ps h
  cases e with
  | fixed t =>
    rw [edgeProblems] at h
    split at h
    next htarget => cases h; simp [Fits, htarget]
    next htarget =>
      obtain ⟨_, _, h⟩ := bind_eq_ok.mp h
      cases h
      simp [Fits, htarget]
  | routed r =>
    obtain ⟨wrong, hwrong, h⟩ := bind_eq_ok.mp h
    obtain ⟨missing, hmissing, h⟩ := bind_eq_ok.mp h
    cases h
    rw [List.append_eq_nil_iff, List.append_eq_nil_iff, nil_ite_iff,
      pathProblems_reports b source r.paths wrong hwrong,
      unmappedProblems_reports source r missing hmissing, List.isEmpty_iff, and_assoc, Fits]

theorem allEdgeProblems_reports (b : Builder μ) (source : String) (es : List (Edge μ Value)) :
    Reports (b.allEdgeProblems source es) (∀ e ∈ es, b.Fits e) := by
  induction es with
  | nil => intro ps h; cases h; simp
  | cons e es ih =>
    intro ps h
    obtain ⟨here, hhere, h⟩ := bind_eq_ok.mp h
    obtain ⟨rest, hrest, h⟩ := bind_eq_ok.mp h
    cases h
    simp [edgeProblems_reports b source e here hhere, ih rest hrest]

theorem sourceProblems_reports (b : Builder μ) (rows : Table (List (Edge μ Value))) :
    Reports (b.sourceProblems rows)
      (∀ row ∈ rows, b.IsNode row.1 ∧ row.2.length ≤ 1 ∧ ∀ e ∈ row.2, b.Fits e) := by
  induction rows with
  | nil => intro ps h; cases h; simp
  | cons row rows ih =>
    intro ps h
    obtain ⟨here, hhere, h⟩ := bind_eq_ok.mp h
    obtain ⟨rest, hrest, h⟩ := bind_eq_ok.mp h
    cases h
    rw [List.append_eq_nil_iff, List.append_eq_nil_iff, List.append_eq_nil_iff, ite_nil_iff,
      nil_ite_iff, has_nodes_iff, Nat.not_lt, allEdgeProblems_reports b row.1 row.2 here hhere,
      ih rest hrest, List.forall_mem_cons]
    simp only [and_assoc]

/-! ## Problems that can be told without following paths -/

theorem schema_problems_eq_nil_iff (s : Schema) :
    s.problems = [] ↔ s.channels ≠ [] ∧ ∀ c ∈ s.channels, c.default.isSome = true := by
  rw [Schema.problems, List.append_eq_nil_iff, nil_ite_iff, List.isEmpty_iff,
    List.filterMap_eq_nil_iff]
  refine and_congr_right fun _ => forall_congr' fun c => imp_congr_right fun _ => ?_
  cases hc : c.default <;> simp

theorem entryProblems_eq_nil_iff (b : Builder μ) :
    b.entryProblems = [] ↔ ∃ e, b.entry = some e ∧ b.IsNode e := by
  cases h : b.entry with
  | none => simp [entryProblems, h]
  | some e => simp [entryProblems, h, has_nodes_iff]

/-- All of `WellFormed` that can be told edge by edge. -/
structure FitsLocally (b : Builder μ) : Prop where
  channels : b.schema.channels ≠ []
  defaults : ∀ c ∈ b.schema.channels, c.default.isSome = true
  entry : ∃ e, b.entry = some e ∧ b.IsNode e
  sources : ∀ n, b.outgoing n ≠ [] → b.IsNode n
  single : ∀ n, b.IsNode n → ∃ e, b.outgoing n = [e]
  fits : ∀ n, ∀ e ∈ b.outgoing n, b.Fits e

theorem Regular.has_edges_iff {b : Builder μ} (hb : b.Regular) (n : String) :
    Table.has b.edges n = true ↔ b.outgoing n ≠ [] := by
  rw [Table.has, List.contains_iff_mem, ← Table.row?_isSome_iff]
  cases h : Table.row? b.edges n with
  | none => simp [outgoing, h]
  | some es => simpa [outgoing, h] using hb.occupied _ (Table.mem_of_row? h)

/-- The rows of the table of edges say the same as the edges that leave the nodes. -/
theorem Regular.rows_iff {b : Builder μ} (hb : b.Regular) :
    ((∀ row ∈ b.edges, b.IsNode row.1 ∧ row.2.length ≤ 1 ∧ ∀ e ∈ row.2, b.Fits e) ∧
        ∀ n ∈ Table.names b.nodes, Table.has b.edges n = true) ↔
      (∀ n, b.outgoing n ≠ [] → b.IsNode n) ∧ (∀ n, b.IsNode n → ∃ e, b.outgoing n = [e]) ∧
        ∀ n, ∀ e ∈ b.outgoing n, b.Fits e := by
  have hrow : ∀ n, b.outgoing n ≠ [] → (n, b.outgoing n) ∈ b.edges :=
    fun n hn => hb.mem_edges_iff.mpr ⟨hn, rfl⟩
  constructor
  · rintro ⟨hrows, hnodes⟩
    refine ⟨fun n hn => (hrows _ (hrow n hn)).1, fun n hn => ?_, fun n e he => ?_⟩
    · have hne := (hb.has_edges_iff n).mp (hnodes n hn)
      have hlen : (b.outgoing n).length ≤ 1 := (hrows _ (hrow n hne)).2.1
      have hpos := List.length_pos_iff.mpr hne
      exact List.length_eq_one_iff.mp (by omega)
    · exact (hrows _ (hrow n (List.ne_nil_of_mem he))).2.2 e he
  · rintro ⟨hsources, hsingle, hfits⟩
    constructor
    · rintro ⟨n, es⟩ hmem
      obtain ⟨hne, rfl⟩ := hb.mem_edges_iff.mp hmem
      obtain ⟨e, he⟩ := hsingle n (hsources n hne)
      exact ⟨hsources n hne, by simp [he], hfits n⟩
    · intro n hn
      obtain ⟨e, he⟩ := hsingle n hn
      exact (hb.has_edges_iff n).mpr (by simp [he])

theorem Regular.localProblems_reports {b : Builder μ} (hb : b.Regular) :
    Reports b.localProblems b.FitsLocally := by
  intro ps h
  obtain ⟨edges, hedges, h⟩ := bind_eq_ok.mp h
  cases h
  have hnodes : (((Table.names b.nodes).filter fun n => !Table.has b.edges n).map fun n =>
      "Node '" ++ n ++ "' has no outbound edge") = [] ↔
      ∀ n ∈ Table.names b.nodes, Table.has b.edges n = true := by
    simp [List.filter_eq_nil_iff]
  rw [List.append_eq_nil_iff, List.append_eq_nil_iff, List.append_eq_nil_iff,
    List.append_eq_nil_iff, schema_problems_eq_nil_iff, nil_ite_iff, entryProblems_eq_nil_iff,
    sourceProblems_reports b b.edges edges hedges, hnodes]
  constructor
  · rintro ⟨⟨⟨⟨hschema, _⟩, hentry⟩, hrows⟩, hhas⟩
    obtain ⟨hsources, hsingle, hfits⟩ := hb.rows_iff.mp ⟨hrows, hhas⟩
    exact ⟨hschema.1, hschema.2, hentry, hsources, hsingle, hfits⟩
  · rintro ⟨hchannels, hdefaults, hentry, hsources, hsingle, hfits⟩
    obtain ⟨hrows, hhas⟩ := hb.rows_iff.mpr ⟨hsources, hsingle, hfits⟩
    refine ⟨⟨⟨⟨⟨hchannels, hdefaults⟩, ?_⟩, hentry⟩, hrows⟩, hhas⟩
    -- a builder with an entry has a node
    obtain ⟨e, _, he⟩ := hentry
    intro hempty
    rw [IsNode, List.isEmpty_iff.mp hempty] at he
    cases he

/-! ## Problems of paths -/

theorem mem_successors_iff (b : Builder μ) (n m : String) :
    m ∈ b.successors n ↔ ∃ e ∈ b.outgoing n, .str m ∈ e.targets := by
  simp only [successors, List.mem_filterMap, List.mem_flatMap]
  constructor
  · rintro ⟨t, ⟨e, he, ht⟩, hm⟩
    cases t <;> simp [Value.text?] at hm
    exact ⟨e, he, hm ▸ ht⟩
  · rintro ⟨e, he, ht⟩
    exact ⟨.str m, ⟨e, he, ht⟩, rfl⟩

theorem Fits.targets {b : Builder μ} {e : Edge μ Value} (h : b.Fits e) :
    ∀ t ∈ e.targets, ∃ m, t = .str m ∧ (m = endName ∨ b.IsNode m) := by
  cases e with
  | fixed t =>
    intro t' ht
    rw [Edge.targets, List.mem_singleton] at ht
    exact ht ▸ (b.isTarget_iff t).mp h
  | routed r =>
    intro t ht
    obtain ⟨p, hp, rfl⟩ := List.mem_map.mp ht
    exact (b.isTarget_iff p.2).mp (h.2.1 p hp)

theorem FitsLocally.successors {b : Builder μ} (hl : b.FitsLocally) {n m : String}
    (h : m ∈ b.successors n) : m = endName ∨ b.IsNode m := by
  obtain ⟨e, he, ht⟩ := (b.mem_successors_iff n m).mp h
  obtain ⟨m', heq, hm⟩ := (hl.fits n e he).targets _ ht
  cases heq
  exact hm

theorem FitsLocally.successors_end {b : Builder μ} (hb : b.Regular) (hl : b.FitsLocally) :
    b.successors endName = [] := by
  cases hout : b.outgoing endName with
  | nil => simp [Builder.successors, hout]
  | cons e es => exact absurd (hl.sources endName (by simp [hout])) hb.reserved

def reached (b : Builder μ) : List String :=
  Reach.visited b.successors (Table.names b.nodes) (b.entry.getD "")

/-- Those of them from which it finds a way to the end. -/
def finishing (b : Builder μ) : List String := Reach.finishing b.successors b.reached endName

theorem pathsProblems_eq (b : Builder μ) : b.pathsProblems =
    (((Table.names b.nodes).filter fun n => !b.reached.contains n).map fun n =>
      "Node '" ++ n ++ "' is unreachable from the entry point") ++
    (Schema.sorted (b.reached.filter fun n => !b.finishing.contains n)).map fun n =>
      "Node '" ++ n ++ "' can never reach END" := rfl

theorem FitsLocally.mem_reached_iff {b : Builder μ} (hl : b.FitsLocally) (hb : b.Regular)
    {e : String} (he : b.entry = some e) (n : String) :
    n ∈ b.reached ↔ b.IsNode n ∧ Reach.Path b.successors e n := by
  have hnode : b.IsNode e := by
    obtain ⟨e', he', hnode⟩ := hl.entry
    cases he.symm.trans he'
    exact hnode
  have hclosed : ∀ n ∈ Table.names b.nodes, ∀ m ∈ b.successors n,
      m ∈ Table.names b.nodes ∨ b.successors m = [] := by
    intro n _ m hm
    rcases hl.successors hm with rfl | hm
    · exact .inr (hl.successors_end hb)
    · exact .inl hm
  rw [reached, he]
  exact Reach.mem_visited_iff hnode hclosed n

theorem FitsLocally.mem_finishing_iff {b : Builder μ} (hl : b.FitsLocally) (hb : b.Regular)
    (n : String) :
    n ∈ b.finishing ↔ n ∈ b.reached ∧ Reach.Path b.successors n endName := by
  obtain ⟨e, he, _⟩ := hl.entry
  have hreached := hl.mem_reached_iff hb he
  refine Reach.mem_finishing_iff (fun h => hb.reserved ((hreached _).mp h).1) ?_ n
  intro n hn m hm
  rcases hl.successors hm with rfl | hnode
  · exact .inr rfl
  · exact .inl ((hreached m).mpr ⟨hnode, ((hreached n).mp hn).2.snoc hm⟩)

theorem Regular.pathsProblems_eq_nil_iff {b : Builder μ} (hb : b.Regular) (hl : b.FitsLocally) :
    b.pathsProblems = [] ↔
      (∀ n, b.IsNode n → ∀ e, b.entry = some e → Reach.Path b.successors e n) ∧
        ∀ n, b.IsNode n → Reach.Path b.successors n endName := by
  obtain ⟨e, he, _⟩ := hl.entry
  have hreached := hl.mem_reached_iff hb he
  have hfinishing := hl.mem_finishing_iff hb
  have hsplit : b.pathsProblems = [] ↔ (∀ n, b.IsNode n → n ∈ b.reached) ∧
      ∀ n ∈ b.reached, n ∈ b.finishing := by
    simp [pathsProblems_eq, sorted_eq_nil_iff, List.filter_eq_nil_iff, IsNode]
  rw [hsplit]
  constructor
  · rintro ⟨hall, hfin⟩
    refine ⟨fun n hn e' he' => ?_, fun n hn => ((hfinishing n).mp (hfin n (hall n hn))).2⟩
    rw [he] at he'
    cases he'
    exact ((hreached n).mp (hall n hn)).2
  · rintro ⟨hpaths, hfin⟩
    refine ⟨fun n hn => (hreached n).mpr ⟨hn, hpaths n hn e he⟩, fun n hn => ?_⟩
    exact (hfinishing n).mpr ⟨hn, hfin n ((hreached n).mp hn).1⟩

/-! ## All problems -/

/-- Paths are followed only if nothing else is wrong, so together the two phases let nothing
through. -/
theorem Regular.problems_reports {b : Builder μ} (hb : b.Regular) :
    Reports b.problems (b.FitsLocally ∧ b.pathsProblems = []) := by
  intro ps h
  obtain ⟨found, hfound, h⟩ := bind_eq_ok.mp h
  have hlocal := hb.localProblems_reports found hfound
  cases found with
  | nil =>
    cases h
    exact ⟨fun hp => ⟨hlocal.mp rfl, hp⟩, And.right⟩
  | cons p found =>
    cases h
    exact ⟨fun hp => (by cases hp), fun hl => hlocal.mpr hl.1⟩

/-! ### What can be told

Targets that are text are looked up without failing, and problems with such targets can be told if
the keys that they name can be written. -/

def HasTextTargets (e : Edge μ Value) : Prop := ∀ t ∈ e.targets, ∃ m, t = .str m

/-- Something can be told as long as all values that it names can be written. -/
def Tells {α : Type} (x : Except Failure α) (named : List Value) (a : α) : Prop :=
  x = if named.all Value.isWritable then .ok a else .error (.badValue Text.notWritable)

theorem Tells.eq_ok {α : Type} {x : Except Failure α} {named : List Value} {a : α}
    (h : Tells x named a) (hnamed : named.all Value.isWritable = true) : x = .ok a := by
  rw [h, if_pos hnamed]

theorem Tells.bind {α β : Type} {x : Except Failure α} {f : α → Except Failure β}
    {named named' : List Value} {a : α} {b : β} (hx : Tells x named a) (hf : Tells (f a) named' b) :
    Tells (x >>= f) (named ++ named') b := by
  rw [Tells, hx, List.all_append]
  cases named.all Value.isWritable with
  | false => rfl
  | true => exact hf

theorem Tells.pure {α : Type} (a : α) : Tells (.ok a) [] a := rfl

theorem Tells.map {α β : Type} {x : Except Failure α} {named : List Value} {a : α}
    (h : Tells x named a) (f : α → β) : Tells (x >>= fun a => .ok (f a)) named (f a) := by
  rw [← List.append_nil named]
  exact h.bind (.pure (f a))

theorem tells_written (v : Value) : Tells v.written [v] v.literal := by
  rw [Tells, Value.written_eq]
  simp

theorem tells_mapM (vs : List Value) : Tells (vs.mapM Value.written) vs (vs.map Value.literal) := by
  induction vs with
  | nil => rfl
  | cons v vs ih =>
    rw [List.mapM_cons]
    exact (tells_written v).bind (ih.map _)

/-- What was told, if anything was. -/
def told : Except Failure (List String) → List String
  | .ok ps => ps
  | .error _ => []

theorem Tells.told {x : Except Failure (List String)} {named : List Value} {ps : List String}
    (h : Tells x named ps) : Tells x named (told x) := by
  rw [Tells] at h ⊢
  cases hall : named.all Value.isWritable <;> simp only [hall, if_true] at h <;> rw [h] <;> rfl

/-- The keys that are named in what is said of an edge. -/
def named (b : Builder μ) : Edge μ Value → List Value
  | .fixed _ => []
  | .routed r => r.paths.flatMap (fun p => if b.isTarget p.2 then [] else [p.1]) ++ r.unmapped

theorem pathProblem_tells (b : Builder μ) (source : String) (key : Value) (m : String) :
    ∃ ps, Tells (b.pathProblem source key (.str m)) (if b.isTarget (.str m) then [] else [key])
      ps := by
  have hhash : ¬ (!(Value.str m).isHashable) = true := nofun
  rw [pathProblem, if_neg hhash]
  by_cases htarget : b.isTarget (.str m) = true
  · rw [if_pos htarget, if_pos htarget]
    exact ⟨[], .pure []⟩
  · rw [if_neg htarget, if_neg htarget]
    exact ⟨_, (tells_written key).map _⟩

theorem pathProblems_tells (b : Builder μ) (source : String) {paths : List (Value × Value)}
    (h : ∀ p ∈ paths, ∃ m, p.2 = .str m) : ∃ ps, Tells (b.pathProblems source paths)
      (paths.flatMap fun p => if b.isTarget p.2 then [] else [p.1]) ps := by
  induction paths with
  | nil => exact ⟨[], .pure []⟩
  | cons p paths ih =>
    obtain ⟨key, target⟩ := p
    obtain ⟨m, rfl⟩ := h _ (.head _)
    obtain ⟨here, hhere⟩ := b.pathProblem_tells source key m
    obtain ⟨rest, hrest⟩ := ih fun q hq => h q (.tail _ hq)
    exact ⟨here ++ rest, hhere.bind (hrest.map _)⟩

/-- What is said of an edge, if it can be told. -/
def edgeTexts (b : Builder μ) (source : String) (e : Edge μ Value) : List String :=
  told (b.edgeProblems source e)

/-- What is said of a source and of its edges. -/
def rowTexts (b : Builder μ) (row : String × List (Edge μ Value)) : List String :=
  (if Table.has b.nodes row.1 then []
    else ["Edge source '" ++ row.1 ++ "' is not a registered node"]) ++
  (if 1 < row.2.length then
    [s!"Node '{row.1}' has {row.2.length} outbound edges; only one is allowed"] else []) ++
  row.2.flatMap (b.edgeTexts row.1)

theorem edgeProblems_tells (b : Builder μ) (source : String) {e : Edge μ Value}
    (he : HasTextTargets e) : Tells (b.edgeProblems source e) (b.named e) (b.edgeTexts source e) := by
  suffices hsome : ∃ ps, Tells (b.edgeProblems source e) (b.named e) ps by
    obtain ⟨_, htells⟩ := hsome
    exact htells.told
  cases e with
  | fixed t =>
    obtain ⟨m, rfl⟩ := he t (.head _)
    by_cases htarget : b.isTarget (.str m) = true
    · exact ⟨[], by rw [edgeProblems, if_pos htarget]; exact .pure []⟩
    · exact ⟨_, by rw [edgeProblems, if_neg htarget]; exact .pure _⟩
  | routed r =>
    obtain ⟨_, hwrong⟩ := b.pathProblems_tells source fun p hp =>
      he p.2 (List.mem_map.mpr ⟨p, hp, rfl⟩)
    exact ⟨_, hwrong.bind (((tells_mapM r.unmapped).map _).map _)⟩

theorem allEdgeProblems_tells (b : Builder μ) (source : String) {es : List (Edge μ Value)}
    (hes : ∀ e ∈ es, HasTextTargets e) : Tells (b.allEdgeProblems source es) (es.flatMap b.named)
      (es.flatMap (b.edgeTexts source)) := by
  induction es with
  | nil => exact .pure []
  | cons e es ih =>
    exact (b.edgeProblems_tells source (hes e (.head _))).bind
      ((ih fun e' he' => hes e' (.tail _ he')).map _)

theorem sourceProblems_tells (b : Builder μ) {rows : Table (List (Edge μ Value))}
    (hrows : ∀ row ∈ rows, ∀ e ∈ row.2, HasTextTargets e) :
    Tells (b.sourceProblems rows) (rows.flatMap fun row => row.2.flatMap b.named)
      (rows.flatMap b.rowTexts) := by
  induction rows with
  | nil => exact .pure []
  | cons row rows ih =>
    have hhere := b.allEdgeProblems_tells row.1 (hrows row (.head _))
    exact hhere.bind ((ih fun r hr => hrows r (.tail _ hr)).map _)

/-- What is said of a builder without following paths, if the targets are text. -/
def localTexts (b : Builder μ) : List String :=
  b.schema.problems ++ (if b.nodes.isEmpty then ["Graph has no nodes"] else []) ++
    b.entryProblems ++ b.edges.flatMap b.rowTexts ++
    ((Table.names b.nodes).filter fun n => !Table.has b.edges n).map fun n =>
      "Node '" ++ n ++ "' has no outbound edge"

/-- The keys that are named in what is said of a builder. -/
def allNamed (b : Builder μ) : List Value := b.edges.flatMap fun row => row.2.flatMap b.named

theorem Regular.localProblems_tells {b : Builder μ} (hb : b.Regular)
    (ht : ∀ n, ∀ e ∈ b.outgoing n, HasTextTargets e) :
    Tells b.localProblems b.allNamed b.localTexts := by
  have hrows : ∀ row ∈ b.edges, ∀ e ∈ row.2, HasTextTargets e := by
    intro row hrow
    obtain ⟨_, hout⟩ := hb.mem_edges_iff.mp hrow
    rw [← hout]
    exact ht row.1
  exact (b.sourceProblems_tells hrows).map _

/-- What is said of a builder, if the targets are text. -/
def texts (b : Builder μ) : List String :=
  if b.localTexts = [] then b.pathsProblems else b.localTexts

/-- What validation comes to: all that is to be said, or the complaint that a key is too long to
be named. -/
theorem Regular.problems_tells {b : Builder μ} (hb : b.Regular)
    (ht : ∀ n, ∀ e ∈ b.outgoing n, HasTextTargets e) : Tells b.problems b.allNamed b.texts := by
  rw [← List.append_nil b.allNamed]
  refine (hb.localProblems_tells ht).bind ?_
  rw [texts]
  cases b.localTexts <;> rfl

theorem compile_of_problems {b : Builder μ} {ps : List String} (h : b.problems = .ok ps)
    (limit : Value) :
    (ps = [] ∧ b.compile limit = .ok (b.graph limit)) ∨
      (ps ≠ [] ∧ b.compile limit = .error (.definition ps)) := by
  unfold compile
  rw [h]
  cases ps with
  | nil => exact .inl ⟨rfl, rfl⟩
  | cons p ps => exact .inr ⟨by simp, rfl⟩

/-- A builder compiles exactly if it has no problems, and to the graph that it stands for. -/
theorem compile_eq_ok_iff {b : Builder μ} {limit : Value} {g : Graph μ} :
    b.compile limit = .ok g ↔ b.problems = .ok [] ∧ g = b.graph limit := by
  constructor
  · intro hg
    obtain ⟨ps, hps, -⟩ := bind_eq_ok.mp hg
    rcases compile_of_problems hps limit with ⟨rfl, hgraph⟩ | ⟨-, herr⟩
    · exact ⟨hps, Except.ok.inj (hg.symm.trans hgraph)⟩
    · rw [herr] at hg
      cases hg
  · rintro ⟨hps, rfl⟩
    rw [compile, hps]
    rfl

/-! ## Builders made by calls -/

theorem mem_outgoing_after (schema : Schema) (name : Option String) (calls : List (Call μ))
    (n : String) (e : Edge μ Value) :
    e ∈ ((new schema name).after calls).outgoing n ↔ ∃ c ∈ calls, e ∈ c.edgesFrom n := by
  rw [outgoing_after, show (new schema name : Builder μ).outgoing n = [] from rfl,
    List.nil_append, List.mem_flatMap]

theorem text_of_edgesFrom {c : Call μ} (hc : c.HasTextTargets) {n : String} {e : Edge μ Value}
    (he : e ∈ c.edgesFrom n) : HasTextTargets e := by
  cases c with
  | node _ _ => cases he
  | entry _ => cases he
  | edge _ _ | finish _ =>
    simp only [Call.edgesFrom] at he
    split at he
    next => simp_all [HasTextTargets, Edge.targets]
    next => cases he
  | routing source router paths keys =>
    simp only [Call.edgesFrom] at he
    split at he
    next =>
      split at he
      next r hr =>
        rw [List.mem_singleton] at he
        subst he
        intro t ht
        obtain ⟨p, hp, rfl⟩ := List.mem_map.mp ht
        exact PathMap.text_of_toEntries hc (Routing.make_eq_ok hr).2.1 p hp
      next => cases he
    next => cases he

theorem text_after (schema : Schema) (name : Option String) {calls : List (Call μ)}
    (htext : ∀ c ∈ calls, c.HasTextTargets) :
    ∀ n, ∀ e ∈ ((new schema name).after calls).outgoing n, HasTextTargets e := by
  intro n e he
  obtain ⟨c, hc, hec⟩ := (mem_outgoing_after schema name calls n e).mp he
  exact text_of_edgesFrom (htext c hc) hec

theorem routed_mem_edgesFrom_iff (c : Call μ) (n : String) (r : Routing μ Value) :
    .routed r ∈ c.edgesFrom n ↔
      ∃ router paths keys, c = .routing n router paths keys ∧
        Routing.make router paths keys = .ok r := by
  cases c with
  | node _ _ => simp [Call.edgesFrom]
  | entry _ => simp [Call.edgesFrom]
  | edge _ _ | finish _ =>
    simp only [Call.edgesFrom]
    split <;> simp
  | routing source router paths keys =>
    simp only [Call.edgesFrom]
    split
    next h =>
      subst h
      split
      next r' hr =>
        constructor
        · intro hmem
          rw [List.mem_singleton] at hmem
          cases hmem
          exact ⟨router, paths, keys, rfl, hr⟩
        · rintro ⟨_, _, _, heq, hmake⟩
          cases heq
          rw [hr] at hmake
          cases hmake
          simp
      next e hr =>
        constructor
        · intro hmem; cases hmem
        · rintro ⟨_, _, _, heq, hmake⟩
          cases heq
          rw [hr] at hmake
          cases hmake
    next h => simp [h]

theorem routed_mem_outgoing_iff (schema : Schema) (name : Option String) (calls : List (Call μ))
    (n : String) (r : Routing μ Value) :
    .routed r ∈ ((new schema name).after calls).outgoing n ↔
      ∃ router paths keys, Call.routing n router paths keys ∈ calls ∧
        Routing.make router paths keys = .ok r := by
  rw [mem_outgoing_after]
  constructor
  · rintro ⟨c, hc, hr⟩
    obtain ⟨router, paths, keys, rfl, hmake⟩ := (routed_mem_edgesFrom_iff c n r).mp hr
    exact ⟨router, paths, keys, hc, hmake⟩
  · rintro ⟨router, paths, keys, hc, hmake⟩
    exact ⟨_, hc, (routed_mem_edgesFrom_iff _ n r).mpr ⟨router, paths, keys, rfl, hmake⟩⟩

/-- Being well-formed is what the two phases of validation ask for. -/
theorem wellFormed_iff (schema : Schema) (name : Option String) (calls : List (Call μ)) :
    ((new schema name).after calls).WellFormed calls ↔
      ((new schema name).after calls).FitsLocally ∧
        ((new schema name).after calls).pathsProblems = [] := by
  have hb := regular_after schema name calls
  have hrouted := routed_mem_outgoing_iff schema name calls
  generalize (new schema name).after calls = b at hb hrouted
  constructor
  · intro h
    have hfits : ∀ n, ∀ e ∈ b.outgoing n, b.Fits e := by
      intro n e he
      have htargets := h.targets n e he
      cases e with
      | fixed t => exact (b.isTarget_iff t).mpr (htargets t (by simp [Edge.targets]))
      | routed r =>
        obtain ⟨router, paths, keys, hc, hmake⟩ := (hrouted n r).mp he
        obtain ⟨hne, hkeys⟩ := h.mapped n router paths keys hc r hmake
        refine ⟨hne, fun p hp => (b.isTarget_iff p.2).mpr ?_, ?_⟩
        · exact htargets p.2 (List.mem_map.mpr ⟨p, hp, rfl⟩)
        · exact (Routing.unmapped_eq_nil_iff_declares hmake).mpr hkeys
    have hl : b.FitsLocally := ⟨h.channels, h.defaults, h.entry, h.sources, h.single, hfits⟩
    exact ⟨hl, (hb.pathsProblems_eq_nil_iff hl).mpr ⟨h.reached, h.finishes⟩⟩
  · rintro ⟨hl, hpaths⟩
    obtain ⟨hreached, hfinishes⟩ := (hb.pathsProblems_eq_nil_iff hl).mp hpaths
    refine ⟨hl.channels, hl.defaults, hl.entry, hl.sources, hl.single,
      fun n e he => (hl.fits n e he).targets, ?_, hreached, hfinishes⟩
    intro source router paths keys hc r hmake
    have hfits : b.Fits (.routed r) :=
      hl.fits source _ ((hrouted source r).mpr ⟨router, paths, keys, hc, hmake⟩)
    exact ⟨hfits.1, (Routing.unmapped_eq_nil_iff_declares hmake).mp hfits.2.2⟩

theorem Fits.named {b : Builder μ} {e : Edge μ Value} (h : b.Fits e) : b.named e = [] := by
  cases e with
  | fixed t => rfl
  | routed r =>
    obtain ⟨-, htargets, hmapped⟩ := h
    rw [Builder.named, hmapped, List.append_nil, List.flatMap_eq_nil_iff]
    exact fun p hp => if_pos (htargets p hp)

theorem FitsLocally.allNamed {b : Builder μ} (hl : b.FitsLocally) (hb : b.Regular) :
    b.allNamed = [] := by
  refine List.flatMap_eq_nil_iff.mpr fun row hrow => List.flatMap_eq_nil_iff.mpr fun e he => ?_
  obtain ⟨-, hout⟩ := hb.mem_edges_iff.mp hrow
  exact (hl.fits row.1 e (hout ▸ he)).named

/-- What a call names as keys, in its paths or as known to its router, can be written. -/
def HasLegibleKeys : Call μ → Prop
  | .routing _ router paths keys => ∀ r, Routing.make router paths keys = .ok r →
      (∀ p ∈ r.paths, p.1.isWritable = true) ∧ ∀ k, Declares router keys k → k.isWritable = true
  | _ => True

theorem named_legible {calls : List (Call μ)} (hlegible : ∀ c ∈ calls, HasLegibleKeys c)
    (schema : Schema) (name : Option String) :
    ((new schema name).after calls).allNamed.all Value.isWritable = true := by
  rw [List.all_eq_true]
  intro v hv
  obtain ⟨row, hrow, hv⟩ := List.mem_flatMap.mp hv
  obtain ⟨e, he, hv⟩ := List.mem_flatMap.mp hv
  obtain ⟨-, hout⟩ := (regular_after schema name calls).mem_edges_iff.mp hrow
  cases e with
  | fixed t => cases hv
  | routed r =>
    obtain ⟨router, paths, keys, hc, hmake⟩ :=
      (routed_mem_outgoing_iff schema name calls row.1 r).mp (hout ▸ he)
    obtain ⟨hpaths, hkeys⟩ := hlegible _ hc r hmake
    rcases List.mem_append.mp hv with hv | hv
    · obtain ⟨p, hp, hv⟩ := List.mem_flatMap.mp hv
      split at hv
      · cases hv
      · exact List.mem_singleton.mp hv ▸ hpaths p hp
    · exact hkeys v (Routing.declares_of_mem_unmapped hmake hv)

/-- A builder that is not well-formed does not compile, and is told all its problems unless one of
them names a key that cannot be written. -/
theorem compile_cases (schema : Schema) (name : Option String) (calls : List (Call μ))
    (htext : ∀ c ∈ calls, c.HasTextTargets) (limit : Value) :
    (((new schema name).after calls).WellFormed calls ∧ ((new schema name).after calls).compile
        limit = .ok (((new schema name).after calls).graph limit)) ∨
      (¬ ((new schema name).after calls).WellFormed calls ∧ ∃ why,
        ((new schema name).after calls).compile limit = .error why ∧
        (((new schema name).after calls).allNamed.all Value.isWritable = true →
          ∃ ps, ps ≠ [] ∧ why = .definition ps)) := by
  have hb := regular_after schema name calls
  have htells := hb.problems_tells (text_after schema name htext)
  have hwell := wellFormed_iff schema name calls
  generalize (new schema name).after calls = b at hb htells hwell
  rw [Tells] at htells
  by_cases hnamed : b.allNamed.all Value.isWritable = true
  · rw [if_pos hnamed] at htells
    have hnil : b.texts = [] ↔ b.WellFormed calls := (hb.problems_reports _ htells).trans hwell.symm
    rcases compile_of_problems htells limit with ⟨hempty, hgraph⟩ | ⟨hne, herr⟩
    · exact .inl ⟨hnil.mp hempty, hgraph⟩
    · exact .inr ⟨fun h => hne (hnil.mpr h), _, herr, fun _ => ⟨_, hne, rfl⟩⟩
  · -- a key that is named belongs to an edge that does not fit
    rw [if_neg hnamed] at htells
    refine .inr ⟨fun h => hnamed ?_, _, by rw [compile, htells]; rfl, fun h => absurd h hnamed⟩
    rw [(hwell.mp h).1.allNamed hb]
    rfl

/-! ## One graph, whatever its nodes do -/

/-- A node that hands over to another one or ends, and one that always hands back. -/
def turnTaking (boss hand : Handler μ) (answer : Value → Act (Site μ) Value) : List (Call μ) :=
  [.node "boss" (.callable boss), .node "hand" (.callable hand), .edge startName "boss",
    .edge "hand" "boss", .routing "boss" ⟨answer, .null, none⟩
      (.pairs [(.bool true, .str "hand"), (.str "go", .str endName)])
      (.list [.int 1, .str "go"])]

theorem turnTaking_hasTextTargets (boss hand : Handler μ) (answer : Value → Act (Site μ) Value) :
    ∀ c ∈ turnTaking boss hand answer, c.HasTextTargets := by
  intro c hc
  simp only [turnTaking, List.mem_cons, List.not_mem_nil, or_false] at hc
  rcases hc with rfl | rfl | rfl | rfl | rfl
  all_goals simp [Call.HasTextTargets, PathMap.HasTextTargets]

theorem turnTaking_wellFormed {s : Schema} (hchannels : s.channels ≠ [])
    (hdefaults : ∀ c ∈ s.channels, c.default.isSome = true) (boss hand : Handler μ)
    (answer : Value → Act (Site μ) Value) :
    ((new s none).after (turnTaking boss hand answer)).WellFormed
      (turnTaking boss hand answer) := by
  have hnode : ∀ n, ((new s none).after (turnTaking boss hand answer)).IsNode n ↔
      n = "boss" ∨ n = "hand" := by
    intro n
    have hnames : Table.names ((new s none).after (turnTaking boss hand answer)).nodes =
        ["boss", "hand"] := rfl
    simp [IsNode, hnames]
  have hboss : ((new s none).after (turnTaking boss hand answer)).successors "boss" =
      ["hand", endName] := rfl
  have hhand : ((new s none).after (turnTaking boss hand answer)).successors "hand" =
      ["boss"] := rfl
  have hsource : ∀ n, ((new s none).after (turnTaking boss hand answer)).outgoing n ≠ [] →
      n = "boss" ∨ n = "hand" := by
    intro n hn
    rw [outgoing_after] at hn
    simp only [turnTaking, List.flatMap_cons, List.flatMap_nil, Call.edgesFrom] at hn
    by_cases hb : n = "boss"
    · exact .inl hb
    by_cases hh : n = "hand"
    · exact .inr hh
    simp [outgoing, new, Table.row?, Ne.symm hb, Ne.symm hh] at hn
  have hend : Reach.Path ((new s none).after (turnTaking boss hand answer)).successors "boss"
      endName := .step (by simp [hboss]) (.refl _)
  refine ⟨hchannels, hdefaults, ⟨"boss", rfl, (hnode _).mpr (.inl rfl)⟩, ?_, ?_, ?_, ?_, ?_, ?_⟩
  · intro n hn
    exact (hnode n).mpr (hsource n hn)
  · intro n hn
    rcases (hnode n).mp hn with rfl | rfl
    · exact ⟨_, rfl⟩
    · exact ⟨_, rfl⟩
  · intro n e he
    rcases hsource n (List.ne_nil_of_mem he) with rfl | rfl
    · obtain rfl := List.mem_singleton.mp he
      intro t ht
      rcases List.mem_cons.mp ht with rfl | ht
      · exact ⟨_, rfl, .inr ((hnode _).mpr (.inr rfl))⟩
      · obtain rfl := List.mem_singleton.mp ht
        exact ⟨_, rfl, .inl rfl⟩
    · obtain rfl := List.mem_singleton.mp he
      intro t ht
      obtain rfl := List.mem_singleton.mp ht
      exact ⟨_, rfl, .inr ((hnode _).mpr (.inl rfl))⟩
  · intro source router paths keys hc r hr
    simp only [turnTaking, List.mem_cons, Call.routing.injEq, List.not_mem_nil, reduceCtorEq,
      false_or, or_false] at hc
    obtain ⟨rfl, rfl, rfl, rfl⟩ := hc
    cases hr
    refine ⟨List.cons_ne_nil _ _, fun k hk => ?_⟩
    cases hk with
    | given _ hkeys hk =>
      cases hkeys
      rcases List.mem_cons.mp hk with rfl | hk
      · exact ⟨_, .head _, by decide⟩
      · obtain rfl := List.mem_singleton.mp hk
        exact ⟨_, .tail _ (.head _), by decide⟩
    | attached hnone => cases hnone
    | answers hnone => cases hnone
  · intro n hn e he
    cases he
    rcases (hnode n).mp hn with rfl | rfl
    · exact .refl _
    · exact .step (by simp [hboss]) (.refl _)
  · intro n hn
    rcases (hnode n).mp hn with rfl | rfl
    · exact hend
    · exact .step (by simp [hhand]) hend

def oneChannel (reducer : Reducer) (first : Value) : Schema where
  channels := [⟨"x", reducer, some (.ok first), .absent⟩]
  frozen := false
  distinct := by simp

theorem turnTaking_compiles (reducer : Reducer) (first : Value) (boss hand : Handler μ)
    (answer : Value → Act (Site μ) Value) :
    ((new (oneChannel reducer first) none).after (turnTaking boss hand answer)).compile .null =
      .ok (((new (oneChannel reducer first) none).after
        (turnTaking boss hand answer)).graph .null) := by
  have hwell := turnTaking_wellFormed (s := oneChannel reducer first) (by simp [oneChannel])
    (by simp [oneChannel]) boss hand answer
  rcases compile_cases (oneChannel reducer first) none _
    (turnTaking_hasTextTargets boss hand answer) .null with ⟨_, hgraph⟩ | ⟨hill, _⟩
  · exact hgraph
  · exact absurd hwell hill

/-! ## Compiling -/

/-- Two nodes that do nothing, and a router that always answers 1. -/
def idling : List (Call Unit) :=
  turnTaking (fun _ => pure .null) (fun _ => pure .null) (fun _ => pure (.int 1))

end TeamFlow.Builder
