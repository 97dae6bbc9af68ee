import Mathlib.Data.List.Nodup
import Mathlib.Data.List.Perm.Basic
import TeamFlow.Proofs.Graph.Compiled
import TeamFlow.Proofs.Table

/-! # The order of the calls of a builder

Calls that add nodes under names of their own, calls that add edges, and one call
that sets the entry can be made in any order (`Arrangeable`). The builders are not
the same then, but they have the same nodes and the same edges, in other orders
(`Rearranged`). Validation says the same of both up to order, and as soon as it has
nothing to say, both are the same graph to look things up in (`Graph.Alike`): each
node has one edge then, and for one edge there is no other order. -/
namespace TeamFlow

variable {μ : Type}

namespace Call

/-- The node that a call adds. -/
def node? : Call μ → Option (String × Handler μ)
  | node name (.callable h) => some (name, h)
  | _ => none

/-- The entry that a call sets. -/
def sets? : Call μ → Option String
  | entry name => some name
  | edge source target => if source = startName then some target else none
  | finish source => if source = startName then some endName else none
  | _ => none

/-- Every builder takes the node that a call adds, unless it has one of the name. -/
def AddsNode : Call μ → Prop
  | node name handler => name ≠ startName ∧ name ≠ endName ∧ ∃ h, handler = .callable h
  | _ => True

end Call

namespace Builder

/-- Calls that can be made in any order. -/
structure Arrangeable (calls : List (Call μ)) : Prop where
  callable : ∀ c ∈ calls, c.AddsNode
  distinct : (Table.names (calls.filterMap Call.node?)).Nodup
  entry : (calls.filterMap Call.sets?).length ≤ 1
  text : ∀ c ∈ calls, c.HasTextTargets

/-! ## What calls leave -/

section

variable {b : Builder μ} {c : Call μ}

theorem frame_act (c : Call μ) (b : Builder μ) :
    (c.act b).2.schema = b.schema ∧ (c.act b).2.name = b.name ∧
      (c.act b).2.entry = c.sets?.or b.entry := by
  have hedge : ∀ source target : String, ((addEdge source target b).2).schema = b.schema ∧
      ((addEdge source target b).2).name = b.name ∧ ((addEdge source target b).2).entry =
        (if source = startName then some target else none).or b.entry := by
    intro source target
    by_cases hs : source = startName
    · simp [addEdge, hs, setEntry, Act.modify]
    · simp [addEdge, hs, pushEdge_state]
  cases c with
  | node name handler =>
    have hnone : (Call.node name handler).sets? = none := rfl
    rcases addNode_state name handler b with h | ⟨_, h, _⟩ <;> simp [Call.act, h, hnone]
  | edge source target => exact hedge source target
  | finish source => exact hedge source endName
  | entry name => exact ⟨rfl, rfl, rfl⟩
  | routing source router paths keys =>
    simp only [Call.act, addRouting_state]
    split <;> exact ⟨rfl, rfl, rfl⟩

theorem nodes_act (hc : c.AddsNode) (hnew : ∀ row, c.node? = some row →
    row.1 ∉ Table.names b.nodes) : (c.act b).2.nodes = b.nodes ++ c.node?.toList := by
  have hedge : ∀ source target : String, ((addEdge source target b).2).nodes = b.nodes := by
    intro source target
    by_cases hs : source = startName
    · simp [addEdge, hs, setEntry, Act.modify]
    · simp [addEdge, hs, pushEdge_state]
  cases c with
  | node name handler =>
    obtain ⟨hstart, hend, h, rfl⟩ := hc
    have hname : name ∉ Table.names b.nodes := hnew _ rfl
    rw [Call.act, addNode_new hstart hend hname h]
    rfl
  | edge source target => exact (hedge source target).trans (List.append_nil _).symm
  | finish source => exact (hedge source endName).trans (List.append_nil _).symm
  | entry name => simp [Call.act, setEntry, Act.modify, Call.node?]
  | routing source router paths keys =>
    simp only [Call.act, addRouting_state, Call.node?]
    split <;> simp [pushEdge_state]

end

theorem frame_after (b : Builder μ) (calls : List (Call μ)) :
    (b.after calls).schema = b.schema ∧ (b.after calls).name = b.name ∧
      (b.after calls).entry = (calls.filterMap Call.sets?).getLast?.or b.entry := by
  induction calls generalizing b with
  | nil => exact ⟨rfl, rfl, rfl⟩
  | cons c calls ih =>
    obtain ⟨hschema, hname, hentry⟩ := frame_act c b
    obtain ⟨hschema', hname', hentry'⟩ := ih (c.act b).2
    refine ⟨hschema'.trans hschema, hname'.trans hname, hentry'.trans ?_⟩
    rw [hentry, List.filterMap_cons]
    cases c.sets? with
    | none => rfl
    | some e =>
      rw [List.getLast?_cons]
      cases (calls.filterMap Call.sets?).getLast? <;> rfl

theorem nodes_after {b : Builder μ} {calls : List (Call μ)} (hcalls : ∀ c ∈ calls, c.AddsNode)
    (hd : (Table.names b.nodes ++ Table.names (calls.filterMap Call.node?)).Nodup) :
    (b.after calls).nodes = b.nodes ++ calls.filterMap Call.node? := by
  induction calls generalizing b with
  | nil => exact (List.append_nil _).symm
  | cons c calls ih =>
    have hrest := fun d hd => hcalls d (List.mem_cons_of_mem c hd)
    cases hnode : c.node? with
    | none =>
      have hsame := nodes_act (b := b) (hcalls c List.mem_cons_self) (by simp [hnode])
      rw [hnode, Option.toList_none, List.append_nil] at hsame
      rw [List.filterMap_cons_none hnode] at hd ⊢
      rw [after_cons, ih hrest (by rwa [hsame]), hsame]
    | some row =>
      rw [List.filterMap_cons_some hnode] at hd ⊢
      rw [Table.names_cons] at hd
      have hnew : row.1 ∉ Table.names b.nodes := fun hmem =>
        (List.nodup_cons.mp (List.nodup_middle.mp hd)).1 (List.mem_append_left _ hmem)
      have hadded := nodes_act (b := b) (hcalls c List.mem_cons_self) fun row' hrow' => by
        cases hnode.symm.trans hrow'
        exact hnew
      rw [hnode, Option.toList_some] at hadded
      rw [after_cons, ih hrest (by simpa [hadded, Table.names] using hd), hadded,
        List.append_assoc]
      rfl

/-! ## Builders with the same parts -/

theorem eq_of_perm_of_length_le_one {α : Type} {xs ys : List α} (h : xs.Perm ys)
    (hlength : ys.length ≤ 1) : xs = ys := by
  match ys with
  | [] => exact List.perm_nil.mp h
  | [y] => exact List.perm_singleton.mp h
  | _ :: _ :: _ => simp at hlength

/-- Builders with the same nodes and the same edges, each in an order of its own. -/
structure Rearranged (b b' : Builder μ) : Prop where
  schema : b'.schema = b.schema
  name : b'.name = b.name
  entry : b'.entry = b.entry
  nodes : b'.nodes.Perm b.nodes
  outgoing : ∀ n, (b'.outgoing n).Perm (b.outgoing n)

/-- Calls in another order leave the same nodes and edges. -/
theorem Arrangeable.rearranged {calls calls' : List (Call μ)} (h : Arrangeable calls)
    (hperm : calls'.Perm calls) (schema : Schema) (name : Option String) :
    Rearranged ((new schema name).after calls) ((new schema name).after calls') := by
  obtain ⟨hschema, hname, hentry⟩ := frame_after (new schema name) calls
  obtain ⟨hschema', hname', hentry'⟩ := frame_after (new schema name) calls'
  have hnode := hperm.filterMap Call.node?
  have hset := hperm.filterMap Call.sets?
  have hdistinct : (Table.names (calls'.filterMap Call.node?)).Nodup :=
    (hnode.map Prod.fst).nodup_iff.mpr h.distinct
  refine ⟨hschema'.trans hschema.symm, hname'.trans hname.symm, ?_, ?_, fun n => ?_⟩
  · rw [hentry, hentry', eq_of_perm_of_length_le_one hset h.entry]
  · rw [nodes_after (b := new schema name) h.callable h.distinct,
      nodes_after (b := new schema name) (fun c hc => h.callable c (hperm.subset hc)) hdistinct]
    exact hnode
  · rw [outgoing_after, outgoing_after]
    exact (hperm.flatMap_right _).append_left _

/-! ## What validation says -/

theorem Regular.edges_eq {b : Builder μ} (hb : b.Regular) :
    b.edges = (Table.names b.edges).map fun n => (n, b.outgoing n) := by
  rw [Table.names, List.map_map]
  refine (List.map_id _).symm.trans (List.map_congr_left fun row hrow => ?_)
  exact Prod.ext rfl (hb.mem_edges_iff.mp hrow).2.symm

namespace Rearranged

variable {b b' : Builder μ}

theorem isNode_iff (h : Rearranged b b') (n : String) : b'.IsNode n ↔ b.IsNode n :=
  (h.nodes.map Prod.fst).mem_iff

theorem has_nodes (h : Rearranged b b') (n : String) :
    Table.has b'.nodes n = Table.has b.nodes n := by
  rw [Bool.eq_iff_iff, has_nodes_iff, has_nodes_iff, h.isNode_iff]

theorem isTarget (h : Rearranged b b') (v : Value) : b'.isTarget v = b.isTarget v := by
  rw [Bool.eq_iff_iff, isTarget_iff, isTarget_iff]
  simp only [h.isNode_iff]

theorem edgeProblems (h : Rearranged b b') (source : String) (e : Edge μ Value) :
    b'.edgeProblems source e = b.edgeProblems source e := by
  have hpath : b'.pathProblem source = b.pathProblem source := by
    funext key target
    rw [pathProblem, pathProblem, h.isTarget]
  have hpaths : ∀ paths, b'.pathProblems source paths = b.pathProblems source paths := by
    intro paths
    induction paths with
    | nil => rfl
    | cons p paths ih => rw [pathProblems, pathProblems, ih, hpath]
  cases e with
  | fixed t => rw [Builder.edgeProblems, Builder.edgeProblems, h.isTarget]
  | routed r => rw [Builder.edgeProblems, Builder.edgeProblems, hpaths]

theorem edgeTexts (h : Rearranged b b') (source : String) :
    b'.edgeTexts source = b.edgeTexts source := by
  funext e
  rw [Builder.edgeTexts, Builder.edgeTexts, h.edgeProblems]

theorem named (h : Rearranged b b') : b'.named = b.named := by
  funext e
  cases e with
  | fixed t => rfl
  | routed r => simp only [Builder.named, h.isTarget]

theorem has_edges (h : Rearranged b b') (hb : b.Regular) (hb' : b'.Regular) (n : String) :
    Table.has b'.edges n = Table.has b.edges n := by
  rw [Bool.eq_iff_iff, hb'.has_edges_iff, hb.has_edges_iff]
  exact not_congr (eq_nil_iff_of_perm (h.outgoing n))

theorem rowTexts (h : Rearranged b b') (n : String) :
    (b'.rowTexts (n, b'.outgoing n)).Perm (b.rowTexts (n, b.outgoing n)) := by
  rw [Builder.rowTexts, Builder.rowTexts, h.has_nodes, (h.outgoing n).length_eq, h.edgeTexts]
  exact ((h.outgoing n).flatMap_right _).append_left _

theorem rows {α : Type} {f f' : String × List (Edge μ Value) → List α} (h : Rearranged b b')
    (hb : b.Regular) (hb' : b'.Regular)
    (hrow : ∀ n, (f' (n, b'.outgoing n)).Perm (f (n, b.outgoing n))) :
    (b'.edges.flatMap f').Perm (b.edges.flatMap f) := by
  have hsources : (Table.names b'.edges).Perm (Table.names b.edges) := by
    refine (List.perm_ext_iff_of_nodup hb'.distinct hb.distinct).mpr fun n => ?_
    have hhas := h.has_edges hb hb' n
    rwa [Bool.eq_iff_iff, Table.has, Table.has, List.contains_iff_mem,
      List.contains_iff_mem] at hhas
  rw [hb.edges_eq, hb'.edges_eq, List.flatMap_map, List.flatMap_map]
  exact hsources.flatMap fun n _ => hrow n

theorem allNamed (h : Rearranged b b') (hb : b.Regular) (hb' : b'.Regular) :
    b'.allNamed.Perm b.allNamed :=
  h.rows hb hb' fun n => h.named ▸ (h.outgoing n).flatMap_right _

theorem localTexts (h : Rearranged b b') (hb : b.Regular) (hb' : b'.Regular) :
    b'.localTexts.Perm b.localTexts := by
  have hnames : (Table.names b'.nodes).Perm (Table.names b.nodes) := h.nodes.map Prod.fst
  have hentry : b'.entryProblems = b.entryProblems := by
    simp only [entryProblems, h.entry, h.has_nodes]
  have hrows : (b'.edges.flatMap b'.rowTexts).Perm (b.edges.flatMap b.rowTexts) :=
    h.rows hb hb' h.rowTexts
  have hbare : ((Table.names b'.nodes).filter fun n => !Table.has b'.edges n).Perm
      ((Table.names b.nodes).filter fun n => !Table.has b.edges n) := by
    have hsame : (fun n => !Table.has b'.edges n) = fun n => !Table.has b.edges n :=
      funext fun n => congrArg Bool.not (h.has_edges hb hb' n)
    rw [hsame]
    exact hnames.filter _
  rw [Builder.localTexts, Builder.localTexts, h.schema, h.nodes.isEmpty_eq, hentry]
  exact (hrows.append_left _).append (hbare.map _)

theorem path_iff (h : Rearranged b b') {n m : String} :
    Reach.Path b'.successors n m ↔ Reach.Path b.successors n m := by
  have hsuccessors : ∀ n m, m ∈ b'.successors n ↔ m ∈ b.successors n := by
    intro n m
    simp only [mem_successors_iff, (h.outgoing n).mem_iff]
  exact ⟨.congr fun n m => (hsuccessors n m).mp, .congr fun n m => (hsuccessors n m).mpr⟩

theorem pathsProblems (h : Rearranged b b') (hb : b.Regular) (hb' : b'.Regular)
    (hl : b.FitsLocally) (hl' : b'.FitsLocally) : b'.pathsProblems.Perm b.pathsProblems := by
  obtain ⟨e, he, _⟩ := hl.entry
  have he' : b'.entry = some e := h.entry.trans he
  have hmem : ∀ n, n ∈ b'.reached ↔ n ∈ b.reached := by
    intro n
    rw [hl'.mem_reached_iff hb' he', hl.mem_reached_iff hb he, h.isNode_iff, h.path_iff]
  have hreached : b'.reached.Perm b.reached :=
    (List.perm_ext_iff_of_nodup (Reach.visited_nodup _ _) (Reach.visited_nodup _ _)).mpr hmem
  have hfinishing : ∀ n, n ∈ b'.finishing ↔ n ∈ b.finishing := by
    intro n
    rw [hl'.mem_finishing_iff hb', hl.mem_finishing_iff hb, hmem, h.path_iff]
  have hunreached : (fun n => !b'.reached.contains n) = fun n => !b.reached.contains n := by
    funext n
    rw [Bool.eq_iff_iff]
    simp [hmem]
  have hstuck : (fun n => !b'.finishing.contains n) = fun n => !b.finishing.contains n := by
    funext n
    rw [Bool.eq_iff_iff]
    simp [hfinishing]
  have hsorted : ∀ texts : List String, (Schema.sorted texts).Perm texts := fun texts =>
    List.mergeSort_perm _ _
  rw [pathsProblems_eq, pathsProblems_eq, hunreached, hstuck]
  exact (((h.nodes.map Prod.fst).filter _).map _).append
    (((hsorted _).trans ((hreached.filter _).trans (hsorted _).symm)).map _)

/-- As long as all named keys can be written, the same is said in some order. -/
theorem texts (h : Rearranged b b') (hb : b.Regular) (hb' : b'.Regular)
    (ht : ∀ n, ∀ e ∈ b.outgoing n, HasTextTargets e)
    (hnamed : b.allNamed.all Value.isWritable = true) : b'.texts.Perm b.texts := by
  have ht' : ∀ n, ∀ e ∈ b'.outgoing n, HasTextTargets e := fun n e he =>
    ht n e ((h.outgoing n).subset he)
  have hlocal := h.localTexts hb hb'
  by_cases hnil : b.localTexts = []
  · have hnil' : b'.localTexts = [] := (eq_nil_iff_of_perm hlocal).mpr hnil
    have hsaid := (hb.localProblems_tells ht).eq_ok hnamed
    have hsaid' := (hb'.localProblems_tells ht').eq_ok ((h.allNamed hb hb').all_eq.trans hnamed)
    rw [Builder.texts, Builder.texts, if_pos hnil, if_pos hnil']
    exact h.pathsProblems hb hb' ((hb.localProblems_reports _ hsaid).mp hnil)
      ((hb'.localProblems_reports _ hsaid').mp hnil')
  · have hsome : b'.localTexts ≠ [] := mt (eq_nil_iff_of_perm hlocal).mp hnil
    rw [Builder.texts, Builder.texts, if_neg hnil, if_neg hsome]
    exact hlocal

end Rearranged

/-- The same problems in some order, or the same failure to tell them. -/
inductive SameReport : Except Failure (List String) → Except Failure (List String) → Prop where
  | listed {ps ps' : List String} (h : ps'.Perm ps) : SameReport (.ok ps) (.ok ps')
  | failed (why : Failure) : SameReport (.error why) (.error why)

theorem SameReport.of_ok {x' : Except Failure (List String)} {ps : List String}
    (h : SameReport (.ok ps) x') : ∃ ps', x' = .ok ps' ∧ ps'.Perm ps := by
  cases h with
  | listed h => exact ⟨_, rfl, h⟩

theorem SameReport.eq_ok_nil_iff {x x' : Except Failure (List String)} (h : SameReport x x') :
    x = .ok [] ↔ x' = .ok [] := by
  cases h with
  | listed h => rw [Except.ok.injEq, Except.ok.injEq, eq_nil_iff_of_perm h]
  | failed why => rfl

/-- Validation says the same of rearranged builders. -/
theorem Rearranged.problems {b b' : Builder μ} (h : Rearranged b b') (hb : b.Regular)
    (hb' : b'.Regular) (ht : ∀ n, ∀ e ∈ b.outgoing n, HasTextTargets e) :
    SameReport b.problems b'.problems := by
  have htells := hb.problems_tells ht
  have htells' := hb'.problems_tells fun n e he => ht n e ((h.outgoing n).subset he)
  rw [Tells] at htells htells'
  rw [htells, htells', (h.allNamed hb hb').all_eq]
  by_cases hnamed : b.allNamed.all Value.isWritable = true
  · rw [if_pos hnamed, if_pos hnamed]
    exact .listed (h.texts hb hb' ht hnamed)
  · rw [if_neg hnamed, if_neg hnamed]
    exact .failed _

end Builder

/-! ## One graph to look things up in -/

/-- Graphs of one name and schema that run from the same entry and under the same limit, with the
same node and the same edge under each name. -/
structure Graph.Alike (g g' : Graph μ) : Prop where
  name : g'.name = g.name
  schema : g'.schema = g.schema
  entry : g'.entry = g.entry
  stepLimit : g'.stepLimit = g.stepLimit
  node : ∀ n, Table.row? g'.nodes n = Table.row? g.nodes n
  edge : ∀ n, Table.row? g'.edges n = Table.row? g.edges n

namespace Builder

/-- Where each node has one edge and nothing else has any, the edges are not only the same in some
order. -/
theorem Rearranged.outgoing_eq {b b' : Builder μ} (h : Rearranged b b') (hl : b.FitsLocally)
    (n : String) : b'.outgoing n = b.outgoing n := by
  refine eq_of_perm_of_length_le_one (h.outgoing n) ?_
  by_cases hnode : b.IsNode n
  · obtain ⟨e, he⟩ := hl.single n hnode
    rw [he]
    exact Nat.le_refl 1
  · have hnone : b.outgoing n = [] := Classical.not_not.mp fun hne => hnode (hl.sources n hne)
    rw [hnone]
    exact Nat.zero_le 1

theorem Rearranged.graph {b b' : Builder μ} (h : Rearranged b b') (hb : b.Regular)
    (hb' : b'.Regular) (hl : b.FitsLocally) (hd : (Table.names b.nodes).Nodup) (limit : Value) :
    (b.graph limit).Alike (b'.graph limit) := by
  refine ⟨congrArg graphName h.name, congrArg Schema.freeze h.schema,
    congrArg (Option.getD · "") h.entry, rfl, fun n => ?_, fun n => ?_⟩
  · exact (Table.row?_perm h.nodes.symm hd n).symm
  · show Table.row? b'.settledEdges n = Table.row? b.settledEdges n
    rw [row?_settledEdges hb', row?_settledEdges hb, h.outgoing_eq hl]

/-- How two builders compare of which the same is said, in some order. -/
structure Compare (b b' : Builder μ) (limit : Value) : Prop where
  problems : SameReport b.problems b'.problems
  compile : (∃ g, b.compile limit = .ok g) ↔ ∃ g', b'.compile limit = .ok g'
  alike : ∀ g g', b.compile limit = .ok g → b'.compile limit = .ok g' → g.Alike g'

/-- The order of calls does not matter to what they make, once it is compiled. -/
theorem Arrangeable.compare {calls calls' : List (Call μ)} (h : Arrangeable calls)
    (hperm : calls'.Perm calls) (schema : Schema) (name : Option String) (limit : Value) :
    Compare ((new schema name).after calls) ((new schema name).after calls') limit := by
  have hrearranged := h.rearranged hperm schema name
  have hb := regular_after schema name calls
  have hb' := regular_after schema name calls'
  have ht := text_after schema name h.text
  have hd : (Table.names ((new schema name).after calls).nodes).Nodup := by
    rw [nodes_after (b := new schema name) h.callable h.distinct]
    exact h.distinct
  generalize (new schema name).after calls = b at hrearranged hb ht hd
  generalize (new schema name).after calls' = b' at hrearranged hb'
  have hsaid := hrearranged.problems hb hb' ht
  refine ⟨hsaid, ?_, fun g g' hg hg' => ?_⟩
  · simp only [compile_eq_ok_iff, exists_and_left, exists_eq, and_true, hsaid.eq_ok_nil_iff]
  · obtain ⟨hempty, rfl⟩ := compile_eq_ok_iff.mp hg
    obtain ⟨_, rfl⟩ := compile_eq_ok_iff.mp hg'
    exact hrearranged.graph hb hb' ((hb.problems_reports _ hempty).mp rfl).1 hd limit

theorem turnTaking_arrangeable (boss hand : Handler μ) (answer : Value → Act (Site μ) Value) :
    Arrangeable (turnTaking boss hand answer) := by
  have hdistinct : ["boss", "hand"].Nodup := by decide
  refine ⟨fun c hc => ?_, hdistinct, Nat.le_refl 1, turnTaking_hasTextTargets boss hand answer⟩
  simp only [turnTaking, List.mem_cons, List.not_mem_nil, or_false] at hc
  rcases hc with rfl | rfl | rfl | rfl | rfl
  all_goals simp [Call.AddsNode, startName, endName]

end Builder

end TeamFlow
