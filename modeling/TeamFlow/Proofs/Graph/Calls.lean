import TeamFlow.Graph.Basic
import TeamFlow.Proofs.Graph.Routing
import TeamFlow.Proofs.Table

/-! # Builders that calls leave

A builder is made by calls, which may fail and then leave it as it was. Which
edges leave a node is read off the calls alone (`outgoing_after`); the other
facts about such builders that validation relies on are gathered in `Regular`. -/
namespace TeamFlow

/-- One call of a builder. -/
inductive Call (μ : Type) where
  | node (name : String) (handler : Offered (Handler μ))
  | edge (source target : String)
  | routing (source : String) (router : Router μ) (paths : PathMap) (keys : Value)
  | entry (name : String)
  | finish (name : String)

variable {μ : Type}

namespace Call

def act : Call μ → Act (Builder μ) Unit
  | node name handler => Builder.addNode name handler
  | edge source target => Builder.addEdge source target
  | routing source router paths keys => Builder.addRouting source router paths keys
  | entry name => Builder.setEntry name
  | finish name => Builder.setFinish name

/-- The edges that a call adds to those that leave a node. -/
def edgesFrom (n : String) : Call μ → List (Edge μ Value)
  | edge source target => if source ≠ startName ∧ source = n then [.fixed (.str target)] else []
  | finish source => if source ≠ startName ∧ source = n then [.fixed (.str endName)] else []
  | routing source router paths keys => if source = n then
      match Routing.make router paths keys with
      | .ok r => [.routed r]
      | .error _ => []
    else []
  | _ => []

end Call

def Call.HasTextTargets : Call μ → Prop
  | routing _ _ paths _ => paths.HasTextTargets
  | _ => True

namespace Builder

/-- The builder after some calls, whether they succeed or not. -/
def after (b : Builder μ) (calls : List (Call μ)) : Builder μ :=
  calls.foldl (fun b c => (c.act b).2) b

theorem after_cons (b : Builder μ) (c : Call μ) (calls : List (Call μ)) :
    b.after (c :: calls) = Builder.after (c.act b).2 calls := rfl

/-! ## What one call changes -/

theorem addNode_state (name : String) (handler : Offered (Handler μ)) (b : Builder μ) :
    (addNode name handler b).2 = b ∨
      ∃ h, (addNode name handler b).2 = { b with nodes := Table.put b.nodes name h } ∧
        name ≠ endName := by
  by_cases hr : name = startName ∨ name = endName
  · left
    simp only [addNode, if_pos hr]
    rfl
  · by_cases hh : Table.has b.nodes name = true
    · left
      simp only [addNode, if_neg hr, Act.bind_apply, Act.get, hh, if_true]
      rfl
    · cases handler with
      | notCallable =>
        left
        simp only [addNode, if_neg hr, Act.bind_apply, Act.get, if_neg hh]
        rfl
      | callable h =>
        right
        refine ⟨h, ?_, fun he => hr (.inr he)⟩
        simp only [addNode, if_neg hr, Act.bind_apply, Act.get, if_neg hh]
        rfl

theorem addNode_new {name : String} (hstart : name ≠ startName) (hend : name ≠ endName)
    {b : Builder μ} (hnew : name ∉ Table.names b.nodes) (h : Handler μ) :
    addNode name (.callable h) b = (.ok (), { b with nodes := b.nodes ++ [(name, h)] }) := by
  have hlegal : ¬ (name = startName ∨ name = endName) := not_or.mpr ⟨hstart, hend⟩
  have hhas : ¬ Table.has b.nodes name = true := by simpa [Table.has] using hnew
  rw [← Table.put_new hnew]
  simp only [addNode, if_neg hlegal, Act.bind_apply, Act.get, if_neg hhas]
  rfl

theorem pushEdge_state (source : String) (e : Edge μ Value) (b : Builder μ) :
    pushEdge source e b =
      (.ok (), { b with edges := Table.put b.edges source (b.outgoing source ++ [e]) }) := rfl

theorem addRouting_state (source : String) (router : Router μ) (paths : PathMap) (keys : Value)
    (b : Builder μ) :
    (addRouting source router paths keys b).2 =
      match Routing.make router paths keys with
      | .ok r => (pushEdge source (.routed r) b).2
      | .error _ => b := by
  simp only [addRouting, Act.bind_apply, Act.ofExcept]
  cases Routing.make router paths keys with
  | error e => rfl
  | ok r =>
    simp only [pushEdge_state]
    cases r.sortedTargets <;> rfl

theorem outgoing_pushEdge (source : String) (e : Edge μ Value) (b : Builder μ) (n : String) :
    (pushEdge source e b).2.outgoing n =
      b.outgoing n ++ if source = n then [e] else [] := by
  by_cases h : source = n
  · subst h
    simp [pushEdge_state, outgoing, Table.row?_put]
  · simp [pushEdge_state, outgoing, Table.row?_put, h, Ne.symm h]

theorem outgoing_act (c : Call μ) (b : Builder μ) (n : String) :
    ((c.act b).2).outgoing n = b.outgoing n ++ c.edgesFrom n := by
  have hedge : ∀ source target : String, ((addEdge source target b).2).outgoing n =
      b.outgoing n ++ if source ≠ startName ∧ source = n then [.fixed (.str target)] else [] := by
    intro source target
    by_cases hs : source = startName
    · simp [addEdge, hs, setEntry, Act.modify, outgoing]
    · rw [addEdge, if_neg hs, outgoing_pushEdge]
      simp [hs]
  cases c with
  | node name handler =>
    rcases addNode_state name handler b with h | ⟨handler', h, _⟩
    · simp [Call.act, h, Call.edgesFrom]
    · simp [Call.act, h, Call.edgesFrom, outgoing]
  | edge source target => exact hedge source target
  | finish source => exact hedge source endName
  | entry name => simp [Call.act, setEntry, Act.modify, outgoing, Call.edgesFrom]
  | routing source router paths keys =>
    simp only [Call.act, addRouting_state, Call.edgesFrom]
    cases Routing.make router paths keys with
    | error e => simp
    | ok r => exact outgoing_pushEdge source (.routed r) b n

theorem outgoing_after (b : Builder μ) (calls : List (Call μ)) (n : String) :
    (b.after calls).outgoing n = b.outgoing n ++ calls.flatMap (Call.edgesFrom n) := by
  induction calls generalizing b with
  | nil => simp [after]
  | cons c calls ih => rw [after_cons, ih, outgoing_act, List.flatMap_cons, List.append_assoc]

theorem nodes_of_act (c : Call μ) (b : Builder μ) : (c.act b).2.nodes = b.nodes ∨
    ∃ name h, (c.act b).2.nodes = Table.put b.nodes name h := by
  have hedge : ∀ source target : String, ((addEdge source target b).2).nodes = b.nodes := by
    intro source target
    unfold addEdge
    split <;> rfl
  cases c with
  | node name handler =>
    rcases addNode_state name handler b with h | ⟨handler', h, _⟩
    · exact .inl (congrArg Builder.nodes h)
    · exact .inr ⟨name, handler', congrArg Builder.nodes h⟩
  | edge source target => exact .inl (hedge source target)
  | finish source => exact .inl (hedge source endName)
  | entry name => exact .inl rfl
  | routing source router paths keys =>
    left
    rw [Call.act, addRouting_state]
    split <;> rfl

theorem distinct_after {b : Builder μ} (h : (Table.names b.nodes).Nodup) (calls : List (Call μ)) :
    (Table.names (b.after calls).nodes).Nodup := by
  induction calls generalizing b with
  | nil => exact h
  | cons c calls ih =>
    rw [after_cons]
    refine ih ?_
    rcases nodes_of_act c b with hsame | ⟨name, handler, hput⟩
    · rwa [hsame]
    · rw [hput]
      exact Table.names_put_nodup h name handler

/-! ## What all builders have in common -/

/-- Sources have one row of edges each, which holds an edge, and no node bears the name of the
end. -/
structure Regular (b : Builder μ) : Prop where
  distinct : (Table.names b.edges).Nodup
  occupied : ∀ row ∈ b.edges, row.2 ≠ []
  reserved : endName ∉ Table.names b.nodes

theorem regular_new (schema : Schema) (name : Option String) :
    (new schema name : Builder μ).Regular :=
  ⟨List.nodup_nil, by simp [new], by simp [new, Table.names]⟩

theorem Regular.pushEdge {b : Builder μ} (hb : b.Regular) (source : String) (e : Edge μ Value) :
    (Builder.pushEdge source e b).2.Regular := by
  refine ⟨Table.names_put_nodup hb.distinct source _, ?_, hb.reserved⟩
  intro row hrow
  rcases Table.mem_of_mem_put hrow with rfl | hrow
  · simp
  · exact hb.occupied row hrow

theorem Regular.addEdge {b : Builder μ} (hb : b.Regular) (source target : String) :
    (Builder.addEdge source target b).2.Regular := by
  unfold Builder.addEdge
  split
  · exact ⟨hb.distinct, hb.occupied, hb.reserved⟩
  · exact hb.pushEdge source _

theorem Regular.act {b : Builder μ} (hb : b.Regular) (c : Call μ) : (c.act b).2.Regular := by
  cases c with
  | node name handler =>
    rcases addNode_state name handler b with h | ⟨handler', h, hne⟩
    · rw [Call.act, h]
      exact hb
    · rw [Call.act, h]
      refine ⟨hb.distinct, hb.occupied, ?_⟩
      rw [Table.names_put]
      split
      · exact hb.reserved
      · simp [hb.reserved, Ne.symm hne]
  | edge source target => exact hb.addEdge source target
  | finish source => exact hb.addEdge source endName
  | entry name => exact ⟨hb.distinct, hb.occupied, hb.reserved⟩
  | routing source router paths keys =>
    rw [Call.act, addRouting_state]
    split
    · exact hb.pushEdge source _
    · exact hb

theorem Regular.after {b : Builder μ} (hb : b.Regular) (calls : List (Call μ)) :
    (b.after calls).Regular := by
  induction calls generalizing b with
  | nil => exact hb
  | cons c calls ih => exact ih (hb.act c)

theorem regular_after (schema : Schema) (name : Option String) (calls : List (Call μ)) :
    ((new schema name).after calls).Regular :=
  (regular_new schema name).after calls

theorem Regular.mem_edges_iff {b : Builder μ} (hb : b.Regular) {source : String}
    {es : List (Edge μ Value)} :
    (source, es) ∈ b.edges ↔ es ≠ [] ∧ b.outgoing source = es := by
  constructor
  · intro h
    refine ⟨hb.occupied _ h, ?_⟩
    rw [outgoing, Table.row?_of_mem hb.distinct h, Option.getD_some]
  · rintro ⟨hne, h⟩
    unfold outgoing at h
    cases hrow : Table.row? b.edges source with
    | none => rw [hrow] at h; exact absurd h.symm hne
    | some es' =>
      rw [hrow, Option.getD_some] at h
      exact h ▸ Table.mem_of_row? hrow

end Builder

end TeamFlow
