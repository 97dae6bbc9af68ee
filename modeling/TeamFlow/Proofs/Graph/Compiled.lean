import TeamFlow.Proofs.Graph.Validation

/-! # What runs of a compiled graph rely on

Whatever calls made the builder of a graph: once it is compiled, its entry is a
node, each node has an edge, every target is a node or the end, and the keys
that are declared for a router have paths. -/
namespace TeamFlow

variable {μ : Type}

/-! ## The frozen edges -/

namespace Builder

theorem row?_settledEdges {b : Builder μ} (hb : b.Regular) (n : String) :
    Table.row? b.settledEdges n =
      (b.outgoing n).head?.map (Edge.mapTargets fun t => t.text?.getD "") := by
  have hrow : ∀ t : Table (List (Edge μ Value)), (∀ row ∈ t, row.2 ≠ []) →
      Table.row? (t.filterMap settledRow) n =
        ((Table.row? t n).getD []).head?.map (Edge.mapTargets fun t => t.text?.getD "") := by
    intro t ht
    induction t with
    | nil => rfl
    | cons row t ih =>
      obtain ⟨source, es⟩ := row
      have ih := ih fun row hrow => ht row (by simp [hrow])
      cases es with
      | nil => exact absurd rfl (ht _ List.mem_cons_self)
      | cons e es =>
        by_cases hn : source = n
        · simp [settledRow, Table.row?, hn]
        · simpa [settledRow, Table.row?, hn] using ih
  exact hrow b.edges hb.occupied

end Builder

namespace Routing

variable {T U : Type}

theorem pathOf?_mapTargets (f : T → U) (r : Routing μ T) (key : Value) :
    (r.mapTargets f).pathOf? key = (r.pathOf? key).map f := by
  simp only [pathOf?, mapTargets]
  induction r.paths with
  | nil => rfl
  | cons p paths ih =>
    by_cases hp : p.1.alike key = true
    · simp [hp]
    · simpa [hp] using ih

theorem unmapped_mapTargets (f : T → U) (r : Routing μ T) :
    (r.mapTargets f).unmapped = r.unmapped := by
  simp only [unmapped, pathOf?_mapTargets, Option.isNone_map]
  rfl

theorem mem_targets_of_pathOf? {r : Routing μ T} {key : Value} {t : T}
    (h : r.pathOf? key = some t) : t ∈ (Edge.routed r).targets := by
  simp only [pathOf?, Option.map_eq_some_iff] at h
  obtain ⟨p, hp, rfl⟩ := h
  exact List.mem_map.mpr ⟨p, List.mem_of_find?_eq_some hp, rfl⟩

end Routing

theorem Edge.targets_mapTargets {T U : Type} (f : T → U) (e : Edge μ T) :
    (e.mapTargets f).targets = e.targets.map f := by
  cases e with
  | fixed t => rfl
  | routed r => simp [mapTargets, targets, Routing.mapTargets]

/-! ## Compiled graphs -/

namespace Graph

def IsNode (g : Graph μ) (n : String) : Prop := n ∈ Table.names g.nodes

/-- A graph that compiling some builder gives, whatever calls made it. -/
def Compiled (g : Graph μ) : Prop :=
  ∃ schema name calls limit, ((Builder.new schema name).after calls).compile limit = .ok g

/-- The tables of a graph agree with each other. -/
structure Linked (g : Graph μ) : Prop where
  entry : g.IsNode g.entry
  reserved : ¬ g.IsNode endName
  targets : ∀ n, g.IsNode n → ∃ e, Table.row? g.edges n = some e ∧
    ∀ t ∈ e.targets, t = endName ∨ g.IsNode t
  hashable : ∀ n r, Table.row? g.edges n = some (.routed r) →
    ∀ p ∈ r.paths, p.1.isHashable = true
  mapped : ∀ n r, Table.row? g.edges n = some (.routed r) → r.unmapped = []

theorem handler_of_isNode {g : Graph μ} {n : String} (h : g.IsNode n) :
    ∃ handler, Table.row? g.nodes n = some handler :=
  Option.isSome_iff_exists.mp ((Table.row?_isSome_iff g.nodes n).mpr h)

theorem Compiled.linked {g : Graph μ} (h : g.Compiled) : g.Linked := by
  obtain ⟨schema, name, calls, limit, h⟩ := h
  have hb := Builder.regular_after schema name calls
  have hrouted := Builder.routed_mem_outgoing_iff schema name calls
  generalize (Builder.new schema name).after calls = b at h hb hrouted
  obtain ⟨hps, rfl⟩ := Builder.compile_eq_ok_iff.mp h
  have hl := ((hb.problems_reports [] hps).mp rfl).1
  obtain ⟨e, he, hnode⟩ := hl.entry
  -- a router's edge of the graph is one of the builder, with names for targets
  have hedge : ∀ n r, Table.row? b.settledEdges n = some (.routed r) →
      ∃ draft : Routing μ Value, .routed draft ∈ b.outgoing n ∧
        r = draft.mapTargets fun t => t.text?.getD "" := by
    intro n r hr
    rw [Builder.row?_settledEdges hb, Option.map_eq_some_iff] at hr
    obtain ⟨e, he, heq⟩ := hr
    cases e with
    | fixed t => cases heq
    | routed draft => cases heq; exact ⟨draft, List.mem_of_mem_head? he, rfl⟩
  refine ⟨?_, hb.reserved, ?_, ?_, ?_⟩
  · show b.entry.getD "" ∈ Table.names b.nodes
    rw [he]
    exact hnode
  · intro n hn
    obtain ⟨e, hout⟩ := hl.single n hn
    have hrow := Builder.row?_settledEdges hb n
    rw [hout] at hrow
    refine ⟨_, hrow, ?_⟩
    intro t ht
    rw [Edge.targets_mapTargets] at ht
    obtain ⟨v, hv, rfl⟩ := List.mem_map.mp ht
    obtain ⟨m, rfl, hm⟩ := (hl.fits n e (by simp [hout])).targets v hv
    exact hm
  · intro n r hr p hp
    obtain ⟨draft, hdraft, rfl⟩ := hedge n r hr
    obtain ⟨router, paths, keys, _, hmake⟩ := (hrouted n draft).mp hdraft
    obtain ⟨q, hq, rfl⟩ := List.mem_map.mp hp
    exact PathMap.isHashable_of_toEntries (Routing.make_eq_ok hmake).2.1 q hq
  · intro n r hr
    obtain ⟨draft, hdraft, rfl⟩ := hedge n r hr
    rw [Routing.unmapped_mapTargets]
    exact (hl.fits n _ hdraft).2.2

theorem Compiled.defaults {g : Graph μ} (h : g.Compiled) :
    g.schema.channels ≠ [] ∧ ∀ c ∈ g.schema.channels, c.default.isSome = true := by
  obtain ⟨schema, name, calls, limit, h⟩ := h
  have hb := Builder.regular_after schema name calls
  obtain ⟨hps, rfl⟩ := Builder.compile_eq_ok_iff.mp h
  have hl := ((hb.problems_reports [] hps).mp rfl).1
  exact ⟨hl.channels, hl.defaults⟩

end Graph

end TeamFlow
