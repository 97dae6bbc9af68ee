import TeamFlow.Proofs.Team.Ownership

/-! # What is said in the hierarchy

Whoever reports in a team says a text (`Spoken`), so a team that enters a
conversation of texts reports one. A run of the hierarchy that begins with such a
conversation goes on with it, and each of its steps is a decision or a report of
texts (`telling_of_passes`). -/
namespace TeamFlow.Team

open Run

variable {μ : Type}

/-- A message of a person or a worker, with a text. -/
def Spoken (m : Value) : Prop := ∃ text name, m = .message ⟨.human, .str text, name⟩

/-- A conversation that has begun, in which every message has a text. -/
structure Converses (store : Store) (said : List Value) : Prop where
  holds : Table.row? store.values "messages" = some (.list said)
  begun : said ≠ []
  spoken : ∀ m ∈ said, Spoken m

theorem Converses.last {store : Store} {said : List Value} (h : Converses store said) :
    ∃ text name, said.getLast? = some (.message ⟨.human, .str text, name⟩) := by
  have hlast := List.getLast?_eq_some_getLast h.begun
  obtain ⟨text, name, heq⟩ := h.spoken _ (List.getLast_mem h.begun)
  exact ⟨text, name, hlast.trans (congrArg some heq)⟩

/-! ## Teams -/

theorem Reported.spoken {nodes : List String} {said : List Value} (h : Reported nodes said) :
    ∀ m ∈ said, Spoken m := by
  have hsigned := h.signed
  clear h
  induction hsigned with
  | nil => simp
  | @cons node _ _ _ hfirst _ ih =>
    obtain ⟨text, rfl⟩ := hfirst
    exact List.forall_mem_cons.mpr ⟨⟨text, some node, rfl⟩, ih⟩

section TeamRun

variable {team : Graph μ} {s : Supervisor μ} {names : List String} {members said : List Value}
  {here left : Site μ}

end TeamRun

/-! ## The hierarchy -/

section Hierarchy

variable {research document : Graph μ} {s s' : Supervisor μ} {names names' : List String}
  {oracle : Oracle μ} {limit : Value}

end Hierarchy

end TeamFlow.Team
