import TeamFlow.Proofs.Text.Blank
import TeamFlow.Proofs.Value.Text
import TeamFlow.Worker.Brainstorm
import TeamFlow.Worker.Search

/-! # What brainstormers and searchers add

A brainstormer contributes queries that are new (`Fresh`): trimmed, not empty,
each once, and none of those that are known. A searcher contributes nothing but
a message. -/
namespace TeamFlow

variable {μ : Type}

namespace Brainstormer

/-- Queries that can be added to known ones. -/
structure Fresh (known : List Value) (queries : List String) : Prop where
  distinct : queries.Nodup
  trimmed : ∀ q ∈ queries, Text.trim q = q
  filled : ∀ q ∈ queries, q ≠ ""
  unknown : ∀ q ∈ queries, (Value.str q).isAmong known = false

theorem Fresh.nil (known : List Value) : Fresh known [] :=
  ⟨List.nodup_nil, by simp, by simp, by simp⟩

theorem Fresh.snoc {known : List Value} {found : List String} (h : Fresh known found) {q : String}
    (htrimmed : Text.trim q = q) (hfilled : q ≠ "")
    (hunknown : (Value.str q).isAmong known = false) (hnew : q ∉ found) :
    Fresh known (found ++ [q]) := by
  refine ⟨List.nodup_append.mpr ⟨h.distinct, by simp, ?_⟩, ?_, ?_, ?_⟩
  · rintro p hp _ hq rfl
    exact hnew (List.mem_singleton.mp hq ▸ hp)
  all_goals
    intro p hp
    rcases List.mem_append.mp hp with hp | hp
  · exact h.trimmed p hp
  · exact List.mem_singleton.mp hp ▸ htrimmed
  · exact h.filled p hp
  · exact List.mem_singleton.mp hp ▸ hfilled
  · exact h.unknown p hp
  · exact List.mem_singleton.mp hp ▸ hunknown

/-- What is kept of proposals is fresh, by induction on the proposals that are left. -/
theorem fresh_spec {known : List Value} {found : List String} (h : Fresh known found)
    (proposals : List String) : Fresh known (fresh known found proposals) := by
  induction proposals generalizing found with
  | nil => exact h
  | cons proposal proposals ih =>
    simp only [fresh]
    split
    next => exact ih h
    next hkept =>
      simp only [Bool.or_eq_true, not_or, Bool.not_eq_true] at hkept
      obtain ⟨⟨hempty, hknown⟩, hfound⟩ := hkept
      exact ih (h.snoc (Text.trim_trim proposal) (by simpa using hempty) hknown
        (by simpa using hfound))

theorem handler_eq_ok {b : Brainstormer μ} {state : State} {answer : Value} {site left : Site μ}
    (h : b.handler (.mapping state) site = (.ok answer, left)) :
    ∃ known queries text, State.itemsOf state "brainstormed_queries" = .ok known ∧
      Fresh known queries ∧ answer = .mapping
        ((.str "brainstormed_queries", Value.ofText queries) :: Worker.reported b.name text) := by
  obtain ⟨_, _, hstate, h⟩ := Act.bind_eq_ok.mp h
  cases hstate
  obtain ⟨known, _, hknown, h⟩ := Act.bind_eq_ok.mp h
  obtain ⟨_, _, _, h⟩ := Act.bind_eq_ok.mp h
  obtain ⟨_, _, _, h⟩ := Act.bind_eq_ok.mp h
  obtain ⟨_, _, _, h⟩ := Act.bind_eq_ok.mp h
  obtain ⟨proposals, _, _, h⟩ := Act.bind_eq_ok.mp h
  cases h
  exact ⟨known, _, _, congrArg Prod.fst hknown, fresh_spec (.nil known) proposals, rfl⟩

end Brainstormer

theorem Searcher.handler_eq_ok {s : Searcher μ} {given answer : Value} {site left : Site μ}
    (h : s.handler given site = (.ok answer, left)) :
    ∃ text, text ≠ "" ∧ answer = .mapping (Worker.reported s.name text) := by
  obtain ⟨_, _, _, h⟩ := Act.bind_eq_ok.mp h
  obtain ⟨_, _, _, h⟩ := Act.bind_eq_ok.mp h
  obtain ⟨text, _, _, h⟩ := Act.bind_eq_ok.mp h
  split at h
  next => cases h
  next hempty =>
    cases h
    exact ⟨text, by simpa using hempty, rfl⟩

end TeamFlow
