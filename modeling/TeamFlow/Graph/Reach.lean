/-! Reachability among finitely many names. `visited` collects the names that paths from a start
lead to, by a list of names still to visit; `finishing` collects the names from which a path leads
to a goal, by sweeps that stop when one adds nothing. `Path` says what a path is. -/

namespace TeamFlow

namespace Reach

variable (next : String → List String)

/-- A path along successors. -/
inductive Path : String → String → Prop where
  | refl (a : String) : Path a a
  | step {a b c : String} (h : b ∈ next a) (rest : Path b c) : Path a c

/-- The members of `names` that are not seen yet. -/
def unseen (names seen : List String) : List String := names.filter fun n => !seen.contains n

theorem unseen_cons_lt {names seen : List String} {n : String} (hn : n ∈ names)
    (hs : seen.contains n = false) :
    (unseen names (n :: seen)).length < (unseen names seen).length := by
  have hmem : n ∈ unseen names seen := by simp [unseen, hn]; simpa using hs
  have hsub : unseen names (n :: seen) = (unseen names seen).filter fun m => m != n := by
    simp only [unseen, List.filter_filter]
    apply List.filter_congr
    intro m _
    by_cases h : m = n <;> simp [h]
  rw [hsub]
  exact List.length_filter_lt_length_iff_exists.mpr ⟨n, hmem, by simp⟩

/-- Visit pending names: a name that is seen already or is none of `names` is dropped, any other is
seen from now on and its successors are pending. -/
def visit (names : List String) (seen pending : List String) : List String :=
  match pending with
  | [] => seen
  | n :: rest =>
    if _h : n ∈ names ∧ seen.contains n = false then visit names (n :: seen) (next n ++ rest)
    else visit names seen rest
termination_by ((unseen names seen).length, pending.length)
decreasing_by
  · exact Prod.Lex.left _ _ (unseen_cons_lt _h.1 _h.2)
  · exact Prod.Lex.right _ (by simp)

/-- The names that paths from a start lead to. -/
def visited (names : List String) (start : String) : List String := visit next names [] [start]

/-- Whether one step leads to the goal or to a name that is done. -/
def leadsOn (goal : String) (done : List String) (n : String) : Bool :=
  (next n).any fun m => m == goal || done.contains m

def sweep (goal : String) : List String → List String → List String
  | [], done => done
  | n :: rest, done =>
    if !done.contains n && leadsOn next goal done n then sweep goal rest (n :: done)
    else sweep goal rest done

/-- At most so many sweeps; they end as soon as one adds nothing. -/
def sweeps (goal : String) (names : List String) : Nat → List String → List String
  | 0, done => done
  | fuel + 1, done =>
    let after := sweep next goal names done
    if after.length = done.length then done else sweeps goal names fuel after

/-- The members of `names` from which a path leads to the goal. Every sweep but the last adds a
name, so there is one more sweep than there are names. -/
def finishing (names : List String) (goal : String) : List String :=
  sweeps next goal names (names.length + 1) []

end Reach

end TeamFlow
