import TeamFlow.Proofs.Workspace.Tree

/-! # Paths, part by part

A path is followed part by part (`Leads`): some parts stay, two dots return, and
all others enter. This is the walk along the parts that lead somewhere
(`leads_iff`). So to go on from where a path has led is to follow the path with
the other one joined to it (`follow_walk`), and the steps of a path can be read
off its text (`stepsOf_text`). -/
namespace TeamFlow

namespace Text

theorem splitAt_append (mark : Char) (cs ds : List Char) :
    splitAt mark (cs ++ mark :: ds) = splitAt mark cs ++ splitAt mark ds := by
  induction cs with
  | nil => simp [splitAt]
  | cons c cs ih =>
    rw [List.cons_append, splitAt, splitAt, ih]
    by_cases hc : c = mark
    · rw [if_pos hc, if_pos hc, List.cons_append]
    · rw [if_neg hc, if_neg hc]
      cases hparts : splitAt mark cs with
      | nil => exact absurd hparts (splitAt_ne_nil mark cs)
      | cons part parts => rfl

theorem splitAt_plain {mark : Char} {cs : List Char} (h : mark ∉ cs) : splitAt mark cs = [cs] := by
  induction cs with
  | nil => rfl
  | cons c cs ih =>
    rw [List.mem_cons, not_or] at h
    rw [splitAt, if_neg (Ne.symm h.1), ih h.2]

end Text

namespace Place

/-- All parts of a path, also those that lead nowhere. -/
def parts (path : String) : List String := (Text.splitAt '/' path.toList).map String.ofList

/-- A path that goes on from another one; one that starts with a slash does not. -/
def joined (before after : String) : String :=
  if isAbsolute after then after else before ++ "/" ++ after

/-- Where the parts of a path lead from a place, one after the other. -/
inductive Leads : Place → List String → Place → Prop where
  | arrives {here : Place} : Leads here [] here
  | stays {here there : Place} {name : String} {names : List String}
      (hname : name = "" ∨ name = ".") (h : Leads here names there) :
      Leads here (name :: names) there
  | returns {here there : Place} {names : List String} (h : Leads here.dropLast names there) :
      Leads here (".." :: names) there
  | enters {here there : Place} {name : String} {names : List String}
      (hname : name ∉ ["", ".", ".."]) (h : Leads (here ++ [name]) names there) :
      Leads here (name :: names) there

def leading (names : List String) : List String := names.filter fun s => s != "" && s != "."

theorem stepsOf_eq (path : String) : stepsOf path = leading (parts path) := rfl

theorem leading_append (names more : List String) :
    leading (names ++ more) = leading names ++ leading more := List.filter_append ..

theorem leading_cons_of_stays {name : String} (h : name = "" ∨ name = ".") (names : List String) :
    leading (name :: names) = leading names :=
  List.filter_cons_of_neg (by rcases h with rfl | rfl <;> decide)

theorem leading_cons {name : String} (h : name ≠ "" ∧ name ≠ ".") (names : List String) :
    leading (name :: names) = name :: leading names :=
  List.filter_cons_of_pos (by simpa using h)

theorem Leads.eq_walk {here there : Place} {names : List String} (h : Leads here names there) :
    there = walk here (leading names) := by
  induction h with
  | arrives => rfl
  | stays hname _ ih => rw [ih, leading_cons_of_stays hname]
  | returns _ ih => rw [ih, leading_cons (by decide), walk_cons, step, if_pos rfl]
  | enters hname _ ih =>
    simp only [List.mem_cons, List.not_mem_nil, or_false, not_or] at hname
    rw [ih, leading_cons ⟨hname.1, hname.2.1⟩, walk_cons, step, if_neg hname.2.2]

theorem leads_walk (here : Place) (names : List String) :
    Leads here names (walk here (leading names)) := by
  induction names generalizing here with
  | nil => exact .arrives
  | cons name names ih =>
    by_cases hstays : name = "" ∨ name = "."
    · rw [leading_cons_of_stays hstays]
      exact .stays hstays (ih here)
    · rw [leading_cons (not_or.mp hstays), walk_cons, step]
      by_cases hreturns : name = ".."
      · rw [if_pos hreturns, hreturns]
        exact .returns (ih _)
      · rw [if_neg hreturns]
        refine .enters (fun hmem => ?_) (ih _)
        simp only [List.mem_cons, List.not_mem_nil, or_false] at hmem
        rcases hmem with hname | hname | hname
        · exact hstays (.inl hname)
        · exact hstays (.inr hname)
        · exact hreturns hname

/-- Parts lead where a walk along those of them leads that lead somewhere. -/
theorem leads_iff {here there : Place} {names : List String} :
    Leads here names there ↔ there = walk here (leading names) :=
  ⟨Leads.eq_walk, fun h => h ▸ leads_walk here names⟩

theorem walk_append (here : Place) (steps more : List String) :
    walk here (steps ++ more) = walk (walk here steps) more := List.foldl_append ..

/-! ## Paths and their parts -/

theorem parts_append (before after : String) :
    parts (before ++ "/" ++ after) = parts before ++ parts after := by
  simp only [parts, String.toList_append, List.append_assoc]
  rw [← List.map_append, ← Text.splitAt_append]
  rfl

theorem parts_plain {name : String} (h : '/' ∉ name.toList) : parts name = [name] := by
  rw [parts, Text.splitAt_plain h, List.map_singleton, String.ofList_toList]

/-- A name that neither stays nor returns, and that a path holds as it is. -/
structure IsStep (name : String) : Prop where
  leads : name ≠ "" ∧ name ≠ "."
  plain : '/' ∉ name.toList

theorem parts_intercalate {names : List String} (hne : names ≠ [])
    (h : ∀ name ∈ names, '/' ∉ name.toList) : parts (String.intercalate "/" names) = names := by
  induction names with
  | nil => exact absurd rfl hne
  | cons name names ih =>
    obtain ⟨hname, hnames⟩ := List.forall_mem_cons.mp h
    cases names with
    | nil => rw [String.intercalate_singleton, parts_plain hname]
    | cons next rest =>
      rw [String.intercalate_cons_cons, parts_append, parts_plain hname, ih (by simp) hnames]
      rfl

theorem stepsOf_intercalate {steps : List String} (h : ∀ s ∈ steps, IsStep s) :
    stepsOf (String.intercalate "/" steps) = steps := by
  by_cases hne : steps = []
  · subst hne
    rfl
  · rw [stepsOf_eq, parts_intercalate hne fun s hs => (h s hs).plain]
    exact List.filter_eq_self.mpr fun s hs => by simpa using (h s hs).leads

theorem stepsOf_text {steps : List String} (h : ∀ s ∈ steps, IsStep s) :
    stepsOf (text steps) = steps := by
  have htext : parts (text steps) = "" :: parts (String.intercalate "/" steps) :=
    parts_append "" _
  rw [stepsOf_eq, htext, leading_cons_of_stays (.inl rfl), ← stepsOf_eq, stepsOf_intercalate h]

/-- What is followed from where a path leads is a path joined to it. -/
theorem follow_walk (before after : String) :
    follow (walk [] (stepsOf before)) after = walk [] (stepsOf (joined before after)) := by
  unfold follow joined
  split
  next => rfl
  next => rw [stepsOf_eq (before ++ "/" ++ after), parts_append, leading_append, walk_append]; rfl

theorem mem_of_mem_walk {here : Place} {steps : List String} {name : String}
    (h : name ∈ walk here steps) : name ∈ here ∨ name ∈ steps := by
  induction steps generalizing here with
  | nil => exact .inl h
  | cons s steps ih =>
    rcases ih h with hstep | hsteps
    · unfold step at hstep
      split at hstep
      next => exact .inl (List.dropLast_subset here hstep)
      next =>
        rcases List.mem_append.mp hstep with hhere | hs
        · exact .inl hhere
        · exact .inr (List.mem_cons.mpr (.inl (List.mem_singleton.mp hs)))
    · exact .inr (List.mem_cons_of_mem s hsteps)

end Place

end TeamFlow
