import TeamFlow.Proofs.Workspace.Holding
import TeamFlow.Proofs.Workspace.Listed
import TeamFlow.Proofs.Workspace.Path

/-! # Which file names are accepted

A file name is accepted if the path of the workspace with the name joined to it
leads to the directory of the workspace or to a place below it, part by part
(`Confinement`). All other names are refused, and whatever is asked for under such
a name changes no files; at most the directory of the workspace is made
(`Declines`). -/
namespace TeamFlow.Workspace

open Place FileTree

/-- The directory is given by a path. -/
def HasPath (w : Workspace) : Prop := ∀ s ∈ w.steps, IsStep s

/-- The failure with which a file name is refused that leads outside. -/
def refusal (fileName : String) : Failure :=
  .badValue ("File name " ++ Text.quoted fileName ++ " points outside the workspace")

variable {w : Workspace} {fileName : String}

theorem HasPath.root_eq (h : w.HasPath) : w.root = walk [] (stepsOf w.path) := by
  rw [path, stepsOf_text h]
  rfl

theorem HasPath.leads_root (h : w.HasPath) : Leads [] (parts w.path) w.root :=
  leads_iff.mpr h.root_eq

theorem HasPath.isStep_of_mem_root (h : w.HasPath) {name : String} (hname : name ∈ w.root) :
    IsStep name :=
  h name ((mem_of_mem_walk hname).resolve_left List.not_mem_nil)

theorem HasPath.leads_joined (h : w.HasPath) (hrelative : isAbsolute fileName = false) :
    Leads [] (parts (joined w.path fileName)) (walk w.root (stepsOf fileName)) := by
  have hfollow : follow w.root fileName = walk w.root (stepsOf fileName) := by
    rw [follow, hrelative]
    rfl
  rw [leads_iff, ← stepsOf_eq, ← follow_walk, ← h.root_eq, hfollow]

theorem locate_of_null (h : isSound w.steps = false ∨ '\x00' ∈ fileName.toList) :
    w.locate fileName = .error nullByte := by
  have hnull : (!isSound w.steps || fileName.toList.contains '\x00') = true := by
    simpa using h
  rw [locate, hnull]
  rfl

/-- Where a name leads: to the directory and then on, part by part. -/
theorem HasPath.locate_eq (h : w.HasPath) (hsound : isSound w.steps = true)
    (hname : '\x00' ∉ fileName.toList) {place : Place}
    (hplace : Leads [] (parts (joined w.path fileName)) place) :
    w.locate fileName = if w.root.covers place then .ok place else .error (refusal fileName) := by
  have hnull : (!isSound w.steps || fileName.toList.contains '\x00') = false := by
    simpa [hsound] using hname
  rw [leads_iff.mp hplace, ← stepsOf_eq, ← follow_walk, ← h.root_eq, locate, hnull]
  rfl

/-! ## Refused names -/

/-- An act that declines a file name for a reason, once the directory of the workspace is there. No
file is changed, and no other directories are made. The listing stays as well, unless the directory
is there already where the path of the workspace leads only over missing ones. -/
structure Declines {α : Type} (w : Workspace) (why : Failure) (x : Act FileTree α) : Prop where
  fails : ∀ t, (w.ensure t).1 = .ok () → (x t).1 = .error why
  grows : ∀ t : FileTree, t.Grows w.OnTheWay (x t).2
  listed : ∀ t : FileTree, (w.ensure t).1 = .ok () → t.Grounded →
    (t.node? w.root = some .directory → w.Ready t) →
    (w.listFiles (x t).2).1 = (w.listFiles t).1

/-- A file name that is refused by whatever is asked for under it. -/
structure Refuses (w : Workspace) (why : Failure) (fileName : String) : Prop where
  located : w.locate fileName = .error why
  reading : ∀ first last t, w.readDocument fileName first last t = (.error why, t)
  editing : ∀ inserts t, w.editDocument fileName inserts t = (.error why, t)
  writing : ∀ content, w.Declines why (w.writeDocument content fileName)
  outlining : ∀ points, w.Declines why (w.createOutline points fileName)

section Refuses

variable {why : Failure}

theorem fetch_refused (h : w.locate fileName = .error why) (t : FileTree) :
    w.fetch fileName t = (.error why, t) := by
  rw [fetch_apply, h]

theorem store_refused (h : w.locate fileName = .error why) (text : String) (t : FileTree) :
    w.store fileName text t = (.error why, t) := by
  rw [store_apply, h]

theorem declines_after {α : Type} {x : Act FileTree α} (h : ∀ t, x t = (.error why, t)) :
    w.Declines why (w.ensure >>= fun _ => x) := by
  have hafter : ∀ t, (w.ensure >>= fun _ => x) t =
      ((w.ensure t).1.bind fun _ => .error why, (w.ensure t).2) := by
    intro t
    rw [Act.bind_apply]
    rcases w.ensure t with ⟨_ | _, u⟩
    · rfl
    · exact h u
  refine ⟨fun t hmade => ?_, fun t => ?_, fun t hmade hgrounded hroot => ?_⟩
  · rw [hafter, hmade]
    rfl
  · rw [hafter]
    exact grows_ensure t
  · rw [hafter]
    exact listFiles_ensure hmade hgrounded hroot

/-- A name that is refused is refused throughout. -/
theorem refuses_of_locate (h : w.locate fileName = .error why) : w.Refuses why fileName := by
  have hstored : ∀ text said t,
      (w.store fileName text >>= fun _ => pure said : Act _ String) t = (.error why, t) :=
    fun text _ t => Act.bind_error (store_refused h text t)
  exact ⟨h, fun _ _ t => Act.bind_error (fetch_refused h t),
    fun _ t => Act.bind_error (fetch_refused h t),
    fun content => declines_after (hstored content _), fun _ => declines_after (hstored _ _)⟩

end Refuses

/-! ## Exactly the names that lead inside -/

/-- What becomes of a file name, by where the directory is and where the name leads. -/
structure Confinement (w : Workspace) (fileName : String) (top place : Place) : Prop where
  root : Leads [] (parts w.path) top
  target : Leads [] (parts (joined w.path fileName)) place
  accepted_iff : ∀ p, w.locate fileName = .ok p ↔ top <+: place ∧ p = place
  refused : ¬ top <+: place → w.Refuses (refusal fileName) fileName

theorem HasPath.confinement (h : w.HasPath) (hsound : isSound w.steps = true)
    (hname : '\x00' ∉ fileName.toList) {place : Place}
    (hplace : Leads [] (parts (joined w.path fileName)) place) :
    w.Confinement fileName w.root place := by
  have hlocate := h.locate_eq hsound hname hplace
  by_cases hinside : w.root <+: place
  · rw [if_pos ((covers_iff _ _).mpr hinside)] at hlocate
    refine ⟨h.leads_root, hplace, fun p => ?_, fun hnot => absurd hinside hnot⟩
    rw [hlocate, Except.ok.injEq, eq_comm]
    exact (and_iff_right hinside).symm
  · rw [if_neg fun hcovers => hinside ((covers_iff _ _).mp hcovers)] at hlocate
    refine ⟨h.leads_root, hplace, fun p => ?_, fun _ => refuses_of_locate hlocate⟩
    rw [hlocate]
    exact iff_of_false nofun fun hp => hinside hp.1

theorem isAbsolute_back (rest : String) : isAbsolute ("../" ++ rest) = false := by
  rw [isAbsolute, String.toList_append]
  rfl

theorem stepsOf_back (rest : String) : stepsOf ("../" ++ rest) = ".." :: stepsOf rest := by
  have hparts : parts ("../" ++ rest) = ".." :: parts rest := parts_append ".." rest
  rw [stepsOf_eq, hparts, leading_cons (by decide), stepsOf_eq]

/-- A name that leaves the directory leads on from above it. -/
theorem HasPath.leads_back (h : w.HasPath) (rest : String) :
    Leads [] (parts (joined w.path ("../" ++ rest))) (walk w.root.dropLast (stepsOf rest)) := by
  have hleads := h.leads_joined (isAbsolute_back rest)
  rwa [stepsOf_back, walk_cons, step, if_pos rfl] at hleads

section Beside

variable {above : Place} {name : String}

/-- What stands beside the directory is outside, whatever it is called. -/
theorem HasPath.sibling_refused (h : w.HasPath) (hsound : isSound w.steps = true)
    (hroot : w.root = above ++ [name]) {sibling : String} {inner : List String}
    (hsteps : ∀ s ∈ sibling :: inner, IsStep s) (hplain : IsPlain (sibling :: inner))
    (hother : sibling ≠ name)
    (hfile : fileName = "../" ++ String.intercalate "/" (sibling :: inner))
    (hname : '\x00' ∉ fileName.toList) : w.Refuses (refusal fileName) fileName := by
  have hplace := h.leads_back (String.intercalate "/" (sibling :: inner))
  rw [← hfile, stepsOf_intercalate hsteps, hplain.walk_eq, hroot, List.dropLast_concat] at hplace
  refine (h.confinement hsound hname hplace).refused fun hinside => hother ?_
  rw [hroot, List.prefix_append_right_inj, List.cons_prefix_cons] at hinside
  exact hinside.1.symm

/-- A name that leaves the directory and enters it again is as good as one that stays. -/
theorem HasPath.locate_reentering (h : w.HasPath) (hsound : isSound w.steps = true)
    (hroot : w.root = above ++ [name]) {inner : String} (hrelative : isAbsolute inner = false)
    (hfile : fileName = "../" ++ (name ++ "/" ++ inner)) (hname : '\x00' ∉ fileName.toList)
    (place : Place) : w.locate fileName = .ok place ↔ w.locate inner = .ok place := by
  have hmem : name ∈ w.root := hroot ▸ by simp
  have hstep := h.isStep_of_mem_root hmem
  have hback : name ≠ ".." := fun heq => w.root_plain (heq ▸ hmem)
  have hinner : '\x00' ∉ inner.toList := fun hnull => hname (by simp [hfile, hnull])
  have hparts : stepsOf (name ++ "/" ++ inner) = name :: stepsOf inner := by
    rw [stepsOf_eq, parts_append, parts_plain hstep.plain, List.singleton_append,
      leading_cons hstep.leads, stepsOf_eq]
  have hplace := h.leads_back (name ++ "/" ++ inner)
  rw [← hfile, hparts, walk_cons, step, if_neg hback, hroot, List.dropLast_concat, ← hroot]
    at hplace
  rw [(h.confinement hsound hname hplace).accepted_iff,
    (h.confinement hsound hinner (h.leads_joined hrelative)).accepted_iff]

end Beside

/-- Confinement is exact: the names that are accepted are those that lead to the directory or
below it, and nothing is done under any other. -/
theorem confinement_exact (w : Workspace) (hw : w.HasPath) :
    (isSound w.steps = true →
      (∀ fileName : String, '\x00' ∉ fileName.toList →
        ∃ top place, w.Confinement fileName top place) ∧
      ∀ above name, w.root = above ++ [name] →
        (∀ sibling inner, (∀ s ∈ sibling :: inner, IsStep s) → IsPlain (sibling :: inner) →
          sibling ≠ name → ∀ fileName,
          fileName = "../" ++ String.intercalate "/" (sibling :: inner) →
          '\x00' ∉ fileName.toList → w.Refuses (refusal fileName) fileName) ∧
        ∀ inner fileName, isAbsolute inner = false → fileName = "../" ++ (name ++ "/" ++ inner) →
          '\x00' ∉ fileName.toList →
          ∀ place, w.locate fileName = .ok place ↔ w.locate inner = .ok place) ∧
    (isSound w.steps = false → ∀ fileName, w.Refuses nullByte fileName) := by
  refine ⟨fun hsound => ⟨fun fileName hname => ?_, fun above name hroot => ⟨?_, ?_⟩⟩,
    fun hnull fileName => refuses_of_locate (locate_of_null (.inl hnull))⟩
  · exact ⟨w.root, _, hw.confinement hsound hname (leads_walk [] _)⟩
  · intro sibling inner hsteps hplain hother fileName hfile hname
    exact hw.sibling_refused hsound hroot hsteps hplain hother hfile hname
  · intro inner fileName hrelative hfile hname place
    exact hw.locate_reentering hsound hroot hrelative hfile hname place

theorem drawer_hasPath : drawer.HasPath := by
  intro s hs
  obtain rfl := List.mem_singleton.mp hs
  exact ⟨by decide, by decide⟩

/-- The name of the directory is the beginning of another one's name, and the directory is entered
again from outside. -/
theorem drawer_confined :
    drawer.HasPath ∧ isSound drawer.steps = true ∧
    drawer.Refuses (refusal "../workshop/a.txt") "../workshop/a.txt" ∧
    drawer.locate "../work/a.txt" = .ok ["work", "a.txt"] ∧
    ∃ top place, drawer.Confinement "b/.//../../work" top place := by
  obtain ⟨hexact, -⟩ := confinement_exact drawer drawer_hasPath
  obtain ⟨hnames, hbeside⟩ := hexact rfl
  obtain ⟨hsibling, hback⟩ := hbeside [] "work" rfl
  have hsteps : ∀ s ∈ ["workshop", "a.txt"], IsStep s := by
    intro s hs
    rcases List.mem_pair.mp hs with rfl | rfl <;> exact ⟨by decide, by decide⟩
  exact ⟨drawer_hasPath, rfl,
    hsibling "workshop" ["a.txt"] hsteps (by unfold IsPlain; decide) (by decide) _ rfl (by decide),
    (hback "a.txt" _ rfl rfl (by decide) _).mpr rfl, hnames _ (by decide)⟩

/-- A workspace whose path leads over another directory and back. -/
def detour : Workspace := ⟨["x", "..", "y"]⟩

/-- Its directory is there, and the one that the path leads over is missing. -/
def detourTree : FileTree := ⟨[(["y"], .directory), (["y", "a.txt"], .file (.text "a"))]⟩

theorem grounded_detourTree : detourTree.Grounded := by
  have hmake : empty.makeDirectory ["y"] = .ok ⟨[(["y"], .directory)]⟩ := rfl
  have hwrite : FileTree.write ⟨[(["y"], .directory)]⟩ ["y", "a.txt"] (.text "a") =
      .ok detourTree := rfl
  exact (grounded_empty.makeDirectory hmake).write hwrite

theorem detour_hasPath : detour.HasPath := by
  intro s hs
  simp only [detour, List.mem_cons, List.not_mem_nil, or_false] at hs
  rcases hs with rfl | rfl | rfl <;> exact ⟨by decide, by decide⟩

/-- A refused name may yet change the listing, for the directory has been made first. -/
theorem refusal_refuted : ¬ ∀ (w : Workspace) (content fileName : String) (t : FileTree),
    w.HasPath → t.Grounded → w.locate fileName = .error (refusal fileName) →
    (w.listFiles (w.writeDocument content fileName t).2).1 = (w.listFiles t).1 := by
  intro h
  have hfound : (detour.writeDocument "c" "../evil" detourTree).2.filesBelow ["y"] =
      [(["a.txt"], .text "a")] := List.mergeSort_singleton _
  have hlisted : (detour.listFiles (detour.writeDocument "c" "../evil" detourTree).2).1 =
      .ok ["a.txt"] := by
    rw [listFiles_of_ready ⟨rfl, rfl⟩]
    exact congrArg Except.ok (congrArg (List.filterMap _) hfound)
  have hsame := h detour "c" "../evil" detourTree detour_hasPath grounded_detourTree rfl
  rw [hlisted] at hsame
  cases hsame

end TeamFlow.Workspace
