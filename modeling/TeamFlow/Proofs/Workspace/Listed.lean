import TeamFlow.Proofs.Workspace.Confinement

/-! # What making directories does to a listing

Writing begins with making the directory of the workspace. New directories are no
files, so nothing more is in the directory then than before. But a listing also
takes the way to the directory: where that leads back over a directory that is
missing, nothing is listed until it has been made (`listFiles_ensure`). -/
namespace TeamFlow

namespace FileTree

/-! ## What making directories leaves alone -/

theorem nodes_put_new {t : FileTree} {place : Place} (h : t.node? place = none)
    (node : FileNode) : (t.put place node).nodes = t.nodes ++ [(place, node)] := by
  cases place with
  | nil => cases h
  | cons a as =>
    have hnew : (t.nodes.find? fun n => n.1 == a :: as) = none := by
      simpa [node?] using h
    have hkept : t.nodes.filter (fun n => n.1 != a :: as) = t.nodes := by
      refine List.filter_eq_self.mpr fun n hn => ?_
      simpa using List.find?_eq_none.mp hnew n hn
    rw [put, hkept]

theorem fileNames_put {t : FileTree} {place : Place} (h : t.node? place = none)
    (root : Place) : (t.put place .directory).fileNames root = t.fileNames root := by
  simp only [fileNames, filesBelow, nodes_put_new h, List.filterMap_append, List.filterMap_cons,
    List.filterMap_nil, List.append_nil]

theorem fileNames_makeDirectory {t u : FileTree} {steps : List String}
    (h : t.makeDirectory steps = .ok u) (root : Place) : u.fileNames root = t.fileNames root := by
  obtain ⟨place, _, hnone, rfl⟩ := makeDirectory_eq_ok h
  exact fileNames_put hnone root

/-- What holds on from directory to directory that is made holds after all have been made. -/
theorem makeDirectories_keeps {P : FileTree → Prop}
    (hstep : ∀ t u steps, t.makeDirectory steps = .ok u → P t → P u) (names : List String)
    {t : FileTree} (h : P t) : P (makeDirectories names t).2 := by
  have hsettled : ∀ steps u, P u → P (settled steps u).2 := by
    intro steps u hu
    unfold settled
    split
    next hmade => exact hstep _ _ _ hmade hu
    next => exact hu
  induction names generalizing t with
  | nil => exact h
  | cons name above ih =>
    have habove := ih h
    rw [makeDirectories_cons]
    split
    next =>
      split
      next hcall => rw [hcall] at habove; exact hsettled _ _ habove
      next hcall => rw [hcall] at habove; exact habove
    next => exact hsettled _ _ h

/-- What is there stands in a directory, as in every tree of files that has been made. -/
def Grounded (t : FileTree) : Prop :=
  ∀ place name, t.node? (place ++ [name]) ≠ none → t.node? place = some .directory

theorem node?_of_mem {t : FileTree} {place : Place} {node : FileNode} (hplace : place ≠ [])
    (h : (place, node) ∈ t.nodes) : t.node? place ≠ none := by
  cases place with
  | nil => exact absurd rfl hplace
  | cons a as =>
    intro hnone
    have hnew : (t.nodes.find? fun n => n.1 == a :: as) = none := by
      simpa [node?] using hnone
    simpa using List.find?_eq_none.mp hnew _ h

/-- There are files in directories only. -/
theorem Grounded.fileNames_eq_nil {t : FileTree} (h : t.Grounded) {root : Place}
    (hroot : t.node? root ≠ some .directory) : t.fileNames root = [] := by
  refine List.filterMap_eq_nil_iff.mpr fun found hfound => ?_
  obtain ⟨below, content⟩ := found
  have hbelow := (List.mergeSort_perm _ _).mem_iff.mp hfound
  obtain ⟨⟨place, node⟩, hmem, hnode⟩ := List.mem_filterMap.mp hbelow
  cases node with
  | directory => cases hnode
  | file c =>
    dsimp only at hnode
    split at hnode
    next hcovers =>
      cases hnode
      obtain ⟨rest, rfl⟩ := (Place.covers_iff _ _).mp hcovers
      rw [List.drop_left]
      rcases rest with _ | ⟨name, _ | ⟨_, _⟩⟩
      · rfl
      · exact absurd (h root name (node?_of_mem (by simp) hmem)) hroot
      · rfl
    next => cases hnode

theorem KeepsDirectories.enter_tooLong {t u : FileTree} (h : t.KeepsDirectories u) {here : Place}
    {names : List String} (henter : t.enter here names = .error .nameTooLong) :
    u.enter here names = .error .nameTooLong := by
  induction names generalizing here with
  | nil => cases henter
  | cons name names ih =>
    unfold FileTree.enter at henter ⊢
    split at henter
    next hback => rw [if_pos hback]; exact ih henter
    next hback =>
      rw [if_neg hback]
      split at henter
      next hlong => rw [if_pos hlong]
      next hshort =>
        rw [if_neg hshort]
        split at henter
        next hnode => rw [h _ hnode]; exact ih henter
        next => cases henter
        next => cases henter

theorem KeepsDirectories.reach_tooLong {t u : FileTree} (h : t.KeepsDirectories u)
    {steps : List String} (hreach : t.reach steps = .error .nameTooLong) :
    u.reach steps = .error .nameTooLong := by
  rw [reach_eq] at hreach ⊢
  split at hreach
  next hlong => rw [if_pos hlong]
  next hshort =>
    rw [if_neg hshort]
    cases henter : t.enter [] steps.dropLast with
    | error f =>
      rw [henter] at hreach
      cases hreach
      rw [h.enter_tooLong henter]
      rfl
    | ok here =>
      rw [henter] at hreach
      rw [h.enter henter]
      exact hreach

theorem Grows.look_file {ways : Place → Prop} {t u : FileTree} (h : Grows ways t u)
    {steps : List String} {c : Content} (hlook : t.look steps = .ok (.file c)) :
    u.look steps = .ok (.file c) := by
  obtain ⟨place, hreach, hnode⟩ := bind_eq_ok.mp hlook
  have hfile : t.node? place = some (.file c) := by
    split at hnode
    next hfound => rw [hfound, Except.ok.inj hnode]
    next => cases hnode
  simp only [look, h.keepsDirectories.reach hreach, (h.sameFiles place c).mpr hfile, bind,
    Except.bind]

theorem KeepsDirectories.look_tooLong {t u : FileTree} (h : t.KeepsDirectories u)
    {steps : List String} (hlook : t.look steps = .error .nameTooLong) :
    u.look steps = .error .nameTooLong := by
  unfold look at hlook ⊢
  cases hreach : t.reach steps with
  | error f =>
    rw [hreach] at hlook
    cases hlook
    rw [h.reach_tooLong hreach]
    rfl
  | ok place =>
    simp only [hreach, bind, Except.bind] at hlook
    split at hlook <;> cases hlook

/-! ## Trees that have been made -/

theorem grounded_empty : empty.Grounded := by
  intro place name h
  exact absurd (by cases place <;> rfl) h

theorem Grounded.put {t : FileTree} (h : t.Grounded) {steps : List String} {place : Place}
    (hreach : t.reach steps = .ok place) (hnode : t.node? place ≠ some .directory)
    (node : FileNode) : (t.put place node).Grounded := by
  have hplace := ne_nil_of_node? hnode
  have hstands : t.node? place.dropLast = some .directory := by
    rcases reach_eq_ok hreach with ⟨_, rfl⟩ | ⟨names, name, here, _, henter, rfl⟩
    · exact absurd rfl hplace
    · have hhere := t.stands_nil.enter henter
      unfold Place.step at hnode ⊢
      split
      next hback =>
        rw [if_pos hback] at hnode
        exact absurd (hhere.dropLast _ (List.prefix_refl _)) hnode
      next => exact List.dropLast_concat ▸ hhere here (List.prefix_refl here)
  intro p name hp
  have hparent : t.node? p = some .directory := by
    by_cases heq : p ++ [name] = place
    · rwa [← heq, List.dropLast_concat] at hstands
    · rw [node?_put t hplace, if_neg heq] at hp
      exact h p name hp
  have hne : p ≠ place := by
    rintro rfl
    exact hnode hparent
  rw [node?_put t hplace, if_neg hne, hparent]

theorem Grounded.write {t u : FileTree} (h : t.Grounded) {steps : List String} {c : Content}
    (hwrite : t.write steps c = .ok u) : u.Grounded := by
  obtain ⟨place, hreach, hnode, rfl⟩ := write_eq_ok hwrite
  exact h.put hreach hnode _

theorem Grounded.makeDirectory {t u : FileTree} (h : t.Grounded) {steps : List String}
    (hmake : t.makeDirectory steps = .ok u) : u.Grounded := by
  obtain ⟨place, hreach, hnone, rfl⟩ := makeDirectory_eq_ok hmake
  exact h.put hreach (by rw [hnone]; exact nofun) _

end FileTree

namespace Workspace

open FileTree

variable {w : Workspace} {t : FileTree}

theorem ensure_of_null (h : Place.isSound w.steps = false) (t : FileTree) :
    w.ensure t = (.error nullByte, t) := by
  unfold ensure
  rw [h]
  rfl

theorem ensure_keeps {P : FileTree → Prop}
    (hstep : ∀ t u steps, t.makeDirectory steps = .ok u → P t → P u) (h : P t) :
    P (w.ensure t).2 := by
  cases hsound : Place.isSound w.steps with
  | false => rwa [ensure_of_null hsound]
  | true =>
    have hmade := makeDirectories_keeps hstep w.steps.reverse h
    rw [ensure_eq hsound]
    split
    next hcall => rw [hcall] at hmade; exact hmade
    next hcall => rw [hcall] at hmade; exact hmade

theorem fileNames_ensure (t : FileTree) (root : Place) :
    (w.ensure t).2.fileNames root = t.fileNames root :=
  ensure_keeps (P := fun u => u.fileNames root = t.fileNames root)
    (fun _ _ _ hmake h => (fileNames_makeDirectory hmake root).trans h) rfl

/-! ## The listing -/

theorem listFiles_eq (hsound : Place.isSound w.steps = true) (t : FileTree) :
    w.listFiles t = match t.look w.steps with
      | .ok .directory => (.ok (t.fileNames w.root), t)
      | .ok (.file _) => (.error (FileFault.notDirectory.atPath w.path), t)
      | .error .nameTooLong => (.error (FileFault.nameTooLong.atPath w.path), t)
      | .error _ => (.ok [], t) := by
  unfold listFiles
  rw [hsound]
  rfl

theorem listFiles_of_ready (h : w.Ready t) : (w.listFiles t).1 = .ok (t.fileNames w.root) := by
  obtain ⟨place, hreach, hnode⟩ := (isDirectory_iff _ _).mp h.there
  have hlook : t.look w.steps = .ok .directory := by
    simp only [look, hreach, hnode, bind, Except.bind]
  rw [listFiles_eq h.sound, hlook]

theorem listFiles_of_not_ready (hsound : Place.isSound w.steps = true) (h : ¬ w.Ready t) :
    (w.listFiles t).1 = .ok [] ∨ (∃ c, t.look w.steps = .ok (.file c)) ∨
      t.look w.steps = .error .nameTooLong := by
  rw [listFiles_eq hsound]
  cases hlook : t.look w.steps with
  | ok node =>
    cases node with
    | directory => exact absurd ⟨hsound, by rw [isDirectory, hlook]⟩ h
    | file c => exact .inr (.inl ⟨c, rfl⟩)
  | error f => cases f <;> simp

/-- Making the directory does not change what is listed, unless there is a directory already to
which the steps lead only once missing ones have been made. -/
theorem listFiles_ensure (hmade : (w.ensure t).1 = .ok ()) (hgrounded : t.Grounded)
    (hroot : t.node? w.root = some .directory → w.Ready t) :
    (w.listFiles (w.ensure t).2).1 = (w.listFiles t).1 := by
  by_cases hready : w.Ready t
  · rw [hready.ensure_eq]
  have hu : w.Ready (w.ensure t).2 := ready_of_ensure (Prod.ext hmade rfl)
  have hnames : (w.ensure t).2.fileNames w.root = t.fileNames w.root := fileNames_ensure t w.root
  rw [hgrounded.fileNames_eq_nil fun hnode => hready (hroot hnode)] at hnames
  have hgrows : t.Grows w.OnTheWay (w.ensure t).2 := grows_ensure t
  rcases listFiles_of_not_ready hu.sound hready with hnone | ⟨c, hlook⟩ | hlook
  · rw [hnone, listFiles_of_ready hu, hnames]
  · rw [listFiles_eq hu.sound, listFiles_eq hu.sound, hlook, hgrows.look_file hlook]
  · rw [listFiles_eq hu.sound, listFiles_eq hu.sound, hlook, hgrows.keepsDirectories.look_tooLong hlook]

end Workspace

end TeamFlow
