import TeamFlow.Workspace.FileTree

/-! # Walking in a tree of files

Reaching a place takes a directory at each place on the way, and at each prefix
of the place that is reached. So a walk is not disturbed by changes that keep
directories, and a walk without steps back depends on nothing but the nodes at
the prefixes of the place that it leads to. -/
namespace TeamFlow

namespace Place

/-- A place that is a list of proper names, as all places are that a walk leads to. -/
def IsPlain (place : Place) : Prop := ".." ∉ place

theorem IsPlain.step {here : Place} (h : here.IsPlain) (name : String) :
    (here.step name).IsPlain := by
  unfold Place.step
  split
  next => exact fun hmem => h (List.dropLast_subset here hmem)
  next hname =>
    intro hmem
    rcases List.mem_append.mp hmem with hmem | hmem
    · exact h hmem
    · exact hname (List.mem_singleton.mp hmem).symm

theorem IsPlain.walk {here : Place} (h : here.IsPlain) (steps : List String) :
    (walk here steps).IsPlain := by
  induction steps generalizing here with
  | nil => exact h
  | cons name steps ih => exact ih (h.step name)

theorem walk_cons (here : Place) (name : String) (steps : List String) :
    walk here (name :: steps) = walk (here.step name) steps := rfl

theorem walk_snoc (here : Place) (steps : List String) (name : String) :
    walk here (steps ++ [name]) = (walk here steps).step name := by
  simp [walk]

theorem IsPlain.walk_eq {names : Place} (h : names.IsPlain) (here : Place) :
    Place.walk here names = here ++ names := by
  induction names generalizing here with
  | nil => simp [Place.walk]
  | cons name names ih =>
    have hname : name ≠ ".." := fun heq => h (heq ▸ List.mem_cons_self)
    rw [walk_cons, Place.step, if_neg hname, ih fun hmem => h (List.mem_cons_of_mem _ hmem),
      List.append_assoc]
    rfl

end Place

namespace FileTree

/-! ## Nodes -/

theorem node?_put (t : FileTree) {place : Place} (hplace : place ≠ []) (node : FileNode)
    (p : Place) : (t.put place node).node? p = if p = place then some node else t.node? p := by
  cases p with
  | nil => rw [if_neg (Ne.symm hplace)]; rfl
  | cons a as =>
    have hnew : (t.put place node).node? (a :: as) = Option.map Prod.snd
        (((t.nodes.filter fun n => n.1 != place).find? fun n => n.1 == a :: as).or
          ([(place, node)].find? fun n => n.1 == a :: as)) := by
      rw [← List.find?_append]
      rfl
    have hold : (t.nodes.filter fun n => n.1 != place).find? (fun n => n.1 == a :: as) =
        if a :: as = place then none else t.nodes.find? fun n => n.1 == a :: as := by
      rw [List.find?_filter]
      split
      next heq =>
        rw [List.find?_eq_none]
        intro n _
        simp [heq]
      next heq =>
        congr 1
        funext n
        by_cases hn : n.1 = a :: as <;> simp [hn, heq]
    rw [hnew, hold]
    by_cases heq : a :: as = place
    · simp [heq]
    · rw [if_neg heq, if_neg heq, List.find?_cons_of_neg (by simpa using Ne.symm heq)]
      simp [node?]

/-- Directories stay directories. -/
def KeepsDirectories (t t' : FileTree) : Prop :=
  ∀ p, t.node? p = some .directory → t'.node? p = some .directory

/-- The same files hold the same. -/
def SameFiles (t t' : FileTree) : Prop :=
  ∀ p c, t'.node? p = some (.file c) ↔ t.node? p = some (.file c)

theorem KeepsDirectories.trans {t u v : FileTree} (h : t.KeepsDirectories u)
    (h' : u.KeepsDirectories v) : t.KeepsDirectories v := fun p hp => h' p (h p hp)

theorem SameFiles.refl (t : FileTree) : t.SameFiles t := fun _ _ => Iff.rfl

theorem SameFiles.trans {t u v : FileTree} (h : t.SameFiles u) (h' : u.SameFiles v) :
    t.SameFiles v := fun p c => (h' p c).trans (h p c)

/-! ## Walks -/

theorem enter_cons_eq_ok {t : FileTree} {here : Place} {name : String} {names : List String}
    {place : Place} (h : t.enter here (name :: names) = .ok place) :
    t.enter (here.step name) names = .ok place ∧
      (name = ".." ∨ t.node? (here.step name) = some .directory) := by
  unfold enter at h
  unfold Place.step
  split at h
  next hback => exact ⟨by rwa [if_pos hback], .inl hback⟩
  next hback =>
    rw [if_neg hback]
    split at h
    next => cases h
    next =>
      split at h
      next hnode => exact ⟨h, .inr hnode⟩
      next => cases h
      next => cases h

theorem enter_eq_ok {t : FileTree} {here place : Place} {names : List String}
    (h : t.enter here names = .ok place) : place = Place.walk here names := by
  induction names generalizing here with
  | nil => cases h; rfl
  | cons name names ih => exact ih (enter_cons_eq_ok h).1

/-- There are directories at all prefixes of a place. -/
def Stands (t : FileTree) (place : Place) : Prop := ∀ q, q <+: place → t.node? q = some .directory

theorem stands_nil (t : FileTree) : t.Stands [] := by
  intro q hq
  rw [List.prefix_nil.mp hq]
  rfl

theorem Stands.dropLast {t : FileTree} {place : Place} (h : t.Stands place) :
    t.Stands place.dropLast := fun q hq => h q (hq.trans (List.dropLast_prefix place))

theorem Stands.snoc {t : FileTree} {place : Place} {name : String} (h : t.Stands place)
    (hnode : t.node? (place ++ [name]) = some .directory) : t.Stands (place ++ [name]) := by
  intro q hq
  rcases List.prefix_concat_iff.mp hq with rfl | hq
  · exact hnode
  · exact h q hq

theorem Stands.step {t : FileTree} {place : Place} {name : String} (h : t.Stands place)
    (hnode : name = ".." ∨ t.node? (place.step name) = some .directory) :
    t.Stands (place.step name) := by
  unfold Place.step at hnode ⊢
  split
  next => exact h.dropLast
  next hname =>
    rw [if_neg hname] at hnode
    exact h.snoc (hnode.resolve_left hname)

theorem Stands.enter {t : FileTree} {here place : Place} {names : List String} (h : t.Stands here)
    (henter : t.enter here names = .ok place) : t.Stands place := by
  induction names generalizing here with
  | nil => cases henter; exact h
  | cons name names ih =>
    obtain ⟨hrest, hnode⟩ := enter_cons_eq_ok henter
    exact ih (h.step hnode) hrest

theorem KeepsDirectories.enter {t t' : FileTree} (h : t.KeepsDirectories t') {here place : Place}
    {names : List String} (henter : t.enter here names = .ok place) :
    t'.enter here names = .ok place := by
  induction names generalizing here with
  | nil => exact henter
  | cons name names ih =>
    unfold FileTree.enter at henter ⊢
    split at henter
    next hback => rw [if_pos hback]; exact ih henter
    next hback =>
      rw [if_neg hback]
      split at henter
      next => cases henter
      next hshort =>
        rw [if_neg hshort]
        split at henter
        next hnode => rw [h _ hnode]; exact ih henter
        next => cases henter
        next => cases henter

/-- A walk without steps back reads only the nodes that it comes by. -/
theorem enter_congr {t t' : FileTree} {here names : Place} (hplain : names.IsPlain)
    (h : ∀ q, q <+: here ++ names → t.node? q = t'.node? q) :
    t.enter here names = t'.enter here names := by
  induction names generalizing here with
  | nil => rfl
  | cons name names ih =>
    have hname : name ≠ ".." := fun heq => hplain (heq ▸ List.mem_cons_self)
    have hnode : t.node? (here ++ [name]) = t'.node? (here ++ [name]) :=
      h _ ⟨names, by simp⟩
    have hrest : t.enter (here ++ [name]) names = t'.enter (here ++ [name]) names :=
      ih (fun hmem => hplain (List.mem_cons_of_mem _ hmem)) (by simpa using h)
    unfold enter
    rw [if_neg hname, if_neg hname, hnode, hrest]

/-! ## Reaching a place -/

theorem reach_eq (t : FileTree) (steps : List String) :
    t.reach steps = if pathBytes ≤ (Place.text steps).utf8ByteSize then .error .nameTooLong
      else (t.enter [] steps.dropLast).bind fun here => match steps.getLast? with
        | none => .ok here
        | some name => if name ≠ ".." ∧ longestName < name.utf8ByteSize then .error .nameTooLong
          else .ok (here.step name) := by
  unfold reach
  by_cases hlong : pathBytes ≤ (Place.text steps).utf8ByteSize
  · simp only [if_pos hlong]
    rfl
  · simp only [if_neg hlong]
    rfl

theorem reach_snoc (t : FileTree) (steps : List String) (name : String) :
    t.reach (steps ++ [name]) =
      if pathBytes ≤ (Place.text (steps ++ [name])).utf8ByteSize then .error .nameTooLong
      else (t.enter [] steps).bind fun here =>
        if name ≠ ".." ∧ longestName < name.utf8ByteSize then .error .nameTooLong
        else .ok (here.step name) := by
  simp only [reach_eq, List.dropLast_concat, List.getLast?_concat]

theorem reach_eq_ok {t : FileTree} {steps : List String} {place : Place}
    (h : t.reach steps = .ok place) : (steps = [] ∧ place = []) ∨
      ∃ names name here, steps = names ++ [name] ∧ t.enter [] names = .ok here ∧
        place = here.step name := by
  rcases List.eq_nil_or_concat steps with rfl | ⟨names, name, rfl⟩
  · cases h
    exact .inl ⟨rfl, rfl⟩
  · rw [List.concat_eq_append] at h ⊢
    rw [reach_snoc] at h
    split at h
    next => cases h
    next =>
      obtain ⟨here, henter, h⟩ := bind_eq_ok.mp h
      split at h
      next => cases h
      next =>
        cases h
        exact .inr ⟨names, name, here, rfl, henter, rfl⟩

theorem walk_of_reach {t : FileTree} {steps : List String} {place : Place}
    (h : t.reach steps = .ok place) : place = Place.walk [] steps := by
  rcases reach_eq_ok h with ⟨rfl, rfl⟩ | ⟨names, name, here, rfl, henter, rfl⟩
  · rfl
  · rw [Place.walk_snoc, enter_eq_ok henter]

theorem stands_of_reach {t : FileTree} {steps : List String} {place : Place}
    (h : t.reach steps = .ok place) (hnode : t.node? place = some .directory) :
    t.Stands place := by
  rcases reach_eq_ok h with ⟨rfl, rfl⟩ | ⟨names, name, here, rfl, henter, rfl⟩
  · exact t.stands_nil
  · exact (t.stands_nil.enter henter).step (.inr hnode)

theorem KeepsDirectories.reach {t t' : FileTree} (h : t.KeepsDirectories t') {steps : List String}
    {place : Place} (hreach : t.reach steps = .ok place) : t'.reach steps = .ok place := by
  rcases List.eq_nil_or_concat steps with rfl | ⟨names, name, rfl⟩
  · exact hreach
  · rw [List.concat_eq_append, reach_snoc] at hreach ⊢
    split at hreach
    next => cases hreach
    next hshort =>
      obtain ⟨here, henter, hreach⟩ := bind_eq_ok.mp hreach
      rw [if_neg hshort]
      exact bind_eq_ok.mpr ⟨here, h.enter henter, hreach⟩

/-- Reaching a place reads only the nodes at its prefixes. -/
theorem reach_congr {t t' : FileTree} {place : Place} (hplain : place.IsPlain)
    (h : ∀ q, q <+: place → t.node? q = t'.node? q) : t.reach place = t'.reach place := by
  have henter : t.enter [] place.dropLast = t'.enter [] place.dropLast := by
    refine enter_congr (fun hmem => hplain (List.dropLast_subset place hmem)) fun q hq => ?_
    exact h q (hq.trans (List.dropLast_prefix place))
  rw [reach_eq, reach_eq, henter]

theorem reach_of_plain {t : FileTree} {place p : Place} (hplain : place.IsPlain)
    (h : t.reach place = .ok p) : p = place := by
  rw [walk_of_reach h, hplain.walk_eq, List.nil_append]

theorem isDirectory_iff (t : FileTree) (steps : List String) :
    t.isDirectory steps = true ↔
      ∃ place, t.reach steps = .ok place ∧ t.node? place = some .directory := by
  unfold isDirectory look
  cases hreach : t.reach steps with
  | error f => simp [bind, Except.bind]
  | ok place =>
    cases hnode : t.node? place with
    | none => simp [bind, Except.bind, hnode]
    | some n => cases n <;> simp [bind, Except.bind, hnode]

/-! ## Changes -/

theorem ne_nil_of_node? {t : FileTree} {place : Place}
    (h : t.node? place ≠ some .directory) : place ≠ [] := by
  rintro rfl
  exact h rfl

theorem write_eq_ok {t t' : FileTree} {steps : List String} {c : Content}
    (h : t.write steps c = .ok t') : ∃ place, t.reach steps = .ok place ∧
      t.node? place ≠ some .directory ∧ t' = t.put place (.file c) := by
  obtain ⟨place, hreach, h⟩ := bind_eq_ok.mp h
  split at h
  next => cases h
  next hnode =>
    cases h
    exact ⟨place, hreach, hnode, rfl⟩

theorem makeDirectory_eq_ok {t t' : FileTree} {steps : List String}
    (h : t.makeDirectory steps = .ok t') : ∃ place, t.reach steps = .ok place ∧
      t.node? place = none ∧ t' = t.put place .directory := by
  obtain ⟨place, hreach, h⟩ := bind_eq_ok.mp h
  split at h
  next => cases h
  next hnode =>
    cases h
    exact ⟨place, hreach, hnode, rfl⟩

theorem keepsDirectories_put {t : FileTree} {place : Place}
    (h : t.node? place ≠ some .directory) (node : FileNode) :
    t.KeepsDirectories (t.put place node) := by
  intro p hp
  have hne : p ≠ place := fun heq => h (heq ▸ hp)
  rw [node?_put t (ne_nil_of_node? h), if_neg hne, hp]

/-- Some directories have been made where nothing was, all of them on given ways. -/
def Grows (ways : Place → Prop) (t t' : FileTree) : Prop :=
  ∀ p, t'.node? p = t.node? p ∨
    (ways p ∧ t.node? p = none ∧ t'.node? p = some .directory)

theorem Grows.refl (ways : Place → Prop) (t : FileTree) : t.Grows ways t := fun _ => .inl rfl

theorem Grows.trans {ways : Place → Prop} {t u v : FileTree} (h : Grows ways t u)
    (h' : Grows ways u v) : Grows ways t v := by
  intro p
  rcases h p with heq | ⟨hway, hnone, hmade⟩
  · rw [← heq]
    exact h' p
  · rcases h' p with heq | ⟨_, hmissing, _⟩
    · exact .inr ⟨hway, hnone, heq.trans hmade⟩
    · rw [hmade] at hmissing
      cases hmissing

theorem Grows.mono {ways more : Place → Prop} {t t' : FileTree} (h : Grows ways t t')
    (hways : ∀ p, ways p → more p) : Grows more t t' :=
  fun p => (h p).imp_right fun hp => ⟨hways p hp.1, hp.2⟩

theorem Grows.keepsDirectories {ways : Place → Prop} {t t' : FileTree} (h : Grows ways t t') :
    t.KeepsDirectories t' := by
  intro p hp
  rcases h p with heq | ⟨_, hnone, _⟩
  · rw [heq, hp]
  · rw [hp] at hnone
    cases hnone

theorem Grows.sameFiles {ways : Place → Prop} {t t' : FileTree} (h : Grows ways t t') :
    t.SameFiles t' := by
  intro p c
  rcases h p with heq | ⟨_, hnone, hmade⟩
  · rw [heq]
  · simp [hnone, hmade]

theorem grows_makeDirectory {t t' : FileTree} {steps : List String}
    (h : t.makeDirectory steps = .ok t') : Grows (· = Place.walk [] steps) t t' := by
  obtain ⟨place, hreach, hnone, rfl⟩ := makeDirectory_eq_ok h
  have hplace := ne_nil_of_node? (t := t) (by rw [hnone]; exact nofun)
  intro p
  rw [node?_put t hplace]
  split
  next heq => exact .inr ⟨heq.trans (walk_of_reach hreach), heq ▸ hnone, rfl⟩
  next => exact .inl rfl

theorem isDirectory_of_makeDirectory {t t' : FileTree} {steps : List String}
    (h : t.makeDirectory steps = .ok t') : t'.isDirectory steps = true := by
  have hkeeps := (grows_makeDirectory h).keepsDirectories
  obtain ⟨place, hreach, hnone, rfl⟩ := makeDirectory_eq_ok h
  have hplace := ne_nil_of_node? (t := t) (by rw [hnone]; exact nofun)
  refine (isDirectory_iff _ _).mpr ⟨place, hkeeps.reach hreach, ?_⟩
  rw [node?_put t hplace, if_pos rfl]

/-- The last try to make a directory: one that is there already will do. -/
def settled (steps : List String) (t : FileTree) :
    Except (FileFault × List String) Unit × FileTree :=
  match t.makeDirectory steps with
  | .ok t => (.ok (), t)
  | .error f => (if t.isDirectory steps then .ok () else .error (f, steps), t)

theorem makeDirectories_cons (name : String) (above : List String) (t : FileTree) :
    makeDirectories (name :: above) t = match t.makeDirectory (name :: above).reverse with
      | .error .notFound => match makeDirectories above t with
        | (.ok (), u) => settled (name :: above).reverse u
        | (.error f, u) => (.error f, u)
      | _ => settled (name :: above).reverse t := rfl

theorem grows_settled (steps : List String) (t : FileTree) :
    Grows (· = Place.walk [] steps) t (settled steps t).2 := by
  unfold settled
  split
  next hmade => exact grows_makeDirectory hmade
  next => exact .refl _ t

theorem isDirectory_of_settled {steps : List String} {t u : FileTree}
    (h : settled steps t = (.ok (), u)) : u.isDirectory steps = true := by
  unfold settled at h
  split at h
  next hmade =>
    cases h
    exact isDirectory_of_makeDirectory hmade
  next =>
    split at h
    next hthere =>
      cases h
      exact hthere
    next => cases h

/-- Directories are made on the way to the one that is asked for. -/
theorem grows_makeDirectories (names : List String) (t : FileTree) :
    Grows (fun p => ∃ steps, steps <+: names.reverse ∧ p = Place.walk [] steps) t
      (makeDirectories names t).2 := by
  induction names generalizing t with
  | nil => exact .refl _ t
  | cons name above ih =>
    have hsettled : ∀ u, Grows (fun p => ∃ steps, steps <+: (name :: above).reverse ∧
        p = Place.walk [] steps) u (settled (name :: above).reverse u).2 := fun u =>
      (grows_settled _ u).mono fun _ hp => ⟨_, List.prefix_refl _, hp⟩
    have habove : Grows (fun p => ∃ steps, steps <+: (name :: above).reverse ∧
        p = Place.walk [] steps) t (makeDirectories above t).2 :=
      (ih t).mono fun _ ⟨steps, hsteps, hp⟩ =>
        ⟨steps, hsteps.trans ⟨[name], List.reverse_cons.symm⟩, hp⟩
    rw [makeDirectories_cons]
    split
    next =>
      split
      next hcall => rw [hcall] at habove; exact habove.trans (hsettled _)
      next hcall => rw [hcall] at habove; exact habove
    next => exact hsettled t

theorem isDirectory_of_makeDirectories {names : List String} {t u : FileTree}
    (h : makeDirectories names t = (.ok (), u)) : u.isDirectory names.reverse = true := by
  cases names with
  | nil => rfl
  | cons name above =>
    rw [makeDirectories_cons] at h
    split at h
    next =>
      split at h
      next => exact isDirectory_of_settled h
      next => cases h
    next => exact isDirectory_of_settled h

theorem makeDirectories_eq {names : List String} {t : FileTree}
    (h : t.isDirectory names.reverse = true) : makeDirectories names t = (.ok (), t) := by
  cases names with
  | nil => rfl
  | cons name above =>
    obtain ⟨place, hreach, hnode⟩ := (isDirectory_iff _ _).mp h
    have hmake : t.makeDirectory (name :: above).reverse = .error .present := by
      unfold makeDirectory
      rw [hreach]
      simp only [bind, Except.bind, hnode]
    rw [makeDirectories_cons, hmake]
    simp only [settled, hmake, h, if_true]

end FileTree

end TeamFlow
