import TeamFlow.Chat.Tool
import TeamFlow.Proofs.Workspace.Tree

/-! # Workspaces confine

What a workspace does stays inside it (`Confines`): it changes nothing outside,
except that a directory that has gone missing is made again with those above it,
and as long as the directory is there neither what it answers nor what it leaves
inside depends on anything outside. This is shown for the three acts that touch
files and then holds for whatever is made of them. -/
namespace TeamFlow

open FileTree

namespace Workspace

variable (w : Workspace)

/-- The directory of the workspace is there. -/
structure Ready (t : FileTree) : Prop where
  sound : Place.isSound w.steps = true
  there : t.isDirectory w.steps = true

/-- Places on the way to the directory. -/
def OnTheWay (p : Place) : Prop := ∃ steps, steps <+: w.steps ∧ p = Place.walk [] steps

/-- Trees that look the same from inside the workspace. -/
def Alike (t t' : FileTree) : Prop := ∀ p, w.root <+: p → t.node? p = t'.node? p

/-- A change that stays inside: outside, at most missing directories on the way have been made. -/
structure StaysInside (t t' : FileTree) : Prop where
  outside : ∀ p, ¬ w.root <+: p → t'.node? p = t.node? p ∨
    (¬ w.Ready t ∧ w.OnTheWay p ∧ t.node? p = none ∧ t'.node? p = some .directory)
  keeps : t.KeepsDirectories t'

variable {w}

theorem root_plain : w.root.IsPlain := Place.IsPlain.walk (h := List.not_mem_nil) w.steps

theorem Ready.stands {t : FileTree} (h : w.Ready t) : t.Stands w.root := by
  obtain ⟨place, hreach, hnode⟩ := (isDirectory_iff _ _).mp h.there
  obtain rfl := walk_of_reach hreach
  exact stands_of_reach hreach hnode

theorem Ready.kept {t t' : FileTree} (h : w.Ready t) (hkeeps : t.KeepsDirectories t') :
    w.Ready t' := by
  obtain ⟨place, hreach, hnode⟩ := (isDirectory_iff _ _).mp h.there
  exact ⟨h.sound, (isDirectory_iff _ _).mpr ⟨place, hkeeps.reach hreach, hkeeps _ hnode⟩⟩

theorem StaysInside.refl (t : FileTree) : w.StaysInside t t := ⟨fun _ _ => .inl rfl, fun _ => id⟩

theorem StaysInside.trans {t u v : FileTree} (h : w.StaysInside t u) (h' : w.StaysInside u v) :
    w.StaysInside t v := by
  refine ⟨fun p hp => ?_, h.keeps.trans h'.keeps⟩
  rcases h.outside p hp with heq | ⟨hmissing, hway, hnone, hmade⟩
  · rcases h'.outside p hp with heq' | ⟨hmissing, hway, hnone, hmade⟩
    · exact .inl (heq'.trans heq)
    · exact .inr ⟨fun hready => hmissing (hready.kept h.keeps), hway, heq ▸ hnone, hmade⟩
  · exact .inr ⟨hmissing, hway, hnone, h'.keeps p hmade⟩

/-! ## Acts that stay inside -/

variable (w) in
/-- An act that stays inside the workspace. -/
structure Confines {α : Type} (x : Act FileTree α) : Prop where
  stays : ∀ t, w.StaysInside t (x t).2
  blind : ∀ t t', w.Ready t → w.Ready t' → w.Alike t t' →
    (x t).1 = (x t').1 ∧ w.Alike (x t).2 (x t').2

section Confines

variable {α β : Type}

theorem Confines.ofExcept (r : Except Failure α) : w.Confines (Act.ofExcept r) :=
  ⟨fun t => .refl t, fun _ _ _ _ halike => ⟨rfl, halike⟩⟩

theorem Confines.bind {x : Act FileTree α} {f : α → Act FileTree β} (hx : w.Confines x)
    (hf : ∀ a, w.Confines (f a)) : w.Confines (x >>= f) := by
  constructor
  · intro t
    have hstays := hx.stays t
    rw [Act.bind_apply]
    rcases hcall : x t with ⟨r | a, u⟩ <;> rw [hcall] at hstays
    · exact hstays
    · exact hstays.trans ((hf a).stays u)
  · intro t t' hready hready' halike
    obtain ⟨hsame, halike'⟩ := hx.blind t t' hready hready' halike
    have hu := hready.kept (hx.stays t).keeps
    have hu' := hready'.kept (hx.stays t').keeps
    rw [Act.bind_apply, Act.bind_apply]
    rcases hcall : x t with ⟨r, u⟩
    rcases hcall' : x t' with ⟨r', u'⟩
    rw [hcall] at hsame halike' hu
    rw [hcall'] at hsame halike' hu'
    obtain rfl : r = r' := hsame
    cases r with
    | error why => exact ⟨rfl, halike'⟩
    | ok a => exact (hf a).blind u u' hu hu' halike'

theorem Confines.attempt {x : Act FileTree α} (hx : w.Confines x) : w.Confines x.attempt := by
  refine ⟨hx.stays, fun t t' hready hready' halike => ?_⟩
  obtain ⟨hsame, halike'⟩ := hx.blind t t' hready hready' halike
  exact ⟨congrArg Except.ok hsame, halike'⟩

end Confines

/-! ## Making the directory -/

theorem ensure_eq (hsound : Place.isSound w.steps = true) (t : FileTree) :
    w.ensure t = match t.makeDirectories w.steps.reverse with
      | (.ok (), t) => (.ok (), t)
      | (.error (f, steps), t) => (.error (f.atPath (Place.text steps)), t) := by
  unfold ensure
  rw [hsound]
  rfl

theorem grows_ensure (t : FileTree) : t.Grows w.OnTheWay (w.ensure t).2 := by
  cases hsound : Place.isSound w.steps with
  | false =>
    unfold ensure
    rw [hsound]
    exact .refl _ t
  | true =>
    have hgrows := grows_makeDirectories w.steps.reverse t
    rw [List.reverse_reverse] at hgrows
    rw [ensure_eq hsound]
    split
    next hcall => rw [hcall] at hgrows; exact hgrows
    next hcall => rw [hcall] at hgrows; exact hgrows

theorem ready_of_ensure {t u : FileTree} (h : w.ensure t = (.ok (), u)) : w.Ready u := by
  cases hsound : Place.isSound w.steps with
  | false =>
    unfold ensure at h
    rw [hsound] at h
    cases h
  | true =>
    rw [ensure_eq hsound] at h
    split at h
    next hcall =>
      cases h
      have hthere := isDirectory_of_makeDirectories hcall
      rw [List.reverse_reverse] at hthere
      exact ⟨hsound, hthere⟩
    next => cases h

theorem Ready.ensure_eq {t : FileTree} (h : w.Ready t) : w.ensure t = (.ok (), t) := by
  have hmake : t.makeDirectories w.steps.reverse = (.ok (), t) :=
    makeDirectories_eq (by rw [List.reverse_reverse]; exact h.there)
  rw [Workspace.ensure_eq h.sound, hmake]

theorem confines_ensure : w.Confines w.ensure := by
  constructor
  · intro t
    refine ⟨fun p _ => ?_, (grows_ensure t).keepsDirectories⟩
    by_cases hready : w.Ready t
    · rw [hready.ensure_eq]
      exact .inl rfl
    · exact (grows_ensure t p).imp_right fun hp => ⟨hready, hp⟩
  · intro t t' hready hready' halike
    rw [hready.ensure_eq, hready'.ensure_eq]
    exact ⟨rfl, halike⟩

/-! ## Reading and writing -/

theorem locate_eq_ok {fileName : String} {place : Place} (h : w.locate fileName = .ok place) :
    w.root <+: place ∧ place.IsPlain := by
  unfold locate at h
  split at h
  next => cases h
  next =>
    dsimp only at h
    split at h
    next hcovers =>
      cases h
      refine ⟨(Place.covers_iff _ _).mp hcovers, ?_⟩
      unfold Place.follow
      split
      · exact Place.IsPlain.walk (h := List.not_mem_nil) _
      · exact root_plain.walk _
    next => cases h

theorem Alike.reach {t t' : FileTree} (h : w.Alike t t') (hready : w.Ready t)
    (hready' : w.Ready t') {place : Place} (hinside : w.root <+: place) (hplain : place.IsPlain) :
    t.reach place = t'.reach place := by
  refine reach_congr hplain fun q hq => ?_
  rcases List.prefix_or_prefix_of_prefix hinside hq with hbelow | habove
  · exact h q hbelow
  · rw [hready.stands q habove, hready'.stands q habove]

/-- What is found at a place inside is the same in trees that look the same from inside. -/
theorem Alike.read {t t' : FileTree} (h : w.Alike t t') (hready : w.Ready t)
    (hready' : w.Ready t') {place : Place} (hinside : w.root <+: place) (hplain : place.IsPlain) :
    t.read place = t'.read place := by
  have hreach := h.reach hready hready' hinside hplain
  unfold FileTree.read look
  rw [← hreach]
  cases hp : t.reach place with
  | error f => rfl
  | ok p =>
    obtain rfl := reach_of_plain hplain hp
    simp only [bind, Except.bind, h p hinside]

/-- A write inside goes the same way in trees that look the same from inside. -/
theorem Alike.write {t t' : FileTree} (h : w.Alike t t') (hready : w.Ready t)
    (hready' : w.Ready t') {place : Place} (hinside : w.root <+: place) (hplain : place.IsPlain)
    (c : Content) : (∃ f, t.write place c = .error f ∧ t'.write place c = .error f) ∨
      ∃ u u', t.write place c = .ok u ∧ t'.write place c = .ok u' ∧ w.Alike u u' := by
  have hreach := h.reach hready hready' hinside hplain
  unfold FileTree.write
  rw [← hreach]
  cases hp : t.reach place with
  | error f => exact .inl ⟨f, rfl, rfl⟩
  | ok p =>
    obtain rfl := reach_of_plain hplain hp
    simp only [bind, Except.bind, ← h p hinside]
    by_cases hnode : t.node? p = some .directory
    · exact .inl ⟨.isDirectory, by simp only [hnode], by simp only [hnode]⟩
    · have hplace := ne_nil_of_node? hnode
      refine .inr ⟨t.put p (.file c), t'.put p (.file c), ?_, ?_, ?_⟩
      · split
        next heq => exact absurd heq hnode
        next => rfl
      · split
        next heq => exact absurd heq hnode
        next => rfl
      · intro q hq
        rw [node?_put t hplace, node?_put t' hplace, h q hq]

theorem store_apply (fileName text : String) (t : FileTree) :
    w.store fileName text t = match w.locate fileName with
      | .error why => (.error why, t)
      | .ok place => match t.write place (.text text) with
        | .error f => (.error (f.atPath (Place.text place)), t)
        | .ok u => (.ok (), u) := by
  unfold store
  rw [Act.bind_apply]
  cases w.locate fileName with
  | error why => rfl
  | ok place =>
    cases hwrite : t.write place (.text text) <;>
      simp [Act.bind_apply, Act.get, Act.modify, liftM, monadLift, MonadLift.monadLift,
        Act.ofExcept, reported, hwrite]

theorem fetch_apply (fileName : String) (t : FileTree) :
    w.fetch fileName t = (match w.locate fileName with
      | .error why => .error why
      | .ok place => match t.read place with
        | .error f => .error (f.atPath (Place.text place))
        | .ok (.text s) => .ok (Text.lineFeeds s)
        | .ok (.undecodable _) => .error (.unworded .undecodable), t) := by
  unfold fetch
  rw [Act.bind_apply]
  cases w.locate fileName with
  | error why => rfl
  | ok place =>
    cases hread : t.read place with
    | error f => simp [Act.bind_apply, Act.get, liftM, monadLift, MonadLift.monadLift,
        Act.ofExcept, reported, hread]
    | ok c => cases c <;> simp [Act.bind_apply, Act.get, liftM, monadLift, MonadLift.monadLift,
        Act.ofExcept, reported, hread, Act.fail, Act.pure_apply]

theorem confines_store (fileName text : String) : w.Confines (w.store fileName text) := by
  constructor
  · intro t
    rw [store_apply]
    split
    next => exact .refl t
    next place hplace =>
      obtain ⟨hinside, hplain⟩ := locate_eq_ok hplace
      split
      next => exact .refl t
      next u hwrite =>
        obtain ⟨p, hreach, hnode, rfl⟩ := write_eq_ok hwrite
        obtain rfl := reach_of_plain hplain hreach
        refine ⟨fun q hq => .inl ?_, keepsDirectories_put hnode _⟩
        have hne : q ≠ p := fun heq => hq (heq ▸ hinside)
        rw [node?_put t (ne_nil_of_node? hnode), if_neg hne]
  · intro t t' hready hready' halike
    rw [store_apply, store_apply]
    cases hplace : w.locate fileName with
    | error why => exact ⟨rfl, halike⟩
    | ok place =>
      obtain ⟨hinside, hplain⟩ := locate_eq_ok hplace
      rcases halike.write hready hready' hinside hplain (.text text) with
        ⟨f, hf, hf'⟩ | ⟨u, u', hu, hu', halike'⟩
      · simp only [hf, hf']
        exact ⟨trivial, halike⟩
      · simp only [hu, hu']
        exact ⟨trivial, halike'⟩

theorem confines_fetch (fileName : String) : w.Confines (w.fetch fileName) := by
  constructor
  · intro t
    rw [fetch_apply]
    exact .refl t
  · intro t t' hready hready' halike
    rw [fetch_apply, fetch_apply]
    refine ⟨?_, halike⟩
    cases hplace : w.locate fileName with
    | error why => rfl
    | ok place =>
      obtain ⟨hinside, hplain⟩ := locate_eq_ok hplace
      simp only [halike.read hready hready' hinside hplain]

/-! ## Documents -/

theorem confines_writeDocument (content fileName : String) :
    w.Confines (w.writeDocument content fileName) :=
  confines_ensure.bind fun _ => (confines_store fileName content).bind fun _ => .ofExcept _

theorem confines_readDocument (fileName : String) (first last : Option Int) :
    w.Confines (w.readDocument fileName first last) :=
  (confines_fetch fileName).bind fun _ => .ofExcept _

theorem confines_editDocument (fileName : String) (inserts : List (Int × String)) :
    w.Confines (w.editDocument fileName inserts) := by
  refine (confines_fetch fileName).bind fun text => ?_
  split
  next => exact .ofExcept _
  next => exact (confines_store fileName _).bind fun _ => .ofExcept _

theorem confines_createOutline (points : List String) (fileName : String) :
    w.Confines (w.createOutline points fileName) :=
  confines_ensure.bind fun _ => (confines_store fileName _).bind fun _ => .ofExcept _

/-- All tools of a workspace stay inside it. -/
theorem confines_tools {tool : Tool} (h : tool ∈ w.tools) (args : Table Value) :
    w.Confines (tool.run args) := by
  simp only [tools, List.mem_cons, List.not_mem_nil, or_false] at h
  rcases h with rfl | rfl | rfl | rfl
  · exact confines_writeDocument _ _
  · exact confines_readDocument _ _ _
  · exact confines_editDocument _ _
  · exact confines_createOutline _ _

/-! ## Failures change no files -/

section Files

variable {α β : Type}

def KeepsFiles (x : Act FileTree α) : Prop := ∀ t : FileTree, t.SameFiles (x t).2

/-- An act that has not changed any file if it fails. -/
def FailsCleanly (x : Act FileTree α) : Prop :=
  ∀ (t : FileTree) (why : Failure), (x t).1 = .error why → t.SameFiles (x t).2

theorem FailsCleanly.after {x : Act FileTree α} {f : α → Act FileTree β} (hx : KeepsFiles x)
    (hf : ∀ a, FailsCleanly (f a)) : FailsCleanly (x >>= f) := by
  intro t why hfails
  have hkeeps := hx t
  rw [Act.bind_apply] at hfails ⊢
  rcases hcall : x t with ⟨r | a, u⟩ <;> rw [hcall] at hkeeps hfails
  · exact hkeeps
  · exact hkeeps.trans (hf a u why hfails)

theorem FailsCleanly.map {x : Act FileTree α} (hx : FailsCleanly x) (f : α → β) :
    FailsCleanly (x >>= fun a => pure (f a)) := by
  intro t why hfails
  have hclean := hx t
  rw [Act.bind_apply] at hfails ⊢
  rcases hcall : x t with ⟨r | a, u⟩ <;> rw [hcall] at hclean hfails
  · exact hclean r rfl
  · cases hfails

theorem keepsFiles_ensure : KeepsFiles w.ensure := fun t => (grows_ensure t).sameFiles

theorem keepsFiles_fetch (fileName : String) : KeepsFiles (w.fetch fileName) := by
  intro t
  rw [fetch_apply]
  exact .refl t

theorem failsCleanly_store (fileName text : String) : FailsCleanly (w.store fileName text) := by
  intro t why hfails
  rw [store_apply] at hfails ⊢
  split
  next => exact .refl t
  next hplace =>
    simp only [hplace] at hfails
    split
    next => exact .refl t
    next hwrite =>
      simp only [hwrite] at hfails
      cases hfails

theorem failsCleanly_writeDocument (content fileName : String) :
    FailsCleanly (w.writeDocument content fileName) :=
  .after keepsFiles_ensure fun _ => (failsCleanly_store fileName content).map _

theorem failsCleanly_createOutline (points : List String) (fileName : String) :
    FailsCleanly (w.createOutline points fileName) :=
  .after keepsFiles_ensure fun _ => (failsCleanly_store fileName _).map _

theorem failsCleanly_editDocument (fileName : String) (inserts : List (Int × String)) :
    FailsCleanly (w.editDocument fileName inserts) := by
  refine .after (keepsFiles_fetch fileName) fun text => ?_
  split
  next => exact fun t _ _ => .refl t
  next => exact (failsCleanly_store fileName _).map _

theorem readDocument_leaves (fileName : String) (first last : Option Int) (t : FileTree) :
    (w.readDocument fileName first last t).2 = t := by
  unfold readDocument
  rw [Act.bind_apply, fetch_apply]
  split
  next hread => exact (congrArg Prod.snd hread).symm
  next hread => exact (congrArg Prod.snd hread).symm

end Files

end Workspace

end TeamFlow
