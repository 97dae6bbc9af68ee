import TeamFlow.Proofs.Text.Lines
import TeamFlow.Proofs.Workspace.Confinement

/-! # Files that hold a text

A file that holds a text at a place within reach (`Holds`) can be read and written.
It goes on to hold the text as long as nothing is written at its own place: new
directories and files elsewhere do not disturb it. -/
namespace TeamFlow

namespace FileTree

/-- There is a file within reach that holds the text. -/
structure Holds (t : FileTree) (place : Place) (text : String) : Prop where
  reached : t.reach place = .ok place
  node : t.node? place = some (.file (.text text))

theorem Holds.read {t : FileTree} {place : Place} {text : String} (h : t.Holds place text) :
    t.read place = .ok (.text text) := by
  simp only [FileTree.read, look, h.reached, h.node, bind, Except.bind]

theorem Holds.not_directory {t : FileTree} {place : Place} {text : String}
    (h : t.Holds place text) : t.node? place ≠ some .directory := by
  rw [h.node]
  nofun

theorem holds_of_read {t : FileTree} {place : Place} {text : String} (hplain : place.IsPlain)
    (h : t.read place = .ok (.text text)) : t.Holds place text := by
  obtain ⟨node, hlook, hfile⟩ := bind_eq_ok.mp h
  obtain ⟨p, hreach, hfound⟩ := bind_eq_ok.mp hlook
  obtain rfl := reach_of_plain hplain hreach
  refine ⟨hreach, ?_⟩
  cases hnode : t.node? p with
  | none =>
    rw [hnode] at hfound
    cases hfound
  | some n =>
    rw [hnode] at hfound
    cases hfound
    cases node <;> cases hfile
    rfl

theorem write_of_reached {t : FileTree} {place : Place} (hreach : t.reach place = .ok place)
    (hnode : t.node? place ≠ some .directory) (c : Content) :
    t.write place c = .ok (t.put place (.file c)) := by
  simp only [FileTree.write, hreach, bind, Except.bind]

theorem holds_put {t : FileTree} {place : Place} (hreach : t.reach place = .ok place)
    (hnode : t.node? place ≠ some .directory) (text : String) :
    (t.put place (.file (.text text))).Holds place text := by
  refine ⟨(keepsDirectories_put hnode _).reach hreach, ?_⟩
  rw [node?_put t (ne_nil_of_node? hnode), if_pos rfl]

theorem Holds.put_ne {t : FileTree} {place other : Place} {text : String}
    (h : t.Holds place text) (hother : place ≠ other) (hnode : t.node? other ≠ some .directory)
    (node : FileNode) : (t.put other node).Holds place text := by
  refine ⟨(keepsDirectories_put hnode node).reach h.reached, ?_⟩
  rw [node?_put t (ne_nil_of_node? hnode), if_neg hother, h.node]

theorem Holds.grown {ways : Place → Prop} {t u : FileTree} {place : Place} {text : String}
    (h : t.Holds place text) (hgrows : Grows ways t u) : u.Holds place text :=
  ⟨hgrows.keepsDirectories.reach h.reached, (hgrows.sameFiles place (.text text)).mpr h.node⟩

end FileTree

namespace Workspace

variable {w : Workspace} {fileName : String} {place : Place} {t : FileTree}

theorem fetch_of_holds (hplace : w.locate fileName = .ok place) {text : String}
    (h : t.Holds place text) : w.fetch fileName t = (.ok (Text.lineFeeds text), t) := by
  rw [fetch_apply]
  simp only [hplace, h.read]

theorem fetch_eq_ok {shown : String} (h : (w.fetch fileName t).1 = .ok shown) :
    ∃ place text, w.locate fileName = .ok place ∧ t.Holds place text ∧
      shown = Text.lineFeeds text := by
  rw [fetch_apply] at h
  cases hplace : w.locate fileName with
  | error why => simp only [hplace] at h; cases h
  | ok place =>
    simp only [hplace] at h
    cases hread : t.read place with
    | error f => simp only [hread] at h; cases h
    | ok c =>
      simp only [hread] at h
      cases c with
      | undecodable shown => cases h
      | text text =>
        cases h
        exact ⟨place, text, rfl, FileTree.holds_of_read (locate_eq_ok hplace).2 hread, rfl⟩

theorem store_of_reached (hplace : w.locate fileName = .ok place)
    (hreach : t.reach place = .ok place) (hnode : t.node? place ≠ some .directory)
    (text : String) :
    w.store fileName text t = (.ok (), t.put place (.file (.text text))) := by
  rw [store_apply]
  simp only [hplace, FileTree.write_of_reached hreach hnode]

theorem store_eq_ok {text : String} {u : FileTree} (h : w.store fileName text t = (.ok (), u)) :
    ∃ place, w.locate fileName = .ok place ∧ u.Holds place text := by
  rw [store_apply] at h
  split at h
  next => cases h
  next place hplace =>
    split at h
    next => cases h
    next u hwrite =>
      cases h
      obtain ⟨p, hreach, hnode, rfl⟩ := FileTree.write_eq_ok hwrite
      obtain rfl := FileTree.reach_of_plain (locate_eq_ok hplace).2 hreach
      exact ⟨p, hplace, FileTree.holds_put hreach hnode text⟩

/-- A document is read as its lines, joined. -/
theorem readDocument_of_holds (hplace : w.locate fileName = .ok place) {text : String}
    (h : t.Holds place text) : w.readDocument fileName none none t =
      (.ok (Text.joinLines (Text.lines text)), t) := by
  have hall : Document.range (Text.lines text) none none = Text.lines text := by
    simp [Document.range, Document.clamp]
  rw [readDocument, Act.bind_ok (fetch_of_holds hplace h), Text.lines_lineFeeds, hall]
  rfl

def drawer : Workspace := ⟨["work"]⟩

/-- The files with this document in its directory. -/
def drawerHolding (text : String) : FileTree :=
  ⟨[(["work"], .directory), (["work", "a.txt"], .file (.text text))]⟩

theorem drawer_holds (text : String) : (drawerHolding text).Holds ["work", "a.txt"] text :=
  ⟨rfl, rfl⟩

end Workspace

end TeamFlow
