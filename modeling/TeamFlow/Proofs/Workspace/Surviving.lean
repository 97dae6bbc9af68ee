import TeamFlow.Proofs.Workspace.Holding

/-! # Which texts survive being written and read

A document that has been written is held where its name leads, whatever is written
elsewhere afterwards (`holds_writeAll`, by induction over the writes). Reading shows
it with a line feed for each line end and without one at its end. Those are the
texts that are read as they were written, and there are no others. -/
namespace TeamFlow

namespace Content

theorem ofBytes_utf8 (s : String) : ofBytes s.toUTF8.data.toList = .text s := by
  have hencoded : String.fromUTF8? s.toUTF8 = some s := dif_pos s.isValidUTF8
  have hbytes : (⟨s.toUTF8.data.toList.toArray⟩ : ByteArray) = s.toUTF8 := by
    rw [Array.toArray_toList]
  rw [ofBytes, hbytes, hencoded]

end Content

namespace Workspace

variable {w : Workspace} {fileName : String} {place : Place} {t : FileTree}

theorem holds_of_writeDocument {content said : String} {u : FileTree}
    (h : w.writeDocument content fileName t = (.ok said, u)) :
    ∃ place, w.locate fileName = .ok place ∧ u.Holds place content := by
  obtain ⟨_, t, _, h⟩ := Act.bind_eq_ok.mp h
  obtain ⟨_, u, hstore, h⟩ := Act.bind_eq_ok.mp h
  cases h
  exact store_eq_ok hstore

/-- A write elsewhere leaves a document alone, also if it fails. -/
theorem holds_writeDocument {text : String} (h : t.Holds place text) {content name : String}
    (helse : w.locate name ≠ .ok place) : (w.writeDocument content name t).2.Holds place text := by
  have hensured : (w.ensure t).2.Holds place text := h.grown (grows_ensure t)
  rw [Workspace.writeDocument, Act.bind_apply]
  rcases hcall : w.ensure t with ⟨r | _, u⟩ <;> rw [hcall] at hensured
  · exact hensured
  · have hstored : (w.store name content u).2.Holds place text := by
      rw [store_apply]
      split
      next => exact hensured
      next other hother =>
        split
        next => exact hensured
        next v hwrite =>
          obtain ⟨p, hreach, hnode, rfl⟩ := FileTree.write_eq_ok hwrite
          obtain rfl := FileTree.reach_of_plain (locate_eq_ok hother).2 hreach
          exact hensured.put_ne (fun heq => helse (heq ▸ hother)) hnode _
    show ((w.store name content >>= fun _ => pure _) u).2.Holds place text
    rw [Act.bind_apply]
    rcases hcall : w.store name content u with ⟨r | _, v⟩ <;> rw [hcall] at hstored <;>
      exact hstored

/-- Write contents under names, one after the other; a write that fails does not stop the next. -/
def writeAll (w : Workspace) (writes : List (String × String)) (t : FileTree) : FileTree :=
  writes.foldl (fun t x => (w.writeDocument x.1 x.2 t).2) t

theorem holds_writeAll {text : String} {writes : List (String × String)}
    (helse : ∀ x ∈ writes, w.locate x.2 ≠ .ok place) (h : t.Holds place text) :
    (w.writeAll writes t).Holds place text := by
  induction writes generalizing t with
  | nil => exact h
  | cons x writes ih =>
    obtain ⟨hx, hwrites⟩ := List.forall_mem_cons.mp helse
    exact ih hwrites (holds_writeDocument h hx)

/-- What is read of a document that has been written, after any writes to other places. -/
theorem content_survives (w : Workspace) {content fileName said : String} {t u : FileTree}
    (hwrite : w.writeDocument content fileName t = (.ok said, u)) {writes : List (String × String)}
    (helse : ∀ x ∈ writes, w.locate x.2 ≠ w.locate fileName) :
    (∃ place, w.locate fileName = .ok place ∧ (w.writeAll writes u).node? place =
      some (.file (Content.ofBytes content.toUTF8.data.toList))) ∧
    w.readDocument fileName none none (w.writeAll writes u) =
      (.ok (Text.evened content), w.writeAll writes u) ∧
    ((w.readDocument fileName none none (w.writeAll writes u)).1 = .ok content ↔
      (∀ c ∈ content.toList, Text.isLineEnd c = true → c = '\n') ∧
        content.toList.getLast? ≠ some '\n') := by
  obtain ⟨place, hplace, hholds⟩ := holds_of_writeDocument hwrite
  rw [hplace] at helse
  have hleft := holds_writeAll helse hholds
  have hread := readDocument_of_holds hplace hleft
  rw [Text.joinLines_lines] at hread
  refine ⟨⟨place, hplace, ?_⟩, hread, ?_⟩
  · rw [Content.ofBytes_utf8, hleft.node]
  · rw [hread, ← Text.evened_eq_self_iff]
    exact ⟨Except.ok.inj, congrArg Except.ok⟩

/-- Writes to another place, to one that is refused, and to one below the document. -/
def elsewhere : List (String × String) := [("y", "b.txt"), ("z", "../a.txt"), ("x", "a.txt/c")]

theorem elsewhere_apart : ∀ x ∈ elsewhere, drawer.locate x.2 ≠ drawer.locate "a.txt" := by
  have hdocument : drawer.locate "a.txt" = .ok ["work", "a.txt"] := rfl
  have hother : drawer.locate "b.txt" = .ok ["work", "b.txt"] := rfl
  have hbelow : drawer.locate "a.txt/c" = .ok ["work", "a.txt", "c"] := rfl
  obtain ⟨why, hrefused⟩ : ∃ why, drawer.locate "../a.txt" = .error why := ⟨_, rfl⟩
  simp [elsewhere, hdocument, hother, hbelow, hrefused]

/-- Two of the three line ends are no line feeds, and the last one ends the text. -/
theorem drawer_survives :
    drawer.writeDocument "a\r\nb\x0bc\n" "a.txt" ⟨[]⟩ =
      (.ok "Document saved to a.txt", drawerHolding "a\r\nb\x0bc\n") ∧
    (∀ x ∈ elsewhere, drawer.locate x.2 ≠ drawer.locate "a.txt") ∧
    (drawer.readDocument "a.txt" none none
      (drawer.writeAll elsewhere (drawerHolding "a\r\nb\x0bc\n"))).1 = .ok "a\nb\nc" := by
  have hwrite : drawer.writeDocument "a\r\nb\x0bc\n" "a.txt" ⟨[]⟩ =
      (.ok "Document saved to a.txt", drawerHolding "a\r\nb\x0bc\n") := rfl
  have hevened : Text.evened "a\r\nb\x0bc\n" = "a\nb\nc" := by decide
  obtain ⟨-, hread, -⟩ := content_survives drawer hwrite elsewhere_apart
  exact ⟨hwrite, elsewhere_apart, by rw [hread, hevened]⟩

end Workspace

end TeamFlow
