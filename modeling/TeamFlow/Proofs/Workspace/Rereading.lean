import TeamFlow.Proofs.Workspace.Inserting

/-! # Reading what has been edited

An edit joins the entries to a text, and whoever reads or edits the document next
splits it again. A blank entry at the end gets lost on the way, and no other one:
this is where `lines_joinLines` says that splitting does not undo joining. So if a
document ends with a blank line, each edit that puts nothing behind this line takes
it away, even an edit that inserts nothing. -/
namespace TeamFlow

namespace Document

theorem mem_othersFrom (numbers : List Int) (first : Int) {es : List String} {j : Nat} {e : String}
    (h : es[j]? = some e) : first + j ∈ numbers ∨ e ∈ othersFrom numbers first es := by
  induction es generalizing first j with
  | nil => cases h
  | cons d es ih =>
    unfold othersFrom
    cases j with
    | zero =>
      obtain rfl : d = e := by simpa using h
      split
      next hfirst => exact .inl (by simpa using hfirst)
      next => exact .inr List.mem_cons_self
    | succ j =>
      rcases ih (first + 1) (by simpa using h) with hnumber | he
      · refine .inl ?_
        rwa [Int.add_right_comm, Int.add_assoc] at hnumber
      · refine .inr ?_
        split
        · exact he
        · exact List.mem_cons_of_mem d he

theorem Placed.mem_cases {lines entries : List String} {inserts : List (Int × String)}
    (h : Placed lines inserts entries) {e : String} (he : e ∈ entries) :
    (∃ i ∈ inserts, e = i.2) ∨ e ∈ lines := by
  obtain ⟨j, hj⟩ := List.getElem?_of_mem he
  rcases mem_othersFrom (inserts.map Prod.fst) 1 hj with hnumber | hrest
  · obtain ⟨i, hi, hnumber⟩ := List.mem_map.mp hnumber
    have htext := h.texts i hi
    rw [hnumber, textAt?, if_neg (by omega), show ((1 : Int) + j - 1).toNat = j by omega, hj]
      at htext
    exact .inl ⟨i, hi, Option.some.inj htext⟩
  · exact .inr (h.rest ▸ hrest)

theorem Placed.eq_of_nil {lines entries : List String} (h : Placed lines [] entries) :
    entries = lines := by
  have hrest := h.rest
  rwa [others, List.map_nil, othersFrom_eq_self (by simp)] at hrest

end Document

namespace Workspace

open Document

/-- A document that is read as the given lines, joined, and numbered by them when it is edited. -/
structure ReadsAs (w : Workspace) (fileName : String) (t : FileTree) (lines : List String) :
    Prop where
  read : w.readDocument fileName none none t = (.ok (Text.joinLines lines), t)
  numbered : ∃ shown, (w.fetch fileName t).1 = .ok shown ∧ Text.lines shown = lines

theorem readsAs_of_holds {w : Workspace} {fileName text : String} {place : Place} {t : FileTree}
    (hplace : w.locate fileName = .ok place) (h : t.Holds place text) :
    w.ReadsAs fileName t (Text.lines text) :=
  ⟨readDocument_of_holds hplace h, _, by rw [fetch_of_holds hplace h], Text.lines_lineFeeds text⟩

/-- What an edited document comes to when it is read again. The entries are what the edit has
joined. -/
structure Rereads (w : Workspace) (fileName : String) (before after : FileTree)
    (lines entries : List String) (inserts : List (Int × String)) : Prop where
  placed : Placed lines inserts entries
  shows : w.ReadsAs fileName after (Text.withoutLast "" entries)
  whole : entries.getLast? ≠ some "" →
    w.ReadsAs fileName after entries ∧ Text.lines (Text.joinLines entries) = entries
  short : entries.getLast? = some "" →
    (Text.withoutLast "" entries).length + 1 = entries.length
  unedited : inserts = [] → entries = lines ∧
    ((w.readDocument fileName none none after).1 = (w.readDocument fileName none none before).1 ↔
      lines.getLast? ≠ some "" ∨ lines = [""])

/-- What the next read shows of an edit: the inserts at their numbers and the lines elsewhere,
but for a blank line at the end. -/
theorem edit_reread (w : Workspace) {fileName shown : String} {t u : FileTree}
    (hshown : (w.fetch fileName t).1 = .ok shown) {inserts : List (Int × String)}
    (hdistinct : (inserts.map Prod.fst).Nodup) (hlines : ∀ i ∈ inserts, Text.IsLine i.2)
    (hedit : w.editDocument fileName inserts t =
      (.ok ("Document edited and saved to " ++ fileName), u)) :
    ∃ entries, w.Rereads fileName t u (Text.lines shown) entries inserts := by
  obtain ⟨place, text, hplace, hholds, rfl⟩ := fetch_eq_ok hshown
  rw [Text.lines_lineFeeds]
  rcases editDocument_cases hplace hholds hdistinct with
    ⟨-, entries, hplaced, hsaved⟩ | ⟨number, -, hrefused⟩
  · obtain rfl : u = _ := congrArg Prod.snd (hedit.symm.trans hsaved)
    have hlasting := FileTree.holds_put hholds.reached hholds.not_directory (Text.joinLines entries)
    have hentries : ∀ e ∈ entries, Text.IsLine e := by
      intro e he
      rcases hplaced.mem_cases he with ⟨i, hi, rfl⟩ | he
      · exact hlines i hi
      · exact Text.isLine_of_mem_lines he
    have hagain : Text.lines (Text.joinLines entries) = Text.withoutLast "" entries :=
      Text.lines_joinLines hentries
    have hshows := readsAs_of_holds hplace hlasting
    rw [hagain] at hshows
    refine ⟨entries, hplaced, hshows, fun hlast => ?_, Text.length_withoutLast, fun hnone => ?_⟩
    · rw [Text.withoutLast_eq_self_iff.mpr hlast] at hshows hagain
      exact ⟨hshows, hagain⟩
    · subst hnone
      obtain rfl := hplaced.eq_of_nil
      rw [hshows.read, readDocument_of_holds hplace hholds, ← Text.joinLines_withoutLast_iff]
      exact ⟨rfl, Except.ok.inj, congrArg Except.ok⟩
  · rw [hrefused] at hedit
    exact absurd (congrArg Prod.fst hedit) (outOfRange_ne_saved number fileName)

/-- The insert is at its number, and the blank line at the end is lost. -/
theorem drawer_reread :
    (drawer.fetch "a.txt" (drawerHolding "a\n\n")).1 = .ok "a\n\n" ∧ Text.IsLine "b" ∧
    drawer.editDocument "a.txt" [(2, "b")] (drawerHolding "a\n\n") =
      (.ok "Document edited and saved to a.txt", drawerHolding "a\nb\n") ∧
    (∃ entries, drawer.Rereads "a.txt" (drawerHolding "a\n\n") (drawerHolding "a\nb\n")
      (Text.lines "a\n\n") entries [(2, "b")]) ∧
    (drawer.readDocument "a.txt" none none (drawerHolding "a\nb\n")).1 = .ok "a\nb" := by
  have hline : Text.IsLine "b" := List.forall_mem_singleton.mpr rfl
  have hmade : insertInOrder (Text.lines "a\n\n") [(2, "b")] = .ok ["a", "b", ""] := rfl
  have hedit : drawer.editDocument "a.txt" [(2, "b")] (drawerHolding "a\n\n") =
      (.ok "Document edited and saved to a.txt", drawerHolding "a\nb\n") :=
    drawer_edited (by decide) (by decide) hmade
  exact ⟨rfl, hline, hedit, edit_reread drawer rfl (by decide) (by simpa using hline) hedit, rfl⟩

/-- So not every edit is what the next read shows: one that inserts nothing takes a line away. -/
theorem rereading_refuted : ¬ ∀ (w : Workspace) (fileName shown : String) (t u : FileTree)
    (inserts : List (Int × String)), (w.fetch fileName t).1 = .ok shown →
    (inserts.map Prod.fst).Nodup → (∀ i ∈ inserts, Text.IsLine i.2) →
    w.editDocument fileName inserts t = (.ok ("Document edited and saved to " ++ fileName), u) →
    ∃ entries again, Placed (Text.lines shown) inserts entries ∧
      (w.readDocument fileName none none u).1 = .ok again ∧ Text.lines again = entries ∧
      (inserts = [] → (w.readDocument fileName none none u).1 =
        (w.readDocument fileName none none t).1) := by
  intro hall
  have hmade : insertInOrder (Text.lines "a\n\n") [] = .ok ["a", ""] := rfl
  have hedit : drawer.editDocument "a.txt" [] (drawerHolding "a\n\n") =
      (.ok "Document edited and saved to a.txt", drawerHolding "a\n") :=
    drawer_edited (by decide) (by decide) hmade
  obtain ⟨_, _, _, _, _, hsame⟩ :=
    hall drawer "a.txt" "a\n\n" _ _ [] rfl List.nodup_nil (by simp) hedit
  have hread : Except.ok "a" = (Except.ok "a\n" : Except Failure String) := hsame rfl
  exact absurd (Except.ok.inj hread) (by decide)

end Workspace

end TeamFlow
