import TeamFlow.Proofs.Workspace.Holding

/-! # Reading by ranges

A range gives the lines whose indices lie between its two offsets, whatever these
are (`range_eq_between`). So pages of which each one goes from one offset to the
next divide a document (`flatten_pages`), and read one after the other they give
all of it, with no line lost and none read twice. -/
namespace TeamFlow

namespace Document

/-- Where an offset points among `size` lines, or beside them; below zero it counts from the end. -/
def pointedAt (size : Nat) (offset : Int) : Int := if offset < 0 then size + offset else offset

/-- Whether the line with an index lies between two offsets; an offset that is missing leaves no
line out. -/
def isBetween (size : Nat) (first last : Option Int) (index : Nat) : Bool :=
  first.all (fun offset => pointedAt size offset ≤ index) &&
    last.all (fun offset => index < pointedAt size offset)

/-- The lines whose indices, counted from 0, lie between two offsets. -/
def between (lines : List String) (first last : Option Int) : List String :=
  (lines.zipIdx.filter fun l => isBetween lines.length first last l.2).map Prod.fst

theorem filter_zipIdx (low high start : Nat) (lines : List String) :
    ((lines.zipIdx start).filter fun l => low ≤ l.2 && l.2 < high).map Prod.fst =
      (lines.take (high - start)).drop (low - start) := by
  induction lines generalizing start with
  | nil => simp
  | cons l lines ih =>
    have hrest := ih (start + 1)
    rw [List.zipIdx_cons]
    by_cases hhigh : start < high
    · have hnext : high - start = high - (start + 1) + 1 := by omega
      rw [hnext, List.take_succ_cons]
      by_cases hlow : low ≤ start
      · have hfirst : low - start = 0 := by omega
        have hpast : low - (start + 1) = 0 := by omega
        rw [List.filter_cons_of_pos (by simp [hlow, hhigh]), List.map_cons, hrest, hfirst, hpast,
          List.drop_zero, List.drop_zero]
      · have hbefore : low - start = low - (start + 1) + 1 := by omega
        rw [List.filter_cons_of_neg (by simp [hlow]), hrest, hbefore, List.drop_succ_cons]
    · have hnone : high - start = 0 := by omega
      have hpast : high - (start + 1) = 0 := by omega
      rw [List.filter_cons_of_neg (by simp [hhigh]), hrest, hnone, hpast]
      simp

/-- A range holds the lines between its offsets. -/
theorem range_eq_between (lines : List String) (first last : Option Int) :
    range lines first last = between lines first last := by
  have hindex : ∀ l ∈ lines.zipIdx, isBetween lines.length first last l.2 =
      (decide (clamp lines.length (first.getD 0) ≤ l.2) &&
        decide (l.2 < (last.map (clamp lines.length)).getD lines.length)) := by
    intro l hl
    have hlt : l.2 < lines.length := (List.mem_zipIdx' hl).1
    have hclamp : ∀ offset, (clamp lines.length offset ≤ l.2 ↔
        pointedAt lines.length offset ≤ l.2) := by
      intro offset
      unfold clamp pointedAt
      split <;> omega
    have hlow : first.all (fun offset => decide (pointedAt lines.length offset ≤ l.2)) =
        decide (clamp lines.length (first.getD 0) ≤ l.2) := by
      cases first with
      | none => simp [clamp]
      | some offset => exact decide_eq_decide.mpr (hclamp offset).symm
    have hhigh : last.all (fun offset => decide (l.2 < pointedAt lines.length offset)) =
        decide (l.2 < (last.map (clamp lines.length)).getD lines.length) := by
      cases last with
      | none => simp [hlt]
      | some offset =>
        refine decide_eq_decide.mpr ?_
        have := hclamp offset
        simp only [Option.map_some, Option.getD_some]
        omega
    rw [isBetween, hlow, hhigh]
  rw [between, List.filter_congr hindex, filter_zipIdx]
  rfl

/-- The pages that some offsets divide lines into, each from one offset to the next. -/
def pages (lines : List String) : List Nat → List (List String)
  | low :: high :: cuts => between lines (some low) (some high) :: pages lines (high :: cuts)
  | _ => []

theorem between_eq (lines : List String) (low high : Nat) :
    between lines (some low) (some high) = (lines.take high).drop low := by
  have hindex : ∀ l ∈ lines.zipIdx, isBetween lines.length (some low) (some high) l.2 =
      (decide (low ≤ l.2) && decide (l.2 < high)) := by
    intro l _
    have hpointed : ∀ n : Nat, pointedAt lines.length n = n := fun n => if_neg (by omega)
    simp [isBetween, hpointed]
  rw [between, List.filter_congr hindex, filter_zipIdx]
  rfl

theorem le_of_getLast? {low size : Nat} {cuts : List Nat} (hgrows : (low :: cuts).Pairwise (· < ·))
    (hlast : (low :: cuts).getLast? = some size) : low ≤ size := by
  rcases List.mem_cons.mp (List.mem_of_getLast? hlast) with rfl | hmem
  · exact Nat.le_refl size
  · exact Nat.le_of_lt ((List.pairwise_cons.mp hgrows).1 size hmem)

/-- Pages that follow each other lose and repeat nothing. -/
theorem flatten_pages (lines : List String) {low size : Nat} {cuts : List Nat}
    (hgrows : (low :: cuts).Pairwise (· < ·)) (hlast : (low :: cuts).getLast? = some size) :
    (pages lines (low :: cuts)).flatten = (lines.take size).drop low := by
  induction cuts generalizing low with
  | nil =>
    obtain rfl : low = size := by simpa using hlast
    simp [pages]
  | cons high cuts ih =>
    obtain ⟨hlow, hrest⟩ := List.pairwise_cons.mp hgrows
    rw [List.getLast?_cons_cons] at hlast
    have hle : low ≤ high := Nat.le_of_lt (hlow high List.mem_cons_self)
    have hsize : high ≤ size := le_of_getLast? hrest hlast
    have hfirst : ((lines.take size).drop low).take (high - low) ++ (lines.take size).drop high =
        (lines.take size).drop low := by
      conv_rhs => rw [← List.take_append_drop (high - low) ((lines.take size).drop low)]
      rw [List.drop_drop, Nat.add_sub_cancel' hle]
    rw [pages, List.flatten_cons, ih hrest hlast, between_eq, ← hfirst, ← List.drop_take,
      List.take_take, Nat.min_eq_left hsize]

/-- No page is empty as long as the offsets grow and stay within the lines. -/
theorem pages_ne_nil {lines : List String} {low size : Nat} {cuts : List Nat}
    (hgrows : (low :: cuts).Pairwise (· < ·)) (hlast : (low :: cuts).getLast? = some size)
    (hsize : size ≤ lines.length) : ∀ page ∈ pages lines (low :: cuts), page ≠ [] := by
  induction cuts generalizing low with
  | nil => simp [pages]
  | cons high cuts ih =>
    obtain ⟨hlow, hrest⟩ := List.pairwise_cons.mp hgrows
    rw [List.getLast?_cons_cons] at hlast
    have hlt : low < high := hlow high List.mem_cons_self
    have hhigh : high ≤ size := le_of_getLast? hrest hlast
    rw [pages, List.forall_mem_cons, between_eq]
    refine ⟨?_, ih hrest hlast⟩
    rw [Ne, List.drop_eq_nil_iff, List.length_take]
    omega

end Document

namespace Workspace

open Document

/-- Read a document page by page, each from one offset to the next. -/
def readPages (w : Workspace) (fileName : String) : List Nat → Act FileTree (List String)
  | low :: high :: cuts => do
    let page ← w.readDocument fileName (some low) (some high)
    let pages ← w.readPages fileName (high :: cuts)
    return page :: pages
  | _ => return []

variable {w : Workspace} {fileName shown : String} {t : FileTree}

theorem readDocument_eq (hshown : (w.fetch fileName t).1 = .ok shown) (first last : Option Int) :
    w.readDocument fileName first last t =
      (.ok (Text.joinLines (between (Text.lines shown) first last)), t) := by
  have hfetch : w.fetch fileName t = (.ok shown, t) := by
    rw [fetch_apply] at hshown ⊢
    exact congrArg (·, t) hshown
  rw [readDocument, Act.bind_ok hfetch, range_eq_between]
  rfl

theorem readPages_eq (hshown : (w.fetch fileName t).1 = .ok shown) (cuts : List Nat) :
    w.readPages fileName cuts t =
      (.ok ((pages (Text.lines shown) cuts).map Text.joinLines), t) := by
  fun_induction pages (Text.lines shown) cuts with
  | case1 low high cuts ih =>
    rw [readPages, Act.bind_ok (readDocument_eq hshown (some low) (some high)), Act.bind_ok ih]
    rfl
  | case2 cuts hshort =>
    rw [readPages]
    · rfl
    · exact hshort

theorem between_none (lines : List String) : between lines none none = lines := by
  simp [between, isBetween]

/-- Reading by ranges: any offsets give the lines between them, and pages that follow each other
through a document give it as a whole. -/
theorem ranges_tile (w : Workspace) {fileName shown : String} {t : FileTree}
    (hshown : (w.fetch fileName t).1 = .ok shown) :
    (∀ first last, w.readDocument fileName first last t =
      (.ok (Text.joinLines (between (Text.lines shown) first last)), t)) ∧
    ∀ cuts : List Nat, cuts.head? = some 0 → cuts.Pairwise (· < ·) →
      cuts.getLast? = some (Text.lines shown).length →
      ∃ pages, w.readPages fileName cuts t = (.ok pages, t) ∧
        w.readDocument fileName none none t = (.ok (Text.joinLines pages), t) := by
  refine ⟨readDocument_eq hshown, fun cuts hfirst hgrows hlast => ?_⟩
  obtain ⟨cuts, rfl⟩ := List.head?_eq_some_iff.mp hfirst
  have hfilled := pages_ne_nil hgrows hlast (Nat.le_refl _)
  refine ⟨_, readPages_eq hshown _, ?_⟩
  rw [readDocument_eq hshown, between_none, ← Text.joinLines_flatten hfilled,
    flatten_pages _ hgrows hlast, List.take_length, List.drop_zero]

/-- A range that begins before the document and ends behind it, and two pages of which the second
one begins with the blank line. -/
theorem drawer_paged :
    (drawer.fetch "a.txt" (drawerHolding "a\n\nc")).1 = .ok "a\n\nc" ∧
    drawer.readDocument "a.txt" (some (-7)) (some 9) (drawerHolding "a\n\nc") =
      (.ok "a\n\nc", drawerHolding "a\n\nc") ∧
    drawer.readDocument "a.txt" (some (-2)) none (drawerHolding "a\n\nc") =
      (.ok "\nc", drawerHolding "a\n\nc") ∧
    ∃ pages, drawer.readPages "a.txt" [0, 1, 3] (drawerHolding "a\n\nc") =
        (.ok pages, drawerHolding "a\n\nc") ∧
      drawer.readDocument "a.txt" none none (drawerHolding "a\n\nc") =
        (.ok (Text.joinLines pages), drawerHolding "a\n\nc") := by
  have hshown : (drawer.fetch "a.txt" (drawerHolding "a\n\nc")).1 = .ok "a\n\nc" := rfl
  obtain ⟨hranges, hpages⟩ := ranges_tile drawer hshown
  exact ⟨hshown, hranges (some (-7)) (some 9), hranges (some (-2)) none,
    hpages [0, 1, 3] rfl (by decide) rfl⟩

end Workspace

end TeamFlow
