import Mathlib.Data.List.Basic
import TeamFlow.Text.Basic

/-! # Splitting into lines and joining them

Lines do not tell by which characters they were ended, nor whether the last of
them was ended at all. So what is split and joined again is the text with a line
feed for each line end and without one at its end (`joinLines_lines`), and what is
joined and split again lacks a blank line at the end (`lines_joinLines`). Only
there are splitting and joining not inverse to each other. -/
namespace TeamFlow.Text

/-! ## The last of a list -/

section WithoutLast

variable {α β : Type} [DecidableEq α] [DecidableEq β]

/-- A list without its last member, if that is the given one. -/
def withoutLast (a : α) (l : List α) : List α := if l.getLast? = some a then l.dropLast else l

theorem withoutLast_nil (a : α) : withoutLast a [] = [] := rfl

theorem withoutLast_cons (a b : α) (l : List α) :
    withoutLast a (b :: l) = if l = [] ∧ b = a then [] else b :: withoutLast a l := by
  cases l with
  | nil => by_cases hb : b = a <;> simp [withoutLast, hb]
  | cons c l =>
    rw [if_neg (by simp)]
    by_cases hlast : (c :: l).getLast? = some a <;>
      simp [withoutLast, List.getLast?_cons_cons, hlast]

theorem withoutLast_eq_self_iff {a : α} {l : List α} :
    withoutLast a l = l ↔ l.getLast? ≠ some a := by
  unfold withoutLast
  split
  next hlast =>
    refine iff_of_false (fun heq => ?_) (by simp [hlast])
    have hlength := congrArg List.length heq
    have hpos : 0 < l.length := List.length_pos_iff.mpr (by rintro rfl; simp at hlast)
    rw [List.length_dropLast] at hlength
    omega
  next hlast => exact iff_of_true rfl hlast

theorem length_withoutLast {a : α} {l : List α}
    (h : l.getLast? = some a) : (withoutLast a l).length + 1 = l.length := by
  obtain ⟨before, rfl⟩ := List.getLast?_eq_some_iff.mp h
  simp [withoutLast]

theorem withoutLast_sublist (a : α) (l : List α) : (withoutLast a l).Sublist l := by
  unfold withoutLast
  split
  · exact List.dropLast_sublist l
  · exact List.Sublist.refl l

theorem withoutLast_map {f : α → β} (hf : Function.Injective f) (a : α) (l : List α) :
    withoutLast (f a) (l.map f) = (withoutLast a l).map f := by
  induction l with
  | nil => rfl
  | cons b l ih =>
    rw [List.map_cons, withoutLast_cons, withoutLast_cons, ih]
    by_cases hlast : l = [] ∧ b = a
    · simp [hlast]
    · rw [if_neg hlast, if_neg (by simpa [hf.eq_iff] using hlast), List.map_cons]

end WithoutLast

/-! ## Splitting -/

theorem linesOf_feed (cs : List Char) : linesOf ('\n' :: cs) = [] :: linesOf cs := rfl

theorem linesOf_cons {c : Char} {cs : List Char} (h : c = '\r' → ∀ rest, cs ≠ '\n' :: rest) :
    linesOf (c :: cs) = if isLineEnd c then [] :: linesOf cs else consLine c (linesOf cs) := by
  rw [linesOf]
  exact fun rest hc hcs => h hc rest hcs

theorem linesOf_eq_nil_iff (cs : List Char) : linesOf cs = [] ↔ cs = [] := by
  fun_cases linesOf cs with
  | case1 | case2 | case3 => simp
  | case4 c rest => cases hrest : linesOf rest <;> simp [consLine]

theorem isLineEnd_of_mem_linesOf {cs l : List Char} (h : l ∈ linesOf cs) :
    ∀ c ∈ l, isLineEnd c = false := by
  fun_induction linesOf cs generalizing l with
  | case1 => cases h
  | case2 rest ih | case3 c rest _ _ ih =>
    rcases List.mem_cons.mp h with rfl | h
    · simp
    · exact ih h
  | case4 c rest _ hend ih =>
    have hc : isLineEnd c = false := by simpa using hend
    cases hrest : linesOf rest with
    | nil =>
      rw [hrest, consLine, List.mem_singleton] at h
      simpa [h] using hc
    | cons first more =>
      rw [hrest] at h ih
      rcases List.mem_cons.mp h with rfl | h
      · exact List.forall_mem_cons.mpr ⟨hc, ih List.mem_cons_self⟩
      · exact ih (List.mem_cons_of_mem first h)

theorem linesOf_feedsOf (cs : List Char) : linesOf (feedsOf cs) = linesOf cs := by
  fun_induction feedsOf cs with
  | case1 => rfl
  | case2 rest ih => rw [linesOf_feed, ih, linesOf]
  | case3 c rest hcr ih =>
    rw [linesOf_cons (c := c) fun hc rest heq => hcr rest hc heq]
    by_cases hc : c = '\r'
    · rw [if_pos hc, linesOf_feed, ih, if_pos (hc ▸ rfl)]
    · rw [if_neg hc, linesOf_cons fun heq => absurd heq hc, ih]

theorem lines_lineFeeds (s : String) : lines (lineFeeds s) = lines s := by
  rw [lines, lines, lineFeeds, String.toList_ofList, linesOf_feedsOf]

/-- A text that is one line. -/
def IsLine (s : String) : Prop := ∀ c ∈ s.toList, isLineEnd c = false

theorem isLine_of_mem_lines {s l : String} (h : l ∈ lines s) : IsLine l := by
  obtain ⟨cs, hcs, rfl⟩ := List.mem_map.mp h
  rw [IsLine, String.toList_ofList]
  exact isLineEnd_of_mem_linesOf hcs

/-! ## Joining what was split -/

/-- Every line end written as one line feed. -/
def evenedOf : List Char → List Char
  | [] => []
  | '\r' :: '\n' :: rest => '\n' :: evenedOf rest
  | c :: rest => (if isLineEnd c then '\n' else c) :: evenedOf rest

/-- A text with a line feed for each of its line ends and none at its end. -/
def evened (s : String) : String := String.ofList (withoutLast '\n' (evenedOf s.toList))

theorem evenedOf_cons {c : Char} {cs : List Char} (h : c = '\r' → ∀ rest, cs ≠ '\n' :: rest) :
    evenedOf (c :: cs) = (if isLineEnd c then '\n' else c) :: evenedOf cs := by
  rw [evenedOf]
  exact fun rest hc hcs => h hc rest hcs

theorem evenedOf_eq_nil_iff (cs : List Char) : evenedOf cs = [] ↔ cs = [] := by
  fun_cases evenedOf cs with
  | case1 | case2 | case3 => simp

theorem intercalate_nil_cons (ls : List (List Char)) :
    ['\n'].intercalate ([] :: ls) = if ls = [] then [] else '\n' :: ['\n'].intercalate ls := by
  cases ls with
  | nil => simp
  | cons l ls => simp [List.intercalate_cons_cons]

theorem intercalate_consLine (c : Char) (ls : List (List Char)) :
    ['\n'].intercalate (consLine c ls) = c :: ['\n'].intercalate ls := by
  cases ls with
  | nil => simp [consLine]
  | cons l ls => cases ls <;> simp [consLine, List.intercalate_cons_cons]

theorem intercalate_linesOf (cs : List Char) :
    ['\n'].intercalate (linesOf cs) = withoutLast '\n' (evenedOf cs) := by
  -- an ended line: nothing follows a final end, and a line feed stands before what follows
  have hended : ∀ rest, ['\n'].intercalate (linesOf rest) = withoutLast '\n' (evenedOf rest) →
      ['\n'].intercalate ([] :: linesOf rest) = withoutLast '\n' ('\n' :: evenedOf rest) := by
    intro rest ih
    rw [intercalate_nil_cons, ih, withoutLast_cons]
    simp only [linesOf_eq_nil_iff, evenedOf_eq_nil_iff, and_true]
  fun_induction linesOf cs with
  | case1 => rfl
  | case2 rest ih =>
    rw [evenedOf]
    exact hended rest ih
  | case3 c rest hcr hend ih =>
    rw [evenedOf_cons fun hc rest heq => hcr rest hc heq, if_pos hend]
    exact hended rest ih
  | case4 c rest hcr hend ih =>
    have hc : c ≠ '\n' := by
      rintro rfl
      exact hend rfl
    rw [evenedOf_cons fun hc rest heq => hcr rest hc heq, if_neg hend, withoutLast_cons,
      if_neg fun hlast => hc hlast.2, intercalate_consLine, ih]

/-- What is split into lines and joined again. -/
theorem joinLines_lines (s : String) : joinLines (lines s) = evened s := by
  apply String.toList_injective
  rw [joinLines, String.toList_intercalate, lines, List.map_map, evened, String.toList_ofList,
    ← intercalate_linesOf]
  simp [Function.comp_def]

theorem isLineEnd_of_mem_evenedOf {cs : List Char} {c : Char} (h : c ∈ evenedOf cs)
    (hend : isLineEnd c = true) : c = '\n' := by
  fun_induction evenedOf cs with
  | case1 => cases h
  | case2 rest ih =>
    rcases List.mem_cons.mp h with rfl | h
    · rfl
    · exact ih h
  | case3 d rest _ ih =>
    rcases List.mem_cons.mp h with hc | h
    · split at hc
      next => exact hc
      next hd => exact absurd (hc ▸ hend) hd
    · exact ih h

theorem evenedOf_eq_self {cs : List Char} (h : ∀ c ∈ cs, isLineEnd c = true → c = '\n') :
    evenedOf cs = cs := by
  fun_induction evenedOf cs with
  | case1 => rfl
  | case2 rest _ => cases h '\r' List.mem_cons_self rfl
  | case3 c rest _ ih =>
    obtain ⟨hc, hrest⟩ := List.forall_mem_cons.mp h
    rw [ih hrest]
    split
    next hend => rw [hc hend]
    next => rfl

/-- Which texts are left as they are. -/
theorem evened_eq_self_iff (s : String) : evened s = s ↔
    (∀ c ∈ s.toList, isLineEnd c = true → c = '\n') ∧ s.toList.getLast? ≠ some '\n' := by
  have hchars : evened s = s ↔ withoutLast '\n' (evenedOf s.toList) = s.toList := by
    rw [evened, ← String.toList_inj, String.toList_ofList]
  rw [hchars]
  constructor
  · intro heq
    have hfeeds : ∀ c ∈ s.toList, isLineEnd c = true → c = '\n' := by
      intro c hc
      rw [← heq] at hc
      exact isLineEnd_of_mem_evenedOf ((withoutLast_sublist _ _).subset hc)
    rw [evenedOf_eq_self hfeeds] at heq
    exact ⟨hfeeds, withoutLast_eq_self_iff.mp heq⟩
  · rintro ⟨hfeeds, hlast⟩
    rw [evenedOf_eq_self hfeeds, withoutLast_eq_self_iff]
    exact hlast

/-! ## Splitting what was joined -/

theorem linesOf_append_feed {l : List Char} (h : ∀ c ∈ l, isLineEnd c = false) (cs : List Char) :
    linesOf (l ++ '\n' :: cs) = l :: linesOf cs := by
  induction l with
  | nil => rfl
  | cons c l ih =>
    obtain ⟨hc, hl⟩ := List.forall_mem_cons.mp h
    have hcr : c ≠ '\r' := by
      rintro rfl
      cases hc
    rw [List.cons_append, linesOf_cons fun heq => absurd heq hcr, ih hl, hc]
    rfl

theorem linesOf_plain {l : List Char} (h : ∀ c ∈ l, isLineEnd c = false) :
    linesOf l = if l = [] then [] else [l] := by
  induction l with
  | nil => rfl
  | cons c l ih =>
    obtain ⟨hc, hl⟩ := List.forall_mem_cons.mp h
    have hcr : c ≠ '\r' := by
      rintro rfl
      cases hc
    rw [linesOf_cons fun heq => absurd heq hcr, ih hl, hc]
    cases l <;> rfl

theorem linesOf_intercalate {ls : List (List Char)} (h : ∀ l ∈ ls, ∀ c ∈ l, isLineEnd c = false) :
    linesOf (['\n'].intercalate ls) = withoutLast [] ls := by
  induction ls with
  | nil => rfl
  | cons l ls ih =>
    obtain ⟨hl, hls⟩ := List.forall_mem_cons.mp h
    rw [withoutLast_cons]
    cases ls with
    | nil =>
      rw [List.intercalate_singleton, linesOf_plain hl]
      simp [withoutLast_nil]
    | cons m ls =>
      rw [List.intercalate_cons_cons, List.append_assoc, List.singleton_append,
        linesOf_append_feed hl, ih hls, if_neg (by simp)]

/-- What is joined to a text and split again. -/
theorem lines_joinLines {ls : List String} (h : ∀ l ∈ ls, IsLine l) :
    lines (joinLines ls) = withoutLast "" ls := by
  have hchars : ∀ l ∈ ls.map String.toList, ∀ c ∈ l, isLineEnd c = false :=
    List.forall_mem_map.mpr h
  rw [lines, joinLines, String.toList_intercalate]
  show (linesOf (['\n'].intercalate (ls.map String.toList))).map String.ofList = _
  have hblank : withoutLast [] (ls.map String.toList) = (withoutLast "" ls).map String.toList :=
    withoutLast_map (fun _ _ => String.toList_injective) "" ls
  rw [linesOf_intercalate hchars, hblank, List.map_map]
  simp [Function.comp_def]

theorem joinLines_snoc {ls : List String} (h : ls ≠ []) :
    joinLines (ls ++ [""]) = joinLines ls ++ "\n" := by
  rw [joinLines, String.intercalate_append_of_ne_nil h (by simp), String.intercalate_singleton,
    String.append_empty]
  rfl

/-- Without its last line a text is another one, unless this line is blank and the only one. -/
theorem joinLines_withoutLast_iff (ls : List String) :
    joinLines (withoutLast "" ls) = joinLines ls ↔ ls.getLast? ≠ some "" ∨ ls = [""] := by
  by_cases hlast : ls.getLast? = some ""
  · obtain ⟨before, rfl⟩ := List.getLast?_eq_some_iff.mp hlast
    have hshort : withoutLast "" (before ++ [""]) = before := by simp [withoutLast]
    rw [hshort]
    by_cases hbefore : before = []
    · subst hbefore
      exact iff_of_true rfl (.inr rfl)
    · refine iff_of_false (fun heq => ?_) (by simp [hbefore])
      rw [joinLines_snoc hbefore] at heq
      have hlength := congrArg String.length heq
      simp at hlength
  · rw [withoutLast_eq_self_iff.mpr hlast]
    exact iff_of_true rfl (.inl hlast)

theorem joinLines_flatten {pages : List (List String)} (h : ∀ page ∈ pages, page ≠ []) :
    joinLines pages.flatten = joinLines (pages.map joinLines) := by
  induction pages with
  | nil => rfl
  | cons page pages ih =>
    obtain ⟨hpage, hpages⟩ := List.forall_mem_cons.mp h
    cases pages with
    | nil => simp [joinLines]
    | cons next rest =>
      have hmore : (next :: rest).flatten ≠ [] := by
        simp [hpages next List.mem_cons_self]
      have hsplit : joinLines (page ++ (next :: rest).flatten) =
          joinLines page ++ "\n" ++ joinLines (next :: rest).flatten :=
        String.intercalate_append_of_ne_nil hpage hmore
      rw [List.flatten_cons, hsplit, ih hpages, List.map_cons, List.map_cons]
      exact (String.intercalate_cons_cons ..).symm

end TeamFlow.Text
