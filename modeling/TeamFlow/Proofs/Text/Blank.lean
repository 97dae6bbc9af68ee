import Mathlib.Data.List.DropRight
import TeamFlow.Text.Basic

/-! # Trimmed texts

What trimming leaves neither begins nor ends with a blank, so trimming it again
changes nothing. Texts are trimmed to the same text exactly if they differ in
the blanks around them only (`Respaced`). -/
namespace TeamFlow.Text

theorem dropWhile_trimBy (drop : Char → Bool) (cs : List Char) :
    (trimBy drop cs).dropWhile drop = trimBy drop cs := by
  rw [List.dropWhile_eq_self_iff]
  intro hlength
  have hbegins : trimBy drop cs <+: cs.dropWhile drop := List.rdropWhile_prefix drop _
  have hlonger := Nat.lt_of_lt_of_le hlength hbegins.length_le
  rw [hbegins.getElem hlength]
  exact List.dropWhile_get_zero_not drop cs hlonger

theorem trimBy_trimBy (drop : Char → Bool) (cs : List Char) :
    trimBy drop (trimBy drop cs) = trimBy drop cs := by
  rw [trimBy, dropWhile_trimBy]
  show (trimBy drop cs).rdropWhile drop = _
  exact List.rdropWhile_idempotent drop _

theorem trim_trim (s : String) : trim (trim s) = trim s := by
  rw [trim, trim, String.toList_ofList, trimBy_trimBy]

theorem trimBy_surrounded {drop : Char → Bool} {left right : List Char} (core : List Char)
    (hleft : left.all drop = true) (hright : right.all drop = true) :
    trimBy drop (left ++ core ++ right) = trimBy drop core := by
  have hall : ∀ {cs : List Char}, cs.all drop = true → cs.dropWhile drop = [] := fun h =>
    List.dropWhile_eq_nil_iff.mpr (List.all_eq_true.mp h)
  have hbegin : (left ++ core ++ right).dropWhile drop = (core ++ right).dropWhile drop := by
    rw [List.append_assoc, List.dropWhile_append, hall hleft, List.isEmpty_nil, if_pos rfl]
  rw [trimBy, hbegin, List.dropWhile_append]
  split
  next hcore =>
    -- nothing but blanks: then nothing is left on either side
    rw [hall hright, trimBy, List.isEmpty_iff.mp hcore]
  next =>
    have hreversed : right.reverse.all drop = true := by rwa [List.all_reverse]
    rw [List.reverse_append, List.dropWhile_append, hall hreversed, List.isEmpty_nil, if_pos rfl]
    rfl

/-- A text, and the same text with other blanks around it. -/
inductive Respaced : String → String → Prop where
  | intro {left right left' right' : String} (core : String) (hleft : isAllBlank left = true)
      (hright : isAllBlank right = true) (hleft' : isAllBlank left' = true)
      (hright' : isAllBlank right' = true) :
      Respaced (left ++ core ++ right) (left' ++ core ++ right')

theorem trim_surrounded {left right : String} (core : String) (hleft : isAllBlank left = true)
    (hright : isAllBlank right = true) : trim (left ++ core ++ right) = trim core := by
  rw [trim, trim, String.toList_append, String.toList_append,
    trimBy_surrounded core.toList hleft hright]

theorem surrounded_trim (s : String) : ∃ left right, isAllBlank left = true ∧
    isAllBlank right = true ∧ s = left ++ trim s ++ right := by
  have hlist : s.toList = s.toList.takeWhile isBlank ++ trimBy isBlank s.toList ++
      (s.toList.dropWhile isBlank).rtakeWhile isBlank := by
    have hend := List.rdropWhile_append_rtakeWhile (p := isBlank) (l := s.toList.dropWhile isBlank)
    calc s.toList = s.toList.takeWhile isBlank ++ s.toList.dropWhile isBlank :=
          List.takeWhile_append_dropWhile.symm
      _ = _ := by rw [List.append_assoc]; exact congrArg _ hend.symm
  refine ⟨String.ofList (s.toList.takeWhile isBlank),
    String.ofList ((s.toList.dropWhile isBlank).rtakeWhile isBlank), ?_, ?_, ?_⟩
  · rw [isAllBlank, String.toList_ofList, List.all_takeWhile]
  · rw [isAllBlank, String.toList_ofList, List.all_eq_true]
    exact fun _ => List.mem_rtakeWhile_imp
  · rw [trim, ← String.ofList_append, ← String.ofList_append, ← hlist, String.ofList_toList]

/-- Trimming forgets the blanks around a text, and nothing else. -/
theorem respaced_iff (s t : String) : Respaced s t ↔ trim s = trim t := by
  constructor
  · rintro ⟨core, hleft, hright, hleft', hright'⟩
    rw [trim_surrounded core hleft hright, trim_surrounded core hleft' hright']
  · intro h
    obtain ⟨left, right, hleft, hright, hs⟩ := surrounded_trim s
    obtain ⟨left', right', hleft', hright', ht⟩ := surrounded_trim t
    rw [hs, ht, ← h]
    exact .intro _ hleft hright hleft' hright'

end TeamFlow.Text
