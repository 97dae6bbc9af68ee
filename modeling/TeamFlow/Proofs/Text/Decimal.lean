import Mathlib.Data.List.Basic
import Mathlib.Data.Nat.Digits.Defs
import TeamFlow.Proofs.Text.Blank
import TeamFlow.Text.Digit

/-! # Integers in writing

An integer is written as an optional sign before groups of digits that single
underscores join (`Decimal`). Reading a text gives the integer that is written
there, and there is none in other texts (`integer?_eq_some_iff`). -/
namespace TeamFlow.Text

/-! ## Groups of digits -/

/-- Some digits in a row, of any scripts. -/
def IsGroup (g : List Char) : Prop := g ≠ [] ∧ ∀ c ∈ g, (digit? c).isSome

/-- One underscore between any two groups. -/
def joined (groups : List (List Char)) : List Char := ['_'].intercalate groups

def valuesOf (groups : List (List Char)) : List Nat := groups.flatten.filterMap digit?

theorem joined_cons {g : List Char} {groups : List (List Char)} (h : groups ≠ []) :
    joined (g :: groups) = g ++ '_' :: joined groups := by
  obtain ⟨g', groups', rfl⟩ := List.exists_cons_of_ne_nil h
  rw [joined, List.intercalate_cons_cons, joined]
  simp

theorem joined_consDigit (c : Char) (g : List Char) (groups : List (List Char)) :
    joined ((c :: g) :: groups) = c :: joined (g :: groups) := by
  cases groups with
  | nil => simp [joined]
  | cons g' groups' =>
    have hne := List.cons_ne_nil g' groups'
    rw [joined_cons hne, joined_cons hne, List.cons_append]

theorem valuesOf_consDigit {c : Char} {d : Nat} (hc : digit? c = some d) (g : List Char)
    (groups : List (List Char)) :
    valuesOf ((c :: g) :: groups) = d :: valuesOf (g :: groups) := by
  simp [valuesOf, hc]

theorem valuesOf_cons (g : List Char) (groups : List (List Char)) :
    valuesOf (g :: groups) = g.filterMap digit? ++ valuesOf groups := by
  simp [valuesOf]

theorem IsGroup.cons {c : Char} {g : List Char} (hc : (digit? c).isSome)
    (hg : ∀ x ∈ g, (digit? x).isSome) : IsGroup (c :: g) :=
  ⟨nofun, List.forall_mem_cons.mpr ⟨hc, hg⟩⟩

/-! ## Reading digits -/

theorem groups_of_digitRun? {cs : List Char} {ds : List Nat} (h : digitRun? cs = some ds) :
    ∃ groups, groups ≠ [] ∧ (∀ g ∈ groups, IsGroup g) ∧ cs = joined groups ∧
      ds = valuesOf groups := by
  fun_induction digitRun? cs generalizing ds with
  | case1 => cases h
  | case2 c =>
    obtain ⟨d, hc, rfl⟩ := Option.map_eq_some_iff.mp h
    have hgroup : IsGroup [c] := .cons (by simp [hc]) (by simp)
    exact ⟨[[c]], nofun, by simpa using hgroup, by simp [joined], by simp [valuesOf, hc]⟩
  | case3 c rest ih =>
    obtain ⟨d, hc, hrest⟩ := Option.bind_eq_some_iff.mp h
    obtain ⟨ds', hds, hvalues⟩ := Option.bind_eq_some_iff.mp hrest
    cases hvalues
    obtain ⟨groups, hne, hgroups, rfl, rfl⟩ := ih hds
    have hgroup : IsGroup [c] := .cons (by simp [hc]) (by simp)
    refine ⟨[c] :: groups, nofun, List.forall_mem_cons.mpr ⟨hgroup, hgroups⟩, ?_, ?_⟩
    · rw [joined_cons hne, List.singleton_append]
    · rw [valuesOf_consDigit hc, valuesOf_cons, List.filterMap_nil, List.nil_append]
  | case4 c rest _ _ ih =>
    obtain ⟨d, hc, hrest⟩ := Option.bind_eq_some_iff.mp h
    obtain ⟨ds', hds, hvalues⟩ := Option.bind_eq_some_iff.mp hrest
    cases hvalues
    obtain ⟨groups, hne, hgroups, rfl, rfl⟩ := ih hds
    -- the digit goes to the first of the groups
    obtain ⟨g, groups, rfl⟩ := List.exists_cons_of_ne_nil hne
    obtain ⟨hg, hothers⟩ := List.forall_mem_cons.mp hgroups
    have hgroup : IsGroup (c :: g) := .cons (by simp [hc]) hg.2
    exact ⟨(c :: g) :: groups, nofun, List.forall_mem_cons.mpr ⟨hgroup, hothers⟩,
      (joined_consDigit c g groups).symm, (valuesOf_consDigit hc g groups).symm⟩

theorem digit?_underscore : digit? '_' = none := by decide

/-- What may follow a digit: nothing, or an underscore and more digits, with the values of these. -/
def Follows (rest : List Char) (ds : List Nat) : Prop :=
  rest = [] ∧ ds = [] ∨ ∃ more, rest = '_' :: more ∧ digitRun? more = some ds

theorem digitRun?_append {g rest : List Char} {ds : List Nat} (hg : IsGroup g)
    (hrest : Follows rest ds) : digitRun? (g ++ rest) = some (g.filterMap digit? ++ ds) := by
  obtain ⟨hne, hdigits⟩ := hg
  induction g with
  | nil => exact absurd rfl hne
  | cons c g ih =>
    obtain ⟨hc, hothers⟩ := List.forall_mem_cons.mp hdigits
    obtain ⟨d, hc⟩ := Option.isSome_iff_exists.mp hc
    cases g with
    | nil =>
      obtain ⟨rfl, rfl⟩ | ⟨more, rfl, hmore⟩ := hrest
      · simp [digitRun?, hc]
      · simp [digitRun?, hc, hmore]
    | cons c' g =>
      have hnext : c' ≠ '_' := by
        rintro rfl
        simp [digit?_underscore] at hothers
      have htail := ih nofun hothers
      rw [List.cons_append] at htail ⊢
      rw [List.cons_append, digitRun?, hc, htail]
      · simp [hc]
      · exact nofun
      · exact fun _ h => hnext (List.cons.inj h).1

theorem digitRun?_joined {groups : List (List Char)} (hne : groups ≠ [])
    (h : ∀ g ∈ groups, IsGroup g) : digitRun? (joined groups) = some (valuesOf groups) := by
  induction groups with
  | nil => exact absurd rfl hne
  | cons g groups ih =>
    obtain ⟨hg, hothers⟩ := List.forall_mem_cons.mp h
    rw [valuesOf_cons]
    by_cases hlast : groups = []
    · subst hlast
      have hread := digitRun?_append hg (.inl ⟨rfl, rfl⟩)
      simpa [joined, valuesOf] using hread
    · rw [joined_cons hlast]
      exact digitRun?_append hg (.inr ⟨_, rfl, ih hlast hothers⟩)

/-! ## Integers -/

inductive Sign where
  | unsigned | plus | minus

namespace Sign

def text : Sign → List Char
  | unsigned => []
  | plus => ['+']
  | minus => ['-']

def apply (n : Nat) : Sign → Int
  | unsigned => n
  | plus => n
  | minus => -n

end Sign

/-- An integer in writing: an optional sign, then digits in groups. -/
structure Decimal where
  sign : Sign
  groups : List (List Char)
  some_group : groups ≠ []
  all_groups : ∀ g ∈ groups, IsGroup g

namespace Decimal

def text (d : Decimal) : List Char := d.sign.text ++ joined d.groups

def digits (d : Decimal) : List Nat := valuesOf d.groups

def value (d : Decimal) : Int := d.sign.apply (Nat.ofDigits 10 d.digits.reverse)

end Decimal

theorem ofDigits_eq (ds : List Nat) : ofDigits ds = Nat.ofDigits 10 ds.reverse := by
  rw [ofDigits, Nat.ofDigits_eq_foldr, List.foldr_reverse]
  simp [Nat.add_comm]

theorem natural?_eq_some_iff {cs : List Char} {n : Nat} :
    natural? cs = some n ↔ ∃ groups, groups ≠ [] ∧ (∀ g ∈ groups, IsGroup g) ∧
      cs = joined groups ∧ (valuesOf groups).length ≤ maxDigits ∧
      Nat.ofDigits 10 (valuesOf groups).reverse = n := by
  constructor
  · intro h
    obtain ⟨ds, hds, hwithin⟩ := Option.bind_eq_some_iff.mp h
    obtain ⟨hlength, hn⟩ := Option.ite_none_right_eq_some.mp hwithin
    cases hn
    obtain ⟨groups, hne, hgroups, rfl, rfl⟩ := groups_of_digitRun? hds
    exact ⟨groups, hne, hgroups, rfl, hlength, (ofDigits_eq _).symm⟩
  · rintro ⟨groups, hne, hgroups, rfl, hlength, rfl⟩
    rw [natural?, digitRun?_joined hne hgroups]
    show (if _ then _ else _) = _
    rw [if_pos hlength, ofDigits_eq]

/-- What a sign may stand before; without one, there is none in front. -/
def Sign.Fits (sign : Sign) (cs : List Char) : Prop :=
  sign = .unsigned → cs.head? ≠ some '-' ∧ cs.head? ≠ some '+'

theorem exists_sign (cs : List Char) :
    ∃ (sign : Sign) (rest : List Char), cs = sign.text ++ rest ∧ sign.Fits rest := by
  by_cases hminus : cs.head? = some '-'
  · obtain ⟨rest, rfl⟩ := List.head?_eq_some_iff.mp hminus
    exact ⟨.minus, rest, rfl, nofun⟩
  · by_cases hplus : cs.head? = some '+'
    · obtain ⟨rest, rfl⟩ := List.head?_eq_some_iff.mp hplus
      exact ⟨.plus, rest, rfl, nofun⟩
    · exact ⟨.unsigned, cs, rfl, fun _ => ⟨hminus, hplus⟩⟩

theorem integer?_eq {s : String} {sign : Sign} {cs : List Char}
    (hs : trimBy isMargin s.toList = sign.text ++ cs) (hfits : sign.Fits cs) :
    integer? s = (natural? cs).map sign.apply := by
  rw [integer?, hs]
  cases sign with
  | minus =>
    simp only [Sign.text, List.singleton_append]
    cases natural? cs <;> rfl
  | plus =>
    simp only [Sign.text, List.singleton_append]
    cases natural? cs <;> rfl
  | unsigned =>
    obtain ⟨hminus, hplus⟩ := hfits rfl
    simp only [Sign.text, List.nil_append]
    split
    next rest => exact absurd (List.head?_cons ..) hminus
    next rest => exact absurd (List.head?_cons ..) hplus
    next => cases natural? cs <;> rfl

theorem joined_begins {groups : List (List Char)} (hne : groups ≠ [])
    (h : ∀ g ∈ groups, IsGroup g) : ∃ c rest, joined groups = c :: rest ∧ (digit? c).isSome := by
  obtain ⟨g, groups, rfl⟩ := List.exists_cons_of_ne_nil hne
  obtain ⟨hg, _⟩ := List.forall_mem_cons.mp h
  obtain ⟨c, g, rfl⟩ := List.exists_cons_of_ne_nil hg.1
  exact ⟨c, _, joined_consDigit c g groups, hg.2 c (by simp)⟩

namespace Decimal

theorem fits (d : Decimal) : d.sign.Fits (joined d.groups) := by
  obtain ⟨c, rest, hjoined, hc⟩ := joined_begins d.some_group d.all_groups
  rw [hjoined]
  refine fun _ => ⟨?_, ?_⟩ <;>
    · rintro ⟨⟩
      exact absurd hc (by decide)

theorem text_ne_nil (d : Decimal) : d.text ≠ [] := by
  obtain ⟨c, rest, hjoined, _⟩ := joined_begins d.some_group d.all_groups
  simp [text, hjoined]

end Decimal

/-- Exactly the integers in writing are read. -/
theorem integer?_eq_some_iff {s : String} {n : Int} :
    integer? s = some n ↔ ∃ d : Decimal, trimBy isMargin s.toList = d.text ∧
      d.digits.length ≤ maxDigits ∧ d.value = n := by
  constructor
  · intro h
    obtain ⟨sign, cs, hs, hfits⟩ := exists_sign (trimBy isMargin s.toList)
    rw [integer?_eq hs hfits] at h
    obtain ⟨m, hm, rfl⟩ := Option.map_eq_some_iff.mp h
    obtain ⟨groups, hne, hgroups, rfl, hlength, rfl⟩ := natural?_eq_some_iff.mp hm
    exact ⟨⟨sign, groups, hne, hgroups⟩, hs, hlength, rfl⟩
  · rintro ⟨d, hs, hlength, rfl⟩
    have hread : natural? (joined d.groups) = some (Nat.ofDigits 10 d.digits.reverse) :=
      natural?_eq_some_iff.mpr ⟨d.groups, d.some_group, d.all_groups, rfl, hlength, rfl⟩
    rw [integer?_eq hs d.fits, hread]
    rfl

/-! ## Margins -/

/-- The information separators are blanks, and yet no margin of an integer. -/
def IsSeparator (c : Char) : Prop := 0x1C ≤ c.toNat ∧ c.toNat ≤ 0x1F

theorem isMargin_eq_isBlank {c : Char} (h : ¬ IsSeparator c) : isMargin c = isBlank c := by
  have hno : (0x1C ≤ c.toNat && c.toNat ≤ 0x1F) = false := by
    rw [Bool.eq_false_iff]
    intro hyes
    exact h ((Bool.and_eq_true_iff.mp hyes).imp of_decide_eq_true of_decide_eq_true)
  rw [isMargin, hno, Bool.not_false, Bool.and_true]

theorem dropWhile_isMargin {cs : List Char} (h : ∀ c ∈ cs, ¬ IsSeparator c) :
    cs.dropWhile isMargin = cs.dropWhile isBlank := by
  induction cs with
  | nil => rfl
  | cons c cs ih =>
    obtain ⟨hc, hcs⟩ := List.forall_mem_cons.mp h
    rw [List.dropWhile_cons, List.dropWhile_cons, isMargin_eq_isBlank hc, ih hcs]

theorem trimBy_isMargin {s : String} (h : ∀ c ∈ s.toList, ¬ IsSeparator c) :
    trimBy isMargin s.toList = (trim s).toList := by
  have hrest : ∀ c ∈ (s.toList.dropWhile isBlank).reverse, ¬ IsSeparator c := fun c hc =>
    h c ((List.dropWhile_sublist _).subset (List.mem_reverse.mp hc))
  rw [trim, String.toList_ofList, trimBy, trimBy, dropWhile_isMargin h, dropWhile_isMargin hrest]

theorem trim_of_isAllBlank {s : String} (h : isAllBlank s = true) : (trim s).toList = [] := by
  have hdropped : s.toList.dropWhile isBlank = [] :=
    List.dropWhile_eq_nil_iff.mpr (List.all_eq_true.mp h)
  rw [trim, String.toList_ofList, trimBy, hdropped]
  rfl

/-- In a text without separators, exactly the integers with blanks around them are read. -/
theorem integer?_eq_some_iff_trim {s : String} (h : ∀ c ∈ s.toList, ¬ IsSeparator c) {n : Int} :
    integer? s = some n ↔ ∃ d : Decimal, (trim s).toList = d.text ∧
      d.digits.length ≤ maxDigits ∧ d.value = n := by
  rw [integer?_eq_some_iff, trimBy_isMargin h]

end TeamFlow.Text
