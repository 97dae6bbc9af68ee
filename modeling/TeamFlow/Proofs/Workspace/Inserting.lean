import Mathlib.Data.List.Induction
import Mathlib.Order.Bounds.Basic
import TeamFlow.Proofs.Workspace.Holding

/-! # Inserting at line numbers

Inserts are made with growing numbers. So one that is made later stands behind
those that are there, and leaves them where they are (`Placed.insert`): each ends
up at its number, with the lines in order elsewhere. For the same reason a number
is checked against the lines and all inserts with smaller numbers (`InRange`), and
of those that are out of range the smallest is told (`insertInOrder_cases`). -/
namespace TeamFlow

namespace Document

/-! ## Entries by their numbers -/

/-- The entry with a number, counted from 1. -/
def textAt? (entries : List String) (number : Int) : Option String :=
  if number < 1 then none else entries[(number - 1).toNat]?

/-- The entries whose numbers, counted from `first`, are not among the given ones. -/
def othersFrom (numbers : List Int) (first : Int) : List String → List String
  | [] => []
  | e :: es =>
    if first ∈ numbers then othersFrom numbers (first + 1) es
    else e :: othersFrom numbers (first + 1) es

/-- The entries that are not at the given numbers. -/
def others (numbers : List Int) (entries : List String) : List String :=
  othersFrom numbers 1 entries

/-- Entries that hold each text at its number and the lines in order elsewhere. -/
structure Placed (lines : List String) (inserts : List (Int × String)) (entries : List String) :
    Prop where
  length : entries.length = lines.length + inserts.length
  texts : ∀ i ∈ inserts, textAt? entries i.1 = some i.2
  rest : others (inserts.map Prod.fst) entries = lines

theorem othersFrom_append (numbers : List Int) (first : Int) (es fs : List String) :
    othersFrom numbers first (es ++ fs) =
      othersFrom numbers first es ++ othersFrom numbers (first + es.length) fs := by
  induction es generalizing first with
  | nil => simp [othersFrom]
  | cons e es ih =>
    have hnext : first + 1 + (es.length : Int) = first + (e :: es).length := by
      rw [List.length_cons]; omega
    simp only [List.cons_append, othersFrom, ih, hnext]
    split <;> simp

theorem othersFrom_eq_self {numbers : List Int} {first : Int} (h : ∀ k ∈ numbers, k < first)
    (es : List String) : othersFrom numbers first es = es := by
  induction es generalizing first with
  | nil => rfl
  | cons e es ih =>
    have hfirst : first ∉ numbers := fun hmem => by have := h first hmem; omega
    rw [othersFrom, if_neg hfirst, ih fun k hk => by have := h k hk; omega]

theorem othersFrom_congr {numbers numbers' : List Int} (h : ∀ k, k ∈ numbers ↔ k ∈ numbers')
    (first : Int) (es : List String) :
    othersFrom numbers first es = othersFrom numbers' first es := by
  induction es generalizing first with
  | nil => rfl
  | cons e es ih => simp only [othersFrom, h, ih]

theorem othersFrom_snoc {number first : Int} {es : List String}
    (h : first + es.length ≤ number) (numbers : List Int) :
    othersFrom (numbers ++ [number]) first es = othersFrom numbers first es := by
  induction es generalizing first with
  | nil => rfl
  | cons e es ih =>
    rw [List.length_cons] at h
    have hfirst : first ∈ numbers ++ [number] ↔ first ∈ numbers := by
      simp only [List.mem_append, List.mem_singleton, or_iff_left_iff_imp]
      omega
    have hnext := @ih (first + 1) (by omega)
    simp only [othersFrom, hfirst, hnext]

theorem textAt?_append_left {number : Int} {es : List String} (h : number ≤ es.length)
    (fs : List String) : textAt? (es ++ fs) number = textAt? es number := by
  unfold textAt?
  split
  next => rfl
  next => exact List.getElem?_append_left (by omega)

theorem textAt?_next (es fs : List String) (e : String) :
    textAt? (es ++ e :: fs) (es.length + 1) = some e := by
  rw [textAt?, if_neg (by omega), show ((es.length : Int) + 1 - 1).toNat = es.length by omega,
    List.getElem?_append_right (Nat.le_refl _)]
  simp

/-! ## One insert more -/

theorem insertAt_cases (lines : List String) (number : Int) (text : String) :
    (∃ before after, lines = before ++ after ∧ number = before.length + 1 ∧
      insertAt lines number text = .ok (before ++ text :: after)) ∨
    (number < 1 ∨ (lines.length : Int) + 1 < number) ∧
      insertAt lines number text = .error number := by
  by_cases hout : number < 1 ∨ (lines.length : Int) + 1 < number
  · exact .inr ⟨hout, if_pos hout⟩
  · refine .inl ⟨_, _, (List.take_append_drop (number - 1).toNat lines).symm, ?_, if_neg hout⟩
    rw [List.length_take]
    omega

theorem Placed.nil (lines : List String) : Placed lines [] lines :=
  ⟨rfl, by simp, othersFrom_eq_self (by simp) lines⟩

/-- An insert behind all others leaves them where they are. -/
theorem Placed.insert {lines before after : List String} {inserts : List (Int × String)}
    (h : Placed lines inserts (before ++ after)) (hlast : ∀ i ∈ inserts, i.1 ≤ before.length)
    (text : String) :
    Placed lines (inserts ++ [((before.length : Int) + 1, text)]) (before ++ text :: after) := by
  have hbeyond : ∀ k ∈ inserts.map Prod.fst, k ≤ before.length := List.forall_mem_map.mpr hlast
  refine ⟨?_, ?_, ?_⟩
  · have hlength := h.length
    simp only [List.length_append, List.length_cons, List.length_nil] at hlength ⊢
    omega
  · intro i hi
    rcases List.mem_append.mp hi with hi | hi
    · rw [← h.texts i hi, textAt?_append_left (hlast i hi), textAt?_append_left (hlast i hi)]
    · obtain rfl := List.mem_singleton.mp hi
      exact textAt?_next before after text
  · have hrest := h.rest
    have hafter : othersFrom (inserts.map Prod.fst) (1 + before.length) after = after :=
      othersFrom_eq_self (fun k hk => by have := hbeyond k hk; omega) after
    have hmore : othersFrom (inserts.map Prod.fst ++ [(before.length : Int) + 1])
        (1 + before.length + 1) after = after := by
      refine othersFrom_eq_self (fun k hk => ?_) after
      rcases List.mem_append.mp hk with hk | hk
      · have := hbeyond k hk
        omega
      · rw [List.mem_singleton.mp hk]
        omega
    rw [others, othersFrom_append, hafter] at hrest
    rw [others, List.map_append, List.map_singleton, othersFrom_append, othersFrom_snoc (by omega),
      othersFrom, if_pos (by simp; omega), hmore, hrest]

/-! ## All inserts -/

/-- A number that is in range once `made` inserts have been made to `n` lines. -/
def Allowed (n made : Nat) (number : Int) : Prop := 1 ≤ number ∧ number ≤ n + made + 1

/-- Each number is in range once the inserts before it have been made. -/
def InRange (n : Nat) (inserts : List (Int × String)) : Prop :=
  ∀ i x, inserts[i]? = some x → Allowed n i x.1

/-- One of the numbers that are not in range when it is their turn. -/
def Oversteps (n : Nat) (inserts : List (Int × String)) (number : Int) : Prop :=
  ∃ i x, inserts[i]? = some x ∧ x.1 = number ∧ ¬ Allowed n i number

theorem getElem?_snoc {α : Type} (l : List α) (a b : α) (i : Nat) :
    (l ++ [a])[i]? = some b ↔ l[i]? = some b ∨ i = l.length ∧ a = b := by
  grind

theorem inRange_snoc {n : Nat} {inserts : List (Int × String)} {x : Int × String} :
    InRange n (inserts ++ [x]) ↔ InRange n inserts ∧ Allowed n inserts.length x.1 := by
  simp only [InRange, getElem?_snoc]
  constructor
  · intro h
    exact ⟨fun i y hy => h i y (.inl hy), h _ x (.inr ⟨rfl, rfl⟩)⟩
  · rintro ⟨h, hx⟩ i y (hy | ⟨rfl, rfl⟩)
    · exact h i y hy
    · exact hx

theorem oversteps_snoc {n : Nat} {inserts : List (Int × String)} {x : Int × String} {number : Int} :
    Oversteps n (inserts ++ [x]) number ↔
      Oversteps n inserts number ∨ x.1 = number ∧ ¬ Allowed n inserts.length number := by
  simp only [Oversteps, getElem?_snoc]
  constructor
  · rintro ⟨i, y, hy | ⟨rfl, rfl⟩, hnumber, hout⟩
    · exact .inl ⟨i, y, hy, hnumber, hout⟩
    · exact .inr ⟨hnumber, hout⟩
  · rintro (⟨i, y, hy, hnumber, hout⟩ | ⟨hnumber, hout⟩)
    · exact ⟨i, y, .inl hy, hnumber, hout⟩
    · exact ⟨_, x, .inr ⟨rfl, rfl⟩, hnumber, hout⟩

theorem InRange.not_oversteps {n : Nat} {inserts : List (Int × String)} (h : InRange n inserts)
    (number : Int) : ¬ Oversteps n inserts number := by
  rintro ⟨i, x, hx, rfl, hout⟩
  exact hout (h i x hx)

theorem insertInOrder_snoc (lines : List String) (inserts : List (Int × String))
    (x : Int × String) : insertInOrder lines (inserts ++ [x]) =
      insertInOrder lines inserts >>= fun entries => insertAt entries x.1 x.2 := by
  induction inserts generalizing lines with
  | nil =>
    show (insertAt lines x.1 x.2 >>= fun entries => .ok entries) = insertAt lines x.1 x.2
    cases insertAt lines x.1 x.2 <;> rfl
  | cons y inserts ih =>
    show (insertAt lines y.1 y.2 >>= fun entries => insertInOrder entries (inserts ++ [x])) =
      (insertAt lines y.1 y.2 >>= fun entries => insertInOrder entries inserts) >>= _
    rw [bind_assoc]
    simp only [ih]

/-- How inserts with growing numbers go, by induction from the first to the last: all are
placed, or the smallest of the numbers that are out of range is told. -/
theorem insertInOrder_cases (lines : List String) {inserts : List (Int × String)}
    (hgrow : inserts.Pairwise fun a b => a.1 < b.1) :
    (InRange lines.length inserts ∧
      ∃ entries, insertInOrder lines inserts = .ok entries ∧ Placed lines inserts entries) ∨
    ∃ number, insertInOrder lines inserts = .error number ∧
      IsLeast {k | Oversteps lines.length inserts k} number := by
  induction inserts using List.reverseRecOn with
  | nil => exact .inl ⟨fun i x hx => by simp at hx, lines, rfl, .nil lines⟩
  | append_singleton inserts x ih =>
    obtain ⟨hgrow, -, hlast⟩ := List.pairwise_append.mp hgrow
    rw [insertInOrder_snoc]
    rcases ih hgrow with ⟨hrange, entries, hentries, hplaced⟩ | ⟨number, herror, hleast⟩
    · rw [hentries]
      have hlength := hplaced.length
      rcases insertAt_cases entries x.1 x.2 with
        ⟨before, after, rfl, hnumber, hinsert⟩ | ⟨hout, hinsert⟩
      · refine .inl ⟨inRange_snoc.mpr ⟨hrange, ?_⟩, _, hinsert, ?_⟩
        · simp only [List.length_append] at hlength
          exact ⟨by omega, by omega⟩
        -- the inserts before this one stand in front of it
        · have hbefore : ∀ i ∈ inserts, i.1 ≤ before.length := fun i hi => by
            have := hlast i hi x (List.mem_singleton_self x)
            omega
          have hx : x = ((before.length : Int) + 1, x.2) := Prod.ext hnumber rfl
          rw [hx]
          exact hplaced.insert hbefore x.2
      · refine .inr ⟨x.1, hinsert, oversteps_snoc.mpr (.inr ⟨rfl, ?_⟩), fun k hk => ?_⟩
        · rintro ⟨hone, hend⟩
          omega
        · rcases oversteps_snoc.mp hk with hk | ⟨rfl, -⟩
          · exact absurd hk (hrange.not_oversteps k)
          · exact le_rfl
    · rw [herror]
      refine .inr ⟨number, rfl, oversteps_snoc.mpr (.inl hleast.1), fun k hk => ?_⟩
      rcases oversteps_snoc.mp hk with hk | ⟨rfl, -⟩
      · exact hleast.2 hk
      · obtain ⟨i, y, hy, rfl, -⟩ := hleast.1
        exact (hlast y (List.mem_of_getElem? hy) x (List.mem_singleton_self x)).le

/-- Inserts with different numbers are made in the order of their numbers. -/
theorem inOrder_grows {inserts : List (Int × String)} (h : (inserts.map Prod.fst).Nodup) :
    (inOrder inserts).Perm inserts ∧ (inOrder inserts).Pairwise fun a b => a.1 < b.1 := by
  have hperm : (inOrder inserts).Perm inserts := List.mergeSort_perm _ _
  have htrans : ∀ a b c : Int × String, decide (a.1 ≤ b.1) = true → decide (b.1 ≤ c.1) = true →
      decide (a.1 ≤ c.1) = true := by
    simp only [decide_eq_true_eq]
    exact fun _ _ _ => le_trans
  have htotal : ∀ a b : Int × String, (decide (a.1 ≤ b.1) || decide (b.1 ≤ a.1)) = true := by
    simp only [Bool.or_eq_true, decide_eq_true_eq]
    exact fun a b => le_total a.1 b.1
  have hle : (inOrder inserts).Pairwise fun a b => a.1 ≤ b.1 :=
    (List.pairwise_mergeSort htrans htotal inserts).imp of_decide_eq_true
  have hne : (inOrder inserts).Pairwise fun a b => a.1 ≠ b.1 :=
    List.pairwise_map.mp ((hperm.map Prod.fst).nodup_iff.mpr h)
  exact ⟨hperm, (hle.and hne).imp fun h => lt_of_le_of_ne h.1 h.2⟩

/-- There is but one arrangement of inserts with growing numbers. -/
theorem inOrder_eq {inserts numbered : List (Int × String)} (hperm : numbered.Perm inserts)
    (hgrows : numbered.Pairwise fun a b => a.1 < b.1) : inOrder inserts = numbered := by
  have hdistinct : (inserts.map Prod.fst).Nodup :=
    (hperm.map Prod.fst).nodup_iff.mp (List.pairwise_map.mpr (hgrows.imp ne_of_lt))
  obtain ⟨harranged, hinOrder⟩ := inOrder_grows hdistinct
  refine List.Perm.eq_of_pairwise ?_ hinOrder hgrows (harranged.trans hperm.symm)
  intro a b _ _ hab hba
  exact absurd hab hba.not_gt

/-- Entries are those of any arrangement of the inserts. -/
theorem Placed.perm {lines entries : List String} {inserts numbered : List (Int × String)}
    (h : Placed lines numbered entries) (hperm : numbered.Perm inserts) :
    Placed lines inserts entries := by
  refine ⟨hperm.length_eq ▸ h.length, fun i hi => h.texts i (hperm.mem_iff.mpr hi), ?_⟩
  rw [← h.rest, others, others, othersFrom_congr fun k => (hperm.map Prod.fst).mem_iff]

end Document

namespace Workspace

open Document

/-! ## Edits -/

theorem editDocument_of_holds {w : Workspace} {fileName text : String} {place : Place}
    {t : FileTree} (hplace : w.locate fileName = .ok place) (h : t.Holds place text)
    (inserts : List (Int × String)) : w.editDocument fileName inserts t =
      match insertAll (Text.lines text) inserts with
      | .error number => (outOfRange number, t)
      | .ok entries => (.ok ("Document edited and saved to " ++ fileName),
          t.put place (.file (.text (Text.joinLines entries)))) := by
  rw [editDocument, Act.bind_ok (fetch_of_holds hplace h), Text.lines_lineFeeds]
  cases insertAll (Text.lines text) inserts with
  | error number => rfl
  | ok entries =>
    exact (Act.bind_ok (store_of_reached hplace h.reached h.not_directory _)).trans rfl

theorem outOfRange_eq {number : Int} (h : Text.isWritable number = true) :
    outOfRange number = .ok s!"Error: Line number {number} is out of range." := by
  rw [outOfRange, Value.written_of_isWritable ((Value.isWritable_int number).trans h)]
  rfl

theorem outOfRange_eq_error {number : Int} (h : Text.isWritable number = false) :
    outOfRange number = .error (.badValue Text.notWritable) := by
  rw [outOfRange, Value.written_of_not_isWritable ((Value.isWritable_int number).trans h)]
  rfl

theorem outOfRange_ne_saved (number : Int) (fileName : String) :
    outOfRange number ≠ .ok ("Document edited and saved to " ++ fileName) := by
  intro hsaved
  cases hwritable : Text.isWritable number with
  | true =>
    rw [outOfRange_eq hwritable] at hsaved
    have hfirst := congrArg (fun s : String => s.toList.head?) (Except.ok.inj hsaved)
    simp [toString] at hfirst
  | false =>
    rw [outOfRange_eq_error hwritable] at hsaved
    cases hsaved

theorem editDocument_cases {w : Workspace} {fileName text : String} {place : Place} {t : FileTree}
    (hplace : w.locate fileName = .ok place) (h : t.Holds place text)
    {inserts : List (Int × String)} (hdistinct : (inserts.map Prod.fst).Nodup) :
    (InRange (Text.lines text).length (inOrder inserts) ∧ ∃ entries,
      Placed (Text.lines text) inserts entries ∧
      w.editDocument fileName inserts t = (.ok ("Document edited and saved to " ++ fileName),
        t.put place (.file (.text (Text.joinLines entries))))) ∨
    ∃ number, IsLeast {k | Oversteps (Text.lines text).length (inOrder inserts) k} number ∧
      w.editDocument fileName inserts t = (outOfRange number, t) := by
  obtain ⟨hperm, hgrows⟩ := inOrder_grows hdistinct
  rw [editDocument_of_holds hplace h, insertAll]
  rcases insertInOrder_cases (Text.lines text) hgrows with
    ⟨hrange, entries, hentries, hplaced⟩ | ⟨number, herror, hleast⟩
  · rw [hentries]
    exact .inl ⟨hrange, entries, hplaced.perm hperm, rfl⟩
  · rw [herror]
    exact .inr ⟨number, hleast, rfl⟩

theorem drawer_edited {text : String} {inserts numbered : List (Int × String)}
    {entries : List String} (hperm : numbered.Perm inserts)
    (hgrows : numbered.Pairwise fun a b => a.1 < b.1)
    (h : insertInOrder (Text.lines text) numbered = .ok entries) :
    drawer.editDocument "a.txt" inserts (drawerHolding text) =
      (.ok "Document edited and saved to a.txt", drawerHolding (Text.joinLines entries)) := by
  rw [editDocument_of_holds rfl (drawer_holds text), insertAll, inOrder_eq hperm hgrows, h]
  rfl

end Workspace

end TeamFlow
