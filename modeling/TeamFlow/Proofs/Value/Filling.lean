import Mathlib.Data.List.TakeWhile
import TeamFlow.Prompt
import TeamFlow.Value.Formatted

/-! # Filling a template

A template that is made of plain texts and fields with plain names is filled by
putting the values in the place of the fields (`fill_template`): what is put in
is not read again, whatever it holds. -/
namespace TeamFlow

namespace Text

/-- A part of a template: a text, or a field. -/
inductive Part where
  | plain (s : String)
  | slot (name : String)

namespace Part

/-- A part as the template has it. -/
def written : Part → String
  | plain s => s
  | slot name => "\x7b" ++ name ++ "\x7d"

/-- A part as it is filled with texts. -/
def filled (data : String → String) : Part → String
  | plain s => s
  | slot name => data name

end Part

/-- The template that some parts make up. -/
def template : List Part → String
  | [] => ""
  | p :: ps => p.written ++ template ps

/-- The same with texts in the place of the fields. -/
def filledWith (data : String → String) : List Part → String
  | [] => ""
  | p :: ps => p.filled data ++ filledWith data ps

def slots : List Part → List String
  | [] => []
  | .plain _ :: ps => slots ps
  | .slot name :: ps => name :: slots ps

theorem mem_slots_iff (ps : List Part) (name : String) : name ∈ slots ps ↔ .slot name ∈ ps := by
  induction ps with
  | nil => simp [slots]
  | cons p ps ih => cases p <;> simp [slots, ih]

/-- A character that has no meaning in a template. -/
def isPlain (c : Char) : Bool := c != '\x7b' && c != '\x7d'

/-- A character that has no meaning in the name of a field. -/
def isNamely (c : Char) : Bool := !(['\x7b', '\x7d', ':', '!', '[', '.'].contains c)

/-- A name that stands for itself only, and for no number. -/
def isName (cs : List Char) : Bool :=
  match cs with
  | [] => false
  | c :: _ => (digit? c).isNone && cs.all isNamely

/-- A text by its characters. The characters of a long text are costly to come by; a text that is
written down is known by them. -/
structure Spelled (s : String) (cs : List Char) : Prop where
  eq : s = String.ofList cs

theorem Spelled.literal {cs : List Char} : Spelled (String.ofList cs) cs := ⟨rfl⟩

theorem Spelled.append {s t : String} {cs ds : List Char} (hs : Spelled s cs)
    (ht : Spelled t ds) : Spelled (s ++ t) (cs ++ ds) :=
  ⟨by rw [hs.eq, ht.eq, String.ofList_append]⟩

/-- Parts that are read back as they were written, with all their characters. -/
inductive Legible : List Part → List Char → Prop where
  | nil : Legible [] []
  | plain {s : String} {cs ds : List Char} {ps : List Part} (hs : Spelled s cs)
      (hcs : cs.all isPlain = true) (hps : Legible ps ds) : Legible (.plain s :: ps) (cs ++ ds)
  | slot {name : String} {cs ds : List Char} {ps : List Part} (hname : Spelled name cs)
      (hcs : isName cs = true) (hps : Legible ps ds) :
      Legible (.slot name :: ps) ('\x7b' :: cs ++ '\x7d' :: ds)

theorem Legible.spelled {ps : List Part} {cs : List Char} (h : Legible ps cs) :
    Spelled (template ps) cs := by
  induction h with
  | nil => exact .literal
  | plain hs _ _ ih => exact hs.append ih
  | @slot name cs ds ps hname _ _ ih =>
    have hbraced : Spelled ("\x7b" ++ name ++ "\x7d") (['\x7b'] ++ cs ++ ['\x7d']) :=
      (Spelled.append .literal hname).append .literal
    simpa [template, Part.written] using hbraced.append ih

/-! ## Reading a template -/

theorem isNamely_iff (c : Char) : isNamely c = true ↔
    c ≠ '\x7b' ∧ c ≠ '\x7d' ∧ c ≠ ':' ∧ c ≠ '!' ∧ c ≠ '[' ∧ c ≠ '.' := by
  simp [isNamely]

theorem isName_eq {cs : List Char} (h : isName cs = true) :
    ∃ c rest, cs = c :: rest ∧ digit? c = none ∧ ∀ d ∈ cs, isNamely d = true := by
  cases cs with
  | nil => cases h
  | cons c rest =>
    rw [isName, Bool.and_eq_true, List.all_eq_true] at h
    exact ⟨c, rest, rfl, Option.isNone_iff_eq_none.mp h.1, h.2⟩

theorem scanName_name {cs : List Char} (h : ∀ c ∈ cs, isNamely c = true) (rest : List Char) :
    Field.scanName false (cs ++ '\x7d' :: rest) = .ok (cs, '\x7d', rest) := by
  induction cs with
  | nil => rfl
  | cons c cs ih =>
    obtain ⟨hopen, hclose, hcolon, hmark, hbracket, _⟩ := (isNamely_iff c).mp (h c (by simp))
    rw [List.cons_append, Field.scanName, if_neg hopen, if_neg (by simp [hclose, hcolon, hmark])]
    simp only [hbracket, decide_false, ih fun d hd => h d (by simp [hd]), bind, Except.bind]

theorem scan_name {cs : List Char} (h : ∀ c ∈ cs, isNamely c = true) (rest : List Char) :
    Field.scan (cs ++ '\x7d' :: rest) = .ok (⟨cs, none, []⟩, rest) := by
  simp only [Field.scan, scanName_name h, bind, Except.bind]
  rfl

theorem takeWhile_name {cs : List Char} (h : ∀ c ∈ cs, isNamely c = true) :
    (cs.takeWhile fun c => c != '.' && c != '[') = cs ∧
      (cs.dropWhile fun c => c != '.' && c != '[') = [] := by
  have hall : ∀ c ∈ cs, (c != '.' && c != '[') = true := by
    intro c hc
    obtain ⟨_, _, _, _, hbracket, hdot⟩ := (isNamely_iff c).mp (h c hc)
    simp [hbracket, hdot]
  exact ⟨List.takeWhile_eq_self_iff.mpr hall, List.dropWhile_eq_nil_iff.mpr hall⟩

theorem placeNumber?_name {c : Char} {cs : List Char} (h : digit? c = none) :
    Value.placeNumber? (c :: cs) = .ok none := by
  simp [Value.placeNumber?, Layout.takeNumber, h]

end Text

namespace Value

open Text

variable {nested : List Char → Except Failure String} {args : Entries}

theorem fillPieces_consText (c : Char) (ps : List Piece) :
    fillPieces nested args (consText c ps) =
      (fillPieces nested args ps).map (String.singleton c ++ ·) := by
  have hcons : ∀ cs, String.ofList (c :: cs) = String.singleton c ++ String.ofList cs := by
    intro cs
    rw [← List.singleton_append, String.ofList_append, String.singleton_eq_ofList]
  unfold consText
  split
  next cs ps =>
    rw [fillPieces, fillPieces, hcons]
    cases fillPieces nested args ps with
    | error why => rfl
    | ok rest => exact congrArg Except.ok String.append_assoc
  next ps _ =>
    rw [fillPieces, hcons, String.ofList_nil, String.append_empty]
    cases fillPieces nested args _ <;> rfl

theorem piecesFrom_plain {c : Char} (hc : isPlain c = true) (fuel : Nat) (rest : List Char) :
    piecesFrom (fuel + 1) (c :: rest) = consText c (piecesFrom fuel rest) := by
  obtain ⟨hopen, hclose⟩ : c ≠ '\x7b' ∧ c ≠ '\x7d' := by simpa [isPlain] using hc
  rw [piecesFrom.eq_def]
  simp only [if_neg hopen, if_neg hclose]

theorem piecesFrom_slot {cs : List Char} (hcs : isName cs = true) (fuel : Nat) (rest : List Char) :
    piecesFrom (fuel + 1) ('\x7b' :: cs ++ '\x7d' :: rest) =
      .field ⟨cs, none, []⟩ :: piecesFrom fuel rest := by
  obtain ⟨c, cs', rfl, -, hall⟩ := isName_eq hcs
  have hopen : c ≠ '\x7b' := ((isNamely_iff c).mp (hall c (by simp))).1
  simp only [List.cons_append, piecesFrom, if_neg hopen, if_true]
  rw [← List.cons_append, scan_name hall]

/-- What some characters are filled to, however much fuel is left for reading them. -/
def FillsTo (nested : List Char → Except Failure String) (args : Entries) (cs : List Char)
    (s : String) : Prop :=
  ∀ fuel, cs.length ≤ fuel → fillPieces nested args (piecesFrom fuel cs) = .ok s

theorem fillsTo_nil : FillsTo nested args [] "" := by
  intro fuel _
  cases fuel <;> rfl

theorem FillsTo.plain {rest : List Char} {s : String} (h : FillsTo nested args rest s)
    {cs : List Char} (hcs : cs.all isPlain = true) :
    FillsTo nested args (cs ++ rest) (String.ofList cs ++ s) := by
  induction cs with
  | nil => simpa using h
  | cons c cs ih =>
    rw [List.all_cons, Bool.and_eq_true] at hcs
    intro fuel hfuel
    cases fuel with
    | zero => cases hfuel
    | succ fuel =>
      rw [List.cons_append, piecesFrom_plain hcs.1, fillPieces_consText,
        ih hcs.2 fuel (by simpa using hfuel),
        ← List.singleton_append, String.ofList_append, ← String.singleton_eq_ofList,
        String.append_assoc]
      rfl

theorem ofField_name {cs : List Char} (hcs : isName cs = true) {v : Value}
    (hv : Entries.find? args (.str (String.ofList cs)) = some v) (conversion : Option Char) :
    Facet.ofField args ⟨cs, conversion, []⟩ = .ok (.ofValue v) := by
  obtain ⟨c, cs', rfl, hdigit, hall⟩ := isName_eq hcs
  obtain ⟨hhead, hsteps⟩ := takeWhile_name hall
  simp only [Facet.ofField, Field.head, hhead, List.isEmpty_cons, placeNumber?_name hdigit,
    Value.entryOf, hv, Field.accesses, hsteps, bind, Except.bind]
  rfl

theorem FillsTo.slot {rest : List Char} {s : String} (h : FillsTo nested args rest s)
    {cs : List Char} (hcs : isName cs = true) {v : Value} {text : String}
    (hv : Entries.find? args (.str (String.ofList cs)) = some v) (htext : v.shown = .ok text) :
    FillsTo nested args ('\x7b' :: cs ++ '\x7d' :: rest) (text ++ s) := by
  intro fuel hfuel
  cases fuel with
  | zero => cases hfuel
  | succ fuel =>
    have hrest : fillPieces nested args (piecesFrom fuel rest) = .ok s :=
      h fuel (by simp only [List.length_cons, List.length_append] at hfuel; omega)
    have hshown : (Facet.ofValue v).shown = .ok text := htext
    rw [piecesFrom_slot hcs, fillPieces, ofField_name hcs hv]
    simp [bind, Except.bind, Facet.converted, pure, Except.pure, Facet.laidOut, hshown, hrest]

/-- Values are put in the place of the fields, and nothing else changes. -/
theorem fill_template {ps : List Part} {cs : List Char} (h : Legible ps cs)
    {data : String → String} (hdata : ∀ name, .slot name ∈ ps →
      ∃ v, Entries.find? args (.str name) = some v ∧ v.shown = .ok (data name)) :
    fill (template ps) args = .ok (filledWith data ps) := by
  have hfills : FillsTo (fillLayout args) args cs (filledWith data ps) := by
    induction h with
    | nil => exact fillsTo_nil
    | plain hs hcs _ ih =>
      rw [filledWith, Part.filled, hs.eq]
      exact (ih fun name hname => hdata name (by simp [hname])).plain hcs
    | @slot name _ _ _ hname hcs _ ih =>
      obtain ⟨v, hv, htext⟩ := hdata name (by simp)
      rw [hname.eq] at hv
      exact (ih fun name hname => hdata name (by simp [hname])).slot hcs hv htext
  rw [h.spelled.eq, fill, String.toList_ofList]
  exact hfills _ (Nat.le_refl _)

/-! ## Templates that ask for values as a whole -/

/-- A piece that asks for one of some names, if for anything, and for the value as a whole: it may
be converted, but neither taken apart nor laid out. -/
inductive AsksFor (names : List String) : Piece → Prop where
  | text (cs : List Char) : AsksFor names (.text cs)
  | field {name : String} (hname : name ∈ names) {conversion : Option Char}
      (hconversion : conversion ∈ [none, some 'r', some 's', some 'a']) :
      AsksFor names (.field ⟨name.toList, conversion, []⟩)

/-- A template that asks for some names only. -/
def AsksOnly (names : List String) (template : String) : Prop :=
  ∀ p ∈ pieces template.toList, AsksFor names p

theorem asksFor_consText {names : List String} {ps : List Piece} (h : ∀ p ∈ ps, AsksFor names p)
    (c : Char) : ∀ p ∈ consText c ps, AsksFor names p := by
  unfold consText
  split
  next cs rest =>
    exact List.forall_mem_cons.mpr ⟨.text _, (List.forall_mem_cons.mp h).2⟩
  next => exact List.forall_mem_cons.mpr ⟨.text _, h⟩

/-- Characters that ask for some names only, however much fuel is left for reading them. -/
def AsksWithin (names : List String) (cs : List Char) : Prop :=
  ∀ fuel, cs.length ≤ fuel → ∀ p ∈ piecesFrom fuel cs, AsksFor names p

theorem AsksWithin.plain {names : List String} {rest : List Char} (h : AsksWithin names rest)
    {cs : List Char} (hcs : cs.all isPlain = true) : AsksWithin names (cs ++ rest) := by
  induction cs with
  | nil => exact h
  | cons c cs ih =>
    rw [List.all_cons, Bool.and_eq_true] at hcs
    intro fuel hfuel
    cases fuel with
    | zero => cases hfuel
    | succ fuel =>
      rw [List.cons_append, piecesFrom_plain hcs.1]
      exact asksFor_consText (ih hcs.2 fuel (by simpa using hfuel)) c

theorem AsksWithin.slot {names : List String} {rest : List Char} (h : AsksWithin names rest)
    {name : String} (hname : name ∈ names) (hcs : isName name.toList = true) :
    AsksWithin names ('\x7b' :: name.toList ++ '\x7d' :: rest) := by
  intro fuel hfuel
  cases fuel with
  | zero => cases hfuel
  | succ fuel =>
    rw [piecesFrom_slot hcs]
    refine List.forall_mem_cons.mpr ⟨.field hname (by simp), h fuel ?_⟩
    simp only [List.length_cons, List.length_append] at hfuel
    omega

/-- A template asks for the names of its fields only. -/
theorem asksOnly_template {names : List String} {ps : List Part} {cs : List Char}
    (h : Legible ps cs) (hslots : ∀ name ∈ slots ps, name ∈ names) :
    AsksOnly names (template ps) := by
  have hwithin : AsksWithin names cs := by
    induction h with
    | nil =>
      intro fuel _
      cases fuel <;> exact nofun
    | plain _ hcs _ ih => exact (ih hslots).plain hcs
    | slot hname hcs _ ih =>
      obtain ⟨hmem, hrest⟩ := List.forall_mem_cons.mp hslots
      have hchars := congrArg String.toList hname.eq
      rw [String.toList_ofList] at hchars
      subst hchars
      exact (ih hrest).slot hmem hcs
  rw [AsksOnly, h.spelled.eq, String.toList_ofList]
  exact hwithin _ (Nat.le_refl _)

theorem converted_whole (v : Value) {conversion : Option Char}
    (h : conversion ∈ [none, some 'r', some 's', some 'a']) :
    ∃ text : Value → String, ((Facet.ofValue v).converted conversion >>= fun f => f.laidOut []) =
      v.unlessLong text := by
  have hback : ∀ r : Except Failure String,
      (r.map Facet.ofText >>= fun f => f.laidOut []) = r := by
    intro r
    cases r <;> rfl
  simp only [List.mem_cons, List.not_mem_nil, or_false] at h
  rcases h with rfl | rfl | rfl | rfl
  · exact ⟨display, rfl⟩
  · exact ⟨literal, hback (v.unlessLong literal)⟩
  · exact ⟨display, hback (v.unlessLong display)⟩
  · have hascii : v.unlessLong (fun v => asciiOnly v.literal) =
        (v.unlessLong literal).map asciiOnly := by
      unfold unlessLong
      split <;> rfl
    refine ⟨fun v => asciiOnly v.literal, ?_⟩
    rw [hascii, ← hback ((v.unlessLong literal).map asciiOnly)]
    show ((v.unlessLong literal).map fun s => Facet.ofText (asciiOnly s)) >>= _ = _
    cases v.unlessLong literal <;> rfl

theorem fillPieces_whole {name : List Char} {conversion : Option Char} {v : Value}
    (h : Facet.ofField args ⟨name, conversion, []⟩ = .ok (.ofValue v)) (ps : List Piece) :
    fillPieces nested args (.field ⟨name, conversion, []⟩ :: ps) =
      (((Facet.ofValue v).converted conversion >>= fun f => f.laidOut []) >>= fun here =>
        (fillPieces nested args ps).map (here ++ ·)) := by
  rw [fillPieces, h]
  dsimp only [bind, Except.bind]
  cases (Facet.ofValue v).converted conversion with
  | error why => rfl
  | ok f =>
    have hempty : (String.ofList []).toList = [] := rfl
    simp only [List.contains_nil, Bool.false_eq_true, if_false, pure, Except.pure, hempty]
    cases f.laidOut [] with
    | error why => rfl
    | ok here => cases fillPieces nested args ps <;> rfl

/-- Whatever values are asked for as a whole, they fill the pieces, unless one of them cannot be
written. -/
theorem fillPieces_asking {names : List String}
    (hnames : ∀ name ∈ names, isName name.toList = true ∧
      ∃ v, Entries.find? args (.str name) = some v)
    {ps : List Piece} (h : ∀ p ∈ ps, AsksFor names p) :
    (∃ text, fillPieces nested args ps = .ok text) ∨
      (∃ name ∈ names, ∃ v, Entries.find? args (.str name) = some v ∧ v.isWritable = false) ∧
        fillPieces nested args ps = .error (.badValue Text.notWritable) := by
  induction ps with
  | nil => exact .inl ⟨"", rfl⟩
  | cons p ps ih =>
    obtain ⟨hp, hps⟩ := List.forall_mem_cons.mp h
    have hrest := ih hps
    cases hp with
    | text cs =>
      rw [fillPieces]
      rcases hrest with ⟨text, hrest⟩ | ⟨hlong, hrest⟩ <;> rw [hrest]
      · exact .inl ⟨_, rfl⟩
      · exact .inr ⟨hlong, rfl⟩
    | @field name hname conversion hconversion =>
      obtain ⟨hplain, v, hv⟩ := hnames name hname
      obtain ⟨text, htext⟩ := converted_whole v hconversion
      have hfield : Facet.ofField args ⟨name.toList, conversion, []⟩ = .ok (.ofValue v) :=
        ofField_name hplain (by rwa [String.ofList_toList]) conversion
      rw [fillPieces_whole hfield, htext, unlessLong]
      by_cases hwritable : v.isWritable = true
      · rw [if_pos hwritable]
        rcases hrest with ⟨rest, hrest⟩ | ⟨hlong, hrest⟩ <;> rw [hrest]
        · exact .inl ⟨_, rfl⟩
        · exact .inr ⟨hlong, rfl⟩
      · rw [if_neg hwritable]
        exact .inr ⟨⟨name, hname, v, hv, by simpa using hwritable⟩, rfl⟩

theorem fill_asking {names : List String}
    (hnames : ∀ name ∈ names, isName name.toList = true ∧
      ∃ v, Entries.find? args (.str name) = some v)
    {template : String} (h : AsksOnly names template) :
    (∃ text, fill template args = .ok text) ∨
      (∃ name ∈ names, ∃ v, Entries.find? args (.str name) = some v ∧ v.isWritable = false) ∧
        fill template args = .error (.badValue Text.notWritable) :=
  fillPieces_asking hnames h

end Value

end TeamFlow
