import TeamFlow.Act
import TeamFlow.Form
import TeamFlow.Proofs.Value.Text

/-! # Forms that ask for texts

A field that asks for a text takes texts and nothing else, and a field that lists
texts to choose from takes these and nothing else. What fits is kept as it is.
These rules (`FieldType.Rules`), and that a form which cannot be filled in is
refused with all its faults (`Form.fill_eq_error`), are all that is used of the
checks elsewhere. -/
namespace TeamFlow

theorem State.peek_eq_str {fields : Entries} {name s : String} :
    State.peek fields name = .str s ↔ fields.get? name = some (.str s) := by
  rw [State.peek]
  cases fields.get? name with
  | none => exact ⟨nofun, nofun⟩
  | some v => simp

namespace Fit

variable {α β γ : Type}

theorem both_eq_ok {g : α → β → γ} {f : Fit α} {h : Fit β} {c : γ} :
    both g f h = .ok c ↔ ∃ a b, f = .ok a ∧ h = .ok b ∧ c = g a b := by
  cases f <;> cases h <;> simp [both, eq_comm]

theorem within_eq_ok {place : List String} {f : Fit α} {a : α} :
    within place f = .ok a ↔ f = .ok a := by
  cases f <;> simp [within, Except.mapError]

theorem map_eq_ok {g : α → β} {f : Fit α} {b : β} :
    Except.map g f = .ok b ↔ ∃ a, f = .ok a ∧ b = g a := by
  cases f <;> simp [Except.map, eq_comm]

theorem toExcept_eq_error {f : Fit α} {why : Failure} :
    f.toExcept = .error why ↔ ∃ faults, f = .error faults ∧ why = .invalid faults := by
  cases f <;> simp [toExcept, Except.mapError, eq_comm]

theorem toExcept_eq_ok {f : Fit α} {a : α} : f.toExcept = .ok a ↔ f = .ok a := by
  cases f <;> simp [toExcept, Except.mapError]

end Fit

namespace FieldType

theorem fitText_eq_ok {v w : Value} : fitText v = .ok w ↔ ∃ s, v = .str s ∧ w = .str s := by
  cases v <;> simp [fitText, Fit.fault, eq_comm]

theorem alike_text_iff (s : String) (v : Value) : (Value.str s).alike v = true ↔ v = .str s := by
  constructor
  · intro h
    exact (Value.alike_str_iff v s).mp (Value.alike_symm rfl h)
  · rintro rfl
    simp [Value.alike]

theorem distinct_texts (texts : List String) :
    ∃ kept : List String, distinct (texts.map .str) = kept.map .str ∧
      ∀ s, s ∈ kept ↔ s ∈ texts := by
  have hfold : ∀ texts before : List String, ∃ kept : List String,
      (texts.map Value.str).foldl (fun kept c =>
        if kept.any fun k => k.kindName == c.kindName && k.alike c then kept else kept ++ [c])
        (before.map .str) = kept.map .str ∧ ∀ s, s ∈ kept ↔ s ∈ before ∨ s ∈ texts := by
    intro texts
    induction texts with
    | nil => exact fun before => ⟨before, rfl, by simp⟩
    | cons t texts ih =>
      intro before
      have hany : ((before.map Value.str).any fun k =>
          k.kindName == (Value.str t).kindName && k.alike (.str t)) = before.contains t := by
        rw [Bool.eq_iff_iff, List.any_map]
        simp [Value.kindName, Value.alike]
      rw [List.map_cons, List.foldl_cons, hany]
      by_cases hseen : t ∈ before
      · obtain ⟨kept, hkept, hmem⟩ := ih before
        rw [if_pos (by simpa using hseen)]
        refine ⟨kept, hkept, fun s => ?_⟩
        rw [hmem, List.mem_cons]
        refine or_congr_right' fun hs => (or_iff_right ?_).symm
        rintro rfl
        exact hs hseen
      · obtain ⟨kept, hkept, hmem⟩ := ih (before ++ [t])
        rw [List.map_append, List.map_singleton] at hkept
        rw [if_neg (by simpa using hseen)]
        refine ⟨kept, hkept, fun s => ?_⟩
        rw [hmem, List.mem_append, List.mem_singleton, List.mem_cons, or_assoc]
  obtain ⟨kept, hkept, hmem⟩ := hfold texts []
  exact ⟨kept, hkept, by simpa using hmem⟩

theorem mem_of_choice? {choices : List Value} {v c : Value} (h : choice? choices v = some c) :
    c ∈ choices ∧ c.alike v = true := by
  unfold choice? at h
  simp only [Option.or_eq_some_iff] at h
  have hfound : ∀ {among : Value → Bool} {cs : List Value}, cs.find? among = some c →
      c ∈ cs ∧ among c = true := fun h => ⟨List.mem_of_find?_eq_some h, List.find?_some h⟩
  rcases h with ((h | ⟨-, h⟩) | ⟨-, h⟩) | ⟨-, h⟩ <;> obtain ⟨hmem, hc⟩ := hfound h <;>
    simp only [Bool.and_eq_true] at hc
  · exact ⟨hmem, hc.2⟩
  · exact ⟨List.mem_reverse.mp hmem, hc.2⟩
  · exact ⟨hmem, hc.2⟩
  · exact ⟨List.mem_reverse.mp hmem, hc.2⟩

theorem choice?_texts {texts : List String} {v c : Value} :
    choice? (texts.map .str) v = some c ↔ ∃ s ∈ texts, v = .str s ∧ c = .str s := by
  constructor
  · intro h
    obtain ⟨hmem, halike⟩ := mem_of_choice? h
    obtain ⟨s, hs, rfl⟩ := List.mem_map.mp hmem
    exact ⟨s, hs, (alike_text_iff s v).mp halike, rfl⟩
  · rintro ⟨s, hs, rfl, rfl⟩
    have hfound : ∃ c, choice? (texts.map .str) (.str s) = some c := by
      have hsome : ((texts.map Value.str).find? fun c =>
          isPlain c && !isWide c && c.kindName == (Value.str s).kindName &&
            c.alike (.str s)).isSome = true := by
        rw [List.find?_isSome]
        exact ⟨.str s, List.mem_map_of_mem hs, by simp [isPlain, isWide, Value.alike]⟩
      obtain ⟨c, hc⟩ := Option.isSome_iff_exists.mp hsome
      unfold choice?
      rw [hc]
      exact ⟨c, rfl⟩
    obtain ⟨c, hc⟩ := hfound
    obtain ⟨hmem, halike⟩ := mem_of_choice? hc
    obtain ⟨t, -, rfl⟩ := List.mem_map.mp hmem
    rw [hc, (alike_text_iff t _).mp halike]

/-- What fits one of some texts is one of these texts. -/
theorem fitChoice_texts {texts : List String} {v c : Value} :
    fitChoice (texts.map .str) v = .ok c ↔ ∃ s ∈ texts, v = .str s ∧ c = .str s := by
  obtain ⟨kept, hkept, hmem⟩ := distinct_texts texts
  have hhash : (texts.map Value.str).all Value.isHashable = true :=
    List.all_eq_true.mpr Value.isHashable_texts
  have hword : (kept.map Value.str).any isWord = false := by
    simp [isWord]
  have hchosen : choice? (kept.map .str) v = some c ↔ ∃ s ∈ texts, v = .str s ∧ c = .str s := by
    rw [choice?_texts]
    simp only [hmem]
  rw [← hchosen]
  unfold fitChoice
  simp only [hhash, if_true, hkept, hword, Bool.and_false, Bool.false_eq_true, if_false]
  cases choice? (kept.map Value.str) v with
  | none => exact ⟨nofun, nofun⟩
  | some d => simp

/-- What is used of the checks of fields: the rules for texts and for choices among texts. -/
structure Rules (fit : FieldType → Value → Fit Value) : Prop where
  text : ∀ {v w : Value}, fit .text v = .ok w ↔ ∃ s, v = .str s ∧ w = .str s
  oneOf : ∀ {texts : List String} {v c : Value},
    fit (.oneOf (texts.map .str)) v = .ok c ↔ ∃ s ∈ texts, v = .str s ∧ c = .str s

theorem fit_rules : Rules fit where
  text := by
    intro v w
    rw [fit, fitText_eq_ok]
  oneOf := by
    intro texts v c
    rw [fit, fitChoice_texts]

end FieldType

namespace FormField

theorem fit_eq_ok {name : String} {type : FieldType} {given : Entries} {filled : String × Value} :
    FormField.fit ⟨name, type, none⟩ given = .ok filled ↔
      ∃ v w, given.get? name = some v ∧ type.fit v = .ok w ∧ filled = (name, w) := by
  unfold fit
  cases given.get? name with
  | none => simp
  | some v => simp [Fit.map_eq_ok, Fit.within_eq_ok]

theorem fit_text_eq_ok {name : String} {given : Entries} {filled : String × Value} :
    FormField.fit ⟨name, .text, none⟩ given = .ok filled ↔
      ∃ s, State.peek given name = .str s ∧ filled = (name, .str s) := by
  simp only [fit_eq_ok, FieldType.fit_rules.text, State.peek_eq_str]
  constructor
  · rintro ⟨_, _, hv, ⟨s, rfl, rfl⟩, rfl⟩
    exact ⟨s, hv, rfl⟩
  · rintro ⟨s, hv, rfl⟩
    exact ⟨_, _, hv, ⟨s, rfl, rfl⟩, rfl⟩

theorem fit_choice_eq_ok {name : String} {texts : List String} {given : Entries}
    {filled : String × Value} :
    FormField.fit ⟨name, .oneOf (texts.map .str), none⟩ given = .ok filled ↔
      ∃ s ∈ texts, State.peek given name = .str s ∧ filled = (name, .str s) := by
  simp only [fit_eq_ok, FieldType.fit_rules.oneOf, State.peek_eq_str]
  constructor
  · rintro ⟨_, _, hv, ⟨s, hs, rfl, rfl⟩, rfl⟩
    exact ⟨s, hs, hv, rfl⟩
  · rintro ⟨s, hs, hv, rfl⟩
    exact ⟨_, _, hv, ⟨s, hs, rfl, rfl⟩, rfl⟩

end FormField

namespace Form

theorem fitFields_cons {given : Entries} {f : FormField} {fs : List FormField}
    {filled : List (String × Value)} : fitFields given (f :: fs) = .ok filled ↔
      ∃ p ps, f.fit given = .ok p ∧ fitFields given fs = .ok ps ∧ filled = p :: ps :=
  Fit.both_eq_ok

theorem fill_eq_ok {form : Form} {given : Entries} {v : Value} :
    form.fill given = .ok v ↔
      ∃ filled, form.fields? given = .ok filled ∧ v = .record form.name filled := by
  rw [fill, bind_eq_ok]
  simp only [Fit.toExcept_eq_ok]
  exact exists_congr fun _ => and_congr_right fun _ =>
    ⟨fun h => (Except.ok.inj h).symm, fun h => congrArg Except.ok h.symm⟩

/-- A form that cannot be filled in is reported with all its faults. -/
theorem fill_eq_error {form : Form} {given : Entries} {why : Failure} :
    form.fill given = .error why ↔
      ∃ faults, form.fields? given = .error faults ∧ why = .invalid faults := by
  rw [← Fit.toExcept_eq_error, fill]
  cases (form.fields? given).toExcept with
  | error other => exact ⟨fun h => by cases h; rfl, fun h => by cases h; rfl⟩
  | ok filled => exact ⟨nofun, nofun⟩

end Form

end TeamFlow
