import TeamFlow.Value.Mapping

/-! # Equal keys are keys with one normal form

What can be a key of a mapping is a number, a text, nothing, or a tuple of
these. Among them `alike` is equality of normal forms, in which a number is
written as a floating-point value and the two zeros are one. So equality of keys
is an equivalence, although the test itself is neither symmetric nor transitive
on sets with repeated members. -/
namespace TeamFlow

namespace Double

/-- One value for the two zeros. -/
def settled : Double → Double
  | negativeZero => finite 0
  | x => x

theorem same_or_sameOrigin_iff (x y : Double) :
    x.same y = true ∨ x.sameOrigin y = true ↔ x.settled = y.settled := by
  cases x <;> cases y <;> simp [same, sameOrigin, settled, dyadic?]

end Double

namespace Value

mutual

/-- The normal form of a key. -/
def settled : Value → Value
  | tuple xs => tuple (allSettled xs)
  | v => match v.number? with
    | some x => float x.settled
    | none => v

def allSettled : List Value → List Value
  | [] => []
  | x :: xs => settled x :: allSettled xs

end

theorem isHashable_tuple_cons (x : Value) (xs : List Value) :
    (tuple (x :: xs)).isHashable = (x.isHashable && (tuple xs).isHashable) := by
  simp only [isHashable, changeable?, firstChangeable?]
  cases x.changeable? <;> rfl

/-- The normal form of something that is no tuple, by the numbers. -/
theorem alike_eq_alikeNumber {a : Value} {x : Double} (ha : a.number? = some x) (b : Value) :
    alike a b = alikeNumber a b := by
  cases a <;> simp [number?] at ha <;> cases b <;> rfl

theorem settled_of_number {a : Value} {x : Double} (ha : a.number? = some x) :
    a.settled = float x.settled := by
  cases a <;> simp [number?] at ha <;> simp [settled, number?, ha]

theorem float_eq_settled_iff (y : Double) (b : Value) :
    float y = b.settled ↔ ∃ x, b.number? = some x ∧ y = x.settled := by
  cases b <;> simp [settled, number?]

theorem alikeNumber_iff {a : Value} {x : Double} (ha : a.number? = some x) (b : Value) :
    alikeNumber a b = true ↔ a.settled = b.settled := by
  rw [settled_of_number ha, float_eq_settled_iff]
  cases hb : b.number? with
  | none => simp [alikeNumber, ha, hb]
  | some y => simp [alikeNumber, ha, hb, Double.same_or_sameOrigin_iff]

mutual

/-- Among keys, alike values are those with one normal form. -/
theorem alike_iff_settled : ∀ (a b : Value), a.isHashable = true →
    (alike a b = true ↔ a.settled = b.settled)
  | null, b, _ => by cases b <;> simp [alike, alikeNumber, settled, number?]
  | str s, b, _ => by cases b <;> simp [alike, alikeNumber, settled, number?]
  | bool p, b, _ => by
    rw [alike_eq_alikeNumber rfl]; exact alikeNumber_iff rfl b
  | int n, b, _ => by
    rw [alike_eq_alikeNumber rfl]; exact alikeNumber_iff rfl b
  | float x, b, _ => by
    rw [alike_eq_alikeNumber rfl]; exact alikeNumber_iff rfl b
  | tuple xs, b, h => by
    cases b with
    | tuple ys => simpa [alike, settled] using alikeItems_iff_settled xs ys h
    | _ => simp [alike, alikeNumber, settled, number?]
  | list _, _, h | set _ _, _, h | mapping _, _, h | message _, _, h | record _ _, _, h => by
    simp [isHashable, changeable?] at h

theorem alikeItems_iff_settled : ∀ (xs ys : List Value), (tuple xs).isHashable = true →
    (alikeItems xs ys = true ↔ allSettled xs = allSettled ys)
  | [], ys, _ => by cases ys <;> simp [alikeItems, allSettled]
  | x :: xs, ys, h => by
    rw [isHashable_tuple_cons, Bool.and_eq_true] at h
    cases ys with
    | nil => simp [alikeItems, allSettled]
    | cons y ys =>
      simp only [alikeItems, allSettled, Bool.and_eq_true, List.cons.injEq]
      rw [alike_iff_settled x y h.1, alikeItems_iff_settled xs ys h.2]

end

mutual

theorem isHashable_settled : ∀ v : Value, v.settled.isHashable = v.isHashable
  | tuple xs => by simpa [settled] using isHashable_allSettled xs
  | null | bool _ | int _ | float _ | str _ | list _ | set _ _ | mapping _ | message _
  | record _ _ => rfl

theorem isHashable_allSettled : ∀ xs : List Value,
    (tuple (allSettled xs)).isHashable = (tuple xs).isHashable
  | [] => rfl
  | x :: xs => by
    rw [allSettled, isHashable_tuple_cons, isHashable_tuple_cons, isHashable_settled x,
      isHashable_allSettled xs]

end

theorem isHashable_of_alike {a b : Value} (ha : a.isHashable = true) (h : alike a b = true) :
    b.isHashable = true := by
  rw [← isHashable_settled b, ← (alike_iff_settled a b ha).mp h, isHashable_settled a, ha]

theorem alike_trans {a b c : Value} (ha : a.isHashable = true) (hab : alike a b = true)
    (hbc : alike b c = true) : alike a c = true := by
  have hb := isHashable_of_alike ha hab
  rw [alike_iff_settled a c ha, (alike_iff_settled a b ha).mp hab]
  exact (alike_iff_settled b c hb).mp hbc

theorem alike_symm {a b : Value} (ha : a.isHashable = true) (h : alike a b = true) :
    alike b a = true :=
  (alike_iff_settled b a (isHashable_of_alike ha h)).mpr ((alike_iff_settled a b ha).mp h).symm

theorem alike_refl {a : Value} (ha : a.isHashable = true) : alike a a = true :=
  (alike_iff_settled a a ha).mpr rfl

/-! ## Keys without repeats -/

theorem mem_distinctFrom (seen vs : List Value) : ∀ v ∈ distinctFrom seen vs, v ∈ vs := by
  fun_induction distinctFrom seen vs with
  | case1 => simp
  | case2 seen v vs _ ih => exact fun w hw => by simp [ih w hw]
  | case3 seen v vs _ ih =>
    intro w hw
    rcases List.mem_cons.mp hw with rfl | hw
    · simp
    · simp [ih w hw]

theorem exists_alike_distinctFrom (seen vs : List Value) (hv : ∀ v ∈ vs, v.isHashable = true) :
    ∀ v ∈ vs, ∃ w, (w ∈ seen ∨ w ∈ distinctFrom seen vs) ∧ alike v w = true := by
  fun_induction distinctFrom seen vs with
  | case1 => simp
  | case2 seen v vs h ih =>
    intro u hu
    rcases List.mem_cons.mp hu with rfl | hu
    · obtain ⟨w, hw, hal⟩ := List.any_eq_true.mp h
      exact ⟨w, .inl hw, hal⟩
    · exact ih (fun w hw => hv w (by simp [hw])) u hu
  | case3 seen v vs _ ih =>
    intro u hu
    rcases List.mem_cons.mp hu with rfl | hu
    · exact ⟨u, .inr (by simp), alike_refl (hv u (by simp))⟩
    · obtain ⟨w, hw, hal⟩ := ih (fun w hw => hv w (by simp [hw])) u hu
      refine ⟨w, ?_, hal⟩
      rcases hw with hw | hw
      · rcases List.mem_append.mp hw with hw | hw
        · exact .inl hw
        · exact .inr (by simp_all)
      · exact .inr (by simp [hw])

theorem exists_alike_distinct {vs : List Value} (hvs : ∀ v ∈ vs, v.isHashable = true) {v : Value}
    (hv : v ∈ vs) : ∃ w ∈ distinct vs, alike v w = true := by
  obtain ⟨w, hw, hal⟩ := exists_alike_distinctFrom [] vs hvs v hv
  exact ⟨w, by simpa [distinct] using hw, hal⟩

end Value

end TeamFlow
