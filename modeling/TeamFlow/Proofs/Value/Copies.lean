import TeamFlow.Value.Members

/-! # Copies of copies

A copy is copied as it is: the members of a set that was copied sit in a ring of
the size that so many members get, so another copy finds everyone in place. -/
namespace TeamFlow.Value

namespace Seats

theorem size_takeAll (ms : List (Nat × Nat × Value)) (s : Seats) :
    (ms.foldl (fun t m => t.take m.2.1 m.2.2) s).size = s.size := by
  induction ms generalizing s with
  | nil => rfl
  | cons m ms ih => rw [List.foldl_cons, ih]; rfl

theorem size_resized (s : Seats) (size : Nat) : (s.resized size).size = size :=
  size_takeAll _ _

theorem length_resized (s : Seats) (size : Nat) :
    (s.resized size).taken.length = s.taken.length := by
  simpa [members] using (s.members_resized size).length_eq

theorem length_of_mapM {α β : Type} {f : α → Option β} {xs : List α} {ys : List β}
    (h : xs.mapM f = some ys) : ys.length = xs.length := by
  induction xs generalizing ys with
  | nil => cases h; rfl
  | cons x xs ih =>
    rw [List.mapM_cons] at h
    obtain ⟨y, _, h⟩ := Option.bind_eq_some_iff.mp h
    obtain ⟨rest, hrest, h⟩ := Option.bind_eq_some_iff.mp h
    cases h
    rw [List.length_cons, List.length_cons, ih hrest]

theorem length_of_ofSet? {ring : Ring} {vs : List Value} {s : Seats} (h : ofSet? ring vs = some s) :
    s.taken.length = vs.length := by
  unfold ofSet? at h
  split at h
  next => cases h
  next hring =>
    obtain ⟨_, hseats⟩ := not_or.mp hring
    obtain ⟨numbers, hnumbers, h⟩ := Option.bind_eq_some_iff.mp h
    cases h
    have hlength := length_of_mapM hnumbers
    simp only [List.length_zip, hlength, Nat.min_self]
    omega

end Seats

/-- The size of the ring in which a copy of so many members sits. -/
def copySize (members : Nat) : Nat :=
  if Seats.isFull Seats.leastSize members
  then Seats.sizeAbove members Seats.leastSize (2 * members) else Seats.leastSize

theorem copied_set (ring : Ring) (vs : List Value) : (set ring vs).copied =
    if ring.size = copySize vs.length then set ring vs
    else match Seats.ofSet? ring vs with
      | some s => (s.resized (copySize vs.length)).toSet
      | none => set ring vs := rfl

/-- A set stays in its ring, or it moves to one of the size that its copies have. -/
theorem copied_set_cases (ring : Ring) (vs : List Value) :
    (set ring vs).copied = set ring vs ∨ ∃ ring' vs', (set ring vs).copied = set ring' vs' ∧
      vs'.length = vs.length ∧ ring'.size = copySize vs.length := by
  rw [copied_set]
  split
  next => exact .inl rfl
  next =>
    split
    next s hs =>
      refine .inr ⟨_, _, rfl, ?_, Seats.size_resized _ _⟩
      rw [List.length_map, (Seats.inOrder_perm _).length_eq, Seats.length_resized,
        Seats.length_of_ofSet? hs]
    next => exact .inl rfl

/-- A copy is copied as it is. -/
theorem copied_copied (v : Value) : v.copied.copied = v.copied := by
  cases v with
  | set ring vs =>
    rcases copied_set_cases ring vs with h | ⟨ring', vs', h, hlength, hsize⟩
    · rw [h, h]
    · rw [h, copied_set, if_pos (by rw [hsize, hlength])]
  | _ => rfl

theorem copied_eq_null_iff (v : Value) : v.copied = .null ↔ v = .null := by
  cases v with
  | set ring vs =>
    rcases copied_set_cases ring vs with h | ⟨ring', vs', h, _⟩ <;> simp [h]
  | _ => rfl

theorem copied_eq_list_iff (v : Value) (xs : List Value) : v.copied = .list xs ↔ v = .list xs := by
  cases v with
  | set ring vs =>
    rcases copied_set_cases ring vs with h | ⟨ring', vs', h, _⟩ <;> simp [h]
  | _ => rfl

end TeamFlow.Value
