/-! Tables. A table keeps its rows in the order in which their names were first used, and a name has
one row. -/

namespace TeamFlow

abbrev Table (α : Type) := List (String × α)

namespace Table

variable {α β : Type}

def names (t : Table α) : List String := t.map Prod.fst

def row? (t : Table α) (name : String) : Option α :=
  match t with
  | [] => none
  | (m, a) :: t => if m = name then some a else row? t name

def has (t : Table α) (name : String) : Bool := (names t).contains name

/-- Write a row: in its old place if the name has one, else at the end. -/
def put (t : Table α) (name : String) (a : α) : Table α :=
  match t with
  | [] => [(name, a)]
  | (m, b) :: t => if m = name then (m, a) :: t else (m, b) :: put t name a

def mapRows (f : α → β) (t : Table α) : Table β := t.map fun r => (r.1, f r.2)

theorem names_cons (r : String × α) (t : Table α) : names (r :: t) = r.1 :: names t := rfl

theorem row?_put (t : Table α) (n m : String) (a : α) :
    row? (put t n a) m = if m = n then some a else row? t m := by
  induction t with
  | nil =>
    by_cases h : m = n
    · simp [put, row?, h]
    · simp [put, row?, h, Ne.symm h]
  | cons r t ih =>
    obtain ⟨k, b⟩ := r
    by_cases hk : k = n
    · subst hk
      by_cases hm : m = k
      · simp [put, row?, hm]
      · simp [put, row?, hm, Ne.symm hm]
    · by_cases hm : k = m
      · subst hm
        simp [put, row?, hk]
      · simp [put, row?, hk, hm, ih]

theorem row?_isSome_iff (t : Table α) (n : String) : (row? t n).isSome ↔ n ∈ names t := by
  induction t with
  | nil => simp [row?, names]
  | cons r t ih =>
    obtain ⟨k, b⟩ := r
    by_cases hk : k = n
    · simp [row?, names, hk]
    · simp [row?, names_cons, hk, ih, Ne.symm hk]

theorem names_put (t : Table α) (n : String) (a : α) :
    names (put t n a) = if n ∈ names t then names t else names t ++ [n] := by
  induction t with
  | nil => simp [put, names]
  | cons r t ih =>
    obtain ⟨k, b⟩ := r
    by_cases hk : k = n
    · simp [put, names, hk]
    · by_cases hm : n ∈ names t <;> simp [put, names_cons, hk, ih, hm, Ne.symm hk]

theorem mem_of_row? {t : Table α} {n : String} {a : α} (h : row? t n = some a) : (n, a) ∈ t := by
  induction t with
  | nil => simp [row?] at h
  | cons r t ih =>
    obtain ⟨k, b⟩ := r
    by_cases hk : k = n
    · simp only [row?, if_pos hk, Option.some.injEq] at h
      simp [hk, h]
    · simp only [row?, if_neg hk] at h
      simp [ih h]

theorem row?_of_mem {t : Table α} (hd : (names t).Nodup) {n : String} {a : α} (h : (n, a) ∈ t) :
    row? t n = some a := by
  induction t with
  | nil => simp at h
  | cons r t ih =>
    obtain ⟨k, b⟩ := r
    rw [names_cons, List.nodup_cons] at hd
    rcases List.mem_cons.mp h with heq | hm
    · cases heq
      simp [row?]
    · have hk : k ≠ n := by
        rintro rfl
        exact hd.1 (List.mem_map.mpr ⟨_, hm, rfl⟩)
      simp only [row?, if_neg hk]
      exact ih hd.2 hm

theorem mem_of_mem_put {t : Table α} {n : String} {a : α} {r : String × α} (h : r ∈ put t n a) :
    r = (n, a) ∨ r ∈ t := by
  induction t with
  | nil => simpa [put] using h
  | cons q t ih =>
    obtain ⟨k, b⟩ := q
    by_cases hk : k = n
    · simp only [put, if_pos hk, List.mem_cons] at h
      rcases h with rfl | h
      · simp [hk]
      · simp [h]
    · simp only [put, if_neg hk, List.mem_cons] at h
      rcases h with rfl | h
      · simp
      · rcases ih h with rfl | h
        · simp
        · simp [h]

theorem names_put_nodup {t : Table α} (hd : (names t).Nodup) (n : String) (a : α) :
    (names (put t n a)).Nodup := by
  rw [names_put]
  split
  · exact hd
  next hn =>
    rw [List.nodup_append]
    refine ⟨hd, by simp, ?_⟩
    rintro m hm k hk rfl
    exact hn (List.mem_singleton.mp hk ▸ hm)

end Table

end TeamFlow
