import TeamFlow.Table

/-! # Rows of tables

Names that a table does not have yet are added at its end, rows that it has are
written in place, and a row is looked up in a table as in the parts that it was
put together from. A table is told by its names and by the row of each of them. -/
namespace TeamFlow.Table

variable {α β : Type}

theorem names_mapRows (f : α → β) (t : Table α) : names (mapRows f t) = names t := by
  simp [names, mapRows]

theorem put_new {t : Table α} {name : String} (h : name ∉ names t) (a : α) :
    put t name a = t ++ [(name, a)] := by
  induction t with
  | nil => rfl
  | cons row t ih =>
    obtain ⟨k, b⟩ := row
    rw [names_cons, List.mem_cons, not_or] at h
    rw [put, if_neg (Ne.symm h.1), ih h.2]
    rfl

theorem put_put (t : Table α) (name : String) (a b : α) :
    put (put t name a) name b = put t name b := by
  induction t with
  | nil => simp [put]
  | cons row t ih =>
    obtain ⟨k, c⟩ := row
    by_cases hk : k = name
    · simp [put, hk]
    · simp [put, hk, ih]

/-- Rows of two names can be written in either order, unless both names are new. -/
theorem put_comm {t : Table α} {n m : String} (hne : n ≠ m) (hn : n ∈ names t) (a b : α) :
    put (put t n a) m b = put (put t m b) n a := by
  induction t with
  | nil => cases hn
  | cons row t ih =>
    obtain ⟨k, c⟩ := row
    by_cases hkn : k = n
    · subst hkn
      simp [put, hne]
    · have hn' : n ∈ names t := by
        rw [names_cons, List.mem_cons] at hn
        exact hn.resolve_left (Ne.symm hkn)
      by_cases hkm : k = m
      · subst hkm
        simp [put, hkn]
      · simp [put, hkn, hkm, ih hn']

theorem put_of_row? {t : Table α} {name : String} {a : α} (h : row? t name = some a) :
    put t name a = t := by
  induction t with
  | nil => cases h
  | cons row t ih =>
    obtain ⟨k, b⟩ := row
    by_cases hk : k = name
    · have hb : b = a := by simpa [row?, hk] using h
      simp [put, hk, hb]
    · rw [put, if_neg hk, ih (by simpa [row?, hk] using h)]

theorem row?_eq_none_iff (t : Table α) (n : String) : row? t n = none ↔ n ∉ names t := by
  rw [← row?_isSome_iff, Option.not_isSome_iff_eq_none]

theorem row?_of_names {t u : Table α} (hnames : names t = names u) {n : String} {a : α}
    (h : row? t n = some a) : ∃ b, row? u n = some b := by
  rw [← Option.isSome_iff_exists, row?_isSome_iff, ← hnames, ← row?_isSome_iff, h]
  rfl

theorem row?_append (t u : Table α) (n : String) : row? (t ++ u) n = (row? t n).or (row? u n) := by
  induction t with
  | nil => rfl
  | cons row t ih =>
    obtain ⟨k, b⟩ := row
    rw [List.cons_append, row?, row?]
    split
    next => rfl
    next => exact ih

theorem row?_mapRows (f : α → β) (t : Table α) (n : String) :
    row? (mapRows f t) n = (row? t n).map f := by
  induction t with
  | nil => rfl
  | cons row t ih =>
    obtain ⟨k, b⟩ := row
    show row? ((k, f b) :: mapRows f t) n = _
    rw [row?, row?, ih]
    split <;> rfl

theorem filter_of_row? {t : Table α} (hd : (names t).Nodup) {n : String} {a : α}
    (h : row? t n = some a) : t.filter (fun r => r.1 = n) = [(n, a)] := by
  induction t with
  | nil => cases h
  | cons row t ih =>
    obtain ⟨k, b⟩ := row
    rw [names_cons, List.nodup_cons] at hd
    by_cases hk : k = n
    · subst hk
      have hb : b = a := by simpa [row?] using h
      have hnone : t.filter (fun r => r.1 = k) = [] := by
        rw [List.filter_eq_nil_iff]
        intro r hr heq
        exact hd.1 (List.mem_map.mpr ⟨r, hr, by simpa using heq⟩)
      rw [List.filter_cons_of_pos (by simp), hnone, hb]
    · rw [List.filter_cons_of_neg (by simpa using hk)]
      exact ih hd.2 (by simpa [row?, hk] using h)

theorem row?_perm {t u : Table α} (h : t.Perm u) (hd : (names t).Nodup) (n : String) :
    row? t n = row? u n := by
  have hd' : (names u).Nodup := (h.map Prod.fst).nodup_iff.mp hd
  have hmem : ∀ a, row? t n = some a ↔ row? u n = some a := fun a =>
    ⟨fun hrow => row?_of_mem hd' (h.subset (mem_of_row? hrow)),
      fun hrow => row?_of_mem hd (h.symm.subset (mem_of_row? hrow))⟩
  exact Option.ext hmem

theorem ext_of_names {t u : Table α} (hnames : names t = names u) (hd : (names t).Nodup)
    (h : ∀ n ∈ names t, row? t n = row? u n) : t = u := by
  induction t generalizing u with
  | nil => cases u with
    | nil => rfl
    | cons _ _ => cases hnames
  | cons row t ih =>
    cases u with
    | nil => cases hnames
    | cons row' u =>
      obtain ⟨k, a⟩ := row
      obtain ⟨k', b⟩ := row'
      rw [names_cons, names_cons, List.cons.injEq] at hnames
      obtain ⟨rfl, hnames⟩ := hnames
      rw [names_cons, List.nodup_cons] at hd
      have hab : a = b := by simpa [row?] using h k (by simp [names_cons])
      have hrest : t = u := by
        refine ih hnames hd.2 fun n hn => ?_
        have hne : k ≠ n := fun heq => hd.1 (heq ▸ hn)
        simpa [row?, hne] using h n (by simp [names_cons, hn])
      rw [hab, hrest]

end TeamFlow.Table
