import TeamFlow.Graph.Reach

/-! # Both searches find exactly what paths say

`visited` is compared with paths from the start, `finishing` with paths to the
goal. The work list of `visited` keeps every successor of a seen name seen or
pending; the sweeps of `finishing` stop only where one more sweep adds nothing,
and their bound is never what stops them. -/
namespace TeamFlow.Reach

variable {next : String → List String}

theorem Path.trans {a b c : String} (hab : Path next a b) (hbc : Path next b c) :
    Path next a c := by
  induction hab with
  | refl _ => exact hbc
  | step h _ ih => exact .step h (ih hbc)

theorem Path.snoc {a b c : String} (hab : Path next a b) (hc : c ∈ next b) : Path next a c :=
  hab.trans (.step hc (.refl c))

/-! ## Visiting from a start -/

/-- Whatever seen and pending names have in common, if successors inherit it. -/
theorem visit_sound {P : String → Prop} (names : List String)
    (hstep : ∀ a b, P a → b ∈ next a → P b) (seen pending : List String)
    (hs : ∀ n ∈ seen, P n) (hp : ∀ n ∈ pending, P n) :
    ∀ n ∈ visit next names seen pending, P n := by
  fun_induction visit next names seen pending with
  | case1 seen => exact hs
  | case2 seen n rest hn ih =>
    have hPn : P n := hp n (by simp)
    apply ih
    · intro m hm
      rcases List.mem_cons.mp hm with rfl | hm
      · exact hPn
      · exact hs m hm
    · intro m hm
      rcases List.mem_append.mp hm with hm | hm
      · exact hstep n m hPn hm
      · exact hp m (by simp [hm])
  | case3 seen n rest _ ih => exact ih hs (fun m hm => hp m (by simp [hm]))

theorem visit_subset (names seen pending : List String) (hs : ∀ n ∈ seen, n ∈ names) :
    ∀ n ∈ visit next names seen pending, n ∈ names := by
  fun_induction visit next names seen pending with
  | case1 seen => exact hs
  | case2 seen n rest hn ih =>
    apply ih
    intro m hm
    rcases List.mem_cons.mp hm with rfl | hm
    · exact hn.1
    · exact hs m hm
  | case3 seen n rest _ ih => exact ih hs

theorem seen_subset_visit (names seen pending : List String) :
    ∀ n ∈ seen, n ∈ visit next names seen pending := by
  fun_induction visit next names seen pending with
  | case1 seen => exact fun _ h => h
  | case2 seen n rest _ ih => exact fun m hm => ih m (by simp [hm])
  | case3 seen n rest _ ih => exact ih

theorem pending_subset_visit (names seen pending : List String) :
    ∀ n ∈ pending, n ∈ names → n ∈ visit next names seen pending := by
  fun_induction visit next names seen pending with
  | case1 seen => simp
  | case2 seen n rest _ ih =>
    intro m hm hin
    rcases List.mem_cons.mp hm with rfl | hm
    · exact seen_subset_visit names (m :: seen) _ m (by simp)
    · exact ih m (by simp [hm]) hin
  | case3 seen n rest hn ih =>
    intro m hm hin
    rcases List.mem_cons.mp hm with rfl | hm
    · have hseen : m ∈ seen := by
        simp only [hin, true_and, Bool.not_eq_false] at hn
        exact List.contains_iff_mem.mp hn
      exact seen_subset_visit names seen rest m hseen
    · exact ih m hm hin

/-- What is seen in the end is closed under successors, if every successor of a seen name is seen
or pending at first. -/
theorem visit_closed (names seen pending : List String)
    (h : ∀ a ∈ seen, ∀ b ∈ next a, b ∈ names → b ∈ seen ∨ b ∈ pending) :
    ∀ a ∈ visit next names seen pending, ∀ b ∈ next a, b ∈ names →
      b ∈ visit next names seen pending := by
  fun_induction visit next names seen pending with
  | case1 seen => simpa using h
  | case2 seen n rest hn ih =>
    apply ih
    intro a ha b hb hin
    rcases List.mem_cons.mp ha with rfl | ha
    · exact .inr (by simp [hb])
    · rcases h a ha b hb hin with hbs | hbp
      · exact .inl (by simp [hbs])
      · rcases List.mem_cons.mp hbp with rfl | hbr
        · exact .inl (by simp)
        · exact .inr (by simp [hbr])
  | case3 seen n rest hn ih =>
    apply ih
    intro a ha b hb hin
    rcases h a ha b hb hin with hbs | hbp
    · exact .inl hbs
    · rcases List.mem_cons.mp hbp with rfl | hbr
      · simp only [hin, true_and, Bool.not_eq_false] at hn
        exact .inl (List.contains_iff_mem.mp hn)
      · exact .inr hbr

/-- Along a path, membership in a set that is closed among `names` carries over. Off `names` there
are only dead ends, so the path never comes back from there. -/
theorem Path.mem_of_closed {names found : List String} {a c : String} (hp : Path next a c)
    (hclosed : ∀ a ∈ names, ∀ b ∈ next a, b ∈ names ∨ next b = [])
    (hfound : ∀ a ∈ found, ∀ b ∈ next a, b ∈ names → b ∈ found)
    (hsub : ∀ a ∈ found, a ∈ names) (ha : a ∈ found) (hc : c ∈ names) : c ∈ found := by
  induction hp with
  | refl a => exact ha
  | @step a b c hb rest ih =>
    rcases hclosed a (hsub a ha) b hb with hin | hdead
    · exact ih (hfound a ha b hb hin) hc
    · cases rest with
      | refl _ => exact hfound a ha b hb hc
      | step hb' _ => rw [hdead] at hb'; cases hb'

/-- A visit follows paths: it finds those of the names that paths from the start lead to, provided
that what the names lead to are names again or dead ends. -/
theorem mem_visited_iff {names : List String} {start : String} (hstart : start ∈ names)
    (hclosed : ∀ a ∈ names, ∀ b ∈ next a, b ∈ names ∨ next b = []) (n : String) :
    n ∈ visited next names start ↔ n ∈ names ∧ Path next start n := by
  constructor
  · intro h
    refine ⟨visit_subset names [] [start] (by simp) n h, ?_⟩
    exact visit_sound (P := Path next start) names (fun a b ha hb => ha.snoc hb) [] [start]
      (by simp) (by simp [Path.refl]) n h
  · rintro ⟨hn, hp⟩
    exact hp.mem_of_closed hclosed (visit_closed names [] [start] (by simp))
      (visit_subset names [] [start] (by simp))
      (pending_subset_visit names [] [start] start (by simp) hstart) hn

theorem visit_nodup (names seen pending : List String) (h : seen.Nodup) :
    (visit next names seen pending).Nodup := by
  fun_induction visit next names seen pending with
  | case1 seen => exact h
  | case2 seen n rest hn ih =>
    refine ih (List.nodup_cons.mpr ⟨fun hseen => ?_, h⟩)
    rw [List.contains_iff_mem.mpr hseen] at hn
    cases hn.2
  | case3 seen n rest _ ih => exact ih h

theorem visited_nodup (names : List String) (start : String) :
    (visited next names start).Nodup := visit_nodup names [] [start] List.nodup_nil

theorem Path.congr {next' : String → List String} (h : ∀ n m, m ∈ next n → m ∈ next' n)
    {a c : String} (hp : Path next a c) : Path next' a c := by
  induction hp with
  | refl a => exact .refl a
  | step hb _ ih => exact .step (h _ _ hb) ih

/-! ## Sweeping towards a goal -/

variable {goal : String}

theorem leadsOn_iff {done : List String} {n : String} :
    leadsOn next goal done n = true ↔ ∃ m ∈ next n, m = goal ∨ m ∈ done := by
  simp [leadsOn, List.any_eq_true]

theorem sweep_suffix (names done : List String) : done <:+ sweep next goal names done := by
  fun_induction sweep next goal names done with
  | case1 done => exact List.suffix_refl done
  | case2 n rest done _ ih => exact (List.suffix_cons n done).trans ih
  | case3 n rest done _ ih => exact ih

theorem sweep_nodup (names done : List String) (h : done.Nodup) :
    (sweep next goal names done).Nodup := by
  fun_induction sweep next goal names done with
  | case1 done => exact h
  | case2 n rest done hn ih =>
    simp only [Bool.and_eq_true, Bool.not_eq_true', List.contains_eq_mem, decide_eq_false_iff_not]
      at hn
    exact ih (List.nodup_cons.mpr ⟨hn.1, h⟩)
  | case3 n rest done _ ih => exact ih h

/-- Whatever done names have in common, if a name that leads on to them, or to the goal, has it. -/
theorem sweep_sound {P : String → Prop} (names done : List String) (hd : ∀ n ∈ done, P n)
    (hstep : ∀ n ∈ names, (∃ m ∈ next n, m = goal ∨ P m) → P n) :
    ∀ n ∈ sweep next goal names done, P n := by
  fun_induction sweep next goal names done with
  | case1 done => exact hd
  | case2 n rest done hn ih =>
    simp only [Bool.and_eq_true] at hn
    obtain ⟨m, hm, hgoal⟩ := leadsOn_iff.mp hn.2
    apply ih
    · intro k hk
      rcases List.mem_cons.mp hk with rfl | hk
      · exact hstep k (by simp) ⟨m, hm, hgoal.imp_right (hd m)⟩
      · exact hd k hk
    · exact fun k hk => hstep k (by simp [hk])
  | case3 n rest done _ ih => exact ih hd (fun k hk => hstep k (by simp [hk]))

/-- A sweep that adds nothing leaves no name that leads on. -/
theorem sweep_stable (names done : List String)
    (h : (sweep next goal names done).length = done.length) :
    ∀ n ∈ names, leadsOn next goal done n = true → n ∈ done := by
  fun_induction sweep next goal names done with
  | case1 done => simp
  | case2 n rest done _ ih =>
    have hsuffix : n :: done <:+ sweep next goal rest (n :: done) := sweep_suffix rest _
    have hlen := hsuffix.length_le
    simp only [List.length_cons] at hlen
    omega
  | case3 n rest done hn ih =>
    intro m hm hlead
    rcases List.mem_cons.mp hm with rfl | hm
    · simpa [hlead] using hn
    · exact ih h m hm hlead

theorem sweeps_sound {P : String → Prop} (names : List String) (fuel : Nat) (done : List String)
    (hd : ∀ n ∈ done, P n) (hstep : ∀ n ∈ names, (∃ m ∈ next n, m = goal ∨ P m) → P n) :
    ∀ n ∈ sweeps next goal names fuel done, P n := by
  induction fuel generalizing done with
  | zero => exact hd
  | succ fuel ih =>
    simp only [sweeps]
    split
    · exact hd
    · exact ih _ (sweep_sound names done hd hstep)

/-- The bound on the sweeps is never what stops them: each but the last adds a name, and a name is
added once. -/
theorem sweeps_stable (names : List String) (fuel : Nat) (done : List String) (hnd : done.Nodup)
    (hsub : ∀ n ∈ done, n ∈ names) (hfuel : names.length < fuel + done.length) :
    ∀ n ∈ names, leadsOn next goal (sweeps next goal names fuel done) n = true →
      n ∈ sweeps next goal names fuel done := by
  induction fuel generalizing done with
  | zero =>
    have hle := List.Nodup.length_le_of_subset hnd hsub
    omega
  | succ fuel ih =>
    simp only [sweeps]
    split
    next hlen => exact sweep_stable names done hlen
    next hlen =>
      have hsuffix : done <:+ sweep next goal names done := sweep_suffix names done
      have hgrow := hsuffix.length_le
      apply ih _ (sweep_nodup names done hnd)
      · exact sweep_sound (P := (· ∈ names)) names done hsub (fun n hn _ => hn)
      · omega

/-- Sweeping finds those of the names from which a path leads to the goal, provided that what the
names lead to are names again or the goal, and that the goal is none of the names. -/
theorem mem_finishing_iff {names : List String} (hgoal : goal ∉ names)
    (hclosed : ∀ a ∈ names, ∀ b ∈ next a, b ∈ names ∨ b = goal) (n : String) :
    n ∈ finishing next names goal ↔ n ∈ names ∧ Path next n goal := by
  constructor
  · refine sweeps_sound (P := fun n => n ∈ names ∧ Path next n goal) names _ [] (by simp) ?_ n
    rintro n hn ⟨m, hm, rfl | hp⟩
    · exact ⟨hn, .step hm (.refl _)⟩
    · exact ⟨hn, .step hm hp.2⟩
  · rintro ⟨hn, hp⟩
    have hstable : ∀ n ∈ names,
        leadsOn next goal (sweeps next goal names (names.length + 1) []) n = true →
          n ∈ sweeps next goal names (names.length + 1) [] :=
      sweeps_stable names (names.length + 1) [] List.nodup_nil (by simp) (by simp)
    induction hp with
    | refl a => exact absurd hn hgoal
    | @step a b c hb rest ih =>
      apply hstable a hn
      apply leadsOn_iff.mpr
      rcases hclosed a hn b hb with hin | heq
      · exact ⟨b, hb, .inr (ih hgoal hclosed hin hstable)⟩
      · exact ⟨b, hb, .inl heq⟩

end TeamFlow.Reach
