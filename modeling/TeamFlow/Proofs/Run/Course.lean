import TeamFlow.Proofs.Channel.Logs
import TeamFlow.Proofs.Run.History

/-! # The course of a run

A run that is asked again and again hands over steps (`Passes`) until a request
hands over none. It has exactly one such course, whatever happens at the site
between two requests: its limit bounds it, and every part of it goes on to the
whole. -/
namespace TeamFlow

variable {μ : Type}

namespace Run

variable {meanwhile : Step → Site μ → Site μ}

/-- Requests in a row hand over steps. What happens at the site after each of them is given. -/
inductive Passes (meanwhile : Step → Site μ → Site μ) :
    Run μ → Site μ → List (Step × Run μ) → Run μ → Site μ → Prop where
  | here (r : Run μ) (site : Site μ) : Passes meanwhile r site [] r site
  | step {r after last : Run μ} {site mid here : Site μ} {s : Step} {taken : List (Step × Run μ)}
      (hnext : r.next site = ((.step s, after), mid))
      (hrest : Passes meanwhile after (meanwhile s mid) taken last here) :
      Passes meanwhile r site ((s, after) :: taken) last here

/-- All steps of a run, each with the run after it, and where the request is made that hands over no
further step. -/
structure Course (meanwhile : Step → Site μ → Site μ) (r : Run μ) (site : Site μ) where
  taken : List (Step × Run μ)
  last : Run μ
  here : Site μ
  passes : Passes meanwhile r site taken last here
  ended : ∀ s, (last.next here).1.1 ≠ .step s

namespace Course

variable {r : Run μ} {site : Site μ}

/-- What the last request comes to. -/
def outcome (c : Course meanwhile r site) : Outcome := (c.last.next c.here).1.1

def final (c : Course meanwhile r site) : Run μ := (c.last.next c.here).1.2

end Course

/-! ## Steps in a row -/

theorem Passes.sound {g : Graph μ} (hg : g.Linked) {r last : Run μ} {site here : Site μ}
    {taken : List (Step × Run μ)} (h : Passes meanwhile r site taken last here) (hr : Sound g r) :
    Sound g last ∧ last.limit = r.limit ∧ last.count = r.count + taken.length := by
  induction h with
  | here => exact ⟨hr, rfl, rfl⟩
  | step hnext _ ih =>
    obtain ⟨hafter, _, hcount, hlimit⟩ := hr.stepped hg hnext
    obtain ⟨hlast, hlimit', hcount'⟩ := ih hafter
    rw [List.length_cons]
    exact ⟨hlast, hlimit'.trans hlimit, by omega⟩

theorem Passes.getLast? {r last : Run μ} {site here : Site μ} {taken : List (Step × Run μ)}
    (h : Passes meanwhile r site taken last here) (htaken : taken ≠ []) :
    ∃ s, taken.getLast? = some (s, last) := by
  induction h with
  | here => exact absurd rfl htaken
  | @step _ after _ _ _ _ s taken _ hrest ih =>
    cases hrest with
    | here => exact ⟨s, rfl⟩
    | @step _ _ _ _ _ _ s' rest _ _ =>
      obtain ⟨t, ht⟩ := ih (by simp)
      exact ⟨t, by rw [List.getLast?_cons_cons, ht]⟩

theorem Passes.phase {r last : Run μ} {site here : Site μ} {taken : List (Step × Run μ)}
    (h : Passes meanwhile r site taken last here) (htaken : taken ≠ []) : last.phase = .paused := by
  induction h with
  | here => exact absurd rfl htaken
  | step hnext hrest ih =>
    cases hrest with
    | here =>
      obtain ⟨_, _, _, _, _, _, _, hafter⟩ := (asked_of_next hnext).step rfl
      exact congrArg Run.phase hafter
    | step _ _ => exact ih (by simp)

theorem Passes.eq_nil {r last : Run μ} {site here : Site μ} {taken : List (Step × Run μ)}
    (h : Passes meanwhile r site taken last here) (hended : ∀ s, (r.next site).1.1 ≠ .step s) :
    taken = [] ∧ last = r ∧ here = site := by
  cases h with
  | here => exact ⟨rfl, rfl, rfl⟩
  | step hnext _ => exact absurd (congrArg (fun result => result.1.1) hnext) (hended _)

/-- The steps that a run takes in a row stay within its limit. -/
theorem Passes.length_lt_remaining {g : Graph μ} (hg : g.Linked) {r last : Run μ}
    {site here : Site μ} {taken : List (Step × Run μ)}
    (h : Passes meanwhile r site taken last here) (hr : Sound g r) :
    taken.length < r.remaining := by
  obtain ⟨hlast, hlimit, hcount⟩ := h.sound hg hr
  have hwithin := hlast.within
  rw [hlimit, hcount] at hwithin
  unfold remaining
  omega

/-- How taking all steps ends if the last request comes to this. -/
def ending : Outcome → Except Failure Unit
  | .failed why => .error why
  | _ => .ok ()

/-- Taking all steps ends with the first request that hands over no step. -/
theorem Passes.takeAll_of_ended {r last : Run μ} {site here : Site μ}
    {taken : List (Step × Run μ)} (h : Passes (fun _ site => site) r site taken last here)
    (hended : ∀ s, (last.next here).1.1 ≠ .step s) {fuel : Nat} (hfuel : taken.length < fuel) :
    takeAll (fun _ _ => pure ()) fuel r site =
      ((ending (last.next here).1.1, (last.next here).1.2), (last.next here).2) := by
  induction h generalizing fuel with
  | here r site =>
    obtain ⟨fuel, rfl⟩ : ∃ n, fuel = n + 1 := ⟨fuel - 1, by omega⟩
    unfold Run.takeAll
    split
    next hnext => rw [hnext]; rfl
    next hnext => rw [hnext]; rfl
    next hnext => exact absurd (congrArg (fun result => result.1.1) hnext) (hended _)
  | step hnext _ ih =>
    rw [List.length_cons] at hfuel
    obtain ⟨fuel, rfl⟩ : ∃ n, fuel = n + 1 := ⟨fuel - 1, by omega⟩
    unfold Run.takeAll
    rw [hnext]
    exact ih hended (by omega)

theorem Passes.history {start r last : Run μ} {site here : Site μ} {taken : List (Step × Run μ)}
    (h : Passes meanwhile r site taken last here) {log : List (Exchange μ)}
    (hlog : History start log r) : ∃ log', History start log' last := by
  induction h generalizing log with
  | here => exact ⟨log, hlog⟩
  | @step _ _ _ site mid _ s _ hnext _ ih =>
    exact ih (hlog.asks (x := ⟨site, .step s, _, mid⟩) hnext)

theorem Passes.answered {g : Graph μ} (hg : g.Linked) {r last : Run μ} {site here : Site μ}
    {taken : List (Step × Run μ)} (h : Passes meanwhile r site taken last here) (hr : Sound g r) :
    ∀ t ∈ taken, ∃ given mid left, g.Answers t.1.node given mid t.1.delta left := by
  induction h with
  | here => simp
  | step hnext _ ih =>
    intro t ht
    rcases List.mem_cons.mp ht with rfl | ht
    · obtain ⟨_, _, _, _, hanswer, _⟩ := hr.answered hg hnext
      exact ⟨_, _, _, hanswer⟩
    · exact ih (hr.stepped hg hnext).1 t ht

/-- Steps in a row put what they contribute to a log behind what it holds. -/
theorem Passes.log {g : Graph μ} (hg : g.Linked) {r last : Run μ} {site here : Site μ}
    {taken : List (Step × Run μ)} (h : Passes meanwhile r site taken last here) (hr : Sound g r)
    {name : String} (hlog : g.schema.Logs name) {xs : List Value}
    (hxs : Table.row? r.store.values name = some (.list xs)) :
    Table.row? last.store.values name =
      some (.list (xs ++ taken.flatMap fun t => Store.added t.1.delta name)) := by
  induction h generalizing xs with
  | here => simpa using hxs
  | step hnext _ ih =>
    obtain ⟨_, _, _, _, _, hmerges⟩ := hr.answered hg hnext
    have hlast := ih (hr.stepped hg hnext).1 (hmerges.log hlog hxs)
    rwa [List.flatMap_cons, ← List.append_assoc]

/-! ## Whole courses -/

/-- Every run of a compiled graph has a course: it takes no more steps than its limit allows. -/
theorem Sound.course {g : Graph μ} (hg : g.Linked) {r : Run μ} (h : Sound g r) (site : Site μ) :
    Nonempty (Course meanwhile r site) := by
  induction hleft : r.limit.value - r.count generalizing r site with
  | zero =>
    refine ⟨⟨[], r, site, .here r site, fun s hs => ?_⟩⟩
    have hnext : r.next site = ((.step s, (r.next site).1.2), (r.next site).2) := by rw [← hs]
    obtain ⟨hafter, _, hcount, hlimit⟩ := h.stepped hg hnext
    have hwithin := hafter.within
    rw [hcount, hlimit] at hwithin
    omega
  | succ n ih =>
    rcases step_or_other (r.next site).1.1 with ⟨s, hs⟩ | hother
    · have hnext : r.next site = ((.step s, (r.next site).1.2), (r.next site).2) := by rw [← hs]
      obtain ⟨hafter, _, hcount, hlimit⟩ := h.stepped hg hnext
      obtain ⟨c⟩ := ih hafter (meanwhile s (r.next site).2) (by rw [hcount, hlimit]; omega)
      exact ⟨⟨_, c.last, c.here, .step hnext c.passes, c.ended⟩⟩
    · exact ⟨⟨[], r, site, .here r site, hother⟩⟩

theorem Course.final_store {r : Run μ} {site : Site μ} (c : Course meanwhile r site) :
    c.final.store = c.last.store := by
  obtain ⟨_, _, hstore, _⟩ := (asked_next c.last c.here).frame c.ended
  exact hstore

theorem Course.goesOn {r p : Run μ} {site here : Site μ} (c : Course meanwhile r site)
    {taken : List (Step × Run μ)} (h : Passes meanwhile r site taken p here) :
    ∃ rest, c.taken = taken ++ rest ∧ Passes meanwhile p here rest c.last c.here := by
  induction h with
  | here => exact ⟨c.taken, rfl, c.passes⟩
  | step hnext _ ih =>
    obtain ⟨whole, last, there, hwhole, hended⟩ := c
    cases hwhole with
    | here => exact absurd (congrArg (fun result => result.1.1) hnext) (hended _)
    | step hnext' hrest =>
      rw [hnext] at hnext'
      cases hnext'
      obtain ⟨rest, heq, hpasses⟩ := ih ⟨_, last, there, hrest, hended⟩
      exact ⟨rest, congrArg (List.cons _) heq, hpasses⟩

theorem Course.finish_eq {g : Graph μ} (hg : g.Linked) {start opened : Run μ} {site : Site μ}
    (hstart : Sound g start) (hopen : start.opened? = .ok opened)
    (c : Course (fun _ site => site) opened site) :
    start.finish (fun _ _ => pure ()) site =
      ((ending c.outcome, c.final), (c.last.next c.here).2) := by
  unfold finish
  rw [hopen]
  exact c.passes.takeAll_of_ended c.ended
    (c.passes.length_lt_remaining hg (hstart.opened hopen))

end Run

namespace Graph

variable {g : Graph μ} {initial given : Value} {site begun left : Site μ}

/-- What comes of a graph is told by the outcome of its course, and by the state that is left. -/
theorem invoke_eq (hg : g.Linked) {start opened : Run μ}
    (hstart : g.start initial given site = (.ok start, begun))
    (hopen : start.opened? = .ok opened) (c : Run.Course (fun _ site => site) opened begun) :
    g.invoke initial given (fun _ _ => pure ()) site =
      ((Run.ending c.outcome).map fun _ => c.final.state, (c.last.next c.here).2) := by
  refine (Act.bind_ok hstart).trans ?_
  rw [c.finish_eq hg (.start hstart) hopen]
  cases Run.ending c.outcome <;> rfl

theorem invoke_of_course (hg : g.Linked) {start opened : Run μ}
    (hstart : g.start initial given site = (.ok start, begun))
    (hopen : start.opened? = .ok opened) (c : Run.Course (fun _ site => site) opened begun)
    (hover : c.outcome = .over) :
    g.invoke initial given (fun _ _ => pure ()) site =
      (.ok c.final.state, (c.last.next c.here).2) := by
  rw [invoke_eq hg hstart hopen c, hover]
  rfl

/-- A graph that is run to the end takes a whole course. -/
theorem invoke_eq_ok (hg : g.Linked) {final : State}
    (h : g.invoke initial given (fun _ _ => pure ()) site = (.ok final, left)) :
    ∃ start begun opened, g.start initial given site = (.ok start, begun) ∧
      start.opened? = .ok opened ∧ ∃ c : Run.Course (fun _ site => site) opened begun,
        c.outcome = .over ∧ c.final.state = final ∧ (c.last.next c.here).2 = left := by
  obtain ⟨start, begun, hstart, h⟩ := Act.bind_eq_ok.mp h
  have hopen := Run.opens_of_start hstart
  obtain ⟨c⟩ : Nonempty (Run.Course (fun _ site => site) _ begun) :=
    ((Run.Sound.start hstart).opened hopen).course hg begun
  rw [c.finish_eq hg (.start hstart) hopen] at h
  refine ⟨start, begun, _, hstart, hopen, c, ?_⟩
  cases hover : c.outcome with
  | step s => exact absurd hover (c.ended s)
  | failed why =>
    rw [hover] at h
    cases h
  | _ =>
    rw [hover] at h
    cases h
    exact ⟨rfl, rfl, rfl⟩

end Graph

end TeamFlow
