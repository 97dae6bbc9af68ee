import TeamFlow.Proofs.Run.History

/-! # The steps of a run, replayed store by store

The steps that a run has handed over are enough to go through it again: each
follows from the store before it and from what its handler and the router before
it answered (`Replays`). Requests that fail leave the last of these stores. -/
namespace TeamFlow

variable {μ : Type}

namespace Run

/-- Which node is run as the `i`-th, counted from 0: first the entry, then the one that the node
before it leads to, whose router is shown the state after its step. `mid` is the site at which the
node is called then. -/
def LeadsTo (g : Graph μ) (stores : Nat → Store) (taken : List (Site μ × Step)) (i : Nat)
    (node : String) (site mid : Site μ) : Prop :=
  match i with
  | 0 => node = g.entry ∧ mid = site
  | j + 1 => ∃ last, taken[j]? = some last ∧
      g.nextNode last.2.node (.mapping (stores (j + 1)).snapshot) site = (.ok node, mid)

/-- Some steps of a run, with the stores before, between and after them. -/
structure Replays (g : Graph μ) (initial : Value) (stores : Nat → Store)
    (taken : List (Site μ × Step)) : Prop where
  first : (stores 0).Begins g.schema initial
  step : ∀ i site s, taken[i]? = some (site, s) → s.number = i + 1 ∧ ∃ mid left,
    LeadsTo g stores taken i s.node site mid ∧
      g.Answers s.node (stores i).snapshot mid s.delta left ∧
      (stores i).Merges g.schema s.delta (stores (i + 1))

/-- The stores up to the `n`-th, and a new one after it. -/
def extended (stores : Nat → Store) (n : Nat) (new : Store) : Nat → Store :=
  fun k => if k ≤ n then stores k else new

theorem extended_of_le {stores : Nat → Store} {n k : Nat} {new : Store} (h : k ≤ n) :
    extended stores n new k = stores k := if_pos h

theorem extended_succ (stores : Nat → Store) (n : Nat) (new : Store) :
    extended stores n new (n + 1) = new := if_neg (by omega)

theorem LeadsTo.extend {g : Graph μ} {stores : Nat → Store} {taken : List (Site μ × Step)}
    {i : Nat} (hi : i ≤ taken.length) {node : String} {site mid : Site μ}
    (h : LeadsTo g stores taken i node site mid) (new : Store) (t : Site μ × Step) :
    LeadsTo g (extended stores taken.length new) (taken ++ [t]) i node site mid := by
  cases i with
  | zero => exact h
  | succ j =>
    obtain ⟨last, hlast, hroute⟩ := h
    refine ⟨last, ?_, ?_⟩
    · rw [List.getElem?_append_left (by omega)]
      exact hlast
    · rw [extended_of_le hi]
      exact hroute

theorem Replays.snoc {g : Graph μ} {initial : Value} {stores : Nat → Store}
    {taken : List (Site μ × Step)} (h : Replays g initial stores taken) {site mid left : Site μ}
    {s : Step} {new : Store} (hnumber : s.number = taken.length + 1)
    (hleads : LeadsTo g stores taken taken.length s.node site mid)
    (hanswer : g.Answers s.node (stores taken.length).snapshot mid s.delta left)
    (hmerges : (stores taken.length).Merges g.schema s.delta new) :
    Replays g initial (extended stores taken.length new) (taken ++ [(site, s)]) := by
  refine ⟨by rw [extended_of_le (Nat.zero_le _)]; exact h.first, ?_⟩
  intro i here t ht
  by_cases hi : i < taken.length
  · rw [List.getElem?_append_left hi] at ht
    obtain ⟨hnumber, mid, left, hleads, hanswer, hmerges⟩ := h.step i here t ht
    rw [extended_of_le (by omega : i ≤ taken.length), extended_of_le (by omega : i + 1 ≤ _)]
    exact ⟨hnumber, mid, left, hleads.extend (by omega) new _, hanswer, hmerges⟩
  · have hlen : i < (taken ++ [(site, s)]).length := (List.getElem?_eq_some_iff.mp ht).1
    rw [List.length_append, List.length_singleton] at hlen
    obtain rfl : i = taken.length := by omega
    rw [List.getElem?_concat_length] at ht
    cases ht
    rw [extended_of_le (Nat.le_refl _), extended_succ]
    exact ⟨hnumber, mid, left, hleads.extend (Nat.le_refl _) new _, hanswer, hmerges⟩

/-! ## Histories -/

/-- What a history has come to: its steps are replayed up to the store of the run, and a run that
waits to be routed on stands at the node of the last step. -/
structure Follows (g : Graph μ) (initial : Value) (stores : Nat → Store)
    (taken : List (Site μ × Step)) (r : Run μ) : Prop where
  replays : Replays g initial stores taken
  store : r.store = stores taken.length
  last : r.phase = .paused → ∃ t, taken.getLast? = some t ∧ t.2.node = r.current

theorem Follows.leadsTo {g : Graph μ} {initial : Value} {stores : Nat → Store}
    {taken : List (Site μ × Step)} {r p : Run μ} (h : Follows g initial stores taken r)
    (hr : Sound g r) (hcount : r.count = taken.length) {site mid : Site μ}
    (hturn : r.Turns site p mid) : LeadsTo g stores taken taken.length p.current site mid := by
  cases hturn with
  | first hphase =>
    obtain ⟨_, _, hzero, hcurrent⟩ := hr.standing.of_fresh (.inr hphase)
    rw [← hcount, hzero]
    refine ⟨?_, rfl⟩
    show r.current = g.entry
    rw [hcurrent, hr.graph]
  | next hphase hroute htarget hlimit =>
    obtain ⟨t, ht, hnode⟩ := h.last hphase
    obtain ⟨_, _, hpos, _⟩ := hr.standing.of_paused hphase
    obtain ⟨n, hn⟩ : ∃ n, taken.length = n + 1 := ⟨taken.length - 1, by omega⟩
    rw [hn]
    refine ⟨t, ?_, ?_⟩
    · rw [List.getLast?_eq_getElem?, hn] at ht
      exact ht
    · rw [← hn, hnode, ← h.store, ← hr.graph]
      exact hroute

theorem Follows.asked {g : Graph μ} (hg : g.Linked) {initial : Value} {stores : Nat → Store}
    {log : List (Exchange μ)} {r : Run μ} (h : Follows g initial stores (steps log) r)
    (hr : Sound g r) (hcount : r.count = (steps log).length) {x : Exchange μ}
    (hnext : r.next x.site = ((x.outcome, x.after), x.left)) :
    ∃ stores', Follows g initial stores' (steps (log ++ [x])) x.after := by
  have hasked := asked_of_next hnext
  rcases step_or_other x.outcome with ⟨s, hs⟩ | hother
  · obtain ⟨p, mid, delta, new, hturn, hcall, rfl, hafter⟩ := hasked.step hs
    have hafter : x.after = _ := hafter
    have hp := (hturn.active hg hr).1
    obtain ⟨_, hstore, hcount', _⟩ := hturn.frame
    have hleads := h.leadsTo hr hcount hturn
    rw [hp.graph] at hcall
    obtain ⟨hanswer, hmerges⟩ := Graph.perform_eq_ok hp.complete hp.node hcall
    rw [hstore, h.store] at hanswer hmerges
    have hnumber : p.count + 1 = (steps log).length + 1 := by rw [hcount', hcount]
    refine ⟨extended stores (steps log).length new, ?_, ?_, ?_⟩
    · rw [steps_snoc_step hs]
      exact h.replays.snoc hnumber hleads hanswer hmerges
    · rw [steps_snoc_step hs, List.length_append, List.length_singleton, extended_succ, hafter]
    · intro _
      rw [steps_snoc_step hs, hafter]
      exact ⟨_, List.getLast?_concat, rfl⟩
  · obtain ⟨_, _, hstore, hphase⟩ := hasked.frame hother
    refine ⟨stores, ?_⟩
    rw [steps_snoc_other hother]
    exact ⟨h.replays, hstore.trans h.store, fun hpaused => absurd hpaused hphase⟩

theorem History.follows {g : Graph μ} (hg : g.Linked) {initial given : Value} {site left : Site μ}
    {start r : Run μ} {log : List (Exchange μ)}
    (hstart : g.start initial given site = (.ok start, left)) (h : History start log r) :
    ∃ stores, Follows g initial stores (steps log) r := by
  induction h with
  | fresh =>
    obtain ⟨_, hbegins, _, _, _, _, hphase⟩ := start_eq_ok hstart
    refine ⟨fun _ => start.store, ⟨hbegins, fun i site s hs => by cases hs⟩, rfl, ?_⟩
    intro hpaused
    rw [hphase] at hpaused
    cases hpaused
  | opens _ hopen ih =>
    obtain ⟨stores, hfollows⟩ := ih
    obtain ⟨_, rfl⟩ := opened?_eq_ok hopen
    exact ⟨stores, hfollows.replays, hfollows.store, fun hpaused => by cases hpaused⟩
  | asks h hnext ih =>
    obtain ⟨stores, hfollows⟩ := ih
    obtain ⟨hsound, _, hcount⟩ := h.sound hg (.start hstart)
    have hzero : start.count = 0 := (start_eq_ok hstart).2.2.1
    exact hfollows.asked hg hsound (by omega) hnext

/-! ## Runs to the end -/

/-- A run is asked again and again, and a watcher is shown each step in between, until it is
over. -/
inductive Drives (watch : Step → Run μ → Act (Site μ) Unit) :
    Run μ → Site μ → List (Exchange μ) → Run μ → Site μ → Prop where
  | finished {r last : Run μ} {site left : Site μ} (hnext : r.next site = ((.over, last), left)) :
      Drives watch r site [⟨site, .over, last, left⟩] last left
  | step {r after last : Run μ} {site mid shown left : Site μ} {s : Step} {log : List (Exchange μ)}
      (hnext : r.next site = ((.step s, after), mid)) (hwatch : watch s after mid = (.ok (), shown))
      (hrest : Drives watch after shown log last left) :
      Drives watch r site (⟨site, .step s, after, mid⟩ :: log) last left

theorem Drives.history {watch : Step → Run μ → Act (Site μ) Unit} {r last : Run μ}
    {site left : Site μ} {log : List (Exchange μ)} (h : Drives watch r site log last left)
    {start : Run μ} {before : List (Exchange μ)} (hbefore : History start before r) :
    History start (before ++ log) last := by
  induction h generalizing before with
  | @finished _ last site left hnext => exact .asks (x := ⟨site, .over, last, left⟩) hbefore hnext
  | @step _ after _ site mid _ _ s log hnext _ _ ih =>
    have hone := ih (.asks (x := ⟨site, .step s, after, mid⟩) hbefore hnext)
    rwa [List.append_assoc] at hone

theorem Asked.completed_of_over {r : Run μ} {site left : Site μ} {result : Outcome × Run μ}
    (h : r.Asked site result left) (hopen : r.phase = .opened ∨ r.phase = .paused)
    (hover : result.1 = .over) : result.2.status = .completed := by
  cases h with
  | idle hphase => exact absurd hphase (not_idle hopen)
  | stepped _ _ | exhausted _ _ _ _ => cases hover
  | nodeFailed _ _ | routingFailed _ _ =>
    obtain ⟨raised, hraised⟩ := failWith_failed _ _ _
    cases hraised.symm.trans hover
  | completed _ _ => rfl

theorem Drives.completed {watch : Step → Run μ → Act (Site μ) Unit} {r last : Run μ}
    {site left : Site μ} {log : List (Exchange μ)} (h : Drives watch r site log last left)
    (hopen : r.phase = .opened ∨ r.phase = .paused) : last.status = .completed := by
  induction h with
  | finished hnext => exact (asked_of_next hnext).completed_of_over hopen rfl
  | step hnext _ _ ih =>
    obtain ⟨_, _, _, _, _, _, _, hafter⟩ := (asked_of_next hnext).step rfl
    exact ih (.inr (congrArg Run.phase hafter))

theorem takeAll_eq_ok_iff {g : Graph μ} (hg : g.Linked) {watch : Step → Run μ → Act (Site μ) Unit}
    {fuel : Nat} {r last : Run μ} {site left : Site μ} (h : Sound g r)
    (hfuel : r.limit.value < r.count + fuel) :
    takeAll watch fuel r site = ((.ok (), last), left) ↔
      ∃ log, Drives watch r site log last left := by
  induction fuel generalizing r site with
  -- a run within its limit has fuel left, so the fuel is never what ends it
  | zero => exact absurd h.within (by omega)
  | succ fuel ih =>
    constructor
    · intro htake
      unfold takeAll at htake
      split at htake
      next after mid hnext => cases htake; exact ⟨_, .finished hnext⟩
      next => cases htake
      next s after mid hnext =>
        obtain ⟨hafter, _, hcount, hlimit⟩ := h.stepped hg hnext
        split at htake
        next shown hwatch =>
          obtain ⟨log, hlog⟩ := (ih hafter (by rw [hcount, hlimit]; omega)).mp htake
          exact ⟨_, .step hnext hwatch hlog⟩
        next => cases htake
    · intro hdrives
      obtain ⟨log, hdrives⟩ := hdrives
      cases hdrives with
      | finished hnext => simp only [takeAll, hnext]
      | step hnext hwatch hrest =>
        obtain ⟨hafter, _, hcount, hlimit⟩ := h.stepped hg hnext
        simp only [takeAll, hnext, hwatch]
        exact (ih hafter (by rw [hcount, hlimit]; omega)).mpr ⟨_, hrest⟩

end Run

namespace Graph

theorem invoke_eq_ok_iff {g : Graph μ} (hg : g.Linked) (initial given : Value)
    (watch : Step → Run μ → Act (Site μ) Unit) (site left : Site μ) (state : State) :
    g.invoke initial given watch site = (.ok state, left) ↔
      ∃ start mid opened log last, g.start initial given site = (.ok start, mid) ∧
        start.opened? = .ok opened ∧ Run.Drives watch opened mid log last left ∧
        state = last.state := by
  have hfuel : ∀ r : Run μ, r.limit.value < r.count + r.remaining := by
    intro r
    unfold Run.remaining
    omega
  constructor
  · intro h
    obtain ⟨start, mid, hstart, h⟩ := Act.bind_eq_ok.mp h
    split at h
    next last left' hfinish =>
      cases h
      unfold Run.finish at hfinish
      split at hfinish
      next opened hopen =>
        have hsound := (Run.Sound.start hstart).opened hopen
        obtain ⟨log, hlog⟩ := (Run.takeAll_eq_ok_iff hg hsound (hfuel opened)).mp hfinish
        exact ⟨start, mid, opened, log, last, hstart, hopen, hlog, rfl⟩
      next => cases hfinish
    next => cases h
  · intro h
    obtain ⟨start, mid, opened, log, last, hstart, hopen, hdrives, rfl⟩ := h
    have hsound := (Run.Sound.start hstart).opened hopen
    have htake := (Run.takeAll_eq_ok_iff hg hsound (hfuel opened)).mpr ⟨log, hdrives⟩
    refine Act.bind_eq_ok.mpr ⟨start, mid, hstart, ?_⟩
    simp only [Run.finish, hopen, htake]

end Graph

namespace Run

/-- Runs can be replayed. Whatever was asked of a run of a compiled graph, and whether its last
request failed or not, its state is the last of the stores through which its steps are replayed.
Invoking a graph gives this state for a run that is driven to its end. -/
theorem replay {g : Graph μ} (hg : g.Compiled) (initial given : Value) :
    (∀ site left start log r, g.start initial given site = (.ok start, left) →
        History start log r → ∃ stores, Replays g initial stores (steps log) ∧
          r.store = stores (steps log).length) ∧
      ∀ watch site left state, g.invoke initial given watch site = (.ok state, left) ↔
        ∃ start mid opened log last stores, g.start initial given site = (.ok start, mid) ∧
          start.opened? = .ok opened ∧ Drives watch opened mid log last left ∧
          last.status = .completed ∧ Replays g initial stores (steps log) ∧
          last.store = stores (steps log).length ∧
          state = (stores (steps log).length).snapshot := by
  have hlinked := hg.linked
  constructor
  · intro site left start log r hstart h
    obtain ⟨stores, hfollows⟩ := h.follows hlinked hstart
    exact ⟨stores, hfollows.replays, hfollows.store⟩
  · intro watch site left state
    rw [Graph.invoke_eq_ok_iff hlinked]
    constructor
    · intro h
      obtain ⟨start, mid, opened, log, last, hstart, hopen, hdrives, hstate⟩ := h
      have hhistory : History start log last := hdrives.history (.opens .fresh hopen)
      obtain ⟨stores, hfollows⟩ := hhistory.follows hlinked hstart
      have hphase : opened.phase = .opened := by
        obtain ⟨_, rfl⟩ := opened?_eq_ok hopen
        rfl
      refine ⟨start, mid, opened, log, last, stores, hstart, hopen, hdrives,
        hdrives.completed (.inl hphase), hfollows.replays, hfollows.store, ?_⟩
      exact hstate.trans (congrArg Store.snapshot hfollows.store)
    · intro h
      obtain ⟨start, mid, opened, log, last, stores, hstart, hopen, hdrives, _, _, hstore, hend⟩ :=
        h
      exact ⟨start, mid, opened, log, last, hstart, hopen, hdrives,
        hend.trans (congrArg Store.snapshot hstore).symm⟩

/-- Two nodes that write to a log; the first time the second one follows the first one, then the
end does. -/
def writing : Graph Nat :=
  ((Builder.new (Builder.oneChannel .append (.list [])) none).after
    (Builder.turnTaking (fun _ => pure (.mapping [(.str "x", .str "boss")]))
      (fun _ => pure (.mapping [(.str "x", .str "hand")]))
      (fun _ site => (.ok (if site.memory = 0 then .int 1 else .str "go"),
        { site with memory := site.memory + 1 })))).graph .null

theorem replay_writing : writing.Compiled ∧ ∃ log stores,
    Replays writing .null stores (steps log) ∧ (stores (steps log).length).snapshot =
      [(.str "x", .list [.str "boss", .str "hand", .str "boss"])] := by
  have hcompiled : writing.Compiled := ⟨_, _, _, _, Builder.turnTaking_compiles _ _ _ _ _⟩
  obtain ⟨left, hinvoke⟩ : ∃ left, writing.invoke .null .null (fun _ _ => pure ()) (.bare 0) =
      (.ok [(.str "x", .list [.str "boss", .str "hand", .str "boss"])], left) := ⟨_, rfl⟩
  obtain ⟨_, _, _, log, _, stores, _, _, _, _, hreplays, _, hstate⟩ :=
    ((replay hcompiled .null .null).2 _ _ _ _).mp hinvoke
  exact ⟨hcompiled, log, stores, hreplays, hstate.symm⟩

end Run

end TeamFlow
