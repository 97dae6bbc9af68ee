import TeamFlow.Proofs.Run.Containment
import TeamFlow.Proofs.Run.Ending
import TeamFlow.Proofs.Run.Replay
import TeamFlow.Proofs.Team.Decision
import TeamFlow.Proofs.Team.Star

/-! # A team takes turns

In every run of a team the supervisor and its members take turns, and each
member is the one that the supervisor named right before. This is told step by
step along the stores of a run (`Leads`): a decision is merged as it is, the
router reads it back, and it has a path. Nothing that a worker writes in between
is read, since its edge leads back without looking. -/
namespace TeamFlow.Team

open Run

variable {μ : Type}

/-- Whose turn the `i`-th step is, counted from 0. -/
def OnTurn (names : List String) (i : Nat) (node : String) : Prop :=
  (i % 2 = 0 ∧ node = supervisorNode) ∨ (i % 2 = 1 ∧ node ∈ names)

/-- Where a choice leads to. -/
def targetOf (choice : String) : String := if choice = finishName then endName else choice

/-- What the `i`-th step of a team leads to. -/
inductive Leads (names : List String) (i : Nat) (t : Step) : String → Prop where
  | named {choice : String} (heven : i % 2 = 0) (hnode : t.node = supervisorNode)
      (hnext : t.delta.get? "next" = some (.str choice)) (hchoice : choice ∈ finishName :: names) :
      Leads names i t (targetOf choice)
  | back (hodd : i % 2 = 1) (hnode : t.node ∈ names) : Leads names i t supervisorNode

theorem Leads.cases_of_ne_end {names : List String} {i : Nat} {t : Step} {node : String}
    (h : Leads names i t node) (hnode : node ≠ endName) :
    (i % 2 = 0 ∧ node ∈ names ∧ t.delta.get? "next" = some (.str node)) ∨
      (i % 2 = 1 ∧ node = supervisorNode) := by
  cases h with
  | @named choice heven _ hnext hchoice =>
    unfold targetOf at hnode ⊢
    split at hnode
    next => exact absurd rfl hnode
    next hne =>
      rw [if_neg hne]
      exact .inl ⟨heven, (List.mem_cons.mp hchoice).resolve_left hne, hnext⟩
  | back hodd _ => exact .inr ⟨hodd, rfl⟩

theorem Leads.onTurn {names : List String} {i : Nat} {t : Step} {node : String}
    (h : Leads names i t node) (hnode : node ≠ endName) : OnTurn names (i + 1) node := by
  rcases h.cases_of_ne_end hnode with ⟨heven, hmem, _⟩ | ⟨hodd, heq⟩
  · exact .inr ⟨by omega, hmem⟩
  · exact .inl ⟨by omega, heq⟩

section Graph

variable {g : Graph μ} {s : Supervisor μ} {names : List String}

/-! ## Edges -/

theorem IsStar.nextNode_supervisor (hg : IsStar g s names) {store : Store} {choice : String}
    (hstore : Table.row? store.values "next" = some (.str choice))
    (hchoice : choice ∈ finishName :: names) (here : Site μ) :
    g.nextNode supervisorNode (.mapping store.snapshot) here = (.ok (targetOf choice), here) := by
  obtain ⟨r, hedge, hanswer, hfinish, hpaths⟩ := hg.routed
  have hcall := Supervisor.route_answer hstore here
  rw [← hanswer] at hcall
  have hpath : r.pathOf? (.str choice) = some (targetOf choice) := by
    unfold targetOf
    split
    next heq => rw [heq]; exact hfinish
    next hne => exact hpaths choice ((List.mem_cons.mp hchoice).resolve_left hne)
  rw [Graph.nextNode_routed hedge hcall, Routing.resolve, hpath]

theorem IsStar.nextNode_member (hg : IsStar g s names) {n : String} (hn : n ∈ names)
    (given : Value) (here : Site μ) : g.nextNode n given here = (.ok supervisorNode, here) :=
  Graph.nextNode_fixed (hg.back n hn) given here

/-! ## Steps -/

theorem IsStar.decision (hg : IsStar g s names) {given : State} {site left : Site μ}
    {delta : Entries} (h : g.Answers supervisorNode given site delta left) :
    ∃ choice ∈ finishName :: names, s.Decision choice delta := by
  cases h with
  | update hnode hcall =>
    rw [hg.handler] at hnode
    cases hnode
    obtain ⟨choice, hchoice, _, heq, hdecision⟩ := Supervisor.decision_of_handler hg.options hcall
    cases heq
    exact ⟨choice, hchoice, hdecision⟩
  | nothing hnode hcall _ =>
    rw [hg.handler] at hnode
    cases hnode
    obtain ⟨_, _, _, heq, _⟩ := Supervisor.decision_of_handler hg.options hcall
    cases heq

theorem isNode_of_answers {node : String} {given : State} {site left : Site μ} {delta : Entries}
    (h : g.Answers node given site delta left) : g.IsNode node := by
  cases h with
  | update hnode _ | nothing hnode _ _ => exact (Table.row?_isSome_iff _ _).mp (by simp [hnode])

theorem IsStar.ne_end_of_answers (hg : IsStar g s names) {node : String} {given : State}
    {site left : Site μ} {delta : Entries} (h : g.Answers node given site delta left) :
    node ≠ endName := by
  intro heq
  exact hg.compiled.linked.reserved (heq ▸ isNode_of_answers h)

/-- The step of the supervisor leads to whom it named, and every other step leads back. -/
theorem leads_of_onTurn (hg : IsStar g s names) (hnext : g.schema.Overrides "next") {i : Nat}
    {t : Step} (hturn : OnTurn names i t.node) {old new : Store} {mid left : Site μ}
    (hanswer : g.Answers t.node old.snapshot mid t.delta left)
    (hmerges : old.Merges g.schema t.delta new) : ∃ target, Leads names i t target ∧
      ∀ here, g.nextNode t.node (.mapping new.snapshot) here = (.ok target, here) := by
  rcases hturn with ⟨heven, hnode⟩ | ⟨hodd, hnode⟩
  · rw [hnode] at hanswer
    obtain ⟨choice, hchoice, hdecision⟩ := hg.decision hanswer
    refine ⟨_, .named heven hnode hdecision.next hchoice, fun here => ?_⟩
    rw [hnode]
    exact hg.nextNode_supervisor (hdecision.merged hnext hmerges) hchoice here
  · exact ⟨_, .back hodd hnode, hg.nextNode_member hnode _⟩

section Replays

variable {initial : Value} {stores : Nat → Store} {taken : List (Site μ × Step)}

/-- Every step is that of a node whose turn it is, by induction on the number of the step. -/
theorem onTurn_of_leadsTo (hg : IsStar g s names) (hnext : g.schema.Overrides "next")
    (h : Replays g initial stores taken) {i : Nat} {node : String} {site mid : Site μ}
    (hleads : LeadsTo g stores taken i node site mid) (hnode : node ≠ endName) :
    OnTurn names i node := by
  induction i generalizing node site mid with
  | zero => exact .inl ⟨rfl, hleads.1.trans hg.entry⟩
  | succ i ih =>
    obtain ⟨last, hlast, hroute⟩ := hleads
    obtain ⟨_, _, _, hbefore, hanswer, hmerges⟩ := h.step i last.1 last.2 hlast
    obtain ⟨target, htarget, hall⟩ :=
      leads_of_onTurn hg hnext (ih hbefore (hg.ne_end_of_answers hanswer)) hanswer hmerges
    rw [hall site] at hroute
    cases hroute
    exact htarget.onTurn hnode

theorem leads_of_replays (hg : IsStar g s names) (hnext : g.schema.Overrides "next")
    (h : Replays g initial stores taken) {i : Nat} {t : Site μ × Step} (ht : taken[i]? = some t) :
    OnTurn names i t.2.node ∧ ∃ target, Leads names i t.2 target ∧ ∀ here,
      g.nextNode t.2.node (.mapping (stores (i + 1)).snapshot) here = (.ok target, here) := by
  obtain ⟨_, _, _, hleads, hanswer, hmerges⟩ := h.step i t.1 t.2 ht
  have hturn := onTurn_of_leadsTo hg hnext h hleads (hg.ne_end_of_answers hanswer)
  exact ⟨hturn, leads_of_onTurn hg hnext hturn hanswer hmerges⟩

theorem named_of_replays (hg : IsStar g s names) (hnext : g.schema.Overrides "next")
    (h : Replays g initial stores taken) {i : Nat} {u t : Site μ × Step}
    (hu : taken[i]? = some u) (ht : taken[i + 1]? = some t) (heven : i % 2 = 0) :
    u.2.delta.get? "next" = some (.str t.2.node) := by
  obtain ⟨_, target, htarget, hall⟩ := leads_of_replays hg hnext h hu
  obtain ⟨_, _, _, hleads, hanswer, _⟩ := h.step (i + 1) t.1 t.2 ht
  obtain ⟨last, hlast, hroute⟩ := hleads
  have hsame : some last = some u := hlast.symm.trans hu
  cases hsame
  rw [hall t.1] at hroute
  cases hroute
  rcases htarget.cases_of_ne_end (hg.ne_end_of_answers hanswer) with ⟨_, _, hnamed⟩ | ⟨hodd, _⟩
  · exact hnamed
  · omega

end Replays

/-! ## Runs -/

theorem leads_of_paused (hg : IsStar g s names) (hnext : g.schema.Overrides "next")
    {initial : Value} {stores : Nat → Store} {taken : List (Site μ × Step)} {r : Run μ}
    (h : Follows g initial stores taken r) (hphase : r.phase = .paused) : ∃ t target,
      taken.getLast? = some t ∧ Leads names (taken.length - 1) t.2 target ∧
      ∀ here, g.nextNode r.current (.mapping r.state) here = (.ok target, here) := by
  obtain ⟨t, ht, hnode⟩ := h.last hphase
  have hindex : taken[taken.length - 1]? = some t := by rw [← List.getLast?_eq_getElem?, ht]
  have hlength : taken.length - 1 + 1 = taken.length := by
    have hbound := (List.getElem?_eq_some_iff.mp hindex).1
    omega
  obtain ⟨_, target, htarget, hall⟩ := leads_of_replays hg hnext h.replays hindex
  rw [hlength, ← h.store, hnode] at hall
  exact ⟨t, target, ht, htarget, hall⟩

theorem step_of_decision (hg : IsStar g s names)
    (hwrites : ∀ name, s.WritesTo name → g.schema.Overrides name) {r p : Run μ} (hr : Sound g r)
    {here mid left : Site μ} (hturn : r.Turns here p mid) (hnode : p.current = supervisorNode)
    {delta : Entries} (hcall : s.handler (.mapping p.state) mid = (.ok (.mapping delta), left)) :
    (r.next here).1.1 = .step ⟨r.count + 1, supervisorNode, delta⟩ := by
  obtain ⟨hp, _⟩ := hturn.active hg.compiled.linked hr
  obtain ⟨_, _, hcount, _⟩ := hturn.frame
  obtain ⟨_, _, _, heq, hdecision⟩ := Supervisor.decision_of_handler hg.options hcall
  cases heq
  -- all channels of a decision are overridden, so the store takes it
  obtain ⟨new, hnew⟩ := Store.apply_of_overrides hp.complete fun e he => by
    obtain ⟨name, hname, hwrite⟩ := hdecision.channels e he
    exact ⟨name, hname, hwrites name hwrite⟩
  have hperform : g.perform p.store supervisorNode mid = (.ok (delta, new), left) := by
    rw [Graph.perform_eq hg.handler hcall]
    simp only [Graph.settle, hnew]
  simp only [hturn.next_eq, execute, hp.graph, hnode, hperform, hcount]

theorem Leads.eq_end_iff (hg : IsStar g s names) {i : Nat} {t : Step} {target : String}
    (h : Leads names i t target) : target = endName ↔
      t.node = supervisorNode ∧ t.delta.get? "next" = some (.str finishName) := by
  have hend : endName ∉ names := fun hmem =>
    hg.compiled.linked.reserved ((hg.nodes endName).mpr (.inr hmem))
  cases h with
  | @named choice _ hnode hnext hchoice =>
    have htarget : targetOf choice = endName ↔ choice = finishName := by
      unfold targetOf
      split
      next heq => simp [heq]
      next hne =>
        have hmem := (List.mem_cons.mp hchoice).resolve_left hne
        exact ⟨fun heq => absurd (heq ▸ hmem) hend, fun heq => absurd heq hne⟩
    rw [htarget, hnext]
    simp [hnode]
  | back _ hnode =>
    exact ⟨fun heq => absurd heq (by decide), fun hboss => absurd (hboss.1 ▸ hnode) hg.apart⟩

/-- A run that is completed was led to the end by the supervisor's choice to stop. -/
theorem completed_iff (hg : IsStar g s names) (hnext : g.schema.Overrides "next")
    {initial given : Value} {site left : Site μ} {start r : Run μ} {log : List (Exchange μ)}
    (hstart : g.start initial given site = (.ok start, left)) (h : History start log r)
    (hclosed : r.phase = .closed) : r.status = .completed ↔ ∃ t, (steps log).getLast? = some t ∧
      t.2.node = supervisorNode ∧ t.2.delta.get? "next" = some (.str finishName) := by
  have hlinked := hg.compiled.linked
  obtain ⟨_, _, hzero, _, _, _, hphase⟩ := start_eq_ok hstart
  obtain ⟨p, x, hby⟩ := h.closedBy (by rw [hphase]; exact nofun) hclosed
  obtain ⟨before, _, _, hbefore, hsteps⟩ := hby.split
  obtain ⟨hp, _, hcount⟩ := hbefore.sound hlinked (.start hstart)
  have hends : r.status = .completed ↔ p.Finishes x.site :=
    hp.completes_iff hlinked (asked_of_next hby.request) hby.open_
  rw [hends, hsteps, Finishes, hp.graph]
  rcases hby.open_ with hopened | hpaused
  · -- a run that was closed by its first request took no step
    obtain ⟨_, _, hnone, _⟩ := hp.standing.of_fresh (.inr hopened)
    have hempty : steps before = [] := List.eq_nil_of_length_eq_zero (by omega)
    simp [hopened, hempty]
  · obtain ⟨stores, hfollows⟩ := hbefore.follows hlinked hstart
    obtain ⟨t, target, ht, htarget, hall⟩ := leads_of_paused hg hnext hfollows hpaused
    have hlead := htarget.eq_end_iff hg
    rw [hall x.site, ht]
    constructor
    · intro hend
      obtain ⟨_, _, hend⟩ := hend
      cases hend
      exact ⟨t, rfl, hlead.mp rfl⟩
    · intro hchoice
      obtain ⟨_, heq, hchoice⟩ := hchoice
      cases heq
      exact ⟨hpaused, x.site, by rw [hlead.mpr hchoice]⟩

end Graph

/-! ## Consultations -/

/-- The node whose turn a request comes to, as the run that is about to run it. -/
def turn? (r : Run μ) (site : Site μ) : Option (Run μ) :=
  match r.phase with
  | .opened => some { r with status := .running }
  | .paused => match r.graph.nextNode r.current (.mapping r.state) site with
    | (.ok target, _) =>
      if target ≠ endName ∧ r.count < r.limit.value then some { r with current := target } else none
    | (.error _, _) => none
  | _ => none

theorem turn?_eq_some_iff {r p : Run μ} {site : Site μ} :
    turn? r site = some p ↔ ∃ mid, r.Turns site p mid := by
  unfold turn?
  constructor
  · intro h
    split at h
    next hphase => cases h; exact ⟨_, .first hphase⟩
    next hphase =>
      split at h
      next hroute =>
        split at h
        next hgo => cases h; exact ⟨_, .next hphase hroute hgo.1 hgo.2⟩
        next => cases h
      next => cases h
    next => cases h
  · intro h
    obtain ⟨mid, hturn⟩ := h
    cases hturn with
    | first hphase => simp only [hphase]
    | next hphase hroute htarget hlimit =>
      simp only [hphase, hroute, ne_eq, htarget, hlimit, not_false_eq_true, and_self, if_true]

/-- What the oracle is asked in a request, if it is. The supervisor asks it once in each of its
turns, unless there is nothing to ask it with. -/
def consulted? (s : Supervisor μ) (r : Run μ) (site : Site μ) : Option Request :=
  (turn? r site).bind fun p =>
    if p.current = supervisorNode then (s.request (.mapping p.state)).toOption else none

theorem consulted?_of_turns (s : Supervisor μ) {r p : Run μ} {here mid : Site μ}
    (hturn : r.Turns here p mid) (hnode : p.current = supervisorNode) :
    consulted? s r here = (s.request (.mapping r.state)).toOption := by
  rw [consulted?, turn?_eq_some_iff.mpr ⟨mid, hturn⟩, Option.bind_some, if_pos hnode, Run.state,
    Run.state, hturn.frame.2.1]

/-- What the oracle is asked in a turn of the supervisor is all that the supervisor does at its
site. -/
theorem leaves_of_turns {s : Supervisor μ} {r p : Run μ} {here mid : Site μ}
    (hturn : r.Turns here p mid) (hnode : p.current = supervisorNode) :
    (s.handler (.mapping p.state) mid).2 = s.afterAsking (consulted? s r here) mid := by
  rw [s.handler_leaves, consulted?_of_turns s hturn hnode, Run.state, Run.state, hturn.frame.2.1]

/-- What the oracle is asked in some requests in a row, the first of them to a given run. -/
def consultations (s : Supervisor μ) : Run μ → List (Exchange μ) → List Request
  | _, [] => []
  | r, x :: log => (consulted? s r x.site).toList ++ consultations s x.after log

theorem consultations_snoc (s : Supervisor μ) {r after : Run μ} {log : List (Exchange μ)}
    (h : History r log after) (hphase : r.phase ≠ .unopened) (x : Exchange μ) :
    consultations s r (log ++ [x]) =
      consultations s r log ++ (consulted? s after x.site).toList := by
  have hlast : ∀ (log : List (Exchange μ)) (r : Run μ), consultations s r (log ++ [x]) =
      consultations s r log ++
        (consulted? s ((log.getLast?.map Exchange.after).getD r) x.site).toList := by
    intro log
    induction log with
    | nil => simp [consultations]
    | cons y log ih =>
      intro r
      rw [List.cons_append, consultations, consultations, ih y.after, List.append_assoc]
      cases log <;> rfl
  rw [hlast]
  cases h with
  | fresh => rfl
  | opens hbefore hopen => exact absurd (opened?_eq_ok hopen).1 (hbefore.phase_ne_unopened hphase)
  | asks _ _ => simp

/-- The supervisor is asked after an even number of steps, below the limit. -/
theorem even_of_consulted {g : Graph μ} {s : Supervisor μ} {names : List String}
    (hg : IsStar g s names) (hnext : g.schema.Overrides "next") {initial : Value}
    {stores : Nat → Store} {taken : List (Site μ × Step)} {r : Run μ}
    (h : Follows g initial stores taken r) (hr : Sound g r) (hcount : r.count = taken.length)
    {site : Site μ} {req : Request} (hasked : consulted? s r site = some req) :
    r.count % 2 = 0 ∧ r.count < r.limit.value ∧ (r.phase = .opened ∨ r.phase = .paused) := by
  obtain ⟨p, hp, hreq⟩ := Option.bind_eq_some_iff.mp hasked
  obtain ⟨mid, hturn⟩ := turn?_eq_some_iff.mp hp
  obtain ⟨hactive, hbelow⟩ := hturn.active hg.compiled.linked hr
  obtain ⟨_, _, hsame, hlimit⟩ := hturn.frame
  have hnode : p.current = supervisorNode := by
    split at hreq
    next heq => exact heq
    next => cases hreq
  have hne : p.current ≠ endName := by rw [hnode]; decide
  have hopen : r.phase = .opened ∨ r.phase = .paused := by
    cases hturn with
    | first hphase => exact .inl hphase
    | next hphase _ _ _ => exact .inr hphase
  rw [hsame, hlimit] at hbelow
  refine ⟨?_, hbelow, hopen⟩
  rcases onTurn_of_leadsTo hg hnext h.replays (h.leadsTo hr hcount hturn) hne with
    ⟨heven, _⟩ | ⟨_, hmem⟩
  · rw [hcount]
    exact heven
  · exact absurd (hnode ▸ hmem) hg.apart

/-- The oracle is asked at most once for every two steps that are allowed, by induction on the
requests: a run that is still on its way has taken a step since it was asked last. -/
theorem consultations_le {g : Graph μ} {s : Supervisor μ} {names : List String}
    (hg : IsStar g s names) (hnext : g.schema.Overrides "next") {initial given : Value}
    {site left : Site μ} {start opened r : Run μ} {log : List (Exchange μ)}
    (hstart : g.start initial given site = (.ok start, left))
    (hopen : start.opened? = .ok opened) (h : History opened log r) :
    (r.phase ≠ .closed → 2 * (consultations s opened log).length ≤ r.count + 1) ∧
      2 * (consultations s opened log).length ≤ start.limit.value + 1 := by
  have hlinked := hg.compiled.linked
  have hphase : opened.phase ≠ .unopened := by
    obtain ⟨_, rfl⟩ := opened?_eq_ok hopen
    exact nofun
  induction h with
  | fresh => simp [consultations]
  | opens h hopen _ => exact absurd (opened?_eq_ok hopen).1 (h.phase_ne_unopened hphase)
  | @asks log r x h hrequest ih =>
    have hfrom := h.of_opened hopen
    obtain ⟨hr, hlimit, hcount⟩ := hfrom.sound hlinked (.start hstart)
    obtain ⟨stores, hfollows⟩ := hfrom.follows hlinked hstart
    have hzero : start.count = 0 := (start_eq_ok hstart).2.2.1
    rw [consultations_snoc s h hphase]
    by_cases hclosed : r.phase = .closed
    · -- nothing is asked for a run that is over
      have hsame : x.after = r := by
        rw [next_closed hclosed] at hrequest
        exact (congrArg (fun result => result.1.2) hrequest).symm
      have hnone : consulted? s r x.site = none := by simp [consulted?, turn?, hclosed]
      rw [hsame, hnone]
      simpa using ih
    · have hopened : r.phase = .opened ∨ r.phase = .paused :=
        open_of_ne (h.phase_ne_unopened hphase) hclosed
      have hstep : x.after.phase ≠ .closed → x.after.count = r.count + 1 := by
        intro hopen
        rcases step_or_other x.outcome with ⟨t, ht⟩ | hother
        · rw [ht] at hrequest
          exact (hr.stepped hlinked hrequest).2.2.1
        · exact absurd ((asked_of_next hrequest).closed_of_other hopened hother) hopen
      obtain ⟨hway, hall⟩ := ih
      have hbefore := hway hclosed
      rw [List.length_append]
      cases hreq : consulted? s r x.site with
      | none =>
        simp only [Option.toList_none, List.length_nil]
        exact ⟨fun hopen => by have := hstep hopen; omega, hall⟩
      | some req =>
        -- the count is even, so twice the consultations so far cannot exceed it
        obtain ⟨heven, hbelow⟩ := even_of_consulted hg hnext hfollows hr (by omega) hreq
        rw [hlimit] at hbelow
        simp only [Option.toList_some, List.length_singleton]
        exact ⟨fun hopen => by have := hstep hopen; omega, by omega⟩

/-! ## Teams -/

/-- A schema under which the decisions of a supervisor can be merged. -/
structure Suits (s : Supervisor μ) (schema : Schema) : Prop where
  defaults : ∀ c ∈ schema.channels, c.default.isSome = true
  overrides : ∀ name, s.WritesTo name → schema.Overrides name

theorem Suits.channels_ne_nil {s : Supervisor μ} {schema : Schema} (h : Suits s schema) :
    schema.channels ≠ [] := by
  obtain ⟨c, hc, _⟩ := h.overrides "next" (.inl rfl)
  exact List.ne_nil_of_mem hc

/-- What holds of a run of a team wherever the requests to it have brought it. Steps are numbered
from 1, so those of the supervisor have odd numbers. -/
structure TakesTurns (g : Graph μ) (s : Supervisor μ) (names : List String) (opened : Run μ)
    (log : List (Exchange μ)) (r : Run μ) : Prop where
  numbered : ∀ i t, (steps log)[i]? = some t → t.2.number = i + 1
  supervisor : ∀ t ∈ steps log, t.2.number % 2 = 1 → t.2.node = supervisorNode ∧
    ∃ choice ∈ finishName :: names, t.2.delta.get? "next" = some (.str choice)
  member : ∀ t ∈ steps log, t.2.number % 2 = 0 → t.2.node ∈ names
  named : ∀ u ∈ steps log, ∀ t ∈ steps log, t.2.number = u.2.number + 1 → u.2.number % 2 = 1 →
    u.2.delta.get? "next" = some (.str t.2.node)
  routes : r.phase = .paused → ∃ t target, (steps log).getLast? = some t ∧
    Leads names ((steps log).length - 1) t.2 target ∧
    ∀ here, g.nextNode r.current (.mapping r.state) here = (.ok target, here)
  routing : ∀ here e, (r.next here).1.1 = .failed (.run e) → e.fault.IsRouting →
    ∃ p mid, r.Turns here p mid ∧ g.Raises p.store p.current mid e.fault
  decided : ∀ here p mid left delta, r.Turns here p mid → p.current = supervisorNode →
    s.handler (.mapping p.state) mid = (.ok (.mapping delta), left) →
    (r.next here).1.1 = .step ⟨r.count + 1, supervisorNode, delta⟩
  completed_iff : r.phase = .closed → (r.status = .completed ↔ ∃ t, (steps log).getLast? = some t ∧
    t.2.node = supervisorNode ∧ t.2.delta.get? "next" = some (.str finishName))
  asks : ∀ here p mid, r.Turns here p mid → p.current = supervisorNode →
    (s.handler (.mapping p.state) mid).2 = s.afterAsking (consulted? s r here) mid
  consulted : (consultations s opened log).length ≤ (opened.limit.value + 1) / 2

/-- In all runs of a star the supervisor and the members take turns. -/
theorem IsStar.takesTurns {g : Graph μ} {s : Supervisor μ} {names : List String}
    (hg : IsStar g s names) (hwrites : ∀ channel, s.WritesTo channel → g.schema.Overrides channel)
    {initial given : Value} {site left : Site μ} {start opened r : Run μ} {log : List (Exchange μ)}
    (hstart : g.start initial given site = (.ok start, left)) (hopen : start.opened? = .ok opened)
    (hfrom : History opened log r) : TakesTurns g s names opened log r := by
  have hnext := hwrites "next" (.inl rfl)
  have hlinked := hg.compiled.linked
  have hhistory := hfrom.of_opened hopen
  have hsound := (hhistory.sound hlinked (.start hstart)).1
  obtain ⟨stores, hfollows⟩ := hhistory.follows hlinked hstart
  have hreplays := hfollows.replays
  have hnumbered : ∀ i t, (steps log)[i]? = some t → t.2.number = i + 1 :=
    fun i t ht => (hreplays.step i t.1 t.2 ht).1
  -- steps are numbered from 1, and their places are counted from 0
  have hindex : ∀ t ∈ steps log, (steps log)[t.2.number - 1]? = some t ∧ 0 < t.2.number := by
    intro t ht
    obtain ⟨i, hi⟩ := List.mem_iff_getElem?.mp ht
    rw [hnumbered i t hi]
    exact ⟨hi, i.succ_pos⟩
  refine ⟨hnumbered, ?_, ?_, ?_, leads_of_paused hg hnext hfollows, ?_, ?_,
    completed_iff hg hnext hstart hhistory, fun _ _ _ hturn hnode => leaves_of_turns hturn hnode,
    ?_⟩
  · intro t ht hodd
    obtain ⟨hi, hpos⟩ := hindex t ht
    obtain ⟨_, _, hleads, _⟩ := leads_of_replays hg hnext hreplays hi
    cases hleads with
    | named _ hnode hchosen hchoice => exact ⟨hnode, _, hchoice, hchosen⟩
    | back hother _ => omega
  · intro t ht heven
    obtain ⟨hi, hpos⟩ := hindex t ht
    rcases (leads_of_replays hg hnext hreplays hi).1 with ⟨hother, _⟩ | ⟨_, hmem⟩
    · omega
    · exact hmem
  · intro u hu t ht hfollow hodd
    obtain ⟨hi, hpos⟩ := hindex u hu
    obtain ⟨hj, _⟩ := hindex t ht
    rw [show t.2.number - 1 = u.2.number - 1 + 1 by omega] at hj
    exact named_of_replays hg hnext hreplays hi hj (by omega)
  · intro here e hfailed hrouting
    -- the router of a team always leads on, so somebody else raised the error
    refine (hsound.routing_sources hlinked hfailed hrouting).resolve_left fun hfails => ?_
    obtain ⟨hphase, _, _, hfailure, _⟩ := hfails
    obtain ⟨_, _, _, _, hall⟩ := leads_of_paused hg hnext hfollows hphase
    rw [hall here] at hfailure
    cases hfailure
  · intro here p mid left delta hturn hnode hcall
    exact step_of_decision hg hwrites hsound hturn hnode hcall
  · have hbound := (consultations_le hg hnext hstart hopen hfrom).2
    obtain ⟨_, rfl⟩ := opened?_eq_ok hopen
    show _ ≤ (start.limit.value + 1) / 2
    omega

/-- A team compiles, and in all its runs the supervisor and its members take turns, whatever the
oracle and the workers answer and whatever happens between two requests. -/
theorem star_takes_turns {s : Supervisor μ} {names : List String} {handlers : Table (Handler μ)}
    (h : Legal s names handlers) {schema : Schema} (hsuits : Suits s schema) (limit : Value)
    (name : Option String) : ∃ g,
      star (.ok schema) s (Table.mapRows .callable handlers) limit name = .ok g ∧
      ∀ (initial given : Value) (site left : Site μ) (start opened r : Run μ)
        (log : List (Exchange μ)), g.start initial given site = (.ok start, left) →
        start.opened? = .ok opened → History opened log r →
        TakesTurns g s names opened log r := by
  obtain ⟨hstar, hg⟩ := h.star_eq hsuits.channels_ne_nil hsuits.defaults limit name
  refine ⟨_, hstar, fun initial given site left start opened r log hstart hopen hfrom => ?_⟩
  -- freezing the schema leaves its channels as they were
  exact hg.takesTurns hsuits.overrides hstart hopen hfrom

/-- The channels that a supervisor without topics writes to. -/
def turnSchema : Schema where
  channels := [⟨"next", .overrideIfPresent, some (.ok (.str supervisorNode)), .absent⟩,
    ⟨"instructions", .overrideIfPresent, some (.ok (.str "")), .absent⟩]
  frozen := false
  distinct := by decide

/-- A supervisor whose oracle names the member first and then stops. It counts what it is asked. -/
def twice : Supervisor Nat where
  oracle := fun _ n => (.ok (.mapping [(.str "instructions", .str ""),
    (.str "next", .str (if n = 0 then "Scribe" else finishName))]), n + 1)
  prompt := ""
  members := [.str "Scribe"]
  topicsChannel := none
  finish_not_among := by decide

/-- A member that writes a choice of its own. -/
def meddler : Table (Handler Nat) :=
  [("Scribe", fun _ => pure (.mapping [(.str "next", .str "Scribe")]))]

def twiceStart : Run Nat where
  graph := (assembled turnSchema none twice meddler).graph .null
  limit := .usual
  store := ⟨[("next", .str supervisorNode), ("instructions", .str "")]⟩
  count := 0
  current := supervisorNode
  status := .pending
  error := none
  phase := .unopened

/-- What the member writes is not read: after three steps the run is completed. -/
theorem twice_takes_turns : Legal twice ["Scribe"] meddler ∧ Suits twice turnSchema ∧
    ∃ opened log r,
      star (.ok turnSchema) twice (Table.mapRows .callable meddler) .null none =
        .ok twiceStart.graph ∧
      twiceStart.graph.start .null .null (.bare 0) = (.ok twiceStart, .bare 0) ∧
      twiceStart.opened? = .ok opened ∧ History opened log r ∧ (steps log).length = 3 ∧
      r.status = .completed ∧ TakesTurns twiceStart.graph twice ["Scribe"] opened log r := by
  have hlegal : Legal twice ["Scribe"] meddler := ⟨rfl, .refl _, by decide, by decide⟩
  have hsuits : Suits twice turnSchema := by
    refine ⟨by simp [turnSchema], fun channel hwrites => ?_⟩
    rcases hwrites with rfl | rfl | ⟨_, htopics⟩
    · exact ⟨_, .head _, rfl, rfl⟩
    · exact ⟨_, .tail _ (.head _), rfl, rfl⟩
    · exact absurd rfl htopics
  obtain ⟨g, hstar, hturns⟩ := star_takes_turns hlegal hsuits .null none
  obtain rfl : twiceStart.graph = g := by
    have hexplicit := (hlegal.star_eq hsuits.channels_ne_nil hsuits.defaults .null none).1
    exact Except.ok.inj (hexplicit.symm.trans hstar)
  have hstart : twiceStart.graph.start .null .null (.bare 0) = (.ok twiceStart, .bare 0) := rfl
  let opened := { twiceStart with phase := .opened }
  let first := Exchange.of opened (.bare 0)
  let second := Exchange.of first.after (.bare 1)
  let third := Exchange.of second.after (.bare 1)
  let last := Exchange.of third.after (.bare 2)
  have hfrom : History opened [first, second, third, last] last.after :=
    (((History.fresh.ask _).ask _).ask _).ask _
  have hsteps : (steps [first, second, third, last]).length = 3 := by decide
  have hstatus : last.after.status = .completed := by decide
  exact ⟨hlegal, hsuits, opened, _, _, hstar, hstart, rfl, hfrom, hsteps, hstatus,
    hturns _ _ _ _ _ _ _ _ hstart rfl hfrom⟩

end TeamFlow.Team
