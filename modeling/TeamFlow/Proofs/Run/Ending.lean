import TeamFlow.Proofs.Run.Resolution

/-! # The life of a run

A run waits to be opened, then to be asked, and is over once. The fields that a
caller reads agree with each other at every point of this life (`Lifecycle`),
whatever is asked in which order. A run error comes from a node, from a router
or from the run's own step limit; which of them raised a step-limit error can be
told from the count alone (`EndedByLimit`). -/
namespace TeamFlow

variable {μ : Type}

def Run.startedAlready : Failure :=
  .badRun "GraphRun has already been started; call stream() for a new run"

namespace Graph

theorem nextNode_not_stepLimit {g : Graph μ} (hg : g.Linked) {node : String}
    (hnode : g.IsNode node) {given : Value} {site left : Site μ} {e : RunError}
    (h : g.nextNode node given site = (.error (.run e), left)) : e.fault.isStepLimit = false := by
  rcases resolved_of_nextNode hg hnode h with ⟨_, _, heq⟩ | ⟨_, _, _, _, hresolved⟩
  · cases heq
  · generalize hwhy : Failure.run e = why at hresolved
    cases hresolved with
    | unmapped _ | reported =>
      obtain ⟨_, rfl⟩ := ifWritable_eq_run hwhy.symm
      rfl

end Graph

namespace Run

/-! ## Runs that ended with an error -/

/-- A run is over with an error, which says where. -/
structure EndedWith (r : Run μ) (e : RunError) : Prop where
  closed : r.phase = .closed
  error : r.error = some e
  status : r.status = if e.fault.isStepLimit then .aborted else .failed
  step : e.step = some (r.count : Int)
  lastState : e.lastState = some (.mapping r.state)

theorem endedWith_endWith {r : Run μ} {raised e : RunError} {node : String}
    (h : (r.endWith raised node).1 = .failed (.run e)) : EndedWith (r.endWith raised node).2 e := by
  cases h
  exact ⟨rfl, rfl, rfl, rfl, rfl⟩

theorem endedWith_failWith {r : Run μ} {why : Failure} {e : RunError} {node : String}
    (h : (r.failWith why node).1 = .failed (.run e)) : EndedWith (r.failWith why node).2 e := by
  rcases r.failWith_cases why node with ⟨raised, _, heq⟩ | ⟨hrun, heq⟩
  · rw [heq] at h ⊢
    exact endedWith_endWith h
  · rw [heq] at h
    exact absurd (Outcome.failed.inj h) (escaping_ne_run hrun e)

theorem Asked.endedWith {r : Run μ} {site left : Site μ} {result : Outcome × Run μ} {e : RunError}
    (h : r.Asked site result left) (hfailed : result.1 = .failed (.run e)) :
    EndedWith result.2 e := by
  cases h with
  | idle _ | stepped _ _ | completed _ _ => cases hfailed
  | nodeFailed _ _ | routingFailed _ _ => exact endedWith_failWith hfailed
  | exhausted _ _ _ _ => exact endedWith_endWith hfailed

/-- A request ends a run at its own limit: it raises a step-limit error, and no node was run that
could have raised it. -/
def StopsAtLimit (r : Run μ) (site : Site μ) : Prop :=
  (∃ e, (r.next site).1.1 = .failed (.run e) ∧ e.fault.isStepLimit = true) ∧
    ∀ p mid, ¬ r.Turns site p mid

/-- The last allowed step is taken, and the node that it leads to is not the end. -/
def Overruns (r : Run μ) (site : Site μ) : Prop :=
  r.phase = .paused ∧ r.limit.value ≤ r.count ∧ ∃ target left,
    r.graph.nextNode r.current (.mapping r.state) site = (.ok target, left) ∧ target ≠ endName

theorem Overruns.next_eq {r : Run μ} {site : Site μ} (h : r.Overruns site) : ∃ target left,
    r.next site = (r.endWith (.stepLimit r.limit.value (some target)) target, left) := by
  obtain ⟨hphase, hlimit, target, left, hroute, htarget⟩ := h
  refine ⟨target, left, ?_⟩
  simp only [next, hphase, hroute, moveTo, if_neg htarget, if_pos hlimit]

/-- A run stops at its own limit exactly when a step more than allowed would follow. -/
theorem Sound.stopsAtLimit_iff {g : Graph μ} (hg : g.Linked) {r : Run μ} (h : Sound g r)
    (site : Site μ) : r.StopsAtLimit site ↔ r.Overruns site := by
  constructor
  · intro hstops
    obtain ⟨⟨e, hfailed, hfault⟩, hno⟩ := hstops
    have hasked := r.asked_next site
    generalize (r.next site).1 = result, (r.next site).2 = left at hasked hfailed
    cases hasked with
    | idle _ | completed _ _ => cases hfailed
    | stepped hturn _ | nodeFailed hturn _ => exact absurd hturn (hno _ _)
    | routingFailed hphase hroute =>
      obtain ⟨raised, rfl, heq⟩ := failWith_fault hfailed
      have hr := h.active hphase
      rw [hr.graph] at hroute
      rw [heq, Graph.nextNode_not_stepLimit hg hr.node hroute] at hfault
      cases hfault
    | exhausted hphase hroute htarget hlimit => exact ⟨hphase, hlimit, _, _, hroute, htarget⟩
  · intro hover
    obtain ⟨target, left, hnext⟩ := hover.next_eq
    obtain ⟨hphase, hlimit, _⟩ := hover
    refine ⟨⟨_, congrArg (fun result => result.1.1) hnext, rfl⟩, fun p mid hturn => ?_⟩
    cases hturn with
    | first hopened => rw [hphase] at hopened; cases hopened
    | next _ _ _ hbelow => omega

/-! ## Runs that are over -/

theorem next_closed {r : Run μ} (h : r.phase = .closed) (site : Site μ) :
    r.next site = ((.over, r), site) := by
  simp only [next, h]

theorem History.eq_of_closed {r after : Run μ} {log : List (Exchange μ)} (h : History r log after)
    (hclosed : r.phase = .closed) : after = r := by
  induction h with
  | fresh => rfl
  | opens _ hopen ih =>
    rw [ih] at hopen
    have hphase := (opened?_eq_ok hopen).1
    rw [hclosed] at hphase
    cases hphase
  | asks _ hnext ih =>
    rw [ih, next_closed hclosed] at hnext
    exact (congrArg (fun result => result.1.2) hnext).symm

theorem Asked.phase_ne_unopened {r : Run μ} {site left : Site μ} {result : Outcome × Run μ}
    (h : r.Asked site result left) (hphase : r.phase ≠ .unopened) :
    result.2.phase ≠ .unopened := by
  cases h with
  | idle _ => exact hphase
  | nodeFailed _ _ | routingFailed _ _ =>
    rw [(failWith_frame _ _ _).2.2.2]
    exact nofun
  | stepped _ _ | completed _ _ | exhausted _ _ _ _ => exact nofun

theorem History.phase_ne_unopened {r after : Run μ} {log : List (Exchange μ)}
    (h : History r log after) (hphase : r.phase ≠ .unopened) : after.phase ≠ .unopened := by
  induction h with
  | fresh => exact hphase
  | opens _ hopen _ =>
    obtain ⟨_, rfl⟩ := opened?_eq_ok hopen
    exact nofun
  | asks _ hnext ih => exact (asked_of_next hnext).phase_ne_unopened ih

theorem History.of_opened {start opened r : Run μ} {log : List (Exchange μ)}
    (h : History opened log r) (hopen : start.opened? = .ok opened) : History start log r := by
  induction h with
  | fresh => exact .opens .fresh hopen
  | opens _ hagain ih => exact .opens ih hagain
  | asks _ hnext ih => exact .asks ih hnext

/-- A request, with what comes of it. -/
def Exchange.of (r : Run μ) (site : Site μ) : Exchange μ :=
  ⟨site, (r.next site).1.1, (r.next site).1.2, (r.next site).2⟩

theorem History.ask {start r : Run μ} {log : List (Exchange μ)} (h : History start log r)
    (site : Site μ) : History start (log ++ [Exchange.of r site]) (Exchange.of r site).after :=
  .asks h rfl

theorem Asked.closed_of_other {r : Run μ} {site left : Site μ} {result : Outcome × Run μ}
    (h : r.Asked site result left) (hopen : r.phase = .opened ∨ r.phase = .paused)
    (hother : ∀ s, result.1 ≠ .step s) : result.2.phase = .closed := by
  cases h with
  | idle hidle => exact absurd hidle (not_idle hopen)
  | stepped _ _ => exact absurd rfl (hother _)
  | nodeFailed _ _ | routingFailed _ _ => exact (failWith_frame _ _ _).2.2.2
  | completed _ _ | exhausted _ _ _ _ => rfl

theorem open_of_ne {r : Run μ} (hunopened : r.phase ≠ .unopened) (hclosed : r.phase ≠ .closed) :
    r.phase = .opened ∨ r.phase = .paused := by
  cases hphase : r.phase with
  | opened => exact .inl rfl
  | paused => exact .inr rfl
  | unopened => exact absurd hphase hunopened
  | closed => exact absurd hphase hclosed

theorem opened?_eq_error {r : Run μ} (h : r.phase ≠ .unopened) :
    r.opened? = .error startedAlready := by
  unfold opened?
  split
  next hphase => exact absurd hphase h
  next => rfl

/-- The request that a run was closed by: it found the run on its way and handed no step over, and
neither did any request after it. -/
structure ClosedBy (start : Run μ) (log : List (Exchange μ)) (r p : Run μ) (x : Exchange μ) :
    Prop where
  split : ∃ before rest, log = before ++ x :: rest ∧ History start before p ∧
    steps log = steps before
  open_ : p.phase = .opened ∨ p.phase = .paused
  request : p.next x.site = ((x.outcome, r), x.left)

/-- A run that is over was closed by a request of its history. -/
theorem History.closedBy {start r : Run μ} {log : List (Exchange μ)} (h : History start log r)
    (hstart : start.phase ≠ .closed) (hclosed : r.phase = .closed) :
    ∃ p x, ClosedBy start log r p x := by
  induction h with
  | fresh => exact absurd hclosed hstart
  | opens _ hopen _ =>
    obtain ⟨_, rfl⟩ := opened?_eq_ok hopen
    cases hclosed
  | @asks log p x h hnext ih =>
    have hasked := asked_of_next hnext
    have hother : ∀ s, x.outcome ≠ .step s := by
      intro s hs
      obtain ⟨_, _, _, _, _, _, _, hafter⟩ := hasked.step hs
      have hafter : x.after = _ := hafter
      rw [hafter] at hclosed
      cases hclosed
    by_cases hp : p.phase = .closed
    · -- a request to a run that is over already changes nothing
      obtain ⟨q, y, ⟨before, rest, hlog, hbefore, hsteps⟩, hopen, hrequest⟩ := ih hp
      have heq : x.after = p := by
        rw [next_closed hp] at hnext
        exact (congrArg (fun result => result.1.2) hnext).symm
      refine ⟨q, y, ⟨before, rest ++ [x], by simp [hlog], hbefore, ?_⟩, hopen, heq ▸ hrequest⟩
      rw [steps_snoc_other hother, hsteps]
    · have hopen : p.phase = .opened ∨ p.phase = .paused := by
        refine open_of_ne (fun hphase => ?_) hp
        simp only [next, hphase, Prod.mk.injEq] at hnext
        rw [← hnext.1.2, hphase] at hclosed
        cases hclosed
      exact ⟨p, x, ⟨log, [], rfl, h, steps_snoc_other hother log⟩, hopen, hnext⟩

theorem failWith_status {r : Run μ} (h : r.status = .running) (why : Failure) (node : String) :
    (r.failWith why node).2.status ≠ .completed := by
  rcases r.failWith_cases why node with ⟨e, _, heq⟩ | ⟨_, heq⟩
  · rw [heq]
    show (if e.fault.isStepLimit then Status.aborted else .failed) ≠ .completed
    split <;> exact nofun
  · rw [heq]
    show r.status ≠ .completed
    rw [h]
    exact nofun

/-- The last step that a run has taken leads to the end. -/
def Finishes (r : Run μ) (site : Site μ) : Prop :=
  r.phase = .paused ∧
    ∃ left, r.graph.nextNode r.current (.mapping r.state) site = (.ok endName, left)

theorem not_finishes {r : Run μ} {site left : Site μ} {answer : Except Failure String}
    (hroute : r.graph.nextNode r.current (.mapping r.state) site = (answer, left))
    (hother : answer ≠ .ok endName) : ¬ r.Finishes site := by
  intro hfinishes
  obtain ⟨_, _, hend⟩ := hfinishes
  rw [hroute, Prod.mk.injEq] at hend
  exact hother hend.1

theorem Turns.not_finishes {r p : Run μ} {site mid : Site μ} (h : r.Turns site p mid) :
    ¬ r.Finishes site := by
  cases h with
  | first hopened =>
    intro hfinishes
    have hphase := hfinishes.1
    rw [hopened] at hphase
    cases hphase
  | next _ hroute htarget _ =>
    exact Run.not_finishes hroute fun heq => htarget (Except.ok.inj heq)

/-- A request completes a run exactly if the last step leads to the end. -/
theorem Sound.completes_iff {g : Graph μ} (hg : g.Linked) {r : Run μ} (h : Sound g r)
    {site left : Site μ} {result : Outcome × Run μ} (hasked : r.Asked site result left)
    (hopen : r.phase = .opened ∨ r.phase = .paused) :
    result.2.status = .completed ↔ r.Finishes site := by
  cases hasked with
  | idle hidle => exact absurd hidle (not_idle hopen)
  | stepped hp _ =>
    refine ⟨fun hstatus => ?_, fun hfinishes => absurd hfinishes hp.not_finishes⟩
    have hstatus := (hp.active hg h).1.status.symm.trans hstatus
    cases hstatus
  | nodeFailed hp _ =>
    exact ⟨fun hstatus => absurd hstatus (failWith_status (hp.active hg h).1.status _ _),
      fun hfinishes => absurd hfinishes hp.not_finishes⟩
  | routingFailed hphase hroute =>
    exact ⟨fun hstatus => absurd hstatus (failWith_status (h.active hphase).status _ _),
      fun hfinishes => absurd hfinishes (not_finishes hroute nofun)⟩
  | completed hphase hroute => exact ⟨fun _ => ⟨hphase, _, hroute⟩, fun _ => rfl⟩
  | exhausted _ hroute htarget _ =>
    refine ⟨nofun, fun hfinishes => absurd hfinishes (not_finishes hroute ?_)⟩
    exact fun heq => htarget (Except.ok.inj heq)

/-! ## The fields of a run -/

/-- A run was ended by a step-limit error, in the request that closed it: by its own limit exactly
if its count has reached the limit, else by an error that a collaborator of the node whose turn it
was raised. -/
structure EndedByLimit (g : Graph μ) (r p : Run μ) (site : Site μ) (e : RunError) : Prop where
  own : r.count = r.limit.value ↔ p.StopsAtLimit site
  raised : ¬ p.StopsAtLimit site → r.count < r.limit.value ∧
    ∃ q mid, p.Turns site q mid ∧ g.Raises q.store q.current mid e.fault

/-- What holds of the fields of a run at any point of its life. -/
structure Lifecycle (g : Graph μ) (start : Run μ) (log : List (Exchange μ)) (r : Run μ) :
    Prop where
  within : r.count ≤ r.limit.value
  pending : r.status = .pending → r.count = 0 ∧ r.error = none ∧ r.current = g.entry
  unfinished : r.status = .pending ∨ r.status = .running → r.error = none ∧ g.IsNode r.current
  completed_iff : r.status = .completed ↔ r.current = endName
  completed : r.status = .completed → r.error = none ∧ 1 ≤ r.count
  failed : r.status = .failed → ∃ e, r.EndedWith e ∧ e.fault.isStepLimit = false
  aborted : r.status = .aborted → ∃ e p x, r.EndedWith e ∧ e.fault.isStepLimit = true ∧
    ClosedBy start log r p x ∧ x.outcome = .failed (.run e) ∧ EndedByLimit g r p x.site e
  settled : r.status = .completed ∨ r.status = .failed ∨ r.status = .aborted →
    ∀ more after, History r more after → after = r
  reopened : ∀ opened, start.opened? = .ok opened → History opened log r →
    r.opened? = .error startedAlready

theorem status_of_error {r : Run μ} {e : RunError}
    (h : r.status = if e.fault.isStepLimit then .aborted else .failed) :
    (r.status = .aborted ∧ e.fault.isStepLimit = true) ∨
      (r.status = .failed ∧ e.fault.isStepLimit = false) := by
  cases hlimit : e.fault.isStepLimit with
  | true => exact .inl ⟨by simpa [hlimit] using h, rfl⟩
  | false => exact .inr ⟨by simpa [hlimit] using h, rfl⟩

/-- How a run stands, told by its status. -/
inductive ByStatus (r : Run μ) : Status → Prop where
  | pending (hcount : r.count = 0) (herror : r.error = none)
      (hcurrent : r.current = r.graph.entry) : ByStatus r .pending
  | running (herror : r.error = none) (hcurrent : r.graph.IsNode r.current) : ByStatus r .running
  | completed (hclosed : r.phase = .closed) (herror : r.error = none) (hcount : 0 < r.count)
      (hcurrent : r.current = endName) : ByStatus r .completed
  | failed {e : RunError} (hended : r.EndedWith e) (hother : e.fault.isStepLimit = false)
      (hcurrent : r.graph.IsNode r.current) : ByStatus r .failed
  | aborted {e : RunError} (hended : r.EndedWith e) (hlimit : e.fault.isStepLimit = true)
      (hcurrent : r.graph.IsNode r.current) : ByStatus r .aborted

theorem Standing.byStatus {r : Run μ} (h : r.Standing) : r.ByStatus r.status := by
  cases h with
  | fresh _ hstatus herror hcount hcurrent =>
    rw [hstatus]
    exact .pending hcount herror hcurrent
  | paused _ hstatus herror _ hcurrent | brokenOff _ hstatus herror hcurrent =>
    rw [hstatus]
    exact .running herror hcurrent
  | completed hclosed hstatus herror hcount hcurrent =>
    rw [hstatus]
    exact .completed hclosed herror hcount hcurrent
  | ended hclosed herror hstatus hstep hstate hcurrent =>
    have hended : EndedWith r _ := ⟨hclosed, herror, hstatus, hstep, hstate⟩
    rcases status_of_error hstatus with ⟨hs, hlimit⟩ | ⟨hs, hlimit⟩
    · rw [hs]
      exact .aborted hended hlimit hcurrent
    · rw [hs]
      exact .failed hended hlimit hcurrent

theorem Sound.completed_iff {g : Graph μ} (hg : g.Linked) {r : Run μ} (h : Sound g r) :
    r.status = .completed ↔ r.current = endName := by
  have hnode : g.IsNode r.current → r.current ≠ endName := by
    rintro hnode heq
    exact hg.reserved (heq ▸ hnode)
  have hby := h.standing.byStatus
  generalize r.status = status at hby
  cases hby with
  | pending _ _ hcurrent =>
    refine ⟨nofun, fun heq => absurd heq (hnode ?_)⟩
    rw [hcurrent, h.graph]
    exact hg.entry
  | running _ hcurrent | failed _ _ hcurrent | aborted _ _ hcurrent =>
    exact ⟨nofun, fun heq => absurd heq (hnode (h.graph ▸ hcurrent))⟩
  | completed _ _ _ hcurrent => exact ⟨fun _ => hcurrent, fun _ => rfl⟩

theorem Sound.closed {g : Graph μ} {r : Run μ} (h : Sound g r)
    (hover : r.status = .completed ∨ r.status = .failed ∨ r.status = .aborted) :
    r.phase = .closed := by
  have hby := h.standing.byStatus
  generalize r.status = status at hby hover
  cases hby with
  | pending _ _ _ | running _ _ => simp at hover
  | completed hclosed _ _ _ => exact hclosed
  | failed hended _ _ | aborted hended _ _ => exact hended.closed

/-- A request that raises a step-limit error found the run at its limit, or a node had its turn and
a collaborator of it raised the error. -/
theorem Sound.endedByLimit {g : Graph μ} (hg : g.Linked) {p r : Run μ} (h : Sound g p)
    {site left : Site μ} {e : RunError} (hnext : p.next site = ((.failed (.run e), r), left))
    (hfault : e.fault.isStepLimit = true) : EndedByLimit g r p site e := by
  have hasked := asked_of_next hnext
  obtain ⟨hlimit, hcount, _⟩ := hasked.frame nofun
  have hlimit : r.limit = p.limit := hlimit
  have hcount : r.count = p.count := hcount
  by_cases hover : p.Overruns site
  · have hstops := (h.stopsAtLimit_iff hg site).mpr hover
    have hfull : r.count = r.limit.value := by
      rw [hlimit, hcount]
      exact Nat.le_antisymm h.within hover.2.1
    exact ⟨⟨fun _ => hstops, fun _ => hfull⟩, fun hno => absurd hstops hno⟩
  · have hno : ¬ p.StopsAtLimit site := fun hstops => hover ((h.stopsAtLimit_iff hg site).mp hstops)
    -- below its limit a run only passes on what somebody raised
    have hraised : r.count < r.limit.value ∧
        ∃ q mid, p.Turns site q mid ∧ g.Raises q.store q.current mid e.fault := by
      rw [hlimit, hcount]
      generalize hresult : ((.failed (.run e), r) : Outcome × Run μ) = result at hasked
      have hfailed : result.1 = .failed (.run e) := by rw [← hresult]
      cases hasked with
      | idle _ | stepped _ _ | completed _ _ => cases hfailed
      | @nodeFailed q mid _ _ hturn hcall =>
        obtain ⟨raised, rfl, heq⟩ := failWith_fault hfailed
        obtain ⟨hq, hbelow⟩ := hturn.active hg h
        obtain ⟨_, _, hcount', hlimit'⟩ := hturn.frame
        rw [hcount', hlimit'] at hbelow
        rw [hq.graph] at hcall
        have hother : ∀ text, raised.fault ≠ .handler text := by
          intro text htext
          rw [heq, htext] at hfault
          cases hfault
        exact ⟨hbelow, q, mid, hturn, heq ▸ Graph.raises_of_perform hq.node hcall hother⟩
      | routingFailed hphase hroute =>
        obtain ⟨raised, rfl, heq⟩ := failWith_fault hfailed
        have hp := h.active hphase
        rw [hp.graph] at hroute
        rw [heq, Graph.nextNode_not_stepLimit hg hp.node hroute] at hfault
        cases hfault
      | exhausted hphase hroute htarget hfull =>
        exact absurd ⟨hphase, hfull, _, _, hroute, htarget⟩ hover
    exact ⟨⟨fun hfull => absurd hfull (Nat.ne_of_lt hraised.1), fun hstops => absurd hstops hno⟩,
      fun _ => hraised⟩

/-- The error that a request leaves is the one that it raises. -/
theorem Sound.raised_of_error {g : Graph μ} (hg : g.Linked) {p : Run μ} (h : Sound g p)
    (hopen : p.phase = .opened ∨ p.phase = .paused) {site left : Site μ}
    {result : Outcome × Run μ} (hasked : p.Asked site result left) {e : RunError}
    (herror : result.2.error = some e) : result.1 = .failed (.run e) := by
  have hfailWith : ∀ {q : Run μ} {why : Failure}, Active g q →
      (q.failWith why q.current).2.error = some e →
      (q.failWith why q.current).1 = .failed (.run e) := by
    intro q why hq herror
    rcases q.failWith_cases why q.current with ⟨raised, _, heq⟩ | ⟨_, heq⟩
    · rw [heq] at herror ⊢
      exact congrArg (fun e => Outcome.failed (.run e)) (Option.some.inj herror)
    · rw [heq] at herror
      have hnone : some e = none := herror.symm.trans hq.error
      cases hnone
  cases hasked with
  | idle hphase => exact absurd hphase (not_idle hopen)
  | stepped hturn _ =>
    have hnone : some e = none := herror.symm.trans (hturn.active hg h).1.error
    cases hnone
  | nodeFailed hturn _ => exact hfailWith (hturn.active hg h).1 herror
  | routingFailed hphase _ => exact hfailWith (h.active hphase) herror
  | completed hphase _ =>
    have hnone : some e = none := herror.symm.trans (h.active hphase).error
    cases hnone
  | exhausted _ _ _ _ =>
    exact congrArg (fun e => Outcome.failed (.run e)) (Option.some.inj herror)

/-- The fields of a run always agree with each other, whatever is asked of it, and once it is
over nothing changes them. -/
theorem lifecycle {g : Graph μ} (hg : g.Compiled) {initial given : Value} {site left : Site μ}
    {start r : Run μ} {log : List (Exchange μ)}
    (hstart : g.start initial given site = (.ok start, left)) (h : History start log r) :
    Lifecycle g start log r := by
  have hlinked := hg.linked
  have hfirst : Sound g start := .start hstart
  have hsound := (h.sound hlinked hfirst).1
  have hby := hsound.standing.byStatus
  refine ⟨hsound.within, ?_, ?_, hsound.completed_iff hlinked, ?_, ?_, ?_, ?_, ?_⟩
  · intro hstatus
    rw [hstatus] at hby
    cases hby with
    | pending hcount herror hcurrent => exact ⟨hcount, herror, hsound.graph ▸ hcurrent⟩
  · intro hstatus
    generalize r.status = status at hby hstatus
    cases hby with
    | pending _ herror hcurrent =>
      refine ⟨herror, ?_⟩
      rw [hcurrent, hsound.graph]
      exact hlinked.entry
    | running herror hcurrent => exact ⟨herror, hsound.graph ▸ hcurrent⟩
    | completed _ _ _ _ | failed _ _ _ | aborted _ _ _ => simp at hstatus
  · intro hstatus
    rw [hstatus] at hby
    cases hby with
    | completed _ herror hcount _ => exact ⟨herror, hcount⟩
  · intro hstatus
    rw [hstatus] at hby
    cases hby with
    | failed hended hother _ => exact ⟨_, hended, hother⟩
  · intro hstatus
    rw [hstatus] at hby
    cases hby with
    | @aborted e hended hlimit _ =>
      have hphase : start.phase = .unopened := (start_eq_ok hstart).2.2.2.2.2.2
      -- the error is traced to the request that closed the run
      obtain ⟨p, x, hclosed⟩ := h.closedBy (by rw [hphase]; exact nofun) hended.closed
      obtain ⟨before, rest, _, hbefore, _⟩ := hclosed.split
      have hp := (hbefore.sound hlinked hfirst).1
      have hraised : x.outcome = .failed (.run e) := hp.raised_of_error hlinked hclosed.open_
        (asked_of_next hclosed.request) hended.error
      have hnext := hclosed.request
      rw [hraised] at hnext
      exact ⟨e, p, x, hended, hlimit, hclosed, hraised, hp.endedByLimit hlinked hnext hlimit⟩
  · intro hover more after hmore
    exact hmore.eq_of_closed (hsound.closed hover)
  · intro opened hopen hfrom
    obtain ⟨_, rfl⟩ := opened?_eq_ok hopen
    exact opened?_eq_error (hfrom.phase_ne_unopened nofun)

/-- With a limit of one step, the second request of a run of this graph aborts it. -/
theorem circling_lifecycle : circling.Compiled ∧ ∃ start left log r,
    circling.start .null (.int 1) (.bare ()) = (.ok start, left) ∧ History start log r ∧
      r.status = .aborted ∧ Lifecycle circling start log r := by
  have hcompiled : circling.Compiled := ⟨_, _, _, _, Builder.turnTaking_compiles _ _ _ _ _⟩
  obtain ⟨start, left, opened, x, y, hstart, hopen, hfirst, hsecond, hstatus⟩ :
      ∃ (start : Run Unit) (left : Site Unit) (opened : Run Unit) (x y : Exchange Unit),
        circling.start .null (.int 1) (.bare ()) = (.ok start, left) ∧
          start.opened? = .ok opened ∧ opened.next x.site = ((x.outcome, x.after), x.left) ∧
          x.after.next y.site = ((y.outcome, y.after), y.left) ∧ y.after.status = .aborted :=
    ⟨_, _, _, ⟨.bare (), _, _, _⟩, ⟨.bare (), _, _, _⟩, rfl, rfl, rfl, rfl, rfl⟩
  have hhistory : History start [x, y] y.after := .asks (.asks (.opens .fresh hopen) hfirst) hsecond
  exact ⟨hcompiled, start, left, [x, y], y.after, hstart, hhistory, hstatus,
    lifecycle hcompiled hstart hhistory⟩

end Run

end TeamFlow
