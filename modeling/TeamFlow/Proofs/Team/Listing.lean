import Mathlib.Data.List.Chain
import TeamFlow.Proofs.Team.DocumentTeam

/-! # The listing of the document team

The channel with the listing is only written in the turn of a worker, and only
if it does not say already what the workspace looks like afterwards. So it is up
to date after such a turn, and stays so until the next one (`Current`). A worker
does not rely on it: it is shown the listing at the start of its own turn
(`Shows`). -/
namespace TeamFlow.Team

open Run

variable {μ : Type}

/-- The channel says what the workspace looks like. -/
def Current (w : Workspace) (store : Store) (files : FileTree) : Prop :=
  ∃ listing, (w.describeFiles files).1 = .ok listing ∧
    Table.row? store.values filesChannel = some (.str listing)

/-- Nobody else changes what is listed: each request finds the listing that the one before it
left. -/
def Undisturbed (w : Workspace) (log : List (Exchange μ)) : Prop :=
  log.IsChain fun x y => (w.describeFiles y.site.files).1 = (w.describeFiles x.left.files).1

/-- A worker's model is shown the listing of some files behind the worker's prompt. -/
def Shows (w : Workspace) (a : Agent μ) (files : FileTree) (t : Turn) : Prop :=
  ∃ lead listing text rest, a.prompt = Text.template [.plain lead, .slot filesChannel] ∧
    (w.describeFiles files).1 = .ok listing ∧
    t.messages = Message.system (lead ++ listing ++ text) :: rest

theorem overrides_files : documentSchema.freeze.Overrides filesChannel :=
  ⟨_, .tail _ (.tail _ (.tail _ (.head _))), rfl, rfl⟩

/-! ## Steps -/

/-- What is recorded with the report of a worker is what the channel holds, whether it is written or
not. -/
theorem row_of_recorded {old new : Store} (hcomplete : old.Complete documentSchema.freeze)
    {name text after : String} (hmerges : old.Merges documentSchema.freeze
      (recorded old.snapshot (Worker.reported name text) after) new) :
    Table.row? new.values filesChannel = some (.str after) := by
  unfold recorded at hmerges
  split at hmerges
  next hsame =>
    obtain ⟨c, hc, hname, _⟩ := overrides_files
    obtain ⟨v, hv⟩ := hcomplete.row? hc
    rw [hname] at hv
    rw [Store.peek_snapshot hv, Value.same_str_iff] at hsame
    have hreport : ∀ e ∈ Worker.reported name text, e.1 = .str "messages" := by
      simp [Worker.reported]
    rw [hmerges.untouched hcomplete filesChannel
      (Store.contributions_eq_nil hreport (by decide)), hv, Value.eq_str_of_copied hsame]
  next => exact hmerges.override overrides_files nofun rfl

section Document

variable {model : ChatModel μ} {oracle : Oracle μ} {w : Workspace} {limit : Value}
  {r after : Run μ} {here left : Site μ} {s : Step}

theorem current_of_worker (hr : Sound (documentGraph model oracle w limit) r)
    (hnext : r.next here = ((.step s, after), left)) (hnode : s.node ∈ documentMembers) :
    Current w after.store left.files := by
  have hstar := (document_eq model oracle w limit here).2
  obtain ⟨_, mid, hturn, _, hanswer, hmerges⟩ := hr.answered hstar.compiled.linked hnext
  obtain ⟨handler, hhandler⟩ := Option.isSome_iff_exists.mp
    ((Table.row?_isSome_iff _ _).mpr (isNode_of_answers hanswer))
  obtain ⟨answer, hcall, hanswer⟩ := hanswer.of_handler hhandler
  rcases handler_of_document hhandler with ⟨hboss, _⟩ | ⟨a, _, _, rfl⟩
  · exact absurd hboss (naming_document.reserved _ hnode).2.1
  · have hlisted := listed w a.handler r.store.snapshot mid
    rw [hcall] at hlisted
    cases hlisted with
    | records _ hworker hupdate hafter =>
      obtain ⟨text, _, rfl⟩ := Agent.handler_eq_ok hworker
      cases hupdate
      rcases hanswer with heq | ⟨heq, _⟩
      · rw [← Value.mapping.inj heq] at hmerges
        exact ⟨_, hafter, row_of_recorded hr.complete hmerges⟩
      · cases heq

theorem current_of_supervisor (hr : Sound (documentGraph model oracle w limit) r)
    (hnext : r.next here = ((.step s, after), left)) (hnode : s.node = supervisorNode)
    (h : Current w r.store here.files) : Current w after.store left.files := by
  have hstar := (document_eq model oracle w limit here).2
  obtain ⟨_, mid, hturn, _, hanswer, hmerges⟩ := hr.answered hstar.compiled.linked hnext
  obtain rfl := hstar.turns_here hr hturn
  rw [hnode] at hanswer
  obtain ⟨_, _, hdecision⟩ := hstar.decision hanswer
  obtain ⟨_, hcall, _⟩ := hanswer.of_handler hstar.handler
  have hfiles := files_of_supervisor (documentSupervisor oracle) (.mapping r.store.snapshot) mid
  rw [hcall] at hfiles
  have hnone : Store.contributions s.delta filesChannel = [] := by
    generalize s.delta = delta at hdecision
    cases hdecision with
    | plain _ => rfl
    | topical htopics => exact absurd rfl htopics
  obtain ⟨listing, hlisting, hrow⟩ := h
  refine ⟨listing, hfiles ▸ hlisting, ?_⟩
  rw [hmerges.untouched hr.complete filesChannel hnone, hrow]

/-- After a step the listing is up to date if it is a worker's step, or if the listing was so
before. -/
theorem current_of_step (hr : Sound (documentGraph model oracle w limit) r)
    (hnext : r.next here = ((.step s, after), left))
    (h : s.node ∈ documentMembers ∨ Current w r.store here.files) :
    Current w after.store left.files := by
  have hstar := (document_eq model oracle w limit here).2
  obtain ⟨_, _, _, _, hanswer, _⟩ := hr.answered hstar.compiled.linked hnext
  rcases (hstar.nodes s.node).mp (isNode_of_answers hanswer) with hboss | hmember
  · refine current_of_supervisor hr hnext hboss (h.resolve_left fun hmember => ?_)
    exact (naming_document.reserved _ hmember).2.1 hboss
  · exact current_of_worker hr hnext hmember

/-! ## Runs -/

/-- Once a worker has had its turn the listing is up to date after every step, by induction on
the requests. -/
theorem current_of_history {start : Run μ} {log : List (Exchange μ)} (hlog : History start log r)
    (hstart : Sound (documentGraph model oracle w limit) start) (hcount : start.count = 0)
    (hundisturbed : Undisturbed w log)
    (hworked : ∃ t ∈ steps log, t.2.node ∈ documentMembers) (hphase : r.phase = .paused) :
    ∃ x, log.getLast? = some x ∧ Current w r.store x.left.files := by
  induction hlog with
  | fresh =>
    obtain ⟨_, hmem, _⟩ := hworked
    cases hmem
  | opens _ hopen _ =>
    obtain ⟨_, rfl⟩ := opened?_eq_ok hopen
    cases hphase
  | @asks log r x hlog hnext ih =>
    have hlinked := (document_eq model oracle w limit x.site).2.compiled.linked
    obtain ⟨hr, _, hnumber⟩ := hlog.sound hlinked hstart
    rcases step_or_other x.outcome with ⟨s, hs⟩ | hother
    · rw [hs] at hnext
      refine ⟨x, by simp, current_of_step hr hnext ?_⟩
      obtain ⟨t, ht, hnode⟩ := hworked
      rw [steps_snoc_step hs, List.mem_append, List.mem_singleton] at ht
      rcases ht with hbefore | rfl
      -- a worker had its turn before, so the listing was up to date where this request began
      · obtain ⟨_, _, hturn, _⟩ := hr.answered hlinked hnext
        have hpos := List.length_pos_of_mem hbefore
        have hchain := List.isChain_append.mp hundisturbed
        obtain ⟨y, hy, listing, hlisting, hrow⟩ :=
          ih hchain.1 ⟨t, hbefore, hnode⟩ (hturn.paused hr (by omega))
        exact .inr ⟨listing, (hchain.2.2 y hy x rfl).trans hlisting, hrow⟩
      · exact .inl hnode
    · exact absurd hphase ((asked_of_next hnext).frame hother).2.2.2

/-- In its turn a worker is shown the listing, whatever the channel holds. -/
theorem shows_of_works {a : Agent μ} (ha : a ∈ documentAgents model w) {state : State}
    {turns : List Turn} {result : Except Failure Value}
    (h : Works w a state here turns result left) : ∀ t ∈ turns, Shows w a here.files t := by
  cases h with
  | unlisted _ => simp
  | @handles listing _ _ _ hbefore hhandles =>
    cases hhandles with
    | fails _ => simp
    | converses hopening hturns =>
      obtain ⟨lead, text, rest, hprompt, rfl⟩ := opening_shows ha hopening
      intro t ht
      obtain ⟨more, hmore⟩ := hturns.messages_begin t ht
      exact ⟨lead, listing, text, rest ++ more, hprompt, hbefore, hmore.symm⟩

end Document

/-- The document team keeps its listing up to date, and a worker that starts is shown the files
as they are then, whatever the channel holds. -/
theorem document_listed {model : ChatModel μ} {oracle : Oracle μ} {w : Workspace} {limit : Value}
    {site built : Site μ} {g : Graph μ} (h : document model oracle w limit site = (.ok g, built)) :
    ∀ (initial given : Value) (before begun : Site μ) (start r : Run μ) (log : List (Exchange μ)),
      g.start initial given before = (.ok start, begun) → History start log r →
      (Undisturbed w log → (∃ t ∈ steps log, t.2.node ∈ documentMembers) →
        ∀ x s, log.getLast? = some x → x.outcome = .step s → Current w r.store x.left.files) ∧
      ∀ (here mid : Site μ) (p : Run μ), r.Turns here p mid → p.current ∈ documentMembers →
        ∃ a ∈ documentAgents model w, p.current = a.name ∧ ∃ turns result,
          Works w a r.state here turns result (r.next here).2 ∧
          ∀ t ∈ turns, Shows w a here.files t := by
  obtain ⟨hmade, hstar⟩ := document_eq model oracle w limit site
  rw [hmade] at h
  obtain ⟨_, _, _, heq⟩ := Act.bind_eq_ok.mp h
  cases heq
  intro initial given before begun start r log hstart hlog
  have hsound := Sound.start hstart
  refine ⟨fun hundisturbed hworked x s hlast hstep => ?_, fun here mid p hturn hnode => ?_⟩
  · obtain ⟨_, _, hcount, _⟩ := start_eq_ok hstart
    obtain ⟨y, hy, hcurrent⟩ := current_of_history hlog hsound hcount hundisturbed hworked
      (hlog.paused_of_step hlast hstep)
    cases hlast.symm.trans hy
    exact hcurrent
  · have hr := (hlog.sound hstar.compiled.linked hsound).1
    cases fileTurn_next model oracle w limit hr here with
    | works hagent hturn' hnode' hworks _ =>
      rw [turns_unique hturn hturn'] at hnode ⊢
      exact ⟨_, hagent, hnode', _, _, hworks, shows_of_works hagent hworks⟩
    | leaves hboss _ =>
      exact absurd (hboss p mid hturn) (naming_document.reserved _ hnode).2.1

/-- A run in which the chart generator has answered once, from a listing that was out of date. -/
def chartDone : Run Nat :=
  { chartNamed (some "c1") with
    store := ⟨[("messages", .list [Message.ofWorker chartGeneratorName "charted"]),
      ("team_members", .list []), ("next", .str chartGeneratorName),
      (filesChannel, .str "No files written."), ("instructions", .str "")]⟩
    count := 2
    current := chartGeneratorName }

theorem chartDone_history : ∃ log x s, History (chartStart (some "c1")) log chartDone ∧
    Undisturbed desk log ∧ (∃ t ∈ steps log, t.2.node ∈ documentMembers) ∧
    log.getLast? = some x ∧ x.outcome = .step s := by
  obtain ⟨named, hlog⟩ := chartNamed_history (some "c1")
  have hnext := (chartNamed_turns (some "c1")).next_of_call rfl chartist_lists
  have hlog' := History.asks (x := ⟨deskSite 1, _, chartDone, deskSite 3⟩) hlog hnext
  exact ⟨_, _, _, hlog', .cons_cons rfl (.singleton _), ⟨_, .tail _ (.head _), by decide⟩, rfl, rfl⟩

/-- A listing that is out of date at the start is brought up to date. -/
theorem stale_listing_replaced : ∃ g start log x s,
    document (scribbling (some "c1")) charting desk .null (.bare 0) = (.ok g, deskSite 0) ∧
    g.start (.mapping [(.str filesChannel, .str "stale")]) .null (deskSite 0) =
      (.ok start, deskSite 0) ∧ History start log chartDone ∧ Undisturbed desk log ∧
    (∃ t ∈ steps log, t.2.node ∈ documentMembers) ∧ log.getLast? = some x ∧ x.outcome = .step s ∧
    Table.row? start.store.values filesChannel = some (.str "stale") ∧
    Current desk chartDone.store x.left.files := by
  have hmade := document_desk (some "c1")
  have hstart := chartStart_starts (some "c1")
  obtain ⟨log, x, s, hlog, hundisturbed, hworked, hlast, hstep⟩ := chartDone_history
  obtain ⟨hcurrent, _⟩ := document_listed hmade _ _ _ _ _ _ _ hstart hlog
  exact ⟨_, _, log, x, s, hmade, hstart, hlog, hundisturbed, hworked, hlast, hstep, rfl,
    hcurrent hundisturbed hworked x s hlast hstep⟩

end TeamFlow.Team
