import TeamFlow.Proofs.Run.Exhausting
import TeamFlow.Proofs.Team.DocumentTeam
import TeamFlow.Proofs.Worker.Candor

/-! # What teams fail with

A supervisor fails with a complaint about an answer, in an ordinary way, or as
its oracle does. With the workers this covers all nodes of the teams: if no
model and no oracle of a crew is out of steps by itself, no node of the
hierarchy is (`hierarchy_candid`). Nor does a team fail with anything that
cannot be written, whatever its crew fails with. -/
namespace TeamFlow

open Failure

variable {μ : Type}

/-- An oracle that never fails with a step-limit error. -/
def Oracle.Candid (oracle : Oracle μ) : Prop :=
  ∀ r, (oracle r).FailsOnly (·.isStepLimit = false)

namespace Supervisor

theorem request_failsOnly {s : Supervisor μ}
    (hprompt : Value.AsksOnly ["team_members", "topic"] s.prompt) (given : Value) :
    FailsOnly Ordinary (s.request given) := by
  refine (Value.joined_failsOnly _).bind fun members => given.state_failsOnly.bind fun state => ?_
  refine FailsOnly.bind ?_ fun guidance => (state.itemsOf_failsOnly _).bind fun _ =>
    FailsOnly.bind ?_ fun _ => .ok _
  · refine Value.fill_failsOnly hprompt fun name hname => ?_
    rcases List.mem_pair.mp hname with rfl | rfl
    · exact ⟨by decide, _, rfl⟩
    · exact ⟨by decide, _, rfl⟩
  · unfold knownTopics
    split
    · exact .ok _
    · exact (state.itemsOf_failsOnly _).bind fun _ => .ok _

/-- A failure that is ordinary or a complaint about an answer. -/
def Complains (why : Failure) : Prop :=
  why.Ordinary ∨ ∃ text, why = .run (.contract text none)

theorem Complains.writable {why : Failure} (h : Complains why) : why.isWritable = true := by
  rcases h with hordinary | ⟨_, rfl⟩
  · exact hordinary.writable
  · rfl

theorem refuse_failsOnly {α : Type} (text : String) :
    FailsOnly Complains (refuse text : Except Failure α) := .error (.inr ⟨text, rfl⟩)

theorem written_failsOnly (v : Value) : FailsOnly Complains v.written :=
  (v.unlessLong_failsOnly _).imp fun _ => .inl

theorem joined_failsOnly (vs : List Value) : FailsOnly Complains (Value.joined vs) :=
  (Value.joined_failsOnly vs).imp fun _ => .inl

theorem accept_failsOnly (answer : Value) (r : Request) :
    FailsOnly Complains (accept answer r) := by
  unfold accept
  split
  next => exact refuse_failsOnly _
  next fields _ =>
    dsimp only
    split
    next =>
      exact (written_failsOnly _).bind fun _ => (joined_failsOnly _).bind fun _ =>
        refuse_failsOnly _
    next =>
      split
      next =>
        split
        next => exact .ok _
        next topics _ =>
          have hchosen : FailsOnly Complains (chosenTopic topics (State.peek fields "topic")) := by
            unfold chosenTopic
            split
            · exact .ok _
            · exact (written_failsOnly _).bind fun _ => (joined_failsOnly _).bind fun _ =>
                refuse_failsOnly _
          exact hchosen.bind fun _ => .ok _
      next => exact refuse_failsOnly _

/-- A supervisor complains about an answer, or fails as its oracle does. -/
theorem handler_eq_error {s : Supervisor μ}
    (hprompt : Value.AsksOnly ["team_members", "topic"] s.prompt) {given : Value}
    {site left : Site μ} {why : Failure} (h : s.handler given site = (.error why, left)) :
    Complains why ∨ ∃ r, s.request given = .ok r ∧ (s.oracle r site.memory).1 = .error why := by
  rcases Act.bind_eq_error.mp h with hrequest | ⟨r, mid, hrequest, h⟩
  · exact .inl (.inl (request_failsOnly hprompt given why (congrArg Prod.fst hrequest)))
  obtain rfl : site = mid := congrArg Prod.snd hrequest
  rcases Act.bind_eq_error.mp h with hraised | ⟨answer, mid, _, h⟩
  · exact .inr ⟨r, congrArg Prod.fst hrequest, congrArg Prod.fst hraised⟩
  rcases Act.bind_eq_error.mp h with haccept | ⟨_, _, _, h⟩
  · exact .inl (accept_failsOnly answer r why (congrArg Prod.fst haccept))
  · cases h

theorem handler_candid {s : Supervisor μ}
    (hprompt : Value.AsksOnly ["team_members", "topic"] s.prompt) (horacle : s.oracle.Candid)
    (given : Value) : (s.handler given).FailsOnly (·.isStepLimit = false) := by
  intro site why hwhy
  have hcall : s.handler given site = (.error why, (s.handler given site).2) := by rw [← hwhy]
  rcases handler_eq_error hprompt hcall with (hordinary | ⟨text, rfl⟩) | ⟨r, _, hraised⟩
  · exact hordinary.not_stepLimit
  · rfl
  · exact horacle r site.memory why hraised

end Supervisor

namespace Team

/-! ## Workers with a listing -/

theorem describeFiles_failsOnly (w : Workspace) : (w.describeFiles).FailsOnly Ordinary := by
  have hlist : (w.listFiles).FailsOnly Ordinary := by
    intro t
    unfold Workspace.listFiles
    split
    · exact .ok _
    · split
      · exact .ok _
      · exact .error (ordinary_plain _ _)
      · exact .error (ordinary_plain _ _)
      · exact .ok _
  exact hlist.bind fun _ => .pure _

theorem withListing_candid {w : Workspace} {handler : Handler μ}
    (h : ∀ (state : State) (listing : String),
      (handler (.mapping (Entries.put state filesChannel (.str listing)))).FailsOnly
        (·.isStepLimit = false)) (given : Value) :
    (withListing w handler given).FailsOnly (·.isStepLimit = false) := by
  have hdescribe : (Site.onFiles w.describeFiles : Act (Site μ) String).FailsOnly
      (·.isStepLimit = false) :=
    ((describeFiles_failsOnly w).imp fun _ hwhy => hwhy.not_stepLimit).onPart
  refine given.state_failsOnly.candid.bind fun state => hdescribe.bind fun before =>
    (h state before).bind fun answer => answer.entries_failsOnly.candid.bind fun update =>
    hdescribe.bind fun after => ?_
  split <;> exact .pure _

theorem opening_failsOnly {model : ChatModel μ} {w : Workspace} {a : Agent μ}
    (ha : a ∈ documentAgents model w) (state : State) (listing : String) :
    (a.opening (.mapping (Entries.put state filesChannel (.str listing)))).FailsOnly Ordinary := by
  obtain ⟨name, prompt, tools, lead, rfl, hprompt⟩ := eq_documentWorker ha
  have hmessages : FailsOnly Ordinary (Worker.messages (lead ++ listing)
      (.mapping (Entries.put state filesChannel (.str listing))) (tools.map Tool.name)
      ((documentWorker model name prompt tools).roster
        (Entries.put state filesChannel (.str listing)))) := Worker.messages_failsOnly _ _ _ _
  simp only [opening_eq, under_put, fill_prompt hprompt, Value.state, bind, Except.bind]
  exact .ofExcept hmessages

/-! ## Teams -/

theorem fields_of_allStates : ∀ s ∈ allStates, ∀ field ∈ s.fields,
    (∃ name, field = StateForm.log name) ∨
      ∃ name default, field = StateForm.latest name default := by
  intro s hs field hfield
  simp only [allStates, List.mem_cons, List.not_mem_nil, or_false] at hs
  rcases hs with rfl | rfl | rfl <;>
    simp only [researchState, documentState, topState, List.mem_cons, List.not_mem_nil,
      or_false] at hfield <;>
    rcases hfield with rfl | rfl | rfl | rfl | rfl | rfl <;>
    first | exact .inl ⟨_, rfl⟩ | exact .inr ⟨_, _, rfl⟩

theorem steady_of_state {s : StateForm} (hs : s ∈ allStates) {schema : Schema}
    (hchannels : schema.channels = s.channels) : schema.Steady := by
  have hcases : ∀ c ∈ schema.channels, (c.reducer = Reducer.append ∨
      c.reducer = Reducer.overrideIfPresent) ∧ ∃ v, c.initial = .ok v := by
    intro c hc
    rw [hchannels] at hc
    obtain ⟨field, hfield, hchannel⟩ := List.mem_filterMap.mp hc
    rcases fields_of_allStates s hs field hfield with ⟨name, rfl⟩ | ⟨name, default, rfl⟩
    · cases hchannel
      exact ⟨.inl rfl, _, rfl⟩
    · cases hchannel
      exact ⟨.inr rfl, _, rfl⟩
  constructor
  · intro c hc old new
    rcases (hcases c hc).1 with heq | heq
    · rw [heq]
      exact Reducer.append_failsOnly old new
    · rw [heq]
      exact Reducer.overrideIfPresent_failsOnly old new
  · intro c hc
    obtain ⟨v, hv⟩ := (hcases c hc).2
    rw [hv]
    exact .ok v

theorem teamNode_steady {team : Graph μ} (h : team.schema.Steady) (name : String)
    (members : List Value) : (teamNode team name members).Steady where
  schema := h
  enter given := by
    have hsaid : FailsOnly Ordinary (do State.itemsOf (← given.state) "messages") :=
      given.state_failsOnly.bind fun state => state.itemsOf_failsOnly _
    exact (Act.FailsOnly.ofExcept hsaid).bind fun _ => .pure _
  leave given := by
    refine .ofExcept ((given.under?_failsOnly _).bind fun log => ?_)
    split
    · exact log.items_failsOnly.bind fun _ => .ok _
    · exact .ok _

section Crew

variable {model searchModel : ChatModel μ} {oracle : Oracle μ} {w : Workspace}

theorem asksOnly_top (oracle : Oracle μ) :
    Value.AsksOnly ["team_members", "topic"] (topSupervisor oracle).prompt :=
  Prompt.supervisors_askOnly _ (.head _)

theorem research_candid (hmodel : model.Candid) (hsearch : searchModel.Candid)
    (horacle : oracle.Candid) (scrape : Option Tool) (limit : Value) :
    (researchGraph model searchModel oracle scrape limit).Candid := by
  refine ⟨(research_eq model searchModel oracle scrape limit).2.compiled,
    steady_of_state (.head _) rfl, fun node handler hnode => ?_⟩
  have hsupervisor := Supervisor.handler_candid (s := researchSupervisor oracle scrape)
    (Prompt.supervisors_askOnly _ (.tail _ (.head _))) horacle
  rcases List.mem_cons.mp (Table.mem_of_row? hnode) with heq | hmem
  · cases heq
    exact .plain hsupervisor
  rcases List.mem_append.mp hmem with hmem | hmem
  · rcases List.mem_pair.mp hmem with heq | heq
    · cases heq
      exact .plain (Brainstormer.handler_candid hmodel)
    · cases heq
      exact .plain (Searcher.handler_candid hsearch)
  · cases scrape with
    | none => cases hmem
    | some tool =>
      cases List.mem_singleton.mp hmem
      exact .plain fun given => Agent.handler_candid hmodel (Agent.opening_failsOnly rfl given)

theorem document_candid (hmodel : model.Candid) (horacle : oracle.Candid) (limit : Value)
    (site : Site μ) : (documentGraph model oracle w limit).Candid := by
  refine ⟨(document_eq model oracle w limit site).2.compiled,
    steady_of_state (.tail _ (.head _)) rfl, fun node handler hnode => ?_⟩
  rcases handler_of_document hnode with ⟨_, rfl⟩ | ⟨a, ha, _, rfl⟩
  · exact .plain (Supervisor.handler_candid (Prompt.supervisors_askOnly _
      (.tail _ (.tail _ (.head _)))) horacle)
  · have hagent : a.model = model := by
      obtain ⟨name, prompt, tools, lead, rfl, _⟩ := eq_documentWorker ha
      rfl
    exact .plain (withListing_candid fun state listing =>
      Agent.handler_candid (hagent ▸ hmodel) (opening_failsOnly ha state listing))

/-- The hierarchy is candid if its teams are, and the oracle above them. -/
theorem hierarchy_candid {research document : Graph μ} (hresearch : research.Candid)
    (hdocument : document.Candid) (horacle : oracle.Candid) (limit : Value) :
    (hierarchyGraph research document oracle limit).Candid := by
  refine ⟨(hierarchy_eq research document oracle limit).2.compiled,
    steady_of_state (.tail _ (.tail _ (.head _))) rfl, fun node handler hnode => ?_⟩
  rcases List.mem_cons.mp (Table.mem_of_row? hnode) with heq | hmem
  · cases heq
    exact .plain (Supervisor.handler_candid (asksOnly_top oracle) horacle)
  rcases List.mem_pair.mp hmem with heq | heq
  · cases heq
    exact .nested hresearch.compiled (teamNode_steady hresearch.steady _ _) hresearch.nodes
  · cases heq
    exact .nested hdocument.compiled (teamNode_steady hdocument.steady _ _) hdocument.nodes

end Crew

end Team

end TeamFlow
