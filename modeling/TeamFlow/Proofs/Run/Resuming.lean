import TeamFlow.Proofs.Run.Mirroring
import TeamFlow.Proofs.Run.Replay
import TeamFlow.Proofs.Team.Staff

/-! # Runs that go on from a state

Where all channels are logs that start empty or are overridden, every state of a
run can be an initial state, of the same graph or of another one over the channels:
a run that is started from it starts in it (`Graph.Resumes`). So what a run came to
need not be lost, also if it came to an error. The channels of all teams are such. -/
namespace TeamFlow

variable {μ : Type}

/-! ## The channels of the teams -/

namespace Team

theorem restores_of_log {name : String} {c : Channel}
    (h : channelOf? (StateForm.log name) = some c) : c.Restores := by
  cases h
  exact .inl ⟨rfl, rfl⟩

theorem restores_of_latest {name default : String} {c : Channel}
    (h : channelOf? (StateForm.latest name default) = some c) : c.Restores := by
  cases h
  exact .inr rfl

theorem restoring_of_fields {s : StateForm} {schema : Schema}
    (hschema : schema.channels = s.channels)
    (h : ∀ field ∈ s.fields, (∃ name, field = StateForm.log name) ∨
      ∃ name default, field = StateForm.latest name default) : schema.Restoring := by
  intro c hc
  rw [hschema] at hc
  obtain ⟨field, hfield, hchannel⟩ := List.mem_filterMap.mp hc
  rcases h field hfield with ⟨name, rfl⟩ | ⟨name, default, rfl⟩
  · exact restores_of_log hchannel
  · exact restores_of_latest hchannel

theorem allStates_restoring : ∀ form ∈ allStates, ∃ schema, form.schema = .ok schema ∧
    schema.Restoring := by
  intro form hform
  simp only [allStates, List.mem_cons, List.not_mem_nil, or_false] at hform
  rcases hform with rfl | rfl | rfl
  · exact ⟨_, schema_researchState, restoring_of_fields rfl (by simp [researchState])⟩
  · exact ⟨_, schema_documentState, restoring_of_fields rfl (by simp [documentState])⟩
  · exact ⟨_, schema_topState, restoring_of_fields rfl (by simp [topState])⟩

end Team

/-! ## Runs -/

namespace Run

/-- A run over such channels can only come to stores that are restorable. -/
theorem History.restorable {g : Graph μ} (hg : g.Linked) (hschema : g.schema.Restoring)
    {initial given : Value} {site begun : Site μ} {start r : Run μ} {log : List (Exchange μ)}
    (hstart : g.start initial given site = (.ok start, begun)) (h : History start log r) :
    r.store.Restorable g.schema := by
  obtain ⟨limit, store, _, hstore, rfl, _⟩ := Graph.start_iff.mp hstart
  exact h.keeps hg (Store.Restorable g.schema)
    (fun _ _ hmerges hrestorable => hmerges.restorable hschema hrestorable) (.start hstart)
    (Store.restorable_of_create hschema hstore)

end Run

namespace Graph

/-- A new run can be started from a state wherever there is a limit for it, and starts in just this
state. -/
def Resumes (g : Graph μ) (state : State) : Prop :=
  ∀ (given : Value) (site left : Site μ) (limit : StepLimit),
    g.resolveLimit given site = (.ok limit, left) → ∃ start : Run μ,
      g.start (.mapping state) given site = (.ok start, left) ∧ start.state = state ∧
        start.limit = limit ∧ start.count = 0

theorem resumes_of_restorable {g : Graph μ} {store : Store} (h : store.Restorable g.schema) :
    g.Resumes store.snapshot := by
  intro given site left limit hlimit
  obtain ⟨copy, hcopy, hshown⟩ := h.create
  refine ⟨g.fresh limit copy, ?_, hshown, rfl, rfl⟩
  exact (Act.bind_ok hlimit).trans (Act.bind_ok (congrArg (·, left) hcopy))

end Graph

/-! ## All states -/

/-- A state can be taken up again: where all channels are logs that start empty or are
overridden, as in all teams, what a store shows makes a store that shows the same, and whatever a
run came to, another run of any graph over the channels starts in it. -/
theorem states_restored {schema : Schema} (h : schema.Restoring) :
    (∀ store, Store.Reached schema store → ∃ copy,
      Store.create schema (.mapping store.snapshot) = .ok copy ∧
        copy.snapshot = store.snapshot) ∧
    (∀ {μ ν : Type} (g : Graph μ) (g' : Graph ν), g.Compiled →
      g.schema.channels = schema.channels → g'.schema.channels = schema.channels →
      ∀ (initial given : Value) (site : Site μ),
        (∀ start begun log r, g.start initial given site = (.ok start, begun) →
          Run.History start log r → g'.Resumes r.state ∧
            ∀ e, r.error = some e → e.lastState = some (.mapping r.state)) ∧
        ∀ watch final left, g.invoke initial given watch site = (.ok final, left) →
          g'.Resumes final) ∧
    ∀ form ∈ Team.allStates, ∃ schema, form.schema = .ok schema ∧ schema.Restoring := by
  refine ⟨fun store hstore => (hstore.restorable h).create, ?_, Team.allStates_restoring⟩
  intro μ ν g g' hcompiled hchannels hchannels' initial given site
  have hschema : g.schema.Restoring := fun c hc => h c (hchannels ▸ hc)
  have hresumes : ∀ start begun log r, g.start initial given site = (.ok start, begun) →
      Run.History start log r → g'.Resumes r.state := fun start begun log r hstart hlog =>
    Graph.resumes_of_restorable ((hlog.restorable hcompiled.linked hschema hstart).of_channels
      (hchannels'.trans hchannels.symm))
  refine ⟨fun start begun log r hstart hlog => ⟨hresumes _ _ _ _ hstart hlog, fun e he => ?_⟩,
    fun watch final left hinvoke => ?_⟩
  · exact (hlog.sound hcompiled.linked (.start hstart)).1.standing.lastState he
  · obtain ⟨start, begun, _, log, last, hstart, hopen, hdrives, rfl⟩ :=
      (Graph.invoke_eq_ok_iff hcompiled.linked initial given watch site left final).mp hinvoke
    have hlog : Run.History start log last := hdrives.history (.opens .fresh hopen)
    exact hresumes _ _ _ _ hstart hlog

/-- What two nodes have written is where a second run of them starts. -/
theorem writing_resumed : (Builder.oneChannel .append (.list [])).Restoring ∧
    Run.writing.Compiled ∧ ∃ final start, (∃ left,
      Run.writing.invoke .null .null (fun _ _ => pure ()) (.bare 0) = (.ok final, left)) ∧
      Run.writing.start (.mapping final) .null (.bare 0) = (.ok start, .bare 0) ∧
      start.state = [(.str "x", .list [.str "boss", .str "hand", .str "boss"])] := by
  have hschema : (Builder.oneChannel .append (.list [])).Restoring := by
    intro c hc
    rw [List.mem_singleton.mp hc]
    exact .inl ⟨rfl, rfl⟩
  have hcompiled : Run.writing.Compiled := ⟨_, _, _, _, Builder.turnTaking_compiles _ _ _ _ _⟩
  obtain ⟨left, hinvoke⟩ : ∃ left,
      Run.writing.invoke .null .null (fun _ _ => pure ()) (.bare 0) =
        (.ok [(.str "x", .list [.str "boss", .str "hand", .str "boss"])], left) := ⟨_, rfl⟩
  obtain ⟨_, hruns, _⟩ := states_restored hschema
  have hresumes := (hruns Run.writing Run.writing hcompiled rfl rfl .null .null (.bare 0)).2 _ _ _
    hinvoke
  obtain ⟨start, hstart, hstate, _⟩ := hresumes .null (.bare 0) (.bare 0) .usual rfl
  exact ⟨hschema, hcompiled, _, start, ⟨left, hinvoke⟩, hstart, hstate⟩

end TeamFlow
