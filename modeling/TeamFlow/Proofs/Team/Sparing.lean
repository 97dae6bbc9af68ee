import TeamFlow.Proofs.Run.Course
import TeamFlow.Proofs.Team.Privileges
import TeamFlow.Proofs.Team.Reports

/-! # What the hierarchy leaves of the files

Only tools touch files. So what every tool of a team keeps of the files, every
request to a run of the team keeps, and with it every request to a run of the
hierarchy: a whole run of a team is one step of it (`hierarchy_keepsFiles`). The
document team keeps the directory of its workspace. -/
namespace TeamFlow

open Run

variable {μ : Type} {Q : FileTree → Prop}

/-! ## Acts -/

namespace Act

variable {σ α β : Type} {P : σ → Prop}

/-- An act that keeps something of the state, whether it fails or not. -/
def Keeps (P : σ → Prop) (x : Act σ α) : Prop := ∀ s, P s → P (x s).2

theorem Keeps.pure (a : α) : Keeps P (Pure.pure a : Act σ α) := fun _ h => h

theorem Keeps.ofExcept (r : Except Failure α) : Keeps P (Act.ofExcept r : Act σ α) := fun _ h => h

theorem Keeps.bind {x : Act σ α} {f : α → Act σ β} (hx : Keeps P x) (hf : ∀ a, Keeps P (f a)) :
    Keeps P (x >>= f) := by
  intro s hs
  rw [bind_apply]
  have hfirst := hx s hs
  cases hcall : x s with
  | mk r t =>
    rw [hcall] at hfirst
    cases r with
    | error why => exact hfirst
    | ok a => exact hf a t hfirst

end Act

theorem Site.onMemory_keeps {α : Type} (x : Act μ α) :
    (Site.onMemory x).Keeps fun site => Q site.files := fun _ h => h

theorem Site.onFiles_keeps {α : Type} {x : Act FileTree α} (h : x.Keeps Q) :
    (Site.onFiles x : Act (Site μ) α).Keeps fun site => Q site.files :=
  fun site hsite => h site.files hsite

/-! ## Workers -/

namespace Tool

theorem answer_keeps {tools : List Tool}
    (h : ∀ tool ∈ tools, ∀ args, (tool.run args).Keeps Q) (call : ToolCall) :
    (answer tools call).Keeps Q := by
  unfold answer
  split
  next => exact .ofExcept _
  next tool htool =>
    have hinvoke : (tool.invoke (Entries.ofFields call.args)).Keeps Q :=
      (Act.Keeps.ofExcept _).bind (h tool (mem_of_find? htool).1)
    have hattempt : (tool.invoke (Entries.ofFields call.args)).attempt.Keeps Q := hinvoke
    refine hattempt.bind fun result => ?_
    cases result with
    | ok text => exact .pure _
    | error why => exact (Act.Keeps.ofExcept _).bind fun _ => .ofExcept _

theorem answers_keeps {tools : List Tool}
    (h : ∀ tool ∈ tools, ∀ args, (tool.run args).Keeps Q) (calls : List ToolCall) :
    (answers tools calls).Keeps Q := by
  induction calls with
  | nil => exact .pure []
  | cons call calls ih => exact (answer_keeps h call).bind fun _ => ih.bind fun _ => .pure _

end Tool

theorem Agent.converse_keeps {a : Agent μ}
    (h : ∀ tool ∈ a.tools, ∀ args, (tool.run args).Keeps Q) (rounds : Nat)
    (messages : List Value) :
    (a.converse rounds messages).Keeps fun site => Q site.files := by
  induction rounds generalizing messages with
  | zero => exact fun _ hsite => hsite
  | succ rounds ih =>
    refine (Site.onMemory_keeps _).bind fun answer => ?_
    split
    · exact .ofExcept _
    · exact (Site.onFiles_keeps (Tool.answers_keeps h _)).bind fun _ => ih _

theorem Agent.handler_keeps {a : Agent μ} (hcontext : a.context = none)
    (h : ∀ tool ∈ a.tools, ∀ args, (tool.run args).Keeps Q) (given : Value) :
    (a.handler given).Keeps fun site => Q site.files := by
  rw [handler_eq]
  have hprompt : (a.filledPrompt given).Keeps fun site => Q site.files := by
    rw [filledPrompt, hcontext]
    exact .pure _
  have hopening : (a.opening given).Keeps fun site => Q site.files :=
    hprompt.bind fun _ => (Act.Keeps.ofExcept _).bind fun _ => .ofExcept _
  exact hopening.bind fun messages => converse_keeps h _ messages

theorem Brainstormer.handler_keeps (b : Brainstormer μ) (given : Value) :
    (b.handler given).Keeps fun site => Q site.files :=
  (Act.Keeps.ofExcept _).bind fun _ => (Act.Keeps.ofExcept _).bind fun _ =>
    (Act.Keeps.ofExcept _).bind fun _ => (Act.Keeps.ofExcept _).bind fun _ =>
    (Site.onMemory_keeps _).bind fun _ => (Act.Keeps.ofExcept _).bind fun _ => .pure _

theorem Searcher.handler_keeps (s : Searcher μ) (given : Value) :
    (s.handler given).Keeps fun site => Q site.files := by
  refine (Act.Keeps.ofExcept _).bind fun _ => (Site.onMemory_keeps _).bind fun _ =>
    (Act.Keeps.ofExcept _).bind fun _ => ?_
  split
  · exact fun _ hsite => hsite
  · exact .pure _

/-! ## Runs -/

/-- Every request to a run of a graph keeps something of the files. -/
def Graph.KeepsFiles (g : Graph μ) (Q : FileTree → Prop) : Prop :=
  ∀ r : Run μ, Sound g r → ∀ here : Site μ, Q here.files → Q (r.next here).2.files

section Course

variable {g : Graph μ}

theorem Run.Passes.keepsFiles (hg : g.Linked) (hkeeps : g.KeepsFiles Q) {r last : Run μ}
    {site here : Site μ} {taken : List (Step × Run μ)}
    (h : Passes (fun _ site => site) r site taken last here) (hr : Sound g r)
    (hfiles : Q site.files) : Q here.files := by
  induction h with
  | here => exact hfiles
  | step hnext _ ih =>
    have hafter := hkeeps _ hr _ hfiles
    rw [hnext] at hafter
    exact ih (hr.stepped hg hnext).1 hafter

theorem Run.Course.keepsFiles (hg : g.Linked) (hkeeps : g.KeepsFiles Q) {opened : Run μ}
    {site : Site μ} (hopened : Sound g opened) (c : Course (fun _ site => site) opened site)
    (hfiles : Q site.files) : Q (c.last.next c.here).2.files :=
  hkeeps _ (c.passes.sound hg hopened).1 _ (c.passes.keepsFiles hg hkeeps hopened hfiles)

theorem Graph.start_keeps {P : Site μ → Prop} (g : Graph μ) (initial given : Value) :
    (g.start initial given).Keeps P := by
  have hlimit : (g.resolveLimit given).Keeps P := fun _ h => h
  exact hlimit.bind fun _ => (Act.Keeps.ofExcept _).bind fun _ => .pure _

theorem Graph.KeepsFiles.invoke (hkeeps : g.KeepsFiles Q) (hg : g.Linked)
    (initial given : Value) :
    (g.invoke initial given fun _ _ => pure ()).Keeps fun site => Q site.files := by
  intro site hfiles
  have hbegun := g.start_keeps (P := fun site => Q site.files) initial given site hfiles
  cases hstart : g.start initial given site with
  | mk started begun =>
  rw [hstart] at hbegun
  cases started with
  | error why =>
    have hinvoke : g.invoke initial given (fun _ _ => pure ()) site = (.error why, begun) :=
      Act.bind_error hstart
    rw [hinvoke]
    exact hbegun
  | ok start =>
    have hopen := opens_of_start hstart
    have hopened := (Sound.start hstart).opened hopen
    obtain ⟨c⟩ : Nonempty (Course (fun _ site => site) _ begun) := hopened.course hg begun
    rw [Graph.invoke_eq hg hstart hopen c]
    exact c.keepsFiles hg hkeeps hopened hbegun

end Course

namespace Team

/-! ## Teams -/

theorem IsStar.keepsFiles {g : Graph μ} {s : Supervisor μ} {names : List String}
    (hg : IsStar g s names)
    (h : ∀ node ∈ names, ∀ handler, Table.row? g.nodes node = some handler → ∀ given,
      (handler given).Keeps fun site => Q site.files) : g.KeepsFiles Q := by
  intro r hr here hfiles
  rcases hg.next_leaves hr here with ⟨p, handler, answer, hturn, hhandler, hcall⟩ | ⟨_, hsame⟩
  · have hleft := congrArg Prod.snd hcall
    rw [← hleft]
    have hnode := (hturn.active hg.compiled.linked hr).1.node
    rcases (hg.nodes _).mp hnode with hsupervisor | hmember
    · rw [hsupervisor, hg.handler] at hhandler
      cases hhandler
      rw [files_of_supervisor]
      exact hfiles
    · exact h _ hmember handler hhandler _ here hfiles
  · rw [hsame]
    exact hfiles

theorem teamNode_keeps {team : Graph μ} (hg : team.Linked) (hkeeps : team.KeepsFiles Q)
    (name : String) (members : List Value) (given : Value) :
    ((teamNode team name members).handler given).Keeps fun site => Q site.files := by
  have henter : (enter members given : Act (Site μ) Value).Keeps fun site => Q site.files :=
    (Act.Keeps.ofExcept _).bind fun _ => .pure _
  have hleave : ∀ final, (Adapter.lastMessage (.str "messages") final : Act (Site μ) Value).Keeps
      fun site => Q site.files := fun _ => .ofExcept _
  exact henter.bind fun initial => (hkeeps.invoke hg initial .null).bind fun final =>
    (hleave _).bind fun _ => (Act.Keeps.ofExcept _).bind fun _ => .pure _

theorem research_keepsFiles (model searchModel : ChatModel μ) (oracle : Oracle μ)
    {scrape : Option Tool} (h : ∀ tool, scrape = some tool → ∀ args, (tool.run args).Keeps Q)
    (limit : Value) :
    (researchGraph model searchModel oracle scrape limit).KeepsFiles Q := by
  have hstar := (research_eq model searchModel oracle scrape limit).2
  refine hstar.keepsFiles fun node hnode handler hrow given => ?_
  rcases List.mem_cons.mp (Table.mem_of_row? hrow) with heq | hmem
  · cases heq
    exact absurd hnode hstar.apart
  rcases List.mem_append.mp hmem with hmem | hmem
  · rcases List.mem_pair.mp hmem with heq | heq
    · cases heq
      exact Brainstormer.handler_keeps _ given
    · cases heq
      exact Searcher.handler_keeps _ given
  · cases scrape with
    | none => cases hmem
    | some tool =>
      cases List.mem_singleton.mp hmem
      refine Agent.handler_keeps rfl (fun t ht args => ?_) given
      exact h t (congrArg some (List.mem_singleton.mp ht).symm) args

theorem document_keepsFiles (model : ChatModel μ) (oracle : Oracle μ) (w : Workspace)
    (limit : Value) : (documentGraph model oracle w limit).KeepsFiles w.Ready :=
  fun _ hr here hready =>
    (behaves_of_fileTurn (fileTurn_next model oracle w limit hr here)).ready hready

/-- The hierarchy keeps what both of its teams keep. -/
theorem hierarchy_keepsFiles {research document : Graph μ} (hresearch : research.Linked)
    (hdocument : document.Linked) (hkeeps : research.KeepsFiles Q)
    (hkeeps' : document.KeepsFiles Q) (oracle : Oracle μ) (limit : Value) :
    (hierarchyGraph research document oracle limit).KeepsFiles Q := by
  have hstar := (hierarchy_eq research document oracle limit).2
  refine hstar.keepsFiles fun node hnode handler hrow given => ?_
  rcases List.mem_cons.mp (Table.mem_of_row? hrow) with heq | hmem
  · cases heq
    exact absurd hnode hstar.apart
  rcases List.mem_pair.mp hmem with heq | heq
  · cases heq
    exact teamNode_keeps hresearch hkeeps _ _ given
  · cases heq
    exact teamNode_keeps hdocument hkeeps' _ _ given

end Team

end TeamFlow
