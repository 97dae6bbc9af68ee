import Mathlib.Data.Set.List
import TeamFlow.Graph.Draft
import TeamFlow.Proofs.Graph.Validation
import TeamFlow.Proofs.Value.Text

/-! # What a rejected call leaves behind

A call of a builder looks at everything that can be wrong before it changes
anything, so if it is rejected nothing has changed (`Act.Atomic`). The call that
adds a router's edge looks at one thing too late: it lists the targets in order
once the edge is stored, and if they have no order it is rejected and the edge
stays (`Stalls`). Such an edge leads to something that is no text, which no
later call mends (`Spoiled`). Calls are taken with anything in their places, on
a `Draft`; with texts as names a draft does what a `Builder` does
(`draft_act`). -/
namespace TeamFlow

/-! ## Acts that change nothing when they fail -/

namespace Act

variable {σ α β : Type}

/-- The act only looks at the state. -/
def Looks (x : Act σ α) : Prop := ∀ s, (x s).2 = s

/-- The act changes nothing unless it succeeds. -/
def Atomic (x : Act σ α) : Prop := ∀ ⦃s t why⦄, x s = (.error why, t) → t = s

theorem looks_pure (a : α) : Looks (pure a : Act σ α) := fun _ => rfl

theorem looks_get : Looks (Act.get : Act σ σ) := fun _ => rfl

theorem looks_ofExcept (r : Except Failure α) : Looks (ofExcept r : Act σ α) := fun _ => rfl

theorem looks_fail (why : Failure) : Looks (fail why : Act σ α) := fun _ => rfl

theorem Looks.atomic {x : Act σ α} (hx : Looks x) : Atomic x := by
  intro s t why h
  rw [← hx s, h]

theorem atomic_modify (f : σ → σ) : Atomic (modify f) := nofun

theorem Atomic.bind {x : Act σ α} {f : α → Act σ β} (hx : Looks x) (hf : ∀ a, Atomic (f a)) :
    Atomic (x >>= f) := by
  intro s t why h
  have hstate := hx s
  rw [bind_apply] at h
  split at h
  next a s' hok =>
    rw [hok] at hstate
    exact (hf a h).trans hstate
  next e s' herr =>
    cases h
    rw [herr] at hstate
    exact hstate

theorem Looks.bind {x : Act σ α} {f : α → Act σ β} (hx : Looks x) (hf : ∀ a, Looks (f a)) :
    Looks (x >>= f) := by
  intro s
  have hstate := hx s
  rw [bind_apply]
  split
  next a s' hok =>
    rw [hok] at hstate
    exact (hf a s').trans hstate
  next e s' herr =>
    rw [herr] at hstate
    exact hstate

end Act

variable {μ : Type}

theorem Value.hashed_of_isHashable {v : Value} (h : v.isHashable = true) : v.hashed = .ok v := by
  rw [Value.hashed, Option.isNone_iff_eq_none.mp h]

theorem Value.hashed_of_not_isHashable {v : Value} (h : ¬ v.isHashable = true) :
    ∃ why, v.hashed = .error why := by
  rw [Value.isHashable, Option.isNone_iff_eq_none] at h
  obtain ⟨w, hw⟩ := Option.ne_none_iff_exists'.mp h
  exact ⟨_, by rw [Value.hashed, hw]⟩

namespace Ledger

variable {α β : Type}

theorem row?_put_self (t : Ledger α) {key : Value} (hkey : key.isHashable = true) (a : α) :
    (t.put key a).row? key = some a := by
  induction t with
  | nil => simp [put, row?, Value.alike_refl hkey]
  | cons r t ih =>
    obtain ⟨k, b⟩ := r
    by_cases hk : k.alike key = true
    · simp [put, row?, hk]
    · rw [put, if_neg hk, ← ih]
      simp [row?, hk]

theorem row?_ofTable (f : String → α → β) (t : Table α) (name : String) :
    row? (ofTable f t) (.str name) = (Table.row? t name).map (f name) := by
  induction t with
  | nil => rfl
  | cons r t ih =>
    obtain ⟨k, b⟩ := r
    by_cases hk : k = name
    · simp [ofTable, row?, Table.row?, hk, Value.alike]
    · rw [Table.row?, if_neg hk, ← ih]
      simp [ofTable, row?, hk, Value.alike]

theorem put_ofTable (f : String → α → β) (t : Table α) (name : String) (a : α) :
    put (ofTable f t) (.str name) (f name a) = ofTable f (Table.put t name a) := by
  induction t with
  | nil => rfl
  | cons r t ih =>
    obtain ⟨k, b⟩ := r
    by_cases hk : k = name
    · simp [ofTable, put, Table.put, hk, Value.alike]
    · rw [Table.put, if_neg hk]
      simpa [ofTable, put, hk, Value.alike] using ih

theorem ofTable_injective {f : String → α → β} (hf : ∀ name, Function.Injective (f name)) :
    Function.Injective (ofTable f) := by
  refine List.map_injective_iff.mpr fun r r' h => ?_
  obtain ⟨hname, hrow⟩ := Prod.mk.inj h
  obtain ⟨name, a⟩ := r
  obtain ⟨name', a'⟩ := r'
  obtain rfl := Value.str.inj hname
  exact congrArg (Prod.mk name) (hf name hrow)

end Ledger

namespace Draft

/-! ## Calls on a draft -/

theorem looks_invalidName {α : Type} (before : String) (name : Value) (after : String) :
    (invalidName before name after : Act (Draft μ) α).Looks :=
  (Act.looks_ofExcept _).bind fun _ => Act.looks_fail _

theorem looks_newKey (name : Value) : (newKey name : Act (Draft μ) Value).Looks := by
  unfold newKey
  split
  · exact looks_invalidName _ _ _
  · refine (Act.looks_ofExcept _).bind fun key => Act.looks_get.bind fun d => ?_
    split
    · exact looks_invalidName _ _ _
    · exact Act.looks_pure key

theorem addNode_atomic (name : Value) (handler : Offered (Handler μ)) :
    (addNode name handler).Atomic := by
  refine .bind (looks_newKey name) fun key => ?_
  cases handler with
  | notCallable => exact (looks_invalidName _ _ _).atomic
  | callable h => exact Act.atomic_modify _

theorem pushEdge_atomic (source : Value) (e : Edge μ Value) : (pushEdge source e).Atomic :=
  .bind (Act.looks_ofExcept _) fun _ => Act.atomic_modify _

theorem addEdge_atomic (source target : Value) :
    (addEdge source target : Act (Draft μ) Unit).Atomic := by
  unfold addEdge
  split
  · exact Act.atomic_modify _
  · exact pushEdge_atomic _ _

/-- A call that is rejected only once its edge is stored: the targets have no order. -/
inductive Call.Stalls : Call μ → Link μ → Failure → Prop where
  | listing {source paths keys : Value} {router : Router μ} {r : Routing μ Value} {why : Failure}
      (hsource : source.isHashable = true) (hmake : Routing.ofValues router paths keys = .ok r)
      (hlist : r.sortedTargets = .error why) :
      Stalls (.routing source router paths keys) ⟨source, .routed r⟩ why

theorem pushEdge_of_hashable {source : Value} (h : source.isHashable = true) (e : Edge μ Value)
    (d : Draft μ) : pushEdge source e d = (.ok (), d.push ⟨source, e⟩) := by
  rw [pushEdge, Value.hashed_of_isHashable h]
  rfl

theorem addRouting_of_make {router : Router μ} {paths keys : Value} {r : Routing μ Value}
    (hmake : Routing.ofValues router paths keys = .ok r) {source : Value}
    (hsource : source.isHashable = true) (d : Draft μ) :
    addRouting source router paths keys d =
      (r.sortedTargets.map fun _ => (), d.push ⟨source, .routed r⟩) := by
  simp only [addRouting, hmake, Act.bind_apply, Act.ofExcept, pushEdge_of_hashable hsource]
  cases r.sortedTargets <;> rfl

theorem addRouting_rejected {source paths keys : Value} {router : Router μ} {d t : Draft μ}
    {why : Failure} (h : addRouting source router paths keys d = (.error why, t)) :
    t = d ∨ ∃ link, (Call.routing source router paths keys).Stalls link why ∧ t = d.push link := by
  cases hmake : Routing.ofValues router paths keys with
  | error e =>
    rw [addRouting, hmake] at h
    cases h
    exact .inl rfl
  | ok r =>
    by_cases hsource : source.isHashable = true
    · rw [addRouting_of_make hmake hsource] at h
      cases hlist : r.sortedTargets with
      | error e =>
        rw [hlist] at h
        cases h
        exact .inr ⟨_, .listing hsource hmake hlist, rfl⟩
      | ok targets =>
        rw [hlist] at h
        cases h
    · obtain ⟨e, he⟩ := Value.hashed_of_not_isHashable hsource
      simp only [addRouting, pushEdge, hmake, he, Act.bind_apply, Act.ofExcept] at h
      cases h
      exact .inl rfl

/-- A rejected call changes nothing, or it stalls and adds its edge. -/
theorem act_rejected {c : Call μ} {d t : Draft μ} {why : Failure}
    (h : c.act d = (.error why, t)) :
    t = d ∨ ∃ link, c.Stalls link why ∧ t = d.push link := by
  cases c with
  | node name handler => exact .inl (addNode_atomic name handler h)
  | edge source target => exact .inl (addEdge_atomic source target h)
  | routing source router paths keys => exact addRouting_rejected h
  | entry name => cases h
  | finish name => exact .inl (addEdge_atomic name _ h)

/-- Nothing keeps a call that stalls from adding its edge. -/
theorem Call.Stalls.act {c : Call μ} {link : Link μ} {why : Failure} (h : c.Stalls link why)
    (d : Draft μ) : c.act d = (.error why, d.push link) := by
  obtain ⟨hsource, hmake, hlist⟩ := h
  rw [Call.act, addRouting_of_make hmake hsource, hlist]
  rfl

theorem outgoing_push (d : Draft μ) {link : Link μ} (h : link.source.isHashable = true) :
    (d.push link).outgoing link.source = d.outgoing link.source ++ [link] := by
  rw [outgoing, push, Ledger.row?_put_self _ h, Option.getD_some]

theorem Call.Stalls.source {c : Call μ} {link : Link μ} {why : Failure} (h : c.Stalls link why) :
    link.source.isHashable = true := by
  obtain ⟨hsource, _, _⟩ := h
  exact hsource

theorem Call.Stalls.push_ne {c : Call μ} {link : Link μ} {why : Failure} (h : c.Stalls link why)
    (d : Draft μ) : d.push link ≠ d := by
  intro heq
  have hout := outgoing_push d h.source
  rw [heq] at hout
  simp at hout

end Draft

theorem Routing.sortedTargets_texts {r : Routing μ Value}
    (h : ∀ target ∈ r.paths.map Prod.snd, ∃ s, Value.str s = target) :
    ∃ targets, r.sortedTargets = .ok targets := by
  obtain ⟨texts, htexts⟩ := (Set.range_list_map Value.str).ge h
  have hhashable : (texts.map Value.str).all Value.isHashable = true :=
    List.all_eq_true.mpr Value.isHashable_texts
  rw [Routing.sortedTargets, Routing.targets, ← htexts, asKeys, if_pos hhashable,
    Value.distinct_texts]
  exact ⟨_, Value.sorted_texts _⟩

theorem Draft.Call.Stalls.target {c : Draft.Call μ} {link : Link μ} {why : Failure}
    (h : c.Stalls link why) : ∃ target ∈ link.edge.targets, ∀ s, Value.str s ≠ target := by
  obtain ⟨_, _, hlist⟩ := h
  by_contra! hall
  obtain ⟨targets, hok⟩ := Routing.sortedTargets_texts hall
  rw [hok] at hlist
  cases hlist

/-! ## Builders as drafts -/

def PathMap.value : PathMap → Value
  | pairs es => .mapping es
  | names vs => .list vs
  | text s => .str s

theorem PathMap.ofValue_value (paths : PathMap) :
    ∃ read, PathMap.ofValue paths.value = .ok read ∧ read.toEntries = paths.toEntries := by
  cases paths with
  | pairs es => exact ⟨_, rfl, rfl⟩
  | names vs => exact ⟨_, rfl, rfl⟩
  | text s =>
    refine ⟨_, rfl, ?_⟩
    have hchars : (s.toList.map fun c => Value.str (String.singleton c)).all Value.isHashable =
        true := by
      simp [Value.isHashable, Value.changeable?]
    rw [toEntries, if_pos hchars, List.map_map]
    rfl

theorem Routing.ofValues_value (router : Router μ) (paths : PathMap) (keys : Value) :
    Routing.ofValues router paths.value keys = Routing.make router paths keys := by
  obtain ⟨read, hread, hentries⟩ := paths.ofValue_value
  unfold Routing.ofValues
  rw [hread]
  show Routing.make router read keys = _
  unfold Routing.make
  rw [hentries]

/-- A builder's call as one of a draft. -/
def Call.draft : Call μ → Draft.Call μ
  | node name handler => .node (.str name) handler
  | edge source target => .edge (.str source) (.str target)
  | routing source router paths keys => .routing (.str source) router paths.value keys
  | entry name => .entry (.str name)
  | finish name => .finish (.str name)

namespace Builder

theorem outgoing_draft (b : Builder μ) (source : String) :
    b.draft.outgoing (.str source) = (b.outgoing source).map (Link.mk (.str source)) := by
  rw [Draft.outgoing, draft, Ledger.row?_ofTable, outgoing]
  cases Table.row? b.edges source <;> rfl

theorem draft_pushEdge (b : Builder μ) (source : String) (e : Edge μ Value) :
    (pushEdge source e b).2.draft = b.draft.push ⟨.str source, e⟩ := by
  rw [Draft.push, outgoing_draft, pushEdge_state]
  simp only [draft, ← Ledger.put_ofTable, List.map_append, List.map_cons, List.map_nil]

theorem draft_injective : Function.Injective (draft : Builder μ → Draft μ) := by
  intro b b' h
  obtain ⟨hschema, hname, hnodes, hedges, hentry⟩ := Draft.mk.inj h
  have hn := Ledger.ofTable_injective (fun _ => Function.injective_id) hnodes
  have he := Ledger.ofTable_injective
    (fun _ => List.map_injective_iff.mpr fun _ _ h => (Link.mk.inj h).2) hedges
  have hent : b.entry = b'.entry := by
    cases hb : b.entry <;> cases hb' : b'.entry <;> simp_all [Value.ofText?]
  cases b
  cases b'
  simp_all

theorem draft_addEdge (source target : String) (b : Builder μ) :
    Draft.addEdge (.str source) (.str target) b.draft =
      ((addEdge source target b).1, (addEdge source target b).2.draft) := by
  by_cases hs : source = startName
  · rw [Draft.addEdge, addEdge, if_pos hs, if_pos ((Value.same_str_iff _ _).mpr (by rw [hs]))]
    rfl
  · rw [Draft.addEdge, addEdge, if_neg hs,
      if_neg fun h => hs (Value.str.inj ((Value.same_str_iff _ _).mp h)), draft_pushEdge]
    rfl

theorem newKey_draft (b : Builder μ) (name : String) :
    Draft.newKey (.str name) b.draft =
      (if name = startName ∨ name = endName then
        .error (.definition ["'" ++ name ++ "' is reserved and cannot be a node name"])
      else if Table.has b.nodes name then
        .error (.definition ["Node '" ++ name ++ "' already exists"])
      else .ok (.str name), b.draft) := by
  have hrow : (b.draft.nodes.row? (.str name)).isSome = Table.has b.nodes name := by
    rw [draft, Ledger.row?_ofTable, Option.isSome_map, Bool.eq_iff_iff, Table.row?_isSome_iff]
    simp [Table.has]
  unfold Draft.newKey
  by_cases hr : name = startName ∨ name = endName
  · rw [if_pos (by simpa [Value.alike] using hr), if_pos hr]
    rfl
  · have hkey : (Value.str name).hashed = .ok (.str name) := rfl
    rw [if_neg (by simpa [Value.alike] using hr), if_neg hr]
    simp only [Act.bind_apply, Act.ofExcept, hkey, Act.get, hrow]
    cases Table.has b.nodes name <;> rfl

theorem draft_addNode (name : String) (handler : Offered (Handler μ)) (b : Builder μ) :
    Draft.addNode (.str name) handler b.draft =
      ((addNode name handler b).1, (addNode name handler b).2.draft) := by
  rw [Draft.addNode, Act.bind_apply, newKey_draft]
  by_cases hr : name = startName ∨ name = endName
  · simp only [addNode, if_pos hr]
    rfl
  · by_cases hh : Table.has b.nodes name = true
    · simp only [addNode, if_neg hr, Act.bind_apply, Act.get, hh, if_true]
      rfl
    · cases handler with
      | notCallable =>
        simp only [addNode, if_neg hr, Act.bind_apply, Act.get, if_neg hh]
        rfl
      | callable h =>
        simp only [addNode, if_neg hr, Act.bind_apply, Act.get, if_neg hh, Act.modify, draft,
          ← Ledger.put_ofTable]

theorem draft_addRouting (source : String) (router : Router μ) (paths : PathMap) (keys : Value)
    (b : Builder μ) :
    Draft.addRouting (.str source) router paths.value keys b.draft =
      ((addRouting source router paths keys b).1, (addRouting source router paths keys b).2.draft)
    := by
  cases hmake : Routing.make router paths keys with
  | error why =>
    rw [Draft.addRouting, addRouting, Routing.ofValues_value, hmake]
    rfl
  | ok r =>
    have hvalues : Routing.ofValues router paths.value keys = .ok r := by
      rw [Routing.ofValues_value, hmake]
    rw [Draft.addRouting_of_make hvalues rfl, ← draft_pushEdge]
    simp only [addRouting, hmake, Act.bind_apply, Act.ofExcept, pushEdge_state]
    cases r.sortedTargets <;> rfl

/-- With texts as names a draft does what a builder does. -/
theorem draft_act (c : Call μ) (b : Builder μ) :
    c.draft.act b.draft = ((c.act b).1, (c.act b).2.draft) := by
  cases c with
  | node name handler => exact draft_addNode name handler b
  | edge source target => exact draft_addEdge source target b
  | routing source router paths keys => exact draft_addRouting source router paths keys b
  | entry name => rfl
  | finish name => exact draft_addEdge name endName b

/-! ## No later call mends what a rejected one spoils -/

/-- Some edge leads to something that is no text. -/
def Spoiled (b : Builder μ) : Prop :=
  ∃ n, ∃ e ∈ b.outgoing n, ∃ target ∈ e.targets, ∀ s, Value.str s ≠ target

theorem Spoiled.after {b : Builder μ} (h : b.Spoiled) (calls : List (Call μ)) :
    (b.after calls).Spoiled := by
  obtain ⟨n, e, he, htarget⟩ := h
  refine ⟨n, e, ?_, htarget⟩
  rw [outgoing_after]
  exact List.mem_append_left _ he

/-- Whatever else there is in a builder that compiles, its edges fit. -/
theorem fits_of_compile {b : Builder μ} {limit : Value} {g : Graph μ}
    (h : b.compile limit = .ok g) {n : String} {e : Edge μ Value} (he : e ∈ b.outgoing n) :
    b.Fits e := by
  obtain ⟨found, hlocal, hfound⟩ := bind_eq_ok.mp (compile_eq_ok_iff.mp h).1
  have hnone : found = [] := by
    cases found with
    | nil => rfl
    | cons p found => cases hfound
  obtain ⟨edges, hedges, hlist⟩ := bind_eq_ok.mp hlocal
  cases hlist
  rw [List.append_eq_nil_iff, List.append_eq_nil_iff] at hnone
  have hrows := (sourceProblems_reports b b.edges edges hedges).mp hnone.1.2
  unfold outgoing at he
  cases hrow : Table.row? b.edges n with
  | none => rw [hrow] at he; cases he
  | some es =>
    rw [hrow] at he
    exact (hrows _ (Table.mem_of_row? hrow)).2.2 e he

theorem Spoiled.compile_ne {b : Builder μ} (h : b.Spoiled) (limit : Value) (g : Graph μ) :
    b.compile limit ≠ .ok g := by
  intro hg
  obtain ⟨n, e, he, target, ht, hnone⟩ := h
  obtain ⟨m, hm, _⟩ := (fits_of_compile hg he).targets target ht
  exact hnone m hm.symm

theorem spoiled_of_stalls {call : Call μ} {link : Link μ} {why : Failure}
    (h : call.draft.Stalls link why) (b : Builder μ) : (call.act b).2.Spoiled := by
  obtain ⟨target, ht, hnone⟩ := h.target
  have hpush : (call.act b).2.draft = b.draft.push link :=
    congrArg Prod.snd ((draft_act call b).symm.trans (h.act b.draft))
  have hsource : ∃ source, link.source = .str source := by
    cases call <;> cases h
    exact ⟨_, rfl⟩
  obtain ⟨source, hsource⟩ := hsource
  have hout := Draft.outgoing_push b.draft h.source
  rw [← hpush, hsource, outgoing_draft] at hout
  have hmem : link ∈ ((call.act b).2.outgoing source).map (Link.mk (.str source)) := by
    rw [hout]
    exact List.mem_append_right _ (List.mem_singleton_self link)
  obtain ⟨e, he, rfl⟩ := List.mem_map.mp hmem
  exact ⟨source, e, he, target, ht, hnone⟩

/-! ## Rejected calls -/

/-- A rejected call leaves a draft as it was, unless its targets have no order. Calls may have
anything in their places. Then exactly the edge stays that the call was to add, and it leads to
something that is no text. A builder does the same, and once such an edge has stayed it does not
compile again, whatever calls follow. -/
theorem rejected_act {d t : Draft μ} {c : Draft.Call μ} {why : Failure}
    (h : c.act d = (.error why, t)) :
    (t = d ↔ ∀ link, ¬ c.Stalls link why) ∧
      (∀ link, c.Stalls link why →
        t = d.push link ∧ ∃ target ∈ link.edge.targets, ∀ s, Value.str s ≠ target) ∧
      ∀ (b : Builder μ) (call : Call μ), d = b.draft → c = call.draft →
        ∃ b', call.act b = (.error why, b') ∧ t = b'.draft ∧ (t = d → b' = b) ∧
          (t ≠ d → ∀ calls limit g, (b'.after calls).compile limit ≠ .ok g) := by
  have hstalls : ∀ {link}, c.Stalls link why → t = d.push link := fun hs =>
    congrArg Prod.snd (h.symm.trans (hs.act d))
  refine ⟨⟨fun ht link hs => ?_, fun hnone => ?_⟩, fun link hs => ⟨hstalls hs, hs.target⟩, ?_⟩
  · exact hs.push_ne d ((hstalls hs).symm.trans ht)
  · rcases Draft.act_rejected h with ht | ⟨link, hs, _⟩
    · exact ht
    · exact absurd hs (hnone link)
  · rintro b call rfl rfl
    obtain ⟨hfailed, hstate⟩ := Prod.mk.inj ((draft_act call b).symm.trans h)
    refine ⟨(call.act b).2, Prod.ext hfailed rfl, hstate.symm, fun ht => ?_, fun ht calls => ?_⟩
    · exact draft_injective (hstate.trans ht)
    · rcases Draft.act_rejected h with heq | ⟨link, hs, _⟩
      · exact absurd heq ht
      · exact ((spoiled_of_stalls hs b).after calls).compile_ne

/-- A graph that compiles. -/
def paired : Builder Unit :=
  (new (oneChannel Reducer.append .null) none).after
    (turnTaking (fun _ => pure .null) (fun _ => pure .null) fun _ => pure (.str "go"))

/-- A router's edge that leads to a number and to a node. -/
def crossed : Call Unit :=
  .routing "hand" ⟨fun _ => pure .null, .null, none⟩
    (.pairs [(.str "a", .int 1), (.str "b", .str "boss")]) .null

theorem crossed_stalls : ∃ link, crossed.draft.Stalls link .badType :=
  ⟨_, .listing rfl rfl rfl⟩

theorem crossed_rejected : ∃ link, crossed.draft.act paired.draft =
      (.error .badType, paired.draft.push link) ∧
    (crossed.act paired).2 ≠ paired ∧
    ∀ calls limit g, ((crossed.act paired).2.after calls).compile limit ≠ .ok g := by
  obtain ⟨link, hs⟩ := crossed_stalls
  have h := hs.act paired.draft
  obtain ⟨hkept, _, hbuilder⟩ := rejected_act h
  have hchanged : paired.draft.push link ≠ paired.draft := fun heq => hkept.mp heq link hs
  obtain ⟨b', hact, hdraft, _, hnever⟩ := hbuilder paired crossed rfl rfl
  rw [hact]
  refine ⟨link, h, fun heq => hchanged (hdraft.trans (congrArg draft heq)), hnever hchanged⟩

/-- A graph that compiles no longer does after a rejected call. -/
theorem tidiness_refuted : ¬ ∀ (b : Builder Unit) (c : Call Unit) (why : Failure),
    (c.act b).1 = .error why → (c.act b).2 = b ∧
      (c.act b).2.problems = b.problems ∧
      ∀ limit, (c.act b).2.compile limit = b.compile limit := by
  intro hall
  obtain ⟨link, hs⟩ := crossed_stalls
  have hcompile := (hall paired crossed .badType rfl).2.2 .null
  rw [paired, turnTaking_compiles] at hcompile
  exact (spoiled_of_stalls hs paired).compile_ne _ _ hcompile

end Builder

end TeamFlow
