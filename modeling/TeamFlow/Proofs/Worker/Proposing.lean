import TeamFlow.Proofs.Team.Queries

/-! # Queries that are proposed again

What a brainstormer contributes are the proposals that are new, trimmed and each
once, where they are proposed first (`fresh_texts`). Once these are queries, no
proposal is new any more, however the same proposals are ordered and spaced: the
next brainstorming adds nothing (`Brainstormer.adds_once`). -/
namespace TeamFlow

open Team (queriesChannel)

variable {μ : Type}

namespace Brainstormer

/-! ## The new ones among proposals -/

/-- The trimmed proposals without blanks, known queries and repeats, in the order in which they
come first. -/
def newQueries (known proposals : List String) : List String :=
  ((proposals.map Text.trim).filter fun q => q ≠ "" && !known.contains q).eraseDups

section NewQueries

variable {known : List String}

theorem newQueries_cons (proposal : String) (proposals : List String) :
    newQueries known (proposal :: proposals) =
      if Text.trim proposal = "" ∨ Text.trim proposal ∈ known then newQueries known proposals
      else Text.trim proposal :: newQueries (known ++ [Text.trim proposal]) proposals := by
  by_cases hold : Text.trim proposal = "" ∨ Text.trim proposal ∈ known
  · rw [if_pos hold, newQueries, List.map_cons,
      List.filter_cons_of_neg (by simpa [← or_iff_not_imp_left] using hold)]
    rfl
  · rw [if_neg hold, newQueries, List.map_cons,
      List.filter_cons_of_pos (by simpa [not_or] using hold), List.eraseDups_cons,
      List.filter_filter]
    -- what was just found is known to the rest
    congr 3
    funext q
    by_cases hq : q = Text.trim proposal <;> simp [hq, Bool.and_comm]

theorem mem_newQueries (q : String) (proposals : List String) :
    q ∈ newQueries known proposals ↔ (∃ p ∈ proposals, Text.trim p = q) ∧ q ≠ "" ∧ q ∉ known := by
  simp [newQueries, List.mem_eraseDups]

theorem newQueries_eq_nil_iff (proposals : List String) : newQueries known proposals = [] ↔
    ∀ p ∈ proposals, Text.trim p = "" ∨ Text.trim p ∈ known := by
  rw [List.eq_nil_iff_forall_not_mem]
  constructor
  · intro h p hp
    by_contra hnew
    exact h _ ((mem_newQueries _ _).mpr ⟨⟨p, hp, rfl⟩, not_or.mp hnew⟩)
  · intro h q hq
    obtain ⟨⟨p, hp, rfl⟩, hnew⟩ := (mem_newQueries q proposals).mp hq
    exact not_or.mpr hnew (h p hp)

theorem mem_known_newQueries {p : String} {proposals : List String} (hp : p ∈ proposals)
    (hfilled : Text.trim p ≠ "") : Text.trim p ∈ known ++ newQueries known proposals := by
  by_cases hknown : Text.trim p ∈ known
  · exact List.mem_append_left _ hknown
  · exact List.mem_append_right _ ((mem_newQueries _ _).mpr ⟨⟨p, hp, rfl⟩, hfilled, hknown⟩)

/-- Proposals that were considered once are not new again, whatever blanks they come with. -/
theorem newQueries_again {proposals again : List String}
    (h : ∀ q ∈ again, ∃ p ∈ proposals, Text.Respaced p q) :
    newQueries (known ++ newQueries known proposals) again = [] := by
  rw [newQueries_eq_nil_iff]
  intro q hq
  obtain ⟨p, hp, hspaced⟩ := h q hq
  rw [← (Text.respaced_iff p q).mp hspaced]
  exact or_iff_not_imp_left.mpr (mem_known_newQueries hp)

/-- The loop over the proposals finds the new ones, behind those found so far: by induction on the
proposals that are left, with what was found as known. -/
theorem fresh_texts (found proposals : List String) :
    fresh (known.map .str) found proposals = found ++ newQueries (known ++ found) proposals := by
  induction proposals generalizing found with
  | nil => exact (List.append_nil found).symm
  | cons proposal proposals ih =>
    have hknown : (Value.str (Text.trim proposal)).isAmong (known.map .str) =
        known.contains (Text.trim proposal) := by
      rw [Bool.eq_iff_iff, Value.isAmong_texts_iff, List.contains_iff_mem]
      simp
    rw [fresh, hknown, newQueries_cons]
    by_cases hold : Text.trim proposal = "" ∨ Text.trim proposal ∈ known ++ found
    · rw [if_pos (by simpa [or_assoc] using hold), if_pos hold, ih]
    · rw [if_neg (by simpa [or_assoc] using hold), if_neg hold, ih, List.append_assoc,
        ← List.append_assoc known]
      rfl

end NewQueries

/-! ## A brainstorming -/

/-- The question about queries that are texts. -/
def questionOf (known : List String) : String :=
  let ask := "Output the field 'queries' containing an array of possible search queries."
  if known.isEmpty then ask else ask ++ "\nAlready brainstormed:\n" ++ bullets known

theorem question_texts (known : List String) :
    question (known.map .str) = .ok (questionOf known) := by
  have hshown : ∀ texts : List String, Value.allShown (texts.map .str) = .ok texts := by
    intro texts
    induction texts with
    | nil => rfl
    | cons s texts ih =>
      rw [Value.allShown, List.map_cons, List.mapM_cons]
      exact bind_eq_ok.mpr ⟨s, rfl, bind_eq_ok.mpr ⟨texts, ih, rfl⟩⟩
  cases known with
  | nil => rfl
  | cons s known =>
    exact bind_eq_ok.mpr ⟨s :: known, hshown (s :: known), rfl⟩

/-- What a brainstormer asks its model. -/
def ask (known : List String) (said : List Value) : Ask where
  messages := Message.system Prompt.brainstormer :: said ++ [Message.human (questionOf known)]
  form := some form

/-- Asked about known queries after some messages, the model of a brainstormer proposes texts. -/
def Proposes (b : Brainstormer μ) (known : List String) (said : List Value) (site : Site μ)
    (texts : List String) (left : Site μ) : Prop :=
  ∃ answer, Site.onMemory (b.model (ask known said)) site = (.ok answer, left) ∧
    proposals answer = .ok texts

/-- The update that contributes queries and reports them. -/
def contribution (b : Brainstormer μ) (queries : List String) : Entries :=
  (.str queriesChannel, Value.ofText queries) ::
    Worker.reported b.name ("Brainstormed queries:\n" ++ bullets queries)

/-- A state with known queries and some messages. -/
structure Holds (store : Store) (known : List String) (said : List Value) : Prop where
  queries : Table.row? store.values queriesChannel = some (Value.ofText known)
  messages : Table.row? store.values "messages" = some (.list said)

section Adding

variable {b : Brainstormer μ} {schema : Schema} {store new : Store} {known : List String}
  {said : List Value}

/-- A brainstormer contributes the new queries, if its model proposes some. -/
theorem handler_of_proposes (h : Holds store known said) {site left : Site μ}
    {texts : List String} (hproposes : b.Proposes known said site texts left) :
    b.handler (.mapping store.snapshot) site =
      (.ok (.mapping (b.contribution (newQueries known texts))), left) := by
  obtain ⟨answer, hasked, htexts⟩ := hproposes
  have hknown : State.itemsOf store.snapshot queriesChannel = .ok (known.map .str) :=
    Store.itemsOf_snapshot h.queries
  have hsaid : State.itemsOf store.snapshot "messages" = .ok said :=
    Store.itemsOf_snapshot h.messages
  refine Act.bind_eq_ok.mpr ⟨store.snapshot, site, rfl, ?_⟩
  refine Act.bind_eq_ok.mpr ⟨_, site, congrArg (·, site) hknown, ?_⟩
  refine Act.bind_eq_ok.mpr ⟨_, site, congrArg (·, site) (question_texts known), ?_⟩
  refine Act.bind_eq_ok.mpr ⟨_, site, congrArg (·, site) hsaid, ?_⟩
  refine Act.bind_eq_ok.mpr ⟨answer, left, hasked, ?_⟩
  refine Act.bind_eq_ok.mpr ⟨texts, left, congrArg (·, left) htexts, ?_⟩
  rw [fresh_texts, List.append_nil]
  rfl

theorem added_contribution (b : Brainstormer μ) (queries : List String) :
    Store.added (b.contribution queries) queriesChannel = queries.map .str := by
  simp [Store.added, Store.contributions, contribution, Schema.namedRows, Worker.reported,
    queriesChannel, Reducer.contributed, Value.ofText]

theorem apply_contribution (b : Brainstormer μ) (hqueries : schema.Logs queriesChannel)
    (hmessages : schema.Logs "messages") (hcomplete : store.Complete schema)
    (h : Holds store known said) (queries : List String) : ∃ new said',
      store.apply schema (b.contribution queries) = .ok new ∧ new.Complete schema ∧
      Holds new (known ++ queries) said' := by
  obtain ⟨new, hnew⟩ : ∃ new, store.apply schema (b.contribution queries) = .ok new := by
    refine Store.apply_of_logs fun e he => ?_
    rcases List.mem_pair.mp he with rfl | rfl
    · exact ⟨_, rfl, hqueries, _, h.queries⟩
    · exact ⟨_, rfl, hmessages, _, h.messages⟩
  have hmerges := Store.merges_of_apply hcomplete hnew
  have hlisted := hmerges.log hqueries h.queries
  rw [added_contribution, ← List.map_append] at hlisted
  exact ⟨new, _, hnew, hmerges.complete hcomplete, hlisted, hmerges.log hmessages h.messages⟩

/-- Brainstorming on a store, with the proposals that its model makes there, contributes queries
and leaves a store. -/
structure Adds (b : Brainstormer μ) (schema : Schema) (store : Store) (known : List String)
    (said : List Value) (texts queries : List String) (new : Store) : Prop where
  answers : ∀ site left, b.Proposes known said site texts left →
    b.handler (.mapping store.snapshot) site = (.ok (.mapping (b.contribution queries)), left)
  applies : store.apply schema (b.contribution queries) = .ok new

end Adding

/-- Brainstorming adds exactly the new queries, once. The queries that are contributed to those
known are the new ones among the proposals. They are accepted; then every proposal is a query,
unless it is blank; and brainstorming again, with proposals that are the same up to their order,
their number and the blanks around them, contributes no query. -/
theorem adds_once (b : Brainstormer μ) {schema : Schema} (hqueries : schema.Logs queriesChannel)
    (hmessages : schema.Logs "messages") {store : Store} (hcomplete : store.Complete schema)
    {known : List String} {said : List Value} (h : Holds store known said)
    (texts : List String) : ∃ new said',
      b.Adds schema store known said texts (newQueries known texts) new ∧
      Holds new (known ++ newQueries known texts) said' ∧
      (∀ p ∈ texts, Text.trim p ≠ "" → Text.trim p ∈ known ++ newQueries known texts) ∧
      ∀ again : List String, (∀ q ∈ again, ∃ p ∈ texts, Text.Respaced p q) → ∃ later said'',
        b.Adds schema new (known ++ newQueries known texts) said' again [] later ∧
        Holds later (known ++ newQueries known texts) said'' := by
  obtain ⟨new, said', hnew, hcomplete', hholds⟩ :=
    apply_contribution b hqueries hmessages hcomplete h (newQueries known texts)
  refine ⟨new, said', ⟨fun _ _ => handler_of_proposes h, hnew⟩, hholds,
    fun p => mem_known_newQueries, fun again hagain => ?_⟩
  obtain ⟨later, said'', hlater, _, hsame⟩ :=
    apply_contribution b hqueries hmessages hcomplete' hholds []
  rw [List.append_nil] at hsame
  refine ⟨later, said'', ⟨fun site left hproposes => ?_, hlater⟩, hsame⟩
  rw [handler_of_proposes hholds hproposes, newQueries_again hagain]

/-- A brainstormer whose model proposes texts, and the same texts in another order and with other
blanks when it is asked again. -/
def repeating : Brainstormer Nat where
  model := fun _ n => (.ok (.record "BrainstormResult" [("queries", Value.ofText
    (if n = 0 then [" b ", "a", "b", "", "c"] else ["c", "\tb", "a\n", "  "]))]), n + 1)
  name := "Brainstormer"

/-- It is asked about one query, and contributes the two that are new. Asked again, it contributes
none. -/
theorem repeating_adds_once : ∃ new later said said',
    Holds Team.insistingStart.store ["a"] [] ∧
    repeating.handler (.mapping Team.insistingStart.store.snapshot) (.bare 0) =
      (.ok (.mapping (repeating.contribution ["b", "c"])), .bare 1) ∧
    Team.insistingStart.store.apply Team.researchSchema.freeze
      (repeating.contribution ["b", "c"]) = .ok new ∧ Holds new ["a", "b", "c"] said ∧
    repeating.handler (.mapping new.snapshot) (.bare 1) =
      (.ok (.mapping (repeating.contribution [])), .bare 2) ∧
    new.apply Team.researchSchema.freeze (repeating.contribution []) = .ok later ∧
    Holds later ["a", "b", "c"] said' := by
  have hstart : Holds Team.insistingStart.store ["a"] [] := ⟨rfl, rfl⟩
  have hcomplete : Team.insistingStart.store.Complete Team.researchSchema.freeze := rfl
  obtain ⟨new, said, hadds, hholds, _, hagain⟩ := adds_once repeating Team.logs_queries_research
    Team.logs_messages_research hcomplete hstart [" b ", "a", "b", "", "c"]
  have hnew : newQueries ["a"] [" b ", "a", "b", "", "c"] = ["b", "c"] := by decide
  rw [hnew] at hadds hholds hagain
  obtain ⟨later, said', hnothing, hsame⟩ := hagain ["c", "\tb", "a\n", "  "] (by
    simp only [Text.respaced_iff]
    decide)
  exact ⟨new, later, said, said', hstart, hadds.answers _ _ ⟨_, rfl, rfl⟩, hadds.applies, hholds,
    hnothing.answers _ _ ⟨_, rfl, rfl⟩, hnothing.applies, hsame⟩

end Brainstormer

end TeamFlow
