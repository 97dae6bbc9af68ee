import TeamFlow.Proofs.Form
import TeamFlow.Proofs.Prompt
import TeamFlow.Proofs.Team.Answers

/-! # The form and the checks agree

A chat model that serves as an oracle is asked to fill in a form. What the form
takes are the answers that the checks of a supervisor accept, as far as they come
with a reasoning (`form_and_checks_agree`): so what has been filled in is never
refused afterwards, and what the form does not take is reported as a breach of the
contract. -/
namespace TeamFlow

open Supervisor

variable {μ : Type} {options : List String} {topics : Option (List String)} {given : Entries}
  {filled : List (String × Value)}

namespace Route

/-- Fields from which a route form is filled in, and the form filled in. -/
inductive FilledFrom (options : List String) (given : Entries) :
    Option (List String) → List (String × Value) → Prop where
  | plain {reasoning choice instructions : String}
      (hreasoning : State.peek given "reasoning" = .str reasoning) (hchoice : choice ∈ options)
      (hnext : State.peek given "next" = .str choice)
      (hsaid : State.peek given "instructions" = .str instructions) :
      FilledFrom options given none [("reasoning", .str reasoning), ("next", .str choice),
        ("instructions", .str instructions)]
  | topical {reasoning choice instructions topic : String} {known : List String}
      (hreasoning : State.peek given "reasoning" = .str reasoning) (hchoice : choice ∈ options)
      (hnext : State.peek given "next" = .str choice)
      (hsaid : State.peek given "instructions" = .str instructions)
      (hlegal : topic ∈ noTopic :: known) (htopic : State.peek given "topic" = .str topic) :
      FilledFrom options given (some known) [("reasoning", .str reasoning),
        ("next", .str choice), ("instructions", .str instructions), ("topic", .str topic)]

theorem fitFields_eq_ok {rest : List FormField} :
    Form.fitFields given (⟨"reasoning", .text, none⟩ ::
      ⟨"next", .oneOf (options.map .str), none⟩ :: ⟨"instructions", .text, none⟩ :: rest) =
        .ok filled ↔ ∃ reasoning, ∃ choice ∈ options, ∃ instructions others,
        State.peek given "reasoning" = .str reasoning ∧ State.peek given "next" = .str choice ∧
        State.peek given "instructions" = .str instructions ∧
        Form.fitFields given rest = .ok others ∧ filled = ("reasoning", .str reasoning) ::
          ("next", .str choice) :: ("instructions", .str instructions) :: others := by
  simp only [Form.fitFields_cons, FormField.fit_text_eq_ok, FormField.fit_choice_eq_ok]
  constructor
  · rintro ⟨_, _, ⟨reasoning, hreasoning, rfl⟩, ⟨_, _, ⟨choice, hchoice, hnext, rfl⟩,
      ⟨_, others, ⟨instructions, hsaid, rfl⟩, hothers, rfl⟩, rfl⟩, rfl⟩
    exact ⟨reasoning, choice, hchoice, instructions, others, hreasoning, hnext, hsaid, hothers, rfl⟩
  · rintro ⟨reasoning, choice, hchoice, instructions, others, hreasoning, hnext, hsaid, hothers,
      rfl⟩
    exact ⟨_, _, ⟨reasoning, hreasoning, rfl⟩, ⟨_, _, ⟨choice, hchoice, hnext, rfl⟩,
      ⟨_, others, ⟨instructions, hsaid, rfl⟩, hothers, rfl⟩, rfl⟩, rfl⟩

theorem fields?_eq_ok : (form (options.map .str) (topics.map (·.map .str))).fields? given =
    .ok filled ↔ FilledFrom options given topics filled := by
  cases topics with
  | none =>
    refine fitFields_eq_ok.trans ⟨?_, ?_⟩
    · rintro ⟨_, _, hchoice, _, _, hreasoning, hnext, hsaid, hnil, rfl⟩
      cases hnil
      exact .plain hreasoning hchoice hnext hsaid
    · rintro ⟨hreasoning, hchoice, hnext, hsaid⟩
      exact ⟨_, _, hchoice, _, _, hreasoning, hnext, hsaid, rfl, rfl⟩
  | some known =>
    have htopic : ∀ others, Form.fitFields given
        [⟨"topic", .oneOf ((noTopic :: known).map .str), none⟩] = .ok others ↔
          ∃ topic ∈ noTopic :: known, State.peek given "topic" = .str topic ∧
            others = [("topic", .str topic)] := by
      intro others
      simp only [Form.fitFields_cons, FormField.fit_choice_eq_ok]
      constructor
      · rintro ⟨_, _, ⟨topic, hlegal, htopic, rfl⟩, hnil, rfl⟩
        cases hnil
        exact ⟨topic, hlegal, htopic, rfl⟩
      · rintro ⟨topic, hlegal, htopic, rfl⟩
        exact ⟨_, _, ⟨topic, hlegal, htopic, rfl⟩, rfl, rfl⟩
    refine fitFields_eq_ok.trans ⟨?_, ?_⟩
    · rintro ⟨_, _, hchoice, _, others, hreasoning, hnext, hsaid, hothers, rfl⟩
      obtain ⟨topic, hlegal, htopic, rfl⟩ := (htopic others).mp hothers
      exact .topical hreasoning hchoice hnext hsaid hlegal htopic
    · rintro (_ | ⟨hreasoning, hchoice, hnext, hsaid, hlegal, hsaidTopic⟩)
      exact ⟨_, _, hchoice, _, _, hreasoning, hnext, hsaid,
        (htopic _).mpr ⟨_, hlegal, hsaidTopic, rfl⟩, rfl⟩

/-- A form that has been filled in stands for the same update as what it was filled in from. -/
theorem FilledFrom.standsFor (h : FilledFrom options given topics filled) :
    ∃ update, StandsFor options given topics update ∧
      StandsFor options (Entries.ofFields filled) topics update := by
  cases h with
  | plain hreasoning hchoice hnext hsaid =>
    exact ⟨_, .plain hchoice hnext hsaid, .plain hchoice rfl rfl⟩
  | topical hreasoning hchoice hnext hsaid hlegal htopic =>
    exact ⟨_, .topical hchoice hnext hsaid (List.mem_cons.mp hlegal) htopic,
      .topical hchoice rfl rfl (List.mem_cons.mp hlegal) rfl⟩

/-- A form can be filled in from the legal answers that come with a reasoning. -/
theorem filledFrom_iff : (∃ filled, FilledFrom options given topics filled) ↔
    (∃ reasoning, State.peek given "reasoning" = .str reasoning) ∧
      ∃ update, StandsFor options given topics update := by
  constructor
  · rintro ⟨filled, h⟩
    obtain ⟨update, hstands, -⟩ := h.standsFor
    refine ⟨?_, update, hstands⟩
    cases h with
    | plain hreasoning => exact ⟨_, hreasoning⟩
    | topical hreasoning => exact ⟨_, hreasoning⟩
  · rintro ⟨⟨reasoning, hreasoning⟩, update, hstands⟩
    cases hstands with
    | plain hchoice hnext hsaid => exact ⟨_, .plain hreasoning hchoice hnext hsaid⟩
    | topical hchoice hnext hsaid hlegal htopic =>
      exact ⟨_, .topical hreasoning hchoice hnext hsaid (List.mem_cons.mpr hlegal) htopic⟩

end Route

namespace Request.Offers

variable {r : Request}

theorem fill_eq_ok (h : r.Offers options topics) {v : Value} :
    (Route.form r.options r.topics).fill given = .ok v ↔
      ∃ filled, Route.FilledFrom options given topics filled ∧ v = .record "route" filled := by
  rw [Form.fill_eq_ok, h.options, h.topics]
  exact exists_congr fun _ => and_congr_left fun _ => Route.fields?_eq_ok

theorem ask_eq_ok (h : r.Offers options topics) (hoptions : options ≠ []) :
    ∃ ask, r.ask = .ok ask ∧ ask.form = some (Route.form r.options r.topics) := by
  have hcheck : Route.checkOptions r.options = .ok () := by
    rw [h.options, Route.checkOptions, if_neg (by simpa using hoptions)]
  have hjoined : Value.joined r.options = .ok (Value.commas options) := by
    rw [h.options, Value.joined_texts]
  have hselection : ∃ selection, r.selection = .ok selection := by
    have htopics := h.topics
    cases topics with
    | none =>
      obtain ⟨selection, hfill⟩ : ∃ selection, Value.fill Prompt.routeSelection
          [(.str "options", .str (Value.commas options))] = .ok selection :=
        ⟨_, Prompt.routeSelection_reads.fill_texts [("options", Value.commas options)]
          (by simp [Text.slots, Table.names])⟩
      refine ⟨selection, bind_eq_ok.mpr ⟨_, hjoined, ?_⟩⟩
      rw [htopics]
      exact hfill
    | some known =>
      obtain ⟨selection, hfill⟩ : ∃ selection, Value.fill Prompt.routeTopicSelection
          [(.str "options", .str (Value.commas options)),
            (.str "topics", .str (Value.commas (noTopic :: known)))] = .ok selection :=
        ⟨_, Prompt.routeTopicSelection_reads.fill_texts [("options", Value.commas options),
          ("topics", Value.commas (noTopic :: known))] (by simp [Text.slots, Table.names])⟩
      refine ⟨selection, bind_eq_ok.mpr ⟨_, hjoined, ?_⟩⟩
      rw [htopics]
      exact bind_eq_ok.mpr ⟨_, Value.joined_texts (noTopic :: known), hfill⟩
  obtain ⟨selection, hselection⟩ := hselection
  refine ⟨_, bind_eq_ok.mpr ⟨(), hcheck, bind_eq_ok.mpr ⟨selection, hselection, rfl⟩⟩, rfl⟩

end Request.Offers

namespace Oracle

variable {model : ChatModel μ} {r : Request} {ask : Ask} {memory after : μ}

theorem ofChat_of_answer (hask : r.ask = .ok ask) {answer : Value}
    (hmodel : model ask memory = (.ok answer, after)) :
    ofChat model r memory = (.ok answer, after) := by
  simp only [ofChat, hask, Act.bind_apply, Act.ofExcept, Act.attempt, hmodel]
  rfl

/-- An answer that does not fit the form is reported as a breach of the contract. -/
theorem ofChat_of_misfit (hask : r.ask = .ok ask) {why : Failure} (hmisfit : isMisfit why = true)
    (hmodel : model ask memory = (.error why, after)) :
    ofChat model r memory = (.error (.run (.contract
      ("Oracle response did not match the route schema: " ++ why.message) (some why))), after) := by
  simp only [ofChat, hask, Act.bind_apply, Act.ofExcept, Act.attempt, hmodel, hmisfit, if_true]
  rfl

end Oracle

namespace Supervisor

/-- Fields that choose no actor or no topic out of those that are listed. -/
def Outside (options : List String) (topics : Option (List String)) (given : Entries) : Prop :=
  (∀ choice ∈ options, State.peek given "next" ≠ .str choice) ∨
    ∃ known, topics = some known ∧ ∀ topic ∈ noTopic :: known,
      State.peek given "topic" ≠ .str topic

theorem Outside.not_standsFor (h : Outside options topics given) (update : Entries) :
    ¬ StandsFor options given topics update := by
  rintro (⟨hchoice, hnext, _⟩ | ⟨hchoice, hnext, _, hlegal, htopic⟩)
  · rcases h with hother | ⟨_, hsome, _⟩
    · exact hother _ hchoice hnext
    · cases hsome
  · rcases h with hother | ⟨known, hsome, hother⟩
    · exact hother _ hchoice hnext
    · cases hsome
      exact hother _ (List.mem_cons.mpr hlegal) htopic

/-- What becomes of an answer that a chat model is asked for by a supervisor: an answer that the
form takes is accepted, and one that it does not take, or that is given without the form and is
outside of what is listed, is a breach of the contract. -/
structure Consults (options : List String) (topics : Option (List String)) (given : Entries)
    (r : Request) (ask : Ask) (s : Supervisor μ) (model : ChatModel μ) (state : Value)
    (site : Site μ) : Prop where
  filled : ∀ v after, (Route.form r.options r.topics).fill given = .ok v →
    model ask site.memory = (.ok v, after) →
    ∃ update, accept v r = .ok update ∧ (s.handler state site).1 = .ok (.mapping update)
  misfit : ∀ why after, (Route.form r.options r.topics).fill given = .error why →
    model ask site.memory = (.error why, after) →
    (s.handler state site).1 = .error (.run (.contract
      ("Oracle response did not match the route schema: " ++ why.message) (some why)))
  outside : Outside options topics given →
    (∃ why, (Route.form r.options r.topics).fill given = .error why) ∧
    ∀ reply after, answerFields? reply = some given → model ask site.memory = (.ok reply, after) →
      ∃ text named, Complaint options topics reply text named ∧
        (s.handler state site).1 = .error (.ifWritable named.isWritable (.contract text none))

theorem handler_of_failure {s : Supervisor μ} {state : Value} {r : Request} {site : Site μ}
    {why : Failure} {after : μ} (hrequest : s.request state = .ok r)
    (horacle : s.oracle r site.memory = (.error why, after)) :
    (s.handler state site).1 = .error why := by
  simp only [handler, hrequest, Act.bind_apply, Act.ofExcept, Site.onMemory, Act.onPart, horacle]

theorem consults {r : Request} (hr : r.Offers options topics) {ask : Ask} (hask : r.ask = .ok ask)
    {s : Supervisor μ} {model : ChatModel μ} (hmodel : s.oracle = Oracle.ofChat model)
    {state : Value} (hrequest : s.request state = .ok r) (site : Site μ) :
    Consults options topics given r ask s model state site := by
  have hasked : ∀ reply after, model ask site.memory = (.ok reply, after) →
      (s.handler state site).1 = (accept reply r).map .mapping := by
    intro reply after hanswer
    have horacle : s.oracle r site.memory = (.ok reply, after) := by
      rw [hmodel, Oracle.ofChat_of_answer hask hanswer]
    rw [handler_asked hrequest horacle]
  refine ⟨fun v after hfill hanswer => ?_, fun why after hfill hanswer => ?_,
    fun houtside => ⟨?_, fun reply after hfields hanswer => ?_⟩⟩
  · obtain ⟨filled, hfrom, rfl⟩ := hr.fill_eq_ok.mp hfill
    obtain ⟨update, -, hstands⟩ := hfrom.standsFor
    have haccept : accept (.record "route" filled) r = .ok update :=
      hr.accept_of_standsFor rfl hstands
    refine ⟨update, haccept, ?_⟩
    rw [hasked _ after hanswer, haccept]
    rfl
  · obtain ⟨faults, -, rfl⟩ := Form.fill_eq_error.mp hfill
    have hmisfit := Oracle.ofChat_of_misfit hask rfl hanswer
    rw [← hmodel] at hmisfit
    exact handler_of_failure hrequest hmisfit
  · cases hfill : (Route.form r.options r.topics).fill given with
    | error why => exact ⟨why, rfl⟩
    | ok v =>
      obtain ⟨filled, hfrom, -⟩ := hr.fill_eq_ok.mp hfill
      obtain ⟨update, hstands, -⟩ := hfrom.standsFor
      exact absurd hstands (houtside.not_standsFor update)
  · rcases standsFor_or_complaint options topics reply with
      ⟨fields, update, hfields', hstands⟩ | ⟨text, named, hcomplaint⟩
    · rw [hfields] at hfields'
      cases hfields'
      exact absurd hstands (houtside.not_standsFor update)
    · refine ⟨text, named, hcomplaint, ?_⟩
      rw [hasked reply after hanswer, hr.accept_of_complaint hcomplaint]
      rfl

/-- The form and the checks agree on every answer that is given by its fields. -/
theorem form_and_checks_agree {options : List String} (hoptions : options ≠ [])
    (topics : Option (List String)) (given : Entries) {r : Request}
    (hr : r.Offers options topics) :
    ((∃ v, (Route.form r.options r.topics).fill given = .ok v) ↔
      (∃ reasoning, State.peek given "reasoning" = .str reasoning) ∧
        ∃ update, accept (.mapping given) r = .ok update) ∧
    (∀ v, (Route.form r.options r.topics).fill given = .ok v →
      ∃ filled update, v = .record "route" filled ∧ accept v r = .ok update ∧
        accept (.mapping (Entries.ofFields filled)) r = .ok update ∧
        accept (.mapping given) r = .ok update) ∧
    ∃ ask, r.ask = .ok ask ∧ ask.form = some (Route.form r.options r.topics) ∧
      ∀ (s : Supervisor μ) (model : ChatModel μ) (state : Value) (site : Site μ),
        s.oracle = Oracle.ofChat model → s.request state = .ok r →
        Consults options topics given r ask s model state site := by
  refine ⟨?_, fun v hfill => ?_, ?_⟩
  · have haccept : ∀ update, accept (.mapping given) r = .ok update ↔
        StandsFor options given topics update := by
      intro update
      rw [hr.accept_eq_ok_iff]
      exact ⟨fun ⟨_, hfields, hstands⟩ => by cases hfields; exact hstands,
        fun hstands => ⟨given, rfl, hstands⟩⟩
    simp only [haccept, ← Route.filledFrom_iff, hr.fill_eq_ok]
    exact ⟨fun ⟨_, filled, hfrom, _⟩ => ⟨filled, hfrom⟩,
      fun ⟨filled, hfrom⟩ => ⟨_, filled, hfrom, rfl⟩⟩
  · obtain ⟨filled, hfrom, rfl⟩ := hr.fill_eq_ok.mp hfill
    obtain ⟨update, hgiven, hfilled⟩ := hfrom.standsFor
    exact ⟨filled, update, rfl, hr.accept_of_standsFor rfl hfilled,
      hr.accept_of_standsFor rfl hfilled, hr.accept_of_standsFor rfl hgiven⟩
  · obtain ⟨ask, hask, hform⟩ := hr.ask_eq_ok hoptions
    exact ⟨ask, hask, hform, fun s model state site hmodel hrequest =>
      consults hr hask hmodel hrequest site⟩

/-- A request that offers one actor and one topic. -/
def clerkRequest : Request := ⟨[], [.str "FINISH", .str "B"], "", some [.str "x"]⟩

/-- A chat model that fills in every form from the same fields. -/
def filling (given : Entries) : ChatModel Unit := fun ask => match ask.form with
  | some form => Act.ofExcept (form.fill given)
  | none => pure .null

def clerk (given : Entries) : Supervisor Unit where
  oracle := Oracle.ofChat (filling given)
  prompt := ""
  members := [.str "B"]
  topicsChannel := some "queries"
  finish_not_among := rfl

/-- Fields that choose an actor and no topic; one of them is not asked for. -/
def clerkFields (choice : String) : Entries :=
  [(.str "reasoning", .str ""), (.str "mood", .int 3), (.str "next", .str choice),
    (.str "instructions", .str "go"), (.str "topic", .str "NONE")]

def clerkState : Value := .mapping [(.str "queries", .list [.str "x", .str "x"])]

theorem clerk_request (given : Entries) : (clerk given).request clerkState = .ok clerkRequest := rfl

/-- An actor that is listed, and one that is not. -/
theorem clerk_agrees : clerkRequest.Offers ["FINISH", "B"] (some ["x"]) ∧
    (∃ update, ((clerk (clerkFields "B")).handler clerkState nowhere).1 = .ok (.mapping update)) ∧
    ∃ text cause, ((clerk (clerkFields "C")).handler clerkState nowhere).1 =
      .error (.run (.contract text cause)) := by
  have hoffers : clerkRequest.Offers ["FINISH", "B"] (some ["x"]) := ⟨rfl, rfl⟩
  have hconsults : ∀ given, ∃ ask,
      filling given ask = Act.ofExcept
        ((Route.form clerkRequest.options clerkRequest.topics).fill given) ∧
      Consults ["FINISH", "B"] (some ["x"]) given clerkRequest ask (clerk given) (filling given)
        clerkState nowhere := by
    intro given
    obtain ⟨-, -, ask, -, hform, hall⟩ := form_and_checks_agree (μ := Unit)
      (List.cons_ne_nil "FINISH" ["B"]) (some ["x"]) given hoffers
    exact ⟨ask, by rw [filling, hform], hall _ _ _ nowhere rfl (clerk_request given)⟩
  refine ⟨hoffers, ?_, ?_⟩
  · obtain ⟨ask, hmodel, hconsults⟩ := hconsults (clerkFields "B")
    obtain ⟨update, -, hanswer⟩ := hconsults.filled _ () rfl (by rw [hmodel]; rfl)
    exact ⟨update, hanswer⟩
  · obtain ⟨ask, hmodel, hconsults⟩ := hconsults (clerkFields "C")
    exact ⟨_, _, hconsults.misfit _ () rfl (by rw [hmodel]; rfl)⟩

end Supervisor

end TeamFlow
