import TeamFlow.Proofs.Team.Decision

/-! # Legal answers

Which update a legal answer stands for (`StandsFor`) and what is complained of in
an illegal one (`Complaint`) is said here without the checks that a supervisor
makes. Each answer is either legal or complained of, and the checks accept it or
refuse it accordingly (`Request.Offers.accept_eq_ok_iff`,
`Request.Offers.accept_eq_error_iff`). -/
namespace TeamFlow

/-- The options and topics of a request are texts. -/
structure Request.Offers (r : Request) (options : List String) (topics : Option (List String)) :
    Prop where
  options : r.options = options.map .str
  topics : r.topics = topics.map (·.map .str)

namespace Supervisor

/-- Fields that make a legal answer, and the update that they stand for. -/
inductive StandsFor (options : List String) (fields : Entries) :
    Option (List String) → Entries → Prop where
  | plain {choice instructions : String} (hchoice : choice ∈ options)
      (hnext : State.peek fields "next" = .str choice)
      (hsaid : State.peek fields "instructions" = .str instructions) :
      StandsFor options fields none
        [(.str "next", .str choice), (.str "instructions", .str instructions)]
  | topical {choice instructions topic : String} {topics : List String}
      (hchoice : choice ∈ options) (hnext : State.peek fields "next" = .str choice)
      (hsaid : State.peek fields "instructions" = .str instructions)
      (hlegal : topic = noTopic ∨ topic ∈ topics)
      (htopic : State.peek fields "topic" = .str topic) :
      StandsFor options fields (some topics)
        [(.str "next", .str choice), (.str "instructions", .str instructions),
          (.str "topic", .str (if topic = noTopic then "" else topic))]

/-- What is complained of in an answer, and the value that the complaint names, if any. -/
inductive Complaint (options : List String) (topics : Option (List String)) (answer : Value) :
    String → Value → Prop where
  | kind (hfields : answerFields? answer = none) : Complaint options topics answer
      ("Oracle returned " ++ answer.kindName ++ ", expected a route decision") .null
  | choice {fields : Entries} (hfields : answerFields? answer = some fields)
      (hnext : ∀ choice ∈ options, State.peek fields "next" ≠ .str choice) :
      Complaint options topics answer ("Oracle chose " ++ (State.peek fields "next").literal ++
        "; legal choices are " ++ Value.commas options) (State.peek fields "next")
  | instructions {fields : Entries} {choice : String}
      (hfields : answerFields? answer = some fields) (hchoice : choice ∈ options)
      (hnext : State.peek fields "next" = .str choice)
      (hsaid : ∀ text, State.peek fields "instructions" ≠ .str text) :
      Complaint options topics answer "Oracle answer is missing string instructions" .null
  | topic {fields : Entries} {choice instructions : String} {known : List String}
      (hfields : answerFields? answer = some fields) (hchoice : choice ∈ options)
      (hnext : State.peek fields "next" = .str choice)
      (hsaid : State.peek fields "instructions" = .str instructions)
      (hknown : topics = some known)
      (htopic : ∀ topic ∈ noTopic :: known, State.peek fields "topic" ≠ .str topic) :
      Complaint options topics answer ("Oracle chose topic " ++
        (State.peek fields "topic").literal ++ "; legal topics are " ++
        Value.commas (noTopic :: known)) (State.peek fields "topic")

variable {options : List String} {topics : Option (List String)}

/-- Each answer is legal or complained of. -/
theorem standsFor_or_complaint (options : List String) (topics : Option (List String))
    (answer : Value) :
    (∃ fields update, answerFields? answer = some fields ∧
      StandsFor options fields topics update) ∨
    ∃ text named, Complaint options topics answer text named := by
  cases hfields : answerFields? answer with
  | none => exact .inr ⟨_, _, .kind hfields⟩
  | some fields =>
    by_cases hnext : ∃ choice ∈ options, State.peek fields "next" = .str choice
    · obtain ⟨choice, hchoice, hnext⟩ := hnext
      by_cases hsaid : ∃ text, State.peek fields "instructions" = .str text
      · obtain ⟨instructions, hsaid⟩ := hsaid
        cases topics with
        | none => exact .inl ⟨fields, _, rfl, .plain hchoice hnext hsaid⟩
        | some known =>
          by_cases htopic : ∃ topic ∈ noTopic :: known, State.peek fields "topic" = .str topic
          · obtain ⟨topic, hlegal, htopic⟩ := htopic
            exact .inl ⟨fields, _, rfl,
              .topical hchoice hnext hsaid (List.mem_cons.mp hlegal) htopic⟩
          · exact .inr ⟨_, _, .topic hfields hchoice hnext hsaid rfl fun t ht heq =>
              htopic ⟨t, ht, heq⟩⟩
      · exact .inr ⟨_, _, .instructions hfields hchoice hnext fun text heq => hsaid ⟨text, heq⟩⟩
    · exact .inr ⟨_, _, .choice hfields fun choice hchoice heq => hnext ⟨choice, hchoice, heq⟩⟩

/-! ## What the checks make of them -/

theorem chosenTopic_legal {topic : String} {known : List String}
    (h : topic = noTopic ∨ topic ∈ known) : chosenTopic (known.map .str) (.str topic) =
      .ok (.str (if topic = noTopic then "" else topic)) := by
  have hamong : (Value.str topic).isAmong (.str noTopic :: known.map .str) = true :=
    (Value.isAmong_texts_iff (.str topic) (noTopic :: known)).mpr
      ⟨topic, List.mem_cons.mpr h, rfl⟩
  unfold chosenTopic
  rw [if_pos hamong]
  by_cases hnone : topic = noTopic
  · rw [if_pos ((Value.same_str_iff _ _).mpr (congrArg _ hnone)), if_pos hnone]
    rfl
  · rw [if_neg fun hsame => hnone (Value.str.inj ((Value.same_str_iff _ _).mp hsame)),
      if_neg hnone]
    rfl

theorem chosenTopic_illegal {topic : Value} {known : List String}
    (h : ∀ t ∈ noTopic :: known, topic ≠ .str t) : chosenTopic (known.map .str) topic =
      .error (.ifWritable topic.isWritable (.contract ("Oracle chose topic " ++ topic.literal ++
        "; legal topics are " ++ Value.commas (noTopic :: known)) none)) := by
  have hamong : ¬ topic.isAmong (.str noTopic :: known.map .str) = true := fun hamong =>
    have ⟨t, ht, heq⟩ := (Value.isAmong_texts_iff topic (noTopic :: known)).mp hamong
    h t ht heq
  have hjoined : Value.joined (.str noTopic :: known.map .str) =
      .ok (Value.commas (noTopic :: known)) := Value.joined_texts (noTopic :: known)
  unfold chosenTopic
  rw [if_neg hamong, Value.written_eq, hjoined]
  cases topic.isWritable <;> rfl

/-- A site at which nothing is set and there are no files. -/
def nowhere : Site Unit := ⟨.none, [], .empty, ()⟩

end Supervisor

namespace Request.Offers

open Supervisor

variable {r : Request} {options : List String} {topics : Option (List String)} {answer : Value}

theorem isAmong (h : r.Offers options topics) {choice : String} (hchoice : choice ∈ options) :
    (Value.str choice).isAmong r.options = true := by
  rw [h.options, Value.isAmong_texts_iff]
  exact ⟨choice, hchoice, rfl⟩

theorem accept_of_standsFor (h : r.Offers options topics) {fields update : Entries}
    (hfields : answerFields? answer = some fields)
    (hstands : StandsFor options fields topics update) : accept answer r = .ok update := by
  have htopics := h.topics
  unfold accept
  rw [hfields]
  cases hstands with
  | plain hchoice hnext hsaid =>
    simp only [hnext, h.isAmong hchoice, Bool.not_true, Bool.false_eq_true, if_false, hsaid,
      htopics]
    rfl
  | topical hchoice hnext hsaid hlegal htopic =>
    simp only [hnext, h.isAmong hchoice, Bool.not_true, Bool.false_eq_true, if_false, hsaid,
      htopics, Option.map_some, htopic, chosenTopic_legal hlegal]
    rfl

/-- An answer that is complained of is refused with the complaint, unless the value that this names
cannot be written. -/
theorem accept_of_complaint (h : r.Offers options topics) {text : String} {named : Value}
    (hcomplaint : Complaint options topics answer text named) :
    accept answer r = .error (.ifWritable named.isWritable (.contract text none)) := by
  have htopics := h.topics
  unfold accept
  cases hcomplaint with
  | kind hfields =>
    rw [hfields]
    rfl
  | @choice fields hfields hnext =>
    have hother : (State.peek fields "next").isAmong (options.map .str) = false := by
      rw [← Bool.not_eq_true, Value.isAmong_texts_iff]
      rintro ⟨choice, hchoice, heq⟩
      exact hnext choice hchoice heq
    rw [hfields]
    simp only [h.options, hother, Bool.not_false, if_true, Value.written_eq,
      Value.joined_texts]
    cases (State.peek fields "next").isWritable <;> rfl
  | instructions hfields hchoice hnext hsaid =>
    rw [hfields]
    simp only [hnext, h.isAmong hchoice, Bool.not_true, Bool.false_eq_true, if_false]
    rfl
  | topic hfields hchoice hnext hsaid hknown htopic =>
    rw [hknown] at htopics
    rw [hfields]
    simp only [hnext, h.isAmong hchoice, Bool.not_true, Bool.false_eq_true, if_false, hsaid,
      htopics, Option.map_some, chosenTopic_illegal htopic]
    rfl

/-- Accepted are the legal answers. -/
theorem accept_eq_ok_iff (h : r.Offers options topics) {update : Entries} :
    accept answer r = .ok update ↔ ∃ fields, answerFields? answer = some fields ∧
      StandsFor options fields topics update := by
  refine ⟨fun haccept => ?_, fun ⟨_, hfields, hstands⟩ => h.accept_of_standsFor hfields hstands⟩
  rcases standsFor_or_complaint options topics answer with
    ⟨fields, other, hfields, hstands⟩ | ⟨_, _, hcomplaint⟩
  · rw [h.accept_of_standsFor hfields hstands] at haccept
    cases haccept
    exact ⟨fields, hfields, hstands⟩
  · rw [h.accept_of_complaint hcomplaint] at haccept
    cases haccept

/-- All others are refused with the complaint. -/
theorem accept_eq_error_iff (h : r.Offers options topics) {why : Failure} :
    accept answer r = .error why ↔ ∃ text named, Complaint options topics answer text named ∧
      why = .ifWritable named.isWritable (.contract text none) := by
  refine ⟨fun haccept => ?_, fun ⟨_, _, hcomplaint, hwhy⟩ =>
    hwhy ▸ h.accept_of_complaint hcomplaint⟩
  rcases standsFor_or_complaint options topics answer with
    ⟨_, _, hfields, hstands⟩ | ⟨text, named, hcomplaint⟩
  · rw [h.accept_of_standsFor hfields hstands] at haccept
    cases haccept
  · rw [h.accept_of_complaint hcomplaint] at haccept
    cases haccept
    exact ⟨text, named, hcomplaint, rfl⟩

end Request.Offers

end TeamFlow
