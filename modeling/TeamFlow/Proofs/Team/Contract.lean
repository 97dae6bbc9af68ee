import TeamFlow.Proofs.Team.Answers
import TeamFlow.Proofs.Value.Filling

/-! # The contract of a supervisor

A supervisor with members in text shows its oracle the conversation, `FINISH` and
the members, and the topics that it finds, each of them once (`request_tells`),
once its prompt is filled in. It hands over an update exactly if the reply is legal,
and fails for every other reply with a complaint about it, if the complaint can name
what it is about (`KeepsContract`). -/
namespace TeamFlow.Supervisor

open Text

variable {μ : Type} {s : Supervisor μ} {state : State} {members texts : List String}
  {conversation : List Value}

theorem knownTopics_of_items
    (h : ∀ channel, s.topicsChannel = some channel →
      State.itemsOf state channel = .ok (texts.map .str)) :
    s.knownTopics state = .ok (s.topicsChannel.map fun _ => texts.eraseDups.map .str) := by
  unfold knownTopics
  split
  next hchannel => rw [hchannel]; rfl
  next channel hchannel =>
    rw [h channel hchannel, hchannel, ← Value.distinct_texts]
    rfl

theorem knownTopics_texts
    (h : ∀ channel, s.topicsChannel = some channel →
      State.peek state channel = .list (texts.map .str)) :
    s.knownTopics state = .ok (s.topicsChannel.map fun _ => texts.eraseDups.map .str) :=
  knownTopics_of_items fun channel hchannel => State.itemsOf_list (h channel hchannel)

/-- What the prompt comes to for a state. -/
def filledPrompt (s : Supervisor μ) (members : List String) (state : State) :
    Except Failure String :=
  Value.fill s.prompt [(.str "team_members", .str (Value.commas members)),
    (.str "topic", (State.peek state "topic").orElse (.str "the user's request"))]

/-- A prompt that asks for nothing but the members and the topic can be filled in. -/
theorem filledPrompt_of_asksOnly (hprompt : Value.AsksOnly ["team_members", "topic"] s.prompt)
    (htopic : (State.peek state "topic").isWritable = true) :
    ∃ guidance, s.filledPrompt members state = .ok guidance := by
  have hmembersFound : ∀ topic, Entries.find? [(.str "team_members", .str (Value.commas members)),
      (.str "topic", topic)] (.str "team_members") = some (.str (Value.commas members)) :=
    fun _ => rfl
  have htopicFound : ∀ topic, Entries.find? [(.str "team_members", .str (Value.commas members)),
      (.str "topic", topic)] (.str "topic") = some topic := fun _ => rfl
  have hnames : ∀ name ∈ ["team_members", "topic"], isName name.toList = true ∧
      ∃ v, Entries.find? [(.str "team_members", .str (Value.commas members)), (.str "topic",
        (State.peek state "topic").orElse (.str "the user's request"))] (.str name) = some v := by
    intro name hname
    rcases List.mem_pair.mp hname with rfl | rfl
    · exact ⟨by decide, _, hmembersFound _⟩
    · exact ⟨by decide, _, htopicFound _⟩
  rcases Value.fill_asking hnames hprompt with hguidance | ⟨hlong, -⟩
  · exact hguidance
  · obtain ⟨name, hname, v, hv, hlong⟩ := hlong
    rcases List.mem_pair.mp hname with rfl | rfl
    · rw [hmembersFound] at hv
      cases hv
      cases hlong
    · rw [htopicFound] at hv
      cases hv
      unfold Value.orElse at hlong
      split at hlong
      next => exact absurd htopic (by simp [hlong])
      next => cases hlong

/-- What the oracle is shown. -/
theorem request_tells (hmembers : s.members = members.map .str) {guidance : String}
    (hfilled : s.filledPrompt members state = .ok guidance)
    (hsaid : State.peek state "messages" = .list conversation)
    (htopics : ∀ channel, s.topicsChannel = some channel →
      State.peek state channel = .list (texts.map .str)) :
    s.request (.mapping state) = .ok ⟨conversation, (finishName :: members).map .str, guidance,
      s.topicsChannel.map fun _ => texts.eraseDups.map .str⟩ := by
  have hjoined : Value.joined s.members = .ok (Value.commas members) := by
    rw [hmembers, Value.joined_texts]
  have hoptions : s.options = (finishName :: members).map .str := by
    rw [options, hmembers]
    rfl
  rw [← hoptions]
  exact request_eq hjoined hfilled (State.itemsOf_list hsaid) (knownTopics_texts htopics)

/-- A supervisor keeps its contract where it asks for an answer: a legal answer becomes the update
that it stands for, and any other is complained of. -/
structure KeepsContract (s : Supervisor μ) (given : Value) (options : List String)
    (topics : Option (List String)) (r : Request) : Prop where
  asked : s.request given = .ok r
  offers : r.Offers options topics
  accepted_iff : ∀ site reply memory, s.oracle r site.memory = (.ok reply, memory) → ∀ answer,
    (s.handler given site).1 = .ok answer ↔ ∃ fields update, answerFields? reply = some fields ∧
      StandsFor options fields topics update ∧ answer = .mapping update
  refused : ∀ site reply memory, s.oracle r site.memory = (.ok reply, memory) →
    (¬ ∃ fields update, answerFields? reply = some fields ∧
      StandsFor options fields topics update) →
    ∃ text named, Complaint options topics reply text named ∧ (named.isWritable = true →
      (s.handler given site).1 = .error (.run (.contract text none)))

theorem keepsContract_of_request {given : Value} {options : List String}
    {topics : Option (List String)} {r : Request} (hasked : s.request given = .ok r)
    (hoffers : r.Offers options topics) : s.KeepsContract given options topics r := by
  refine ⟨hasked, hoffers, fun site reply memory horacle answer => ?_,
    fun site reply memory horacle hillegal => ?_⟩
  · rw [handler_asked hasked horacle]
    constructor
    · intro h
      cases haccept : accept reply r with
      | error why => rw [haccept] at h; cases h
      | ok update =>
        rw [haccept] at h
        cases h
        obtain ⟨fields, hfields, hstands⟩ := hoffers.accept_eq_ok_iff.mp haccept
        exact ⟨fields, update, hfields, hstands, rfl⟩
    · rintro ⟨fields, update, hfields, hstands, rfl⟩
      rw [hoffers.accept_of_standsFor hfields hstands]
      rfl
  · rw [handler_asked hasked horacle]
    rcases standsFor_or_complaint options topics reply with hlegal | ⟨text, named, hcomplaint⟩
    · exact absurd hlegal hillegal
    · refine ⟨text, named, hcomplaint, fun hwritable => ?_⟩
      rw [hoffers.accept_of_complaint hcomplaint, hwritable]
      rfl

/-- A supervisor keeps its contract wherever its prompt can be filled in, as can be one that asks
for nothing but the members and a topic that can be written. -/
theorem contract_kept (s : Supervisor μ) {members : List String}
    (hmembers : s.members = members.map .str) {state : State} {conversation : List Value}
    (hsaid : State.peek state "messages" = .list conversation) {texts : List String}
    (htopics : ∀ channel, s.topicsChannel = some channel →
      State.peek state channel = .list (texts.map .str)) :
    (∀ guidance, s.filledPrompt members state = .ok guidance →
      s.KeepsContract (.mapping state) (finishName :: members)
        (s.topicsChannel.map fun _ => texts.eraseDups)
        ⟨conversation, (finishName :: members).map .str, guidance,
          s.topicsChannel.map fun _ => texts.eraseDups.map .str⟩) ∧
    (Value.AsksOnly ["team_members", "topic"] s.prompt →
      (State.peek state "topic").isWritable = true →
      ∃ guidance, s.filledPrompt members state = .ok guidance) := by
  refine ⟨fun guidance hfilled => ?_, filledPrompt_of_asksOnly⟩
  refine keepsContract_of_request (request_tells hmembers hfilled hsaid htopics) ⟨rfl, ?_⟩
  cases s.topicsChannel <;> rfl

/-- A supervisor of one actor, whose oracle always replies the same. -/
def told (reply : Value) : Supervisor Unit where
  oracle _ := pure reply
  prompt := "\x7b\x7b\x7bteam_members\x7d on \x7btopic!r\x7d"
  members := [.str "A"]
  topicsChannel := some "queries"
  finish_not_among := rfl

theorem told_asksOnly (reply : Value) :
    Value.AsksOnly ["team_members", "topic"] (told reply).prompt := by
  have hpieces : pieces (told reply).prompt.toList =
      [.text ['\x7b'], .field ⟨"team_members".toList, none, []⟩, .text " on ".toList,
        .field ⟨"topic".toList, some 'r', []⟩] := by
    show pieces "\x7b\x7b\x7bteam_members\x7d on \x7btopic!r\x7d".toList = _
    decide
  intro p hp
  rw [hpieces] at hp
  simp only [List.mem_cons, List.not_mem_nil, or_false] at hp
  rcases hp with rfl | rfl | rfl | rfl
  · exact .text _
  · exact .field (by simp) (by simp)
  · exact .text _
  · exact .field (by simp) (by simp)

/-- A state in which one of the topics is there twice. -/
def twoTopics : State :=
  [(.str "messages", .list []), (.str "queries", .list [.str "x", .str "y", .str "x"])]

theorem told_filled (reply : Value) :
    ∃ guidance, (told reply).filledPrompt ["A"] twoTopics = .ok guidance :=
  filledPrompt_of_asksOnly (told_asksOnly reply) rfl

theorem twoTopics_found (reply : Value) : ∀ channel, (told reply).topicsChannel = some channel →
    State.peek twoTopics channel = .list (["x", "y", "x"].map .str) := by
  rintro _ ⟨⟩
  rfl

/-- A topic that is no topic, and an actor that is no text. -/
theorem told_keeps :
    (∃ guidance, (told .null).KeepsContract (.mapping twoTopics) ["FINISH", "A"] (some ["x", "y"])
      ⟨[], [.str "FINISH", .str "A"], guidance, some [.str "x", .str "y"]⟩) ∧
    ((told (.mapping [(.str "next", .str "A"), (.str "instructions", .str "go"),
        (.str "topic", .str "NONE"), (.int 7, .null)])).handler (.mapping twoTopics) nowhere).1 =
      .ok (.mapping [(.str "next", .str "A"), (.str "instructions", .str "go"),
        (.str "topic", .str "")]) := by
  have hkept : ∀ reply, ∃ guidance, (told reply).KeepsContract (.mapping twoTopics)
      ["FINISH", "A"] (some ["x", "y"])
      ⟨[], [.str "FINISH", .str "A"], guidance, some [.str "x", .str "y"]⟩ := by
    intro reply
    have hmembers : (told reply).members = ["A"].map .str := rfl
    have hsaid : State.peek twoTopics "messages" = .list [] := rfl
    obtain ⟨hkept, hfills⟩ := contract_kept (told reply) hmembers hsaid (twoTopics_found reply)
    obtain ⟨guidance, hguidance⟩ := hfills (told_asksOnly reply) rfl
    exact ⟨guidance, hkept guidance hguidance⟩
  obtain ⟨guidance, hkept'⟩ := hkept (.mapping [(.str "next", .str "A"),
    (.str "instructions", .str "go"), (.str "topic", .str "NONE"), (.int 7, .null)])
  refine ⟨hkept .null, (hkept'.accepted_iff nowhere _ () rfl _).mpr ⟨_, _, rfl, ?_, rfl⟩⟩
  exact @StandsFor.topical _ _ "A" "go" "NONE" _ (by decide) rfl rfl (.inl rfl) rfl

/-- A supervisor whose prompt wants the topic to be a number. -/
def counting (reply : Value) : Supervisor Unit :=
  { told reply with prompt := "{topic:d}", topicsChannel := none }

theorem counting_fails (reply : Value) :
    ((counting reply).handler (.mapping [(.str "messages", .list [])]) nowhere).1 =
      .error (.badValue "Unknown format code 'd' for object of type 'str'") := by
  have hpieces : pieces "{topic:d}".toList = [.field ⟨"topic".toList, none, ['d']⟩] := by
    decide
  have hfails : (counting reply).request (.mapping [(.str "messages", .list [])]) =
      .error (.badValue "Unknown format code 'd' for object of type 'str'") := by
    have hjoined : Value.joined (counting reply).members = .ok "A" := rfl
    have hfill : ∀ args, Value.fill (counting reply).prompt args =
        Value.fillPieces (Value.fillLayout args) args
          [.field ⟨"topic".toList, none, ['d']⟩] := fun args =>
      congrArg (Value.fillPieces (Value.fillLayout args) args) hpieces
    simp only [request, hjoined, Value.state, hfill, bind, Except.bind]
    rfl
  simp only [handler, hfails, Act.bind_apply, Act.ofExcept]

/-- But a legal answer comes to no update if the prompt has no place for the topic, and an illegal
one is not complained of if the complaint cannot name it. -/
theorem contract_refuted :
    (StandsFor ["FINISH", "A"] [(.str "next", .str "A"), (.str "instructions", .str "go")] none
        [(.str "next", .str "A"), (.str "instructions", .str "go")] ∧
      ((counting (.mapping [(.str "next", .str "A"), (.str "instructions", .str "go")])).handler
        (.mapping [(.str "messages", .list [])]) nowhere).1 =
          .error (.badValue "Unknown format code 'd' for object of type 'str'")) ∧
    ((told (.mapping [(.str "next", .int Text.tooLong)])).handler (.mapping twoTopics) nowhere).1 =
      .error (.badValue Text.notWritable) := by
  refine ⟨⟨.plain (.tail _ (.head _)) rfl rfl, counting_fails _⟩, ?_⟩
  obtain ⟨guidance, hfilled⟩ := told_filled (.mapping [(.str "next", .int Text.tooLong)])
  have hasked : (told _).request (.mapping twoTopics) = .ok ⟨[], ["FINISH", "A"].map .str,
      guidance, some (["x", "y"].map .str)⟩ := request_tells rfl hfilled rfl (twoTopics_found _)
  have hoffers : Request.Offers ⟨[], ["FINISH", "A"].map .str, guidance,
      some (["x", "y"].map .str)⟩ ["FINISH", "A"] (some ["x", "y"]) := ⟨rfl, rfl⟩
  obtain ⟨text, hcomplaint⟩ : ∃ text, Complaint ["FINISH", "A"] (some ["x", "y"])
      (.mapping [(.str "next", .int Text.tooLong)]) text (.int Text.tooLong) :=
    ⟨_, @Complaint.choice _ _ _ [(.str "next", .int Text.tooLong)] rfl fun _ _ h => by cases h⟩
  have hlong : (Value.int Text.tooLong).isWritable = false :=
    (Value.isWritable_int _).trans Text.isWritable_tooLong
  rw [handler_asked hasked rfl, hoffers.accept_of_complaint hcomplaint, hlong]
  rfl

end TeamFlow.Supervisor
