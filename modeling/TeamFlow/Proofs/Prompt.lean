import TeamFlow.Proofs.Table
import TeamFlow.Proofs.Value.Filling
import TeamFlow.Proofs.Value.Text

/-! # The prompts as templates

Every prompt is made of plain texts and fields with plain names (`Reads`), so
filling it in puts texts in the place of its fields. -/
namespace TeamFlow

open Text

/-- A text is the template of some parts that are read back as they were written. -/
structure Reads (s : String) (ps : List Part) : Prop where
  eq : s = template ps
  legible : ∃ cs, Legible ps cs

theorem Reads.of_spelled {s : String} {ps : List Part} {cs ds : List Char} (hs : Spelled s cs)
    (hps : Legible ps ds) (h : cs = ds) : Reads s ps :=
  ⟨by rw [hs.eq, hps.spelled.eq, h], ds, hps⟩

theorem Reads.fill {s : String} {ps : List Part} (h : Reads s ps) {args : Entries}
    {data : String → String} (hdata : ∀ name, .slot name ∈ ps →
      ∃ v, Entries.find? args (.str name) = some v ∧ v.shown = .ok (data name)) :
    Value.fill s args = .ok (filledWith data ps) := by
  obtain ⟨cs, hlegible⟩ := h.legible
  rw [h.eq, Value.fill_template hlegible hdata]

theorem Reads.fill_texts {s : String} {ps : List Part} (h : Reads s ps) (texts : Table String)
    (hslots : ∀ name ∈ slots ps, name ∈ Table.names texts) :
    Value.fill s (Entries.ofFields (Table.mapRows .str texts)) =
      .ok (filledWith (fun name => (Table.row? texts name).getD "") ps) := by
  refine h.fill fun name hname => ?_
  obtain ⟨text, htext⟩ := Option.isSome_iff_exists.mp
    ((Table.row?_isSome_iff texts name).mpr (hslots name ((mem_slots_iff ps name).mpr hname)))
  refine ⟨.str text, ?_, ?_⟩
  · rw [Entries.find?_ofFields, Table.row?_mapRows, htext]
    rfl
  · rw [htext]
    rfl

/-- What a supervisor fills in fills every prompt that asks for members and a topic. -/
theorem Reads.guides {s : String} {ps : List Part} (h : Reads s ps)
    (hslots : ∀ name ∈ slots ps, name ∈ ["team_members", "topic"]) (members topic : String) :
    ∃ guidance, Value.fill s [(.str "team_members", .str members), (.str "topic", .str topic)] =
      .ok guidance :=
  ⟨_, h.fill_texts [("team_members", members), ("topic", topic)] hslots⟩

theorem Reads.asksOnly {s : String} {ps : List Part} (h : Reads s ps) {names : List String}
    (hslots : ∀ name ∈ slots ps, name ∈ names) : Value.AsksOnly names s := by
  obtain ⟨cs, hlegible⟩ := h.legible
  rw [h.eq]
  exact Value.asksOnly_template hlegible hslots

namespace Prompt

open Spelled

-- the characters of the longest prompts are compared one inside the other
set_option maxRecDepth 2048

theorem topSupervisor_reads : Reads topSupervisor [
    .plain "You are a supervisor tasked with managing a conversation between the following teams: ",
    .slot "team_members",
    .plain (". Given the following user request, respond with the worker to act next. Each " ++
      "worker will perform a task and respond with their results and status. When finished, " ++
      "respond with FINISH.\n\nSelect strategically to minimize the number of steps taken.")] :=
  .of_spelled (literal.append literal |>.append literal |>.append literal |>.append literal)
    (.plain literal rfl (.slot literal rfl
      (.plain (literal.append literal |>.append literal) rfl .nil))) rfl

theorem researchSupervisor_reads : Reads researchSupervisor [
    .plain ("You are a supervisor tasked with managing a conversation between the following " ++
      "workers:\n\n"),
    .slot "team_members",
    .plain ".\n\nYour job is to thoroughly research ",
    .slot "topic",
    .plain (". Start by asking the Brainstormer for research queries when none exist yet. " ++
      "Respond with the worker to act next. Each worker will perform a task and respond with " ++
      "their results and status. When finished, respond with FINISH.\n\nSelect strategically to " ++
      "minimize the number of steps taken.")] :=
  .of_spelled (literal.append literal |>.append literal |>.append literal |>.append literal
      |>.append literal)
    (.plain (literal.append literal) rfl (.slot literal rfl (.plain literal rfl (.slot literal rfl
      (.plain (literal.append literal |>.append literal |>.append literal) rfl .nil))))) rfl

theorem documentSupervisor_reads : Reads documentSupervisor [
    .plain ("You are a supervisor tasked with managing a conversation between the following " ++
      "workers: "),
    .slot "team_members",
    .plain (". Given the following user request, respond with the worker to act next. Each " ++
      "worker will perform a task and respond with their results and status. When finished, " ++
      "respond with FINISH.\n\nSelect strategically to minimize the number of steps taken.")] :=
  .of_spelled (literal.append literal |>.append literal |>.append literal |>.append literal)
    (.plain (literal.append literal) rfl (.slot literal rfl
      (.plain (literal.append literal |>.append literal) rfl .nil))) rfl

/-- The supervisors of all teams are told about their members and the topic, and about nothing
else. -/
theorem supervisors_askOnly :
    ∀ prompt ∈ [topSupervisor, researchSupervisor, documentSupervisor],
      Value.AsksOnly ["team_members", "topic"] prompt := by
  intro prompt hprompt
  simp only [List.mem_cons, List.not_mem_nil, or_false] at hprompt
  rcases hprompt with rfl | rfl | rfl
  · exact topSupervisor_reads.asksOnly (by simp [slots])
  · exact researchSupervisor_reads.asksOnly (by simp [slots])
  · exact documentSupervisor_reads.asksOnly (by simp [slots])

theorem routeSelection_reads : Reads routeSelection [
    .plain ("Given the conversation above, who should act next? Or should we FINISH? Select one " ++
      "of: "),
    .slot "options"] :=
  .of_spelled (literal.append literal)
    (.plain (literal.append literal) rfl (.slot literal rfl .nil)) rfl

theorem routeTopicSelection_reads : Reads routeTopicSelection [
    .plain ("Given the conversation above, who should act next, and on which topic? Or should " ++
      "we FINISH (topic NONE)? Select from one of these actors:\n\n"),
    .slot "options",
    .plain "\n\nand one of these topics:\n\n",
    .slot "topics"] :=
  .of_spelled (literal.append literal |>.append literal)
    (.plain (literal.append literal) rfl (.slot literal rfl (.plain literal rfl
      (.slot literal rfl .nil)))) rfl

theorem workerPreamble_reads : Reads workerPreamble [
    .slot "system_prompt",
    .plain ("\nWork autonomously according to your specialty, using the tools available to you. " ++
      "Do not ask for clarification. Your other team members (and other teams) will collaborate " ++
      "with you with their own specialties. You are chosen for a reason! You are one of the " ++
      "following team members: "),
    .slot "team_members",
    .plain "."] :=
  .of_spelled (literal.append literal |>.append literal |>.append literal)
    (.slot literal rfl
      (.plain (literal.append literal |>.append literal |>.append literal) rfl
        (.slot literal rfl (.plain literal rfl .nil)))) rfl

theorem workerInstructions_reads : Reads workerInstructions [
    .plain "Supervisor instructions: ",
    .slot "instructions",
    .plain "\nRemember, you individually can only use these tools: ",
    .slot "tool_names",
    .plain ("\n\nEnd if you have already completed the requested task. Communicate the work " ++
      "completed.")] :=
  .of_spelled (literal.append literal |>.append literal)
    (.plain literal rfl (.slot literal rfl (.plain literal rfl (.slot literal rfl
      (.plain (literal.append literal) rfl .nil))))) rfl

theorem documentWriter_reads : Reads documentWriter [
    .plain ("You are an expert writing a research document.\nBelow are files currently in your " ++
      "directory:\n"),
    .slot "current_files"] :=
  .of_spelled (literal.append literal)
    (.plain (literal.append literal) rfl (.slot literal rfl .nil)) rfl

theorem noteTaker_reads : Reads noteTaker [
    .plain ("You are an expert senior researcher tasked with writing a paper outline and taking " ++
      "notes to craft a perfect paper. "),
    .slot "current_files"] :=
  .of_spelled (literal.append literal)
    (.plain (literal.append literal) rfl (.slot literal rfl .nil)) rfl

theorem chartGenerator_reads : Reads chartGenerator [
    .plain "You are a data viz expert tasked with generating charts for a research project. ",
    .slot "current_files"] :=
  .of_spelled (literal.append literal) (.plain literal rfl (.slot literal rfl .nil)) rfl

end Prompt

end TeamFlow
