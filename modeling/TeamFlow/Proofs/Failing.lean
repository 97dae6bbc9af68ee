import TeamFlow.Channel.Store
import TeamFlow.Chat.Message
import TeamFlow.Proofs.Channel.Merging
import TeamFlow.Proofs.Value.Filling
import TeamFlow.StepLimit

/-! # What acts fail with

An act fails only in certain ways if each of its parts does (`FailsOnly`). What
values, stores and step limits fail with by themselves is ordinary: it is no run
error, and its text can be written. So a run error comes from a run, or from a
collaborator that raises one. -/
namespace TeamFlow

variable {σ τ α β : Type} {P Q : Failure → Prop}

/-! ## Failures -/

namespace Failure

/-- A failure that says that a run is out of steps. -/
def isStepLimit : Failure → Bool
  | run e => e.fault.isStepLimit
  | _ => false

/-- A failure that is no run error and that can be written. -/
structure Ordinary (why : Failure) : Prop where
  noRun : ∀ e, why ≠ .run e
  writable : why.isWritable = true

theorem ordinary_plain (kind : FaultKind) (text : String) : Ordinary (.plain kind text) :=
  ⟨fun _ => nofun, rfl⟩

theorem ordinary_invalid (faults : List FieldFault) : Ordinary (.invalid faults) :=
  ⟨fun _ => nofun, rfl⟩

theorem Ordinary.not_stepLimit {why : Failure} (h : why.Ordinary) : why.isStepLimit = false := by
  cases why with
  | run e => exact absurd rfl (h.noRun e)
  | _ => rfl

end Failure

open Failure

/-! ## Acts -/

/-- Whatever this fails with is of a kind. -/
def FailsOnly (P : Failure → Prop) (r : Except Failure α) : Prop := ∀ why, r = .error why → P why

namespace FailsOnly

theorem ok (a : α) : FailsOnly P (.ok a) := fun _ => nofun

theorem error {why : Failure} (h : P why) : FailsOnly P (.error why : Except Failure α) :=
  fun _ heq => Except.error.inj heq ▸ h

theorem bind {r : Except Failure α} {f : α → Except Failure β} (hr : FailsOnly P r)
    (hf : ∀ a, FailsOnly P (f a)) : FailsOnly P (r >>= f) := by
  cases r with
  | ok a => exact hf a
  | error why => exact .error (hr why rfl)

theorem imp {r : Except Failure α} (h : FailsOnly P r) (himp : ∀ why, P why → Q why) :
    FailsOnly Q r := fun why heq => himp why (h why heq)

theorem mapM {f : α → Except Failure β} (hf : ∀ a, FailsOnly P (f a)) (as : List α) :
    FailsOnly P (as.mapM f) := by
  induction as with
  | nil => exact .ok []
  | cons a as ih =>
    rw [List.mapM_cons]
    exact (hf a).bind fun _ => ih.bind fun _ => .ok _

end FailsOnly

namespace Act

/-- Whatever this act fails with, at any state, is of a kind. -/
def FailsOnly (P : Failure → Prop) (x : Act σ α) : Prop := ∀ s, TeamFlow.FailsOnly P (x s).1

namespace FailsOnly

theorem pure (a : α) : FailsOnly P (Pure.pure a : Act σ α) := fun _ => .ok a

theorem fail {why : Failure} (h : P why) : FailsOnly P (Act.fail why : Act σ α) :=
  fun _ => .error h

theorem ofExcept {r : Except Failure α} (h : TeamFlow.FailsOnly P r) :
    FailsOnly P (Act.ofExcept r : Act σ α) := fun _ => h

theorem bind {x : Act σ α} {f : α → Act σ β} (hx : FailsOnly P x) (hf : ∀ a, FailsOnly P (f a)) :
    FailsOnly P (x >>= f) := by
  intro s
  rw [bind_apply]
  cases hcall : x s with
  | mk r t =>
    cases r with
    | ok a => exact hf a t
    | error why => exact .error (hx s why (congrArg Prod.fst hcall))

theorem onPart {part : σ → τ} {put : τ → σ → σ} {x : Act τ α} (h : FailsOnly P x) :
    FailsOnly P (Act.onPart part put x) := fun s => h (part s)

theorem attempt (x : Act σ α) : FailsOnly P x.attempt := fun _ => .ok _

theorem imp {x : Act σ α} (h : FailsOnly P x) (himp : ∀ why, P why → Q why) : FailsOnly Q x :=
  fun s => (h s).imp himp

end FailsOnly

end Act

/-- What fails in an ordinary way is no step-limit error. -/
theorem FailsOnly.candid {r : Except Failure α} (h : FailsOnly Ordinary r) :
    (Act.ofExcept r : Act σ α).FailsOnly (·.isStepLimit = false) :=
  .ofExcept (h.imp fun _ hwhy => hwhy.not_stepLimit)

/-! ## Values -/

namespace Value

theorem hashed_failsOnly (v : Value) : FailsOnly Ordinary v.hashed := by
  unfold hashed
  split
  · exact .ok v
  · exact .error (ordinary_plain _ _)

theorem items_failsOnly (v : Value) : FailsOnly Ordinary v.items := by
  cases v with
  | null | bool _ | int _ | float _ => exact .error (ordinary_plain _ _)
  | _ => exact .ok _

theorem entryAt_failsOnly (place : Nat) (v : Value) : FailsOnly Ordinary (entryAt place v) := by
  refine v.items_failsOnly.bind fun xs => ?_
  split
  · exact (hashed_failsOnly _).bind fun _ => .ok _
  · exact .error (ordinary_plain _ _)

theorem entriesFrom_failsOnly (place : Nat) (vs : List Value) :
    FailsOnly Ordinary (entriesFrom place vs) := by
  induction vs generalizing place with
  | nil => exact .ok []
  | cons v vs ih => exact (entryAt_failsOnly place v).bind fun _ => (ih _).bind fun _ => .ok _

theorem entries_failsOnly (v : Value) : FailsOnly Ordinary v.entries := by
  unfold entries
  split
  · exact .ok _
  · exact .ok _
  · exact .ok _
  · exact (items_failsOnly _).bind fun _ => (entriesFrom_failsOnly 0 _).bind fun _ => .ok _

theorem under?_failsOnly (v key : Value) : FailsOnly Ordinary (v.under? key) := by
  unfold under?
  split
  · exact (hashed_failsOnly _).bind fun _ => .ok _
  · exact .error (ordinary_plain _ _)

theorem joined_failsOnly (vs : List Value) : FailsOnly Ordinary (joined vs) := by
  unfold joined
  split
  · exact .ok _
  · exact .error (ordinary_plain _ _)

theorem state_failsOnly (v : Value) : FailsOnly Ordinary v.state := by
  unfold state
  split
  · exact .ok _
  · exact .error (ordinary_plain _ _)

theorem unlessLong_failsOnly (v : Value) (text : Value → String) :
    FailsOnly Ordinary (v.unlessLong text) := by
  unfold unlessLong
  split
  · exact .ok _
  · exact .error (ordinary_plain _ _)

/-- What a template asks for as a whole may be too long to be written, and nothing else goes wrong
with it. -/
theorem fill_failsOnly {template : String} {names : List String} {args : Entries}
    (h : AsksOnly names template) (hnames : ∀ name ∈ names, Text.isName name.toList = true ∧
      ∃ v, Entries.find? args (.str name) = some v) :
    FailsOnly Ordinary (fill template args) := by
  rcases fill_asking hnames h with ⟨text, hfill⟩ | ⟨_, hfill⟩
  · rw [hfill]
    exact .ok text
  · rw [hfill]
    exact .error (ordinary_plain _ _)

end Value

theorem State.itemsOf_failsOnly (state : State) (name : String) :
    FailsOnly Ordinary (state.itemsOf name) := by
  unfold itemsOf
  dsimp only
  split
  · exact Value.items_failsOnly _
  · exact .ok []

theorem Fit.toExcept_failsOnly (f : Fit α) : FailsOnly Ordinary f.toExcept := by
  cases f with
  | ok a => exact .ok a
  | error faults => exact .error (ordinary_invalid faults)

theorem Failure.written_failsOnly (why : Failure) : FailsOnly Ordinary why.written := by
  unfold written
  split
  · exact .ok _
  · exact .error (ordinary_plain _ _)

theorem Message.answerText_failsOnly (answer : Value) :
    FailsOnly Ordinary (answerText answer) := by
  unfold answerText
  split
  · exact .ok _
  · exact .error (ordinary_plain _ _)

/-! ## Stores -/

namespace Reducer

theorem append_failsOnly (old new : Value) : FailsOnly Ordinary (append old new) := by
  unfold append
  split
  · exact old.items_failsOnly.bind fun _ => .ok _
  · exact .ok _

theorem overrideIfPresent_failsOnly (old new : Value) :
    FailsOnly Ordinary (overrideIfPresent old new) := by
  unfold overrideIfPresent
  split <;> exact .ok _

end Reducer

/-- The reducers and the defaults of a schema fail only in certain ways. -/
structure Schema.Raises (P : Failure → Prop) (schema : Schema) : Prop where
  reducers : ∀ c ∈ schema.channels, ∀ old new, FailsOnly P (c.reducer old new)
  defaults : ∀ c ∈ schema.channels, FailsOnly P c.initial

/-- A schema whose reducers and defaults do not fail in an unusual way. -/
abbrev Schema.Steady (schema : Schema) : Prop := schema.Raises Ordinary

namespace Store

variable {schema : Schema} (hP : ∀ why : Failure, why.Ordinary → P why)

include hP

end Store

/-! ## Step limits -/

namespace StepLimit

end StepLimit

end TeamFlow
