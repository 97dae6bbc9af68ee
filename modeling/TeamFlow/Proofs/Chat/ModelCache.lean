import TeamFlow.Proofs.Value.Equality
import TeamFlow.Rehearsal.Cast

/-! # One model for one name and temperature

Models are asked for by name and temperature while the key comes and goes. Of what
makes them it is taken that it does not fail once it has a key (`Makes`). What has
been handed out so far says all about the cache then (`Accounts`): it holds one
model for each name and temperature with which a call has succeeded, so later
calls with equal ones are answered without a key, and others need one
(`Obeys`). -/
namespace TeamFlow

namespace Value

/-- The number that a value denotes, if it is finite. -/
def quantity? (v : Value) : Option Dyadic := v.number?.bind Double.dyadic?

theorem quantity?_eq_some {v : Value} {d : Dyadic} (h : v.quantity? = some d) :
    ∃ x, v.number? = some x ∧ x.dyadic? = some d := Option.bind_eq_some_iff.mp h

end Value

namespace Double

theorem settled_eq_iff {x y : Double} {d e : Dyadic} (hx : x.dyadic? = some d)
    (hy : y.dyadic? = some e) : x.settled = y.settled ↔ d = e := by
  cases x <;> cases hx <;> cases y <;> cases hy <;> simp [settled]

end Double

namespace ModelCache

/-! ## Names and temperatures -/

/-- What a model is asked for with. -/
structure Parts where
  name : String
  temperature : Value

namespace Parts

/-- The temperature is a finite number, of whatever kind. -/
def IsFinite (p : Parts) : Prop := ∃ d, p.temperature.quantity? = some d

/-- The same name and the same number. -/
def Same (p q : Parts) : Prop :=
  p.name = q.name ∧ p.temperature.quantity? = q.temperature.quantity?

theorem Same.symm {p q : Parts} (h : p.Same q) : q.Same p := ⟨h.1.symm, h.2.symm⟩

theorem Same.trans {p q r : Parts} (h : p.Same q) (h' : q.Same r) : p.Same r :=
  ⟨h.1.trans h'.1, h.2.trans h'.2⟩

/-- Under which the cache keeps the model. -/
def key (p : Parts) : Value := .tuple [.str p.name, p.temperature]

theorem IsFinite.isHashable {p : Parts} (h : p.IsFinite) : p.key.isHashable = true := by
  obtain ⟨d, hd⟩ := h
  obtain ⟨x, hx, _⟩ := Value.quantity?_eq_some hd
  have htemperature : p.temperature.isHashable = true := by
    cases hv : p.temperature <;> simp [hv, Value.number?] at hx <;> rfl
  rw [key, Value.isHashable_tuple_cons, Value.isHashable_tuple_cons, htemperature]
  rfl

theorem alike_key_iff {p q : Parts} (hp : p.IsFinite) (hq : q.IsFinite) :
    p.key.alike q.key = true ↔ p.Same q := by
  obtain ⟨d, hd⟩ := hp
  obtain ⟨e, he⟩ := hq
  obtain ⟨x, hx, hxd⟩ := Value.quantity?_eq_some hd
  obtain ⟨y, hy, hye⟩ := Value.quantity?_eq_some he
  have hnumber : p.temperature.alike q.temperature = true ↔ d = e := by
    rw [Value.alike_eq_alikeNumber hx, Value.alikeNumber_iff hx, Value.settled_of_number hx,
      Value.settled_of_number hy, Value.float.injEq, Double.settled_eq_iff hxd hye]
  rw [Same, hd, he, Option.some.injEq, ← hnumber]
  simp [key, Value.alike, Value.alikeItems]

end Parts

/-! ## Single calls -/

/-- A call of one of the four functions. -/
inductive Asking where
  | model (name : String) (temperature : Value)
  | supervisor
  | worker
  | search

namespace Asking

def act (make : ModelMaker) : Asking → Settings → Act ModelCache Nat
  | model name temperature, settings => ModelCache.model make settings (.str name) temperature
  | supervisor, settings => supervisorModel make settings
  | worker, settings => workerModel make settings
  | search, settings => searchModel make settings

/-- The functions without arguments ask under the names that are set. -/
def parts (settings : Settings) : Asking → Parts
  | model name temperature => ⟨name, temperature⟩
  | supervisor => ⟨settings.supervisorName, usualTemperature⟩
  | worker => ⟨settings.workerName, workerTemperature⟩
  | search => ⟨settings.searchName, usualTemperature⟩

theorem act_eq (make : ModelMaker) (a : Asking) (settings : Settings) : a.act make settings =
    ModelCache.model make settings (.str (a.parts settings).name) (a.parts settings).temperature := by
  cases a <;> rfl

end Asking

/-- Making the model does not fail, whatever key there is. -/
def Makes (make : ModelMaker) (p : Parts) : Prop :=
  ∀ key, key ≠ "" → make key (.str p.name) p.temperature = .ok ()

/-- There is a key that is not empty. -/
def HasKey (settings : Settings) : Prop := ∃ k, settings.apiKey = some k ∧ k ≠ ""

theorem key_cases (settings : Settings) :
    (HasKey settings ∧ ∃ k, k ≠ "" ∧ settings.key = .ok k) ∨
      (¬ HasKey settings ∧ settings.key = .error Settings.keyMissing) := by
  unfold Settings.key HasKey
  cases settings.apiKey with
  | none => exact .inr ⟨by simp, rfl⟩
  | some k =>
    by_cases hk : k = ""
    · subst hk
      exact .inr ⟨by simp, rfl⟩
    · have hempty : k.isEmpty = false := by simpa using hk
      exact .inl ⟨⟨k, rfl, hk⟩, k, hk, by simp [hempty]⟩

section Model

variable {make : ModelMaker} {c : ModelCache} {p : Parts}

theorem model_eq (hp : p.IsFinite) (settings : Settings) (c : ModelCache) :
    model make settings (.str p.name) p.temperature c = match c.find? p.key with
      | some id => (.ok id, c)
      | none => (do
        let key ← Act.ofExcept settings.key
        Act.ofExcept (make key (.str p.name) p.temperature)
        Act.modify fun c => ⟨c.models ++ [(p.key, c.models.length)]⟩
        return c.models.length : Act ModelCache Nat) c := by
  have hhash : (Value.tuple [.str p.name, p.temperature]).isHashable = true := hp.isHashable
  simp only [model, hhash, Parts.key]
  show (match c.find? _ with | some id => pure id | none => _ : Act ModelCache Nat) c = _
  cases c.find? (.tuple [.str p.name, p.temperature]) <;> rfl

theorem model_of_found (hp : p.IsFinite) {id : Nat} (hfound : c.find? p.key = some id)
    (settings : Settings) : model make settings (.str p.name) p.temperature c = (.ok id, c) := by
  rw [model_eq hp, hfound]

def add (c : ModelCache) (p : Parts) : ModelCache := ⟨c.models ++ [(p.key, c.models.length)]⟩

/-- How a call goes that finds no model: it lacks the key, or a model is made. -/
inductive Makings (settings : Settings) (c : ModelCache) (p : Parts) :
    Except Failure Nat × ModelCache → Prop where
  | keyless (hkey : ¬ HasKey settings) : Makings settings c p (.error Settings.keyMissing, c)
  | made (hkey : HasKey settings) : Makings settings c p (.ok c.models.length, c.add p)

theorem model_of_missing (hp : p.IsFinite) (hmakes : Makes make p) (hmissing : c.find? p.key = none)
    (settings : Settings) :
    Makings settings c p (model make settings (.str p.name) p.temperature c) := by
  rw [model_eq hp, hmissing]
  rcases key_cases settings with ⟨hkey, k, hne, hk⟩ | ⟨hkey, hk⟩
  · simp only [hk, Act.bind_apply, Act.ofExcept, hmakes k hne]
    exact .made hkey
  · rw [hk]
    exact .keyless hkey

end Model

theorem find?_add (c : ModelCache) (p : Parts) (key : Value) : (c.add p).find? key =
    (c.find? key).or (if p.key.alike key then some c.models.length else none) := by
  simp only [find?, add, List.find?_append, List.find?_singleton, Option.map_or]
  cases p.key.alike key <;> rfl

theorem find?_add_of_missing {c : ModelCache} {p q : Parts} (hp : p.IsFinite) (hq : q.IsFinite)
    (hmissing : c.find? q.key = none) {id : Nat} :
    (c.add p).find? q.key = some id ↔ p.Same q ∧ c.models.length = id := by
  rw [find?_add, hmissing, Option.none_or]
  by_cases hsame : p.Same q
  · simp [(Parts.alike_key_iff hp hq).mpr hsame, hsame]
  · have halike : p.key.alike q.key = false := by
      simpa using mt (Parts.alike_key_iff hp hq).mp hsame
    simp [halike, hsame]

/-! ## Calls in a row -/

/-- A call, or a change of the key. -/
inductive Call where
  | ask (a : Asking)
  | rekey (key : Option String)

/-- A call that was served: what was asked for, under which settings, with the cache before and
after it. -/
structure Served where
  parts : Parts
  settings : Settings
  before : ModelCache
  result : Except Failure Nat
  after : ModelCache

namespace Served

def of (make : ModelMaker) (a : Asking) (settings : Settings) (c : ModelCache) : Served :=
  ⟨a.parts settings, settings, c, (a.act make settings c).1, (a.act make settings c).2⟩

end Served

/-- Serve calls in a row. -/
def serve (make : ModelMaker) : Settings → ModelCache → List Call → List Served
  | _, _, [] => []
  | settings, c, .rekey key :: calls => serve make { settings with apiKey := key } c calls
  | settings, c, .ask a :: calls =>
    .of make a settings c :: serve make settings (Served.of make a settings c).after calls

/-- A call succeeded with a name and a temperature. -/
def Gives (past : List Served) (p : Parts) (id : Nat) : Prop :=
  ∃ x ∈ past, x.result = .ok id ∧ x.parts.Same p

/-- The cache holds what calls have succeeded with, each under an identity of its own. -/
structure Accounts (past : List Served) (c : ModelCache) : Prop where
  found : ∀ p : Parts, p.IsFinite → ∀ id, c.find? p.key = some id ↔ Gives past p id
  below : ∀ p id, Gives past p id → id < c.models.length
  apart : ∀ p q id, Gives past p id → Gives past q id → p.Same q

theorem accounts_empty : Accounts [] empty where
  found p _ id := by simp [Gives, find?, empty]
  below p id h := by simp [Gives] at h
  apart p q id h := by simp [Gives] at h

theorem gives_snoc {past : List Served} {x : Served} {p : Parts} {id : Nat} :
    Gives (past ++ [x]) p id ↔ Gives past p id ∨ (x.result = .ok id ∧ x.parts.Same p) := by
  simp [Gives, or_and_right, exists_or]

theorem Gives.same {past : List Served} {p q : Parts} {id : Nat} (h : Gives past p id)
    (hsame : p.Same q) : Gives past q id :=
  h.imp fun _ ⟨hx, hresult, hp⟩ => ⟨hx, hresult, hp.trans hsame⟩

/-- A call that adds nothing that was not given before leaves the account as it is. -/
theorem Accounts.kept {past : List Served} {c : ModelCache} (h : Accounts past c) {x : Served}
    (hx : ∀ id, x.result = .ok id → Gives past x.parts id) : Accounts (past ++ [x]) c := by
  have hgives : ∀ p id, Gives (past ++ [x]) p id ↔ Gives past p id := by
    intro p id
    rw [gives_snoc]
    exact ⟨fun hor => hor.elim (fun hp => hp) fun hnew => (hx id hnew.1).same hnew.2, .inl⟩
  constructor
  · intro p hp id
    rw [h.found p hp, hgives]
  · intro p id hp
    exact h.below p id ((hgives p id).mp hp)
  · intro p q id hp hq
    exact h.apart p q id ((hgives p id).mp hp) ((hgives q id).mp hq)

theorem Accounts.add {past : List Served} {c : ModelCache} (h : Accounts past c) {x : Served}
    (hfinite : x.parts.IsFinite) (hmissing : c.find? x.parts.key = none)
    (hx : x.result = .ok c.models.length) : Accounts (past ++ [x]) (c.add x.parts) := by
  have hgives : ∀ p id, Gives (past ++ [x]) p id ↔
      Gives past p id ∨ (c.models.length = id ∧ x.parts.Same p) := by
    intro p id
    rw [gives_snoc, hx, Except.ok.injEq]
  -- what has the parts of an earlier call would have been found
  have hnew : ∀ p id, Gives past p id → ¬ x.parts.Same p := by
    intro p id hp hsame
    have hfound := (h.found x.parts hfinite id).mpr (hp.same hsame.symm)
    rw [hmissing] at hfound
    cases hfound
  constructor
  · intro p hp id
    rw [hgives, ← h.found p hp]
    cases hfind : c.find? p.key with
    | none =>
      rw [find?_add_of_missing hfinite hp hfind, and_comm]
      simp
    | some old =>
      have hother := hnew p old ((h.found p hp old).mp hfind)
      simp [find?_add, hfind, hother]
  · intro p id hp
    have hlength : (c.add x.parts).models.length = c.models.length + 1 := by simp [ModelCache.add]
    rw [hlength]
    rcases (hgives p id).mp hp with hold | ⟨rfl, _⟩
    · exact Nat.lt_succ_of_lt (h.below p id hold)
    · exact Nat.lt_succ_self _
  · intro p q id hp hq
    rcases (hgives p id).mp hp with hold | ⟨rfl, hsame⟩
    · rcases (hgives q id).mp hq with hold' | ⟨rfl, _⟩
      · exact h.apart p q id hold hold'
      · exact absurd (h.below p _ hold) (Nat.lt_irrefl _)
    · rcases (hgives q _).mp hq with hold' | ⟨_, hsame'⟩
      · exact absurd (h.below q _ hold') (Nat.lt_irrefl _)
      · exact hsame.symm.trans hsame'

/-- What holds of a call, by what was given before it. -/
structure Obeys (past : List Served) (x : Served) : Prop where
  shared : ∀ id, Gives past x.parts id → x.result = .ok id ∧ x.after = x.before
  apart : ∀ y ∈ past, ∀ m n, y.result = .ok m → x.result = .ok n →
    (m = n ↔ y.parts.Same x.parts)
  keyless : (∀ id, ¬ Gives past x.parts id) →
    ((∃ text, x.result = .error (.badRun text)) ↔ ¬ HasKey x.settings)
  unchanged : ∀ why, x.result = .error why → x.after = x.before
  made : (∀ id, ¬ Gives past x.parts id) → HasKey x.settings →
    ∃ id, x.result = .ok id ∧ x.after = x.before.add x.parts ∧ ∀ p, ¬ Gives past p id

theorem Accounts.of_found {past : List Served} {x : Served} (h : Accounts past x.before)
    (hfinite : x.parts.IsFinite) {id : Nat} (hfind : x.before.find? x.parts.key = some id)
    (hresult : x.result = .ok id) (hafter : x.after = x.before) :
    Obeys past x ∧ Accounts (past ++ [x]) x.after := by
  have hfound := h.found x.parts hfinite
  have hgives : Gives past x.parts id := (hfound id).mp hfind
  have honly : ∀ other, Gives past x.parts other → id = other := fun other hother =>
    Option.some.inj (hfind.symm.trans ((hfound other).mpr hother))
  have hold : ¬ ∀ other, ¬ Gives past x.parts other := fun hno => hno id hgives
  constructor
  · refine ⟨?_, ?_, fun hnew => absurd hnew hold, ?_, fun hnew => absurd hnew hold⟩
    · intro other hother
      exact honly other hother ▸ ⟨hresult, hafter⟩
    · intro y hy m n hm hn
      obtain rfl : id = n := Except.ok.inj (hresult.symm.trans hn)
      have hgivesY : Gives past y.parts m := ⟨y, hy, hm, rfl, rfl⟩
      constructor
      · rintro rfl
        exact h.apart _ _ _ hgivesY hgives
      · exact fun hsame => (honly m (hgivesY.same hsame)).symm
    · intro why hwhy
      rw [hresult] at hwhy
      cases hwhy
  · rw [hafter]
    refine h.kept fun other hother => ?_
    exact Except.ok.inj (hresult.symm.trans hother) ▸ hgives

theorem Accounts.of_keyless {past : List Served} {x : Served} (h : Accounts past x.before)
    (hnew : ∀ id, ¬ Gives past x.parts id) (hkey : ¬ HasKey x.settings)
    (hresult : x.result = .error Settings.keyMissing) (hafter : x.after = x.before) :
    Obeys past x ∧ Accounts (past ++ [x]) x.after := by
  have hno : ∀ id, x.result ≠ .ok id := fun id => by rw [hresult]; exact nofun
  constructor
  · exact ⟨fun id hgives => absurd hgives (hnew id), fun _ _ _ n _ hn => absurd hn (hno n),
      fun _ => iff_of_true ⟨_, hresult⟩ hkey, fun _ _ => hafter, fun _ hkey' => absurd hkey' hkey⟩
  · rw [hafter]
    exact h.kept fun id hid => absurd hid (hno id)

theorem Accounts.of_made {past : List Served} {x : Served} (h : Accounts past x.before)
    (hfinite : x.parts.IsFinite) (hfind : x.before.find? x.parts.key = none)
    (hnew : ∀ id, ¬ Gives past x.parts id) (hkey : HasKey x.settings)
    (hresult : x.result = .ok x.before.models.length) (hafter : x.after = x.before.add x.parts) :
    Obeys past x ∧ Accounts (past ++ [x]) x.after := by
  have hno : ∀ why, x.result ≠ .error why := fun why => by rw [hresult]; exact nofun
  have hfresh : ∀ p, ¬ Gives past p x.before.models.length :=
    fun p hp => Nat.lt_irrefl _ (h.below p _ hp)
  constructor
  · refine ⟨fun id hgives => absurd hgives (hnew id), fun y hy m n hm hn => ?_,
      fun _ => ⟨fun ⟨text, htext⟩ => absurd htext (hno _), fun hnone => absurd hkey hnone⟩,
      fun why hwhy => absurd hwhy (hno why), fun _ _ => ⟨_, hresult, hafter, hfresh⟩⟩
    obtain rfl := Except.ok.inj (hresult.symm.trans hn)
    have hgivesY : Gives past y.parts m := ⟨y, hy, hm, rfl, rfl⟩
    refine ⟨fun heq => absurd (heq ▸ hgivesY) (hfresh _), fun hsame => ?_⟩
    exact absurd (hgivesY.same hsame) (hnew m)
  · rw [hafter]
    exact h.add hfinite hfind hresult

/-- A call that finds no model makes one or lacks the key. -/
theorem Accounts.of_missing {past : List Served} {x : Served} (h : Accounts past x.before)
    (hfinite : x.parts.IsFinite) (hfind : x.before.find? x.parts.key = none)
    (hmakings : Makings x.settings x.before x.parts (x.result, x.after)) :
    Obeys past x ∧ Accounts (past ++ [x]) x.after := by
  have hnew : ∀ id, ¬ Gives past x.parts id := by
    intro id hgives
    rw [(h.found x.parts hfinite id).mpr hgives] at hfind
    cases hfind
  generalize hcall : (x.result, x.after) = answer at hmakings
  cases hmakings with
  | keyless hkey =>
    obtain ⟨hresult, hafter⟩ := Prod.mk.inj hcall
    exact h.of_keyless hnew hkey hresult hafter
  | made hkey =>
    obtain ⟨hresult, hafter⟩ := Prod.mk.inj hcall
    exact h.of_made hfinite hfind hnew hkey hresult hafter

section Serve

variable {make : ModelMaker}

/-- One call. It obeys what was given before, and what it gives is accounted for. -/
theorem Accounts.asked {past : List Served} {c : ModelCache} (h : Accounts past c) {a : Asking}
    {settings : Settings} (hfinite : (a.parts settings).IsFinite)
    (hmakes : Makes make (a.parts settings)) :
    Obeys past (.of make a settings c) ∧
      Accounts (past ++ [.of make a settings c]) (Served.of make a settings c).after := by
  have hcall : ((Served.of make a settings c).result, (Served.of make a settings c).after) =
      model make settings (.str (a.parts settings).name) (a.parts settings).temperature c :=
    congrFun (a.act_eq make settings) c
  cases hfind : c.find? (a.parts settings).key with
  | some id =>
    rw [model_of_found hfinite hfind] at hcall
    obtain ⟨hresult, hafter⟩ := Prod.mk.inj hcall
    exact Accounts.of_found (x := .of make a settings c) h hfinite hfind hresult hafter
  | none =>
    have hmakings := model_of_missing hfinite hmakes hfind settings
    rw [← hcall] at hmakings
    exact Accounts.of_missing (x := .of make a settings c) h hfinite hfind hmakings

theorem Asking.parts_rekey (a : Asking) (settings : Settings) (key : Option String) :
    a.parts { settings with apiKey := key } = a.parts settings := by
  cases a <;> rfl

/-- Calls in a row obey what was given before them, by induction on the calls. -/
theorem Accounts.serve {past : List Served} {c : ModelCache} (h : Accounts past c)
    (settings : Settings) (calls : List Call)
    (hfinite : ∀ a, Call.ask a ∈ calls → (a.parts settings).IsFinite)
    (hmakes : ∀ a, Call.ask a ∈ calls → Makes make (a.parts settings))
    {before rest : List Served} {x : Served}
    (hsplit : ModelCache.serve make settings c calls = before ++ x :: rest) :
    Obeys (past ++ before) x := by
  induction calls generalizing past c settings before with
  | nil => simp [ModelCache.serve] at hsplit
  | cons call calls ih =>
    have hrest : ∀ a, Call.ask a ∈ calls → Call.ask a ∈ call :: calls :=
      fun _ ha => List.mem_cons_of_mem _ ha
    cases call with
    | rekey key =>
      refine ih h { settings with apiKey := key } (fun a ha => ?_) (fun a ha => ?_) hsplit
      · rw [a.parts_rekey]
        exact hfinite a (hrest a ha)
      · rw [a.parts_rekey]
        exact hmakes a (hrest a ha)
    | ask a =>
      obtain ⟨hobeys, haccounts⟩ := h.asked (hfinite a (by simp)) (hmakes a (by simp))
      rw [ModelCache.serve] at hsplit
      cases before with
      | nil =>
        obtain ⟨rfl, _⟩ := List.cons.inj hsplit
        rwa [List.append_nil]
      | cons y before =>
        obtain ⟨rfl, hsplit'⟩ := List.cons.inj hsplit
        have hlater := ih haccounts settings (fun a ha => hfinite a (hrest a ha))
          (fun a ha => hmakes a (hrest a ha)) hsplit'
        rwa [List.append_assoc, List.singleton_append] at hlater

/-- Models are shared by name and temperature, whatever is asked in which order and however the
key changes in between, as long as making a model does not fail. -/
theorem models_shared (settings : Settings) (calls : List Call)
    (hfinite : ∀ a, Call.ask a ∈ calls → (a.parts settings).IsFinite)
    (hmakes : ∀ a, Call.ask a ∈ calls → Makes make (a.parts settings))
    (before rest : List Served) (x : Served)
    (hsplit : serve make settings empty calls = before ++ x :: rest) : Obeys before x :=
  accounts_empty.serve settings calls hfinite hmakes hsplit

end Serve

/-- A model is asked for without a key, with one, and without one again by an equal temperature of
another kind. -/
def comingAndGoing : List Call :=
  [.ask (.model "m" (.int 0)), .rekey (some "k"), .ask (.model "m" (.int 0)), .rekey none,
    .ask (.model "m" (.bool false)), .ask .worker]

theorem comingAndGoing_shared :
    (∀ a, Call.ask a ∈ comingAndGoing → (a.parts .none).IsFinite) ∧
    (∀ a, Call.ask a ∈ comingAndGoing → Makes Rehearsal.maker (a.parts .none)) ∧
    ∃ first second third fourth,
      serve Rehearsal.maker .none empty comingAndGoing = [first, second, third, fourth] ∧
      (∃ text, first.result = .error (.badRun text)) ∧ second.result = .ok 0 ∧
      third.result = .ok 0 ∧ ¬ HasKey third.settings ∧
      ∃ text, fourth.result = .error (.badRun text) := by
  have hasked : ∀ a, Call.ask a ∈ comingAndGoing →
      (a.parts .none).IsFinite ∧ Makes Rehearsal.maker (a.parts .none) := by
    intro a ha
    simp only [comingAndGoing, List.mem_cons, Call.ask.injEq, reduceCtorEq, List.not_mem_nil,
      false_or, or_false] at ha
    rcases ha with rfl | rfl | rfl | rfl <;> exact ⟨⟨_, rfl⟩, fun _ _ => rfl⟩
  have hfinite := fun a ha => (hasked a ha).1
  have hmakes := fun a ha => (hasked a ha).2
  obtain ⟨first, second, third, fourth, hserve, hfirst, hsecond, hsame, hkey, hfourth⟩ :
      ∃ first second third fourth,
        serve Rehearsal.maker .none empty comingAndGoing = [first, second, third, fourth] ∧
        (∃ text, first.result = .error (.badRun text)) ∧ second.result = .ok 0 ∧
        second.parts.Same third.parts ∧ third.settings.apiKey = none ∧
        ∃ text, fourth.result = .error (.badRun text) :=
    ⟨_, _, _, _, rfl, ⟨_, rfl⟩, rfl, ⟨rfl, rfl⟩, rfl, _, rfl⟩
  have hthird :=
    models_shared .none comingAndGoing hfinite hmakes [first, second] [fourth] third hserve
  obtain ⟨hresult, _⟩ := hthird.shared 0 ⟨second, by simp, hsecond, hsame⟩
  refine ⟨hfinite, hmakes, first, second, third, fourth, hserve, hfirst, hsecond, hresult, ?_,
    hfourth⟩
  simp [HasKey, hkey]

end ModelCache

end TeamFlow
