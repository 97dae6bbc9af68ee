import TeamFlow.Proofs.Run.Resolution
import TeamFlow.Proofs.Run.Wrapping
import TeamFlow.Proofs.Text.Decimal

/-! # Where the step limit of a run comes from

A run has the limit that it is given, else that of its graph, else that of the
setting, else 25 (`Source`). The setting is read only if the first two are
absent. What is found there either is a limit or is refused before the run
starts, as misconfigured if the complaint can show it. A run that one of its
nodes starts has a limit of its own, found in the same way. -/
namespace TeamFlow

namespace StepLimit

/-- The value that counts: the first that is present. -/
def chosen (given compiled : Value) : Value :=
  match given with
  | .null => compiled
  | v => v

/-- What a limit is taken from. -/
inductive Source (given compiled : Value) (setting : Option String) (limit : StepLimit) : Prop
  | value (hvalue : chosen given compiled = .int limit.value)
  | unset (hnone : chosen given compiled = .null) (hsetting : setting = none)
      (husual : limit.value = 25)
  | blank (hnone : chosen given compiled = .null) (text : String) (hsetting : setting = some text)
      (hblank : ∀ c ∈ text.toList, Text.isBlank c = true) (husual : limit.value = 25)
  | written (hnone : chosen given compiled = .null) (text : String) (hsetting : setting = some text)
      (d : Text.Decimal) (hwritten : (Text.trim text).toList = d.text)
      (hlength : d.digits.length ≤ Text.maxDigits) (hvalue : d.value = limit.value)

theorem ext {limit limit' : StepLimit} (h : limit.value = limit'.value) : limit = limit' := by
  cases limit
  cases limit'
  cases h
  rfl

theorem ofInt?_eq_some_iff {n : Int} {limit : StepLimit} :
    ofInt? n = some limit ↔ n = limit.value := by
  have hpositive := limit.positive
  rw [ofInt?]
  split
  next h =>
    rw [Option.some.injEq]
    refine ⟨fun heq => ?_, fun heq => ext ?_⟩
    · rw [← heq]
      show n = (n.toNat : Int)
      omega
    · show n.toNat = limit.value
      omega
  next h =>
    refine ⟨nofun, fun heq => ?_⟩
    omega

theorem ofValue?_eq_some_iff {v : Value} {limit : StepLimit} :
    ofValue? v = some limit ↔ v = .int limit.value := by
  cases v <;> simp [ofValue?, ofInt?_eq_some_iff]

/-! ## Values -/

theorem ofValue_eq_ok_iff {v : Value} {limit : StepLimit} :
    ofValue v = .ok limit ↔ v = .int limit.value := by
  rw [← ofValue?_eq_some_iff, ofValue]
  cases ofValue? v with
  | some limit' => simp
  | none => cases v.written <;> simp [bind, Except.bind]

theorem ofValue_eq_error {v : Value} (hwritable : v.isWritable = true) {why : Failure}
    (h : ofValue v = .error why) : why.isConfiguration = true := by
  rw [ofValue] at h
  cases hv : ofValue? v with
  | some limit => simp [hv] at h
  | none =>
    simp only [hv, Value.written_of_isWritable hwritable] at h
    cases h
    rfl

/-- A complaint that cannot show what is refused fails itself. -/
theorem ofValue_tooLong : ofValue (.int (-Text.tooLong)) = .error (.badValue Text.notWritable) := by
  have hnone : ofValue? (.int (-Text.tooLong)) = none := by
    rw [Option.eq_none_iff_forall_not_mem]
    intro limit hlimit
    have hvalue := ofValue?_eq_some_iff.mp hlimit
    have hpositive := limit.positive
    rw [Value.int.injEq] at hvalue
    omega
  have hlong : (Value.int (-Text.tooLong)).isWritable = false := by
    rw [Value.isWritable_int, Text.isWritable, Int.natAbs_neg]
    exact Text.isWritable_tooLong
  rw [ofValue, hnone, Value.written_of_not_isWritable hlong]
  rfl

/-! ## Settings -/

theorem ofSetting_eq_error {setting : Option String} {why : Failure}
    (h : ofSetting setting = .error why) : why.isConfiguration = true := by
  unfold ofSetting at h
  split at h
  next => cases h
  next =>
    split at h
    next => cases h
    next =>
      split at h
      next => cases h; rfl
      next =>
        split at h
        next => cases h
        next => cases h; rfl

theorem ofSetting_eq_ok_iff {text : String} (hblank : Text.isAllBlank text = false)
    {limit : StepLimit} :
    ofSetting (some text) = .ok limit ↔ Text.integer? text = some (limit.value : Int) := by
  rw [ofSetting]
  simp only [hblank, Bool.false_eq_true, if_false]
  cases Text.integer? text with
  | none => simp
  | some n =>
    rw [Option.some.injEq, ← ofInt?_eq_some_iff]
    dsimp only
    cases ofInt? n <;> simp

/-! ## The first that is present -/

theorem resolve_eq_ofValue {given compiled : Value} (h : chosen given compiled ≠ .null)
    (setting : Option String) :
    resolve given compiled setting = ofValue (chosen given compiled) := by
  cases given with
  | null =>
    cases compiled with
    | null => exact absurd rfl h
    | _ => rfl
  | _ => rfl

theorem resolve_eq_ofSetting {given compiled : Value} (h : chosen given compiled = .null)
    (setting : Option String) : resolve given compiled setting = ofSetting setting := by
  cases given with
  | null =>
    rw [show compiled = .null from h]
    rfl
  | _ => cases h

/-- The setting has no separator that is a blank of a text and yet no margin of a number. -/
def IsPlain (setting : Option String) : Prop :=
  ∀ text, setting = some text → ∀ c ∈ text.toList, ¬ Text.IsSeparator c

theorem usual_eq_iff {limit : StepLimit} :
    (.ok usual : Except Failure StepLimit) = .ok limit ↔ limit.value = 25 := by
  refine ⟨fun h => ?_, fun h => ?_⟩
  · cases h
    rfl
  · exact congrArg _ (ext h.symm)

theorem resolve_eq_ok_iff {given compiled : Value} {setting : Option String} {limit : StepLimit}
    (hplain : IsPlain setting) :
    resolve given compiled setting = .ok limit ↔ Source given compiled setting limit := by
  by_cases hchosen : chosen given compiled = .null
  · rw [resolve_eq_ofSetting hchosen]
    cases setting with
    | none =>
      rw [ofSetting, usual_eq_iff]
      refine ⟨.unset hchosen rfl, fun h => ?_⟩
      cases h with
      | value h => cases hchosen.symm.trans h
      | unset _ _ husual => exact husual
      | blank _ _ h => cases h
      | written _ _ h => cases h
    | some text =>
      by_cases hblank : Text.isAllBlank text = true
      · rw [ofSetting, if_pos hblank, usual_eq_iff]
        refine ⟨.blank hchosen text rfl (List.all_eq_true.mp hblank), fun h => ?_⟩
        cases h with
        | value h => cases hchosen.symm.trans h
        | unset _ h => cases h
        | blank _ _ _ _ husual => exact husual
        -- a blank text has no digits
        | written _ _ h d hwritten =>
          cases h
          exact absurd (hwritten.symm.trans (Text.trim_of_isAllBlank hblank)) d.text_ne_nil
      · rw [ofSetting_eq_ok_iff (Bool.eq_false_iff.mpr hblank),
          Text.integer?_eq_some_iff_trim (hplain text rfl)]
        refine ⟨fun ⟨d, hwritten, hlength, hvalue⟩ =>
          .written hchosen text rfl d hwritten hlength hvalue, fun h => ?_⟩
        cases h with
        | value h => cases hchosen.symm.trans h
        | unset _ h => cases h
        | blank _ _ h hall =>
          cases h
          exact absurd (List.all_eq_true.mpr hall) hblank
        | written _ _ h d hwritten hlength hvalue =>
          cases h
          exact ⟨d, hwritten, hlength, hvalue⟩
  · rw [resolve_eq_ofValue hchosen, ofValue_eq_ok_iff]
    refine ⟨.value, fun h => ?_⟩
    cases h with
    | value h => exact h
    | unset h => exact absurd h hchosen
    | blank h => exact absurd h hchosen
    | written h => exact absurd h hchosen

theorem resolve_eq_error {given compiled : Value} {setting : Option String} {why : Failure}
    (hwritable : (chosen given compiled).isWritable = true)
    (h : resolve given compiled setting = .error why) : why.isConfiguration = true := by
  by_cases hchosen : chosen given compiled = .null
  · rw [resolve_eq_ofSetting hchosen] at h
    exact ofSetting_eq_error h
  · rw [resolve_eq_ofValue hchosen] at h
    exact ofValue_eq_error hwritable h

/-! ## Runs -/

variable {μ : Type}

/-- How the limit for a run of a graph is found. -/
structure Resolved (g : Graph μ) (given : Value) (site : Site μ) : Prop where
  leaves : (g.resolveLimit given site).2 = site
  sources : IsPlain site.settings.stepLimit → ∀ limit,
    (g.resolveLimit given site).1 = .ok limit ↔
      Source given g.stepLimit site.settings.stepLimit limit
  unread : chosen given g.stepLimit ≠ .null → ∀ site',
    (g.resolveLimit given site').1 = (g.resolveLimit given site).1
  outcomes : (chosen given g.stepLimit).isWritable = true →
    (∃ limit, (g.resolveLimit given site).1 = .ok limit ∧ 1 ≤ limit.value) ∨
      ∃ why, (g.resolveLimit given site).1 = .error why ∧ why.isConfiguration = true
  starts : ∀ initial start left, g.start initial given site = (.ok start, left) →
    (g.resolveLimit given site).1 = .ok start.limit ∧ 1 ≤ start.limit.value
  refused : ∀ initial why, (g.resolveLimit given site).1 = .error why →
    g.start initial given site = (.error why, site)

/-- A limit is taken from the first place that has one, or refused before the run starts. -/
theorem limit_resolved (g : Graph μ) (given : Value) (site : Site μ) : Resolved g given site where
  leaves := rfl
  sources hplain _ := resolve_eq_ok_iff hplain
  unread hchosen site' := by
    have hvalue : ∀ here : Site μ, (g.resolveLimit given here).1 =
        ofValue (chosen given g.stepLimit) := fun here =>
      resolve_eq_ofValue hchosen here.settings.stepLimit
    rw [hvalue site', hvalue site]
  outcomes hwritable := by
    cases hresult : (g.resolveLimit given site).1 with
    | ok limit => exact .inl ⟨limit, rfl, limit.positive⟩
    | error why => exact .inr ⟨why, rfl, resolve_eq_error hwritable hresult⟩
  starts initial start left hstart := by
    obtain ⟨limit, mid, hlimit, hrest⟩ := Act.bind_eq_ok.mp hstart
    obtain ⟨store, mid', hstore, hrun⟩ := Act.bind_eq_ok.mp hrest
    cases hrun
    exact ⟨congrArg Prod.fst hlimit, limit.positive⟩
  refused initial why herror := by
    have hresolve : g.resolveLimit given site = (.error why, site) := Prod.ext herror rfl
    exact Act.bind_error hresolve

theorem inner_legal : "inner" ≠ startName ∧ "inner" ≠ endName := by decide

/-- A graph inside another one; neither has a limit. -/
def encased : Graph Nat :=
  ((plainLayer "inner" inner_legal).builder (Builder.oneChannel .overrideIfPresent .null)
    (Subgraph.whole (Builder.oneChannel .overrideIfPresent .null) shuttling .null).handler).graph
      .null

theorem encased_compiled : encased.Compiled := by
  have hchannels : (Builder.oneChannel Reducer.overrideIfPresent .null).channels ≠ [] := by
    simp [Builder.oneChannel]
  exact ⟨_, _, _, _, (plainLayer "inner" inner_legal).compile_eq hchannels
    (by simp [Builder.oneChannel])
    (Subgraph.whole (Builder.oneChannel .overrideIfPresent .null) shuttling .null).handler⟩

/-- But a setting can fail a run with a limit of its own, by way of a run inside it; and what is
refused is not always refused as misconfigured. -/
theorem limit_refuted :
    (¬ ∀ (g : Graph Nat) (given initial : Value) (site : Site Nat) (setting : Option String),
      g.Compiled → chosen given g.stepLimit ≠ .null →
      (∃ final left, g.invoke initial given (fun _ _ => pure ()) site = (.ok final, left)) →
      ∃ final left, g.invoke initial given (fun _ _ => pure ())
        { site with settings := { site.settings with stepLimit := setting } } =
          (.ok final, left)) ∧
    ¬ ∀ (given compiled : Value) (setting : Option String),
      (∃ limit, resolve given compiled setting = .ok limit) ∨
        ∃ why, resolve given compiled setting = .error why ∧ why.isConfiguration = true := by
  constructor
  · intro hall
    obtain ⟨e, left, hfails⟩ : ∃ e left, encased.invoke .null (.int 5) (fun _ _ => pure ())
        { Site.bare 0 with settings := { Settings.none with stepLimit := some "abc" } } =
          (.error (.run e), left) := ⟨_, _, rfl⟩
    obtain ⟨_, _, hcompletes⟩ := hall encased (.int 5) .null (.bare 0) (some "abc")
      encased_compiled nofun ⟨_, _, rfl⟩
    cases hfails.symm.trans hcompletes
  · intro hall
    have hrefused : resolve (.int (-Text.tooLong)) .null none =
        .error (.badValue Text.notWritable) := ofValue_tooLong
    rcases hall (.int (-Text.tooLong)) .null none with ⟨_, hok⟩ | ⟨_, herror, hconfiguration⟩
    · cases hrefused.symm.trans hok
    · cases hrefused.symm.trans herror
      cases hconfiguration

/-- A twelve with digits of two scripts. -/
def signedTwelve : Text.Decimal where
  sign := .plus
  groups := [['1'], ['٢']]
  some_group := nofun
  all_groups := by
    have hdigits : (Text.digit? '1').isSome ∧ (Text.digit? '٢').isSome := by decide
    simpa [Text.IsGroup] using hdigits

/-- The setting `" +1_٢"` is a limit of twelve, which a limit of the run's own supersedes. -/
theorem twelve_resolved :
    let site : Site Unit := { Site.bare () with settings := { Settings.none with stepLimit := some " +1_٢" } }
    IsPlain site.settings.stepLimit ∧ chosen (.int 5) Run.circling.stepLimit ≠ .null ∧
      (∃ limit, (Run.circling.resolveLimit .null site).1 = .ok limit ∧ limit.value = 12) ∧
      (Run.circling.resolveLimit (.int 5) (Site.bare ())).1 =
        (Run.circling.resolveLimit (.int 5) site).1 := by
  intro site
  have hplain : IsPlain site.settings.stepLimit := by
    rintro _ ⟨⟩
    show ∀ c ∈ [' ', '+', '1', '_', '٢'], ¬ Text.IsSeparator c
    simp [Text.IsSeparator]
  have hchosen : chosen (.int 5) Run.circling.stepLimit ≠ .null := nofun
  have hsource : Source .null Run.circling.stepLimit site.settings.stepLimit ⟨12, by decide⟩ :=
    .written rfl _ rfl signedTwelve (by decide) (by decide) (by decide)
  exact ⟨hplain, hchosen,
    ⟨_, ((limit_resolved Run.circling .null site).sources hplain _).mpr hsource, rfl⟩,
    (limit_resolved Run.circling (.int 5) site).unread hchosen _⟩

end StepLimit

end TeamFlow
