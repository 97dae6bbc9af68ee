import TeamFlow.Graph.Edge
import TeamFlow.Proofs.Value.Equality

/-! # Declared keys and paths by key

A routing keeps the declared keys of its router without repeats, and a path
answers for every key that is equal to its own. So a test of the kept keys
decides about all declared keys, and about whatever a router answers that is
equal to one of them. -/
namespace TeamFlow

namespace Entries

theorem forall_insert {P Q : Value → Prop} {es : Entries} {key v : Value}
    (hes : ∀ e ∈ es, P e.1 ∧ Q e.2) (hk : P key) (hv : Q v) :
    ∀ e ∈ es.insert key v, P e.1 ∧ Q e.2 := by
  induction es with
  | nil => simpa [insert] using ⟨hk, hv⟩
  | cons first es ih =>
    have hfirst := hes first (by simp)
    have hrest : ∀ e ∈ es, P e.1 ∧ Q e.2 := fun e he => hes e (by simp [he])
    intro e he
    simp only [insert] at he
    split at he
    · rcases List.mem_cons.mp he with rfl | he
      · exact ⟨hfirst.1, hv⟩
      · exact hrest e he
    · rcases List.mem_cons.mp he with rfl | he
      · exact hfirst
      · exact ih hrest e he

theorem forall_ofPairs {P Q : Value → Prop} {pairs : List (Value × Value)}
    (h : ∀ p ∈ pairs, P p.1 ∧ Q p.2) : ∀ e ∈ ofPairs pairs, P e.1 ∧ Q e.2 := by
  have hfold : ∀ (pairs : List (Value × Value)) (es : Entries), (∀ p ∈ pairs, P p.1 ∧ Q p.2) →
      (∀ e ∈ es, P e.1 ∧ Q e.2) →
      ∀ e ∈ pairs.foldl (fun es e => es.insert e.1 e.2) es, P e.1 ∧ Q e.2 := by
    intro pairs
    induction pairs with
    | nil => exact fun es _ hes => hes
    | cons p pairs ih =>
      intro es hp hes
      have hfirst := hp p (by simp)
      exact ih _ (fun q hq => hp q (by simp [hq])) (forall_insert hes hfirst.1 hfirst.2)
  exact hfold pairs [] h (by simp)

end Entries

/-- What a caller gives as targets is text. -/
def PathMap.HasTextTargets : PathMap → Prop
  | pairs es => ∀ e ∈ es, ∃ t, e.2 = .str t
  | names vs => ∀ v ∈ vs, ∃ t, v = .str t
  | text _ => True

namespace PathMap

theorem isHashable_of_toEntries {paths : PathMap} {es : Entries} (h : paths.toEntries = .ok es) :
    ∀ e ∈ es, e.1.isHashable = true := by
  have hpairs : ∀ pairs : List (Value × Value), (∀ p ∈ pairs, p.1.isHashable = true) →
      ∀ e ∈ Entries.ofPairs pairs, e.1.isHashable = true := fun pairs hp e he =>
    (Entries.forall_ofPairs (P := fun k => k.isHashable = true) (Q := fun _ => True)
      (fun p hm => ⟨hp p hm, trivial⟩) e he).1
  cases paths with
  | pairs ps =>
    simp only [toEntries] at h
    split at h
    next hall =>
      cases h
      exact hpairs ps (by simpa using hall)
    next => cases h
  | names vs =>
    simp only [toEntries] at h
    split at h
    next hall =>
      cases h
      apply hpairs
      intro p hp
      obtain ⟨v, hv, rfl⟩ := List.mem_map.mp hp
      exact List.all_eq_true.mp hall v hv
    next => cases h
  | text s =>
    simp only [toEntries, Except.ok.injEq] at h
    subst h
    apply hpairs
    intro p hp
    obtain ⟨c, _, rfl⟩ := List.mem_map.mp hp
    rfl

theorem text_of_toEntries {paths : PathMap} (ht : paths.HasTextTargets) {es : Entries}
    (h : paths.toEntries = .ok es) : ∀ e ∈ es, ∃ t, e.2 = .str t := by
  have hpairs : ∀ pairs : List (Value × Value), (∀ p ∈ pairs, ∃ t, p.2 = .str t) →
      ∀ e ∈ Entries.ofPairs pairs, ∃ t, e.2 = .str t := fun pairs hp e he =>
    (Entries.forall_ofPairs (P := fun _ => True) (Q := fun v => ∃ t, v = .str t)
      (fun p hm => ⟨trivial, hp p hm⟩) e he).2
  cases paths with
  | pairs ps =>
    simp only [toEntries] at h
    split at h
    next => cases h; exact hpairs ps ht
    next => cases h
  | names vs =>
    simp only [toEntries] at h
    split at h
    next =>
      cases h
      apply hpairs
      intro p hp
      obtain ⟨v, hv, rfl⟩ := List.mem_map.mp hp
      exact ht v hv
    next => cases h
  | text s =>
    simp only [toEntries, Except.ok.injEq] at h
    subst h
    apply hpairs
    intro p hp
    obtain ⟨c, _, rfl⟩ := List.mem_map.mp hp
    exact ⟨_, rfl⟩

end PathMap

/-! ## Declared keys -/

variable {μ : Type}

/-- The keys that are declared for a router: those that are given with it, else those attached to
it, else those that its answers are declared to be. -/
inductive Declares (router : Router μ) (keys k : Value) : Prop where
  | given {vs : List Value} (hgiven : keys ≠ .null) (hkeys : keys.items = .ok vs) (hk : k ∈ vs)
  | attached {vs : List Value} (hnone : keys = .null) (hattached : router.attached ≠ .null)
      (hkeys : router.attached.items = .ok vs) (hk : k ∈ vs)
  | answers {vs : List Value} (hnone : keys = .null) (hattached : router.attached = .null)
      (hkeys : router.declared = some vs) (hk : k ∈ vs)

theorem asKeys_eq_ok {vs ks : List Value} (h : asKeys vs = .ok ks) :
    (∀ v ∈ vs, v.isHashable = true) ∧ ks = Value.distinct vs := by
  simp only [asKeys] at h
  split at h
  next hall => cases h; exact ⟨by simpa using hall, rfl⟩
  next => cases h

/-- The declared keys that a routing keeps: none, or the distinct ones of a list of keys. -/
inductive Keeps (router : Router μ) (keys : Value) : Option (List Value) → Prop where
  | none (h : ∀ k, ¬ Declares router keys k) : Keeps router keys none
  | some {vs : List Value} (hvs : ∀ v ∈ vs, v.isHashable = true)
      (h : ∀ k, Declares router keys k ↔ k ∈ vs) : Keeps router keys (some (Value.distinct vs))

theorem keeps_knownKeys {router : Router μ} {known : Option (List Value)}
    (h : router.knownKeys = .ok known) : Keeps router .null known := by
  unfold Router.knownKeys at h
  split at h
  next hatt hdecl =>
    cases h
    refine .none fun k hk => ?_
    cases hk with
    | given hgiven _ _ => exact hgiven rfl
    | attached _ hne _ _ => exact hne hatt
    | answers _ _ hsome _ => rw [hdecl] at hsome; cases hsome
  next vs hatt hdecl =>
    obtain ⟨ks, hks, h⟩ := bind_eq_ok.mp h
    cases h
    obtain ⟨hhash, rfl⟩ := asKeys_eq_ok hks
    refine .some hhash fun k => ⟨fun hk => ?_, fun hk => .answers rfl hatt hdecl hk⟩
    cases hk with
    | given hgiven _ _ => exact absurd rfl hgiven
    | attached _ hne _ _ => exact absurd hatt hne
    | answers _ _ hsome hmem => rw [hdecl] at hsome; cases hsome; exact hmem
  next hnone hsome =>
    have hatt : router.attached ≠ .null := by
      intro hatt
      cases hdecl : router.declared with
      | none => exact hnone hatt hdecl
      | some vs => exact hsome vs hatt hdecl
    obtain ⟨vs, hvs, h⟩ := bind_eq_ok.mp h
    obtain ⟨ks, hks, h⟩ := bind_eq_ok.mp h
    cases h
    obtain ⟨hhash, rfl⟩ := asKeys_eq_ok hks
    refine .some hhash fun k => ⟨fun hk => ?_, fun hk => .attached rfl hatt hvs hk⟩
    cases hk with
    | given hgiven _ _ => exact absurd rfl hgiven
    | attached _ _ hitems hmem => rw [hvs] at hitems; cases hitems; exact hmem
    | answers _ hnull _ _ => exact absurd hnull hatt

namespace Routing

theorem make_eq_ok {router : Router μ} {paths : PathMap} {keys : Value} {r : Routing μ Value}
    (h : make router paths keys = .ok r) :
    r.answer = router.answer ∧ paths.toEntries = .ok r.paths ∧ Keeps router keys r.keys := by
  unfold make at h
  dsimp only at h
  split at h
  next =>
    obtain ⟨known, hknown, h⟩ := bind_eq_ok.mp h
    obtain ⟨es, hes, h⟩ := bind_eq_ok.mp h
    cases h
    exact ⟨rfl, hes, keeps_knownKeys hknown⟩
  next hgiven =>
    obtain ⟨vs, hvs, h⟩ := bind_eq_ok.mp h
    obtain ⟨ks, hks, h⟩ := bind_eq_ok.mp h
    obtain ⟨known, hknown, h⟩ := bind_eq_ok.mp h
    obtain ⟨es, hes, h⟩ := bind_eq_ok.mp h
    cases hknown
    cases h
    refine ⟨rfl, hes, ?_⟩
    have hne : keys ≠ .null := hgiven
    obtain ⟨hhash, rfl⟩ := asKeys_eq_ok hks
    refine .some hhash fun k => ⟨fun hk => ?_, fun hk => .given hne hvs hk⟩
    cases hk with
    | given _ hitems hmem => rw [hvs] at hitems; cases hitems; exact hmem
    | attached hnull _ _ _ => exact absurd hnull hne
    | answers hnull _ _ _ => exact absurd hnull hne

variable {T : Type}

theorem pathOf?_isSome_iff (r : Routing μ T) (key : Value) :
    (r.pathOf? key).isSome = true ↔ ∃ p ∈ r.paths, p.1.alike key = true := by
  simp [pathOf?]

/-- A path answers for all keys that are equal to one for which it answers. -/
theorem pathOf?_isSome_of_alike {r : Routing μ T} (hpaths : ∀ p ∈ r.paths, p.1.isHashable = true)
    {k key : Value} (hk : (r.pathOf? k).isSome = true) (hal : k.alike key = true) :
    (r.pathOf? key).isSome = true := by
  obtain ⟨p, hp, hpk⟩ := (pathOf?_isSome_iff r k).mp hk
  exact (pathOf?_isSome_iff r key).mpr ⟨p, hp, Value.alike_trans (hpaths p hp) hpk hal⟩

theorem unmapped_eq_nil_iff (r : Routing μ T) :
    r.unmapped = [] ↔ ∀ k ∈ r.keys.getD [], (r.pathOf? k).isSome = true := by
  simp [unmapped, List.filter_eq_nil_iff, Option.isSome_iff_ne_none]

/-- The kept keys have paths exactly if all declared keys do. -/
theorem unmapped_eq_nil_iff_declares {router : Router μ} {paths : PathMap} {keys : Value}
    {r : Routing μ Value} (h : make router paths keys = .ok r) :
    r.unmapped = [] ↔
      ∀ k, Declares router keys k → ∃ p ∈ r.paths, p.1.alike k = true := by
  obtain ⟨_, hpaths, hkeeps⟩ := make_eq_ok h
  rw [unmapped_eq_nil_iff]
  generalize hkeys : r.keys = known at hkeeps
  cases hkeeps with
  | none hnone => exact ⟨fun _ k hk => absurd hk (hnone k), fun _ k hk => by cases hk⟩
  | some hvs hdecl =>
    simp only [Option.getD_some]
    constructor
    · intro hall k hk
      obtain ⟨w, hw, hal⟩ := Value.exists_alike_distinct hvs ((hdecl k).mp hk)
      have hsome := pathOf?_isSome_of_alike (PathMap.isHashable_of_toEntries hpaths) (hall w hw)
        (Value.alike_symm (hvs k ((hdecl k).mp hk)) hal)
      exact (pathOf?_isSome_iff r k).mp hsome
    · intro hall w hw
      have hmem := Value.mem_distinctFrom [] _ w hw
      exact (pathOf?_isSome_iff r w).mpr (hall w ((hdecl w).mpr hmem))

theorem declares_of_mem_unmapped {router : Router μ} {paths : PathMap} {keys : Value}
    {r : Routing μ Value} (h : make router paths keys = .ok r) {k : Value} (hk : k ∈ r.unmapped) :
    Declares router keys k := by
  obtain ⟨_, _, hkeeps⟩ := make_eq_ok h
  have hkept := (List.mem_filter.mp hk).1
  generalize r.keys = known at hkeeps hkept
  cases hkeeps with
  | none _ => cases hkept
  | some _ hdecl => exact (hdecl k).mpr (Value.mem_distinctFrom [] _ k hkept)

end Routing

end TeamFlow
