import Mathlib.Data.List.Sort
import TeamFlow.Proofs.Value.Equality
import TeamFlow.Table
import TeamFlow.Value.Access
import TeamFlow.Value.Members

/-! # Texts as values

A text is alike itself only. So lists of texts behave as values as they do as
texts: among them, in order, and as the keys of a mapping. -/
namespace TeamFlow

namespace Value

theorem str_injective : Function.Injective str := fun _ _ h => str.inj h

theorem alike_str_iff (v : Value) (s : String) : alike v (str s) = true ↔ v = str s := by
  cases v <;> simp [alike, alikeNumber, number?]

theorem same_str_iff (v : Value) (s : String) : v.same (.str s) = true ↔ v = .str s := by
  rw [← alike_str_iff]
  cases v with
  | float x => cases x <;> rfl
  | _ => rfl

theorem eq_str_of_copied {v : Value} {s : String} (h : v.copied = .str s) : v = .str s := by
  unfold copied at h
  split at h
  next ring vs =>
    dsimp only at h
    generalize (if Seats.isFull Seats.leastSize vs.length = true then _ else _) = size at h
    split at h
    next => cases h
    next => split at h <;> cases h
  next => exact h

theorem isAmong_texts_iff (v : Value) (texts : List String) :
    v.isAmong (texts.map str) = true ↔ ∃ s ∈ texts, v = str s := by
  simp [isAmong, alike_str_iff]

theorem isHashable_texts {texts : List String} : ∀ v ∈ texts.map str, v.isHashable = true := by
  intro v hv
  obtain ⟨s, _, rfl⟩ := List.mem_map.mp hv
  rfl

theorem distinctFrom_texts (seen texts : List String) :
    distinctFrom (seen.map str) (texts.map str) =
      (texts.filter fun s => !seen.contains s).eraseDups.map str := by
  induction texts generalizing seen with
  | nil => rfl
  | cons s texts ih =>
    have hamong : (str s).isAmong (seen.map str) = seen.contains s := by
      rw [Bool.eq_iff_iff, isAmong_texts_iff, List.contains_iff_mem]
      simp
    rw [List.map_cons, distinctFrom, hamong]
    by_cases hseen : s ∈ seen
    · rw [if_pos (by simpa using hseen), ih, List.filter_cons_of_neg (by simpa using hseen)]
    · have hrest := ih (seen ++ [s])
      rw [List.map_append, List.map_singleton] at hrest
      rw [if_neg (by simpa using hseen), hrest, List.filter_cons_of_pos (by simpa using hseen),
        List.eraseDups_cons, List.map_cons, List.filter_filter]
      congr 4
      funext t
      by_cases heq : t = s <;> simp [heq]

theorem distinct_texts (texts : List String) :
    distinct (texts.map str) = texts.eraseDups.map str := by
  have hall : (texts.filter fun s => !([] : List String).contains s) = texts :=
    List.filter_eq_self.mpr fun _ _ => rfl
  have hfrom := distinctFrom_texts [] texts
  rwa [hall] at hfrom

theorem distinct_texts_of_nodup {texts : List String} (h : texts.Nodup) :
    distinct (texts.map str) = texts.map str := by
  have hself : texts.eraseDups = texts := by
    induction texts with
    | nil => rfl
    | cons s texts ih =>
      obtain ⟨hnew, hrest⟩ := List.nodup_cons.mp h
      have hkept : texts.filter (fun t => !t == s) = texts := by
        refine List.filter_eq_self.mpr fun t ht => ?_
        have hne : t ≠ s := fun heq => hnew (heq ▸ ht)
        simpa using hne
      rw [List.eraseDups_cons, hkept, ih hrest]
  rw [distinct_texts, hself]

theorem texts?_texts (texts : List String) : texts? (texts.map str) = some texts := by
  induction texts with
  | nil => rfl
  | cons s texts ih => simp [texts?, ih]

theorem joined_texts (texts : List String) : joined (texts.map str) = .ok (commas texts) := by
  rw [joined, texts?_texts]

/-! ## In order -/

theorem comparable_texts (texts : List String) : comparable (texts.map str) = true := by
  induction texts with
  | nil => rfl
  | cons s texts ih =>
    rw [List.map_cons, comparable, ih, Bool.and_true, List.all_eq_true]
    intro v hv
    obtain ⟨t, _, rfl⟩ := List.mem_map.mp hv
    rfl

theorem sorted_texts (texts : List String) :
    sorted (texts.map str) = .ok ((texts.mergeSort fun a b => !decide (b < a)).map str) := by
  have hmap : (texts.mergeSort fun a b => !decide (b < a)).map str =
      (texts.map str).mergeSort fun a b => !((b.less a).toOption.getD false) :=
    List.map_mergeSort fun a _ b _ => rfl
  rw [sorted, if_pos (comparable_texts texts), hmap]

theorem sorted_texts_of_perm {texts others : List String} (h : texts.Perm others) :
    sorted (texts.map str) = sorted (others.map str) := by
  have hle : (fun a b : String => !decide (b < a)) = fun a b => decide (a ≤ b) := by
    funext a b
    simp [← String.not_lt]
  have hpairwise : ∀ texts : List String,
      (texts.mergeSort fun a b => decide (a ≤ b)).Pairwise (· ≤ ·) := fun texts =>
    List.pairwise_mergeSort' (· ≤ ·) texts
  rw [sorted_texts, sorted_texts, hle]
  refine congrArg (fun texts : List String => Except.ok (texts.map str)) ?_
  refine List.Perm.eq_of_pairwise' (hpairwise texts) (hpairwise others) ?_
  exact (List.mergeSort_perm _ _).trans (h.trans (List.mergeSort_perm _ _).symm)

theorem ofText_injective : Function.Injective ofText := fun _ _ h =>
  List.map_injective_iff.mpr (fun _ _ => str.inj) (list.inj h)

theorem alikeItems_texts (texts : List String) :
    alikeItems (texts.map str) (texts.map str) = true := by
  induction texts with
  | nil => rfl
  | cons s texts ih => simpa [alikeItems, alike] using ih

end Value

/-! ## As keys -/

namespace Entries

theorem insert_new {es : Entries} {key : Value} (h : ∀ e ∈ es, e.1.alike key = false) (v : Value) :
    es.insert key v = es ++ [(key, v)] := by
  induction es with
  | nil => rfl
  | cons e es ih =>
    have hkey : ¬ e.1.alike key = true := by simp [h e (by simp)]
    rw [insert, if_neg hkey, ih fun f hf => h f (by simp [hf])]
    rfl

theorem find?_cons (k w : Value) (es : Entries) (key : Value) :
    find? ((k, w) :: es) key = if k.alike key = true then some w else es.find? key := by
  simp only [find?, List.find?_cons]
  split <;> simp_all

theorem find?_put (es : Entries) (name other : String) (v : Value) :
    (es.put name v).find? (.str other) =
      if other = name then some v else es.find? (.str other) := by
  unfold put
  induction es with
  | nil =>
    rw [insert, find?_cons]
    simp [Value.alike, eq_comm (a := name)]
  | cons e es ih =>
    obtain ⟨k, w⟩ := e
    by_cases hname : k.alike (.str name) = true
    · rw [insert, if_pos hname, find?_cons, find?_cons]
      obtain rfl := (Value.alike_str_iff k name).mp hname
      by_cases hother : other = name
      · simp [hother, Value.alike]
      · simp [hother, Ne.symm hother, Value.alike]
    · rw [insert, if_neg hname, find?_cons, find?_cons, ih]
      by_cases hk : k.alike (.str other) = true
      · have hother : other ≠ name := fun heq => hname (heq ▸ hk)
        simp [hk, hother]
      · simp [hk]

theorem ofPairs_ofFields {fields : List (String × Value)} (h : (fields.map Prod.fst).Nodup) :
    ofPairs (ofFields fields) = ofFields fields := by
  have hfold : ∀ fields before : List (String × Value),
      ((before ++ fields).map Prod.fst).Nodup →
      (ofFields fields).foldl (fun es e => Entries.insert es e.1 e.2) (ofFields before) =
        ofFields (before ++ fields) := by
    intro fields
    induction fields with
    | nil => simp [ofFields]
    | cons f fields ih =>
      intro before hnodup
      have hnew : ∀ e ∈ ofFields before, e.1.alike (.str f.1) = false := by
        intro e he
        obtain ⟨q, hq, rfl⟩ := List.mem_map.mp he
        rw [List.map_append, List.nodup_append] at hnodup
        have hne := hnodup.2.2 q.1 (List.mem_map.mpr ⟨q, hq, rfl⟩) f.1 (by simp)
        simpa [Value.alike] using hne
      have hstep := ih (before ++ [f]) (by simpa using hnodup)
      rw [List.append_assoc] at hstep
      refine Eq.trans ?_ hstep
      show (ofFields fields).foldl _ (Entries.insert (ofFields before) (.str f.1) f.2) = _
      rw [insert_new hnew]
      simp [ofFields]
  exact hfold fields [] h

/-- A row of a table is found under its name among the fields that the rows make up. -/
theorem find?_ofFields (t : Table Value) (name : String) :
    find? (ofFields t) (.str name) = Table.row? t name := by
  induction t with
  | nil => rfl
  | cons row t ih =>
    obtain ⟨k, v⟩ := row
    by_cases hk : k = name
    · simp [find?, ofFields, Table.row?, Value.alike, hk]
    · simpa [find?, ofFields, Table.row?, Value.alike, hk] using ih

end Entries

end TeamFlow
