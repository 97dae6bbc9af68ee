import TeamFlow.Failure

/-! Effects. An act changes a state and either yields a value or fails; what it changed before it
failed stays changed. -/

namespace TeamFlow

theorem bind_eq_ok {ε α β : Type} {x : Except ε α} {f : α → Except ε β} {b : β} :
    x >>= f = .ok b ↔ ∃ a, x = .ok a ∧ f a = .ok b := by
  cases x with
  | error e => exact ⟨fun h => (by cases h), fun ⟨_, h, _⟩ => (by cases h)⟩
  | ok a => exact ⟨fun h => ⟨a, rfl, h⟩, fun ⟨_, h, hf⟩ => (by cases h; exact hf)⟩

def Act (σ α : Type) : Type := σ → Except Failure α × σ

namespace Act

variable {σ τ α β γ : Type}

def bind (x : Act σ α) (f : α → Act σ β) : Act σ β := fun s =>
  match x s with
  | (.ok a, t) => f a t
  | (.error e, t) => (.error e, t)

instance : Monad (Act σ) where
  pure a := fun s => (.ok a, s)
  bind := Act.bind

def fail (e : Failure) : Act σ α := fun s => (.error e, s)

/-- Carry on after a failure, with the failure as the result. -/
def attempt (x : Act σ α) : Act σ (Except Failure α) := fun s =>
  match x s with
  | (r, t) => (.ok r, t)

def ofExcept (r : Except Failure α) : Act σ α := fun s => (r, s)

/-- An act that neither reads nor changes the state. -/
instance : MonadLift (Except Failure) (Act σ) := ⟨ofExcept⟩

def get : Act σ σ := fun s => (.ok s, s)

def modify (f : σ → σ) : Act σ Unit := fun s => (.ok (), f s)

def onPart (part : σ → τ) (put : τ → σ → σ) (x : Act τ α) : Act σ α := fun s =>
  match x (part s) with
  | (r, t) => (r, put t s)

theorem pure_apply (a : α) (s : σ) : (pure a : Act σ α) s = (.ok a, s) := rfl

theorem ofExcept_ok {r : Except Failure α} {a : α} (h : r = .ok a) (s : σ) :
    (ofExcept r : Act σ α) s = (.ok a, s) := by
  rw [h]
  rfl

theorem bind_apply (x : Act σ α) (f : α → Act σ β) (s : σ) :
    (x >>= f) s = match x s with
      | (.ok a, t) => f a t
      | (.error e, t) => (.error e, t) := rfl

theorem bind_ok {x : Act σ α} {f : α → Act σ β} {s t : σ} {a : α} (h : x s = (.ok a, t)) :
    (x >>= f) s = f a t := by
  rw [bind_apply, h]

theorem bind_error {x : Act σ α} {f : α → Act σ β} {s t : σ} {e : Failure}
    (h : x s = (.error e, t)) : (x >>= f) s = (.error e, t) := by
  rw [bind_apply, h]

theorem bind_eq_ok {x : Act σ α} {f : α → Act σ β} {s u : σ} {b : β} :
    (x >>= f) s = (.ok b, u) ↔ ∃ a t, x s = (.ok a, t) ∧ f a t = (.ok b, u) := by
  rw [bind_apply]
  constructor
  · intro h
    split at h
    next a t hx => exact ⟨a, t, hx, h⟩
    next => cases h
  · intro h
    obtain ⟨a, t, hx, hf⟩ := h
    rw [hx]
    exact hf

theorem bind_eq_error {x : Act σ α} {f : α → Act σ β} {s u : σ} {e : Failure} :
    (x >>= f) s = (.error e, u) ↔
      x s = (.error e, u) ∨ ∃ a t, x s = (.ok a, t) ∧ f a t = (.error e, u) := by
  rw [bind_apply]
  constructor
  · intro h
    split at h
    next a t hx => exact .inr ⟨a, t, hx, h⟩
    next hx => cases h; exact .inl hx
  · intro h
    rcases h with hx | ⟨a, t, hx, hf⟩
    · rw [hx]
    · rw [hx]
      exact hf

theorem id_map' (x : Act σ α) : id <$> x = x := by
  funext s
  show (x >>= fun a => pure (id a)) s = x s
  rw [bind_apply]
  rcases x s with ⟨r | r, t⟩ <;> rfl

theorem bind_assoc' (x : Act σ α) (f : α → Act σ β) (g : β → Act σ γ) :
    x >>= f >>= g = x >>= fun a => f a >>= g := by
  funext s
  simp only [bind_apply]
  rcases x s with ⟨r | r, t⟩ <;> rfl

instance : LawfulMonad (Act σ) :=
  LawfulMonad.mk' (Act σ) id_map' (fun _ _ => rfl) bind_assoc'

end Act

end TeamFlow
