import Timebase.Run

/-!
# What a run leaves behind

A run leaves a state behind however it ends. Runs in sequence, under a guard or on a component
leave behind what their parts do.
-/

namespace Timebase.Run

variable {σ τ α β : Type} {s s' : σ}

/-- The state that a run leaves behind, whether it halts or not. -/
def after (act : Run σ α) (s : σ) : σ :=
  match act s with
  | .ok _ s' => s'
  | .error _ s' => s'

theorem after_of_ok {act : Run σ α} {a : α} (h : act s = .ok a s') : act.after s = s' := by
  rw [after, h]

theorem after_of_error {act : Run σ α} {halt : Halt} (h : act s = .error halt s') :
    act.after s = s' := by
  rw [after, h]

theorem after_congr {act act' : Run σ α} (h : act s = act' s') : act.after s = act'.after s' := by
  rw [after, h, ← after]

theorem ok_or_error (act : Run σ α) (s : σ) :
    (∃ a, act s = .ok a (act.after s)) ∨ ∃ halt, act s = .error halt (act.after s) := by
  cases h : act s with
  | ok a s' => exact Or.inl ⟨a, by rw [after_of_ok h]⟩
  | error halt s' => exact Or.inr ⟨halt, by rw [after_of_error h]⟩

theorem bind_of_ok {act : Run σ α} {f : α → Run σ β} {a : α} (h : act s = .ok a s') :
    (act >>= f) s = f a s' := by
  show EStateM.bind act f s = f a s'
  rw [EStateM.bind, h]

theorem bind_of_error {act : Run σ α} {f : α → Run σ β} {halt : Halt}
    (h : act s = .error halt s') : (act >>= f) s = .error halt s' := by
  show EStateM.bind act f s = .error halt s'
  rw [EStateM.bind, h]

theorem get_bind (f : σ → Run σ β) (s : σ) : ((get : Run σ σ) >>= f) s = f s s := rfl

theorem map_of_ok {act : Run σ α} {a : α} (f : α → β) (h : act s = .ok a s') :
    (f <$> act) s = .ok (f a) s' := by
  show EStateM.map f act s = .ok (f a) s'
  rw [EStateM.map, h]

theorem map_of_error {act : Run σ α} {halt : Halt} (f : α → β) (h : act s = .error halt s') :
    (f <$> act) s = .error halt s' := by
  show EStateM.map f act s = .error halt s'
  rw [EStateM.map, h]

theorem bind_congr {act : Run σ α} (f : α → Run σ β) (h : act s = act s') :
    (act >>= f) s = (act >>= f) s' := by
  show EStateM.bind act f s = EStateM.bind act f s'
  rw [EStateM.bind, EStateM.bind, h]

theorem after_bind_pure (act : Run σ α) (f : α → β) (s : σ) :
    (act >>= fun a => pure (f a)).after s = act.after s := by
  cases h : act s with
  | ok a s' =>
    rw [after_congr (bind_of_ok h), after_of_ok h]
    rfl
  | error halt s' => rw [after_of_error (bind_of_error h), after_of_error h]

/-- A sequence comes to a result only through one of its first part. -/
theorem bind_eq_ok {act : Run σ α} {f : α → Run σ β} {b : β} :
    (act >>= f) s = .ok b s' ↔ ∃ a t, act s = .ok a t ∧ f a t = .ok b s' := by
  constructor
  · intro h
    cases hact : act s with
    | ok a t =>
      rw [bind_of_ok hact] at h
      exact ⟨a, t, rfl, h⟩
    | error halt t =>
      rw [bind_of_error hact] at h
      cases h
  · rintro ⟨a, t, hact, hf⟩
    rw [bind_of_ok hact, hf]

@[simp] theorem after_attempt (act : Run σ α) (s : σ) : (attempt act).after s = act.after s := by
  rcases h : act s with ⟨a, s'⟩ | ⟨_ | _, s'⟩ <;> simp only [after, attempt, h]

theorem ensuring_of_ok {act : Run σ α} {cleanup : σ → σ} {a : α} (h : act s = .ok a s') :
    ensuring act cleanup s = .ok a (cleanup s') := by
  rw [ensuring, h]

theorem ensuring_of_error {act : Run σ α} {cleanup : σ → σ} {halt : Halt}
    (h : act s = .error halt s') : ensuring act cleanup s = .error halt (cleanup s') := by
  rw [ensuring, h]

@[simp] theorem after_ensuring (act : Run σ α) (cleanup : σ → σ) (s : σ) :
    (ensuring act cleanup).after s = cleanup (act.after s) := by
  cases h : act s <;> simp only [after, ensuring, h]

theorem on_of_ok {part : Part σ τ} {act : Run τ α} {a : α} {t : τ}
    (h : act (part.get s) = .ok a t) : on part act s = .ok a (part.set t s) := by
  rw [on, h]

theorem on_of_error {part : Part σ τ} {act : Run τ α} {halt : Halt} {t : τ}
    (h : act (part.get s) = .error halt t) : on part act s = .error halt (part.set t s) := by
  rw [on, h]

@[simp] theorem after_on (part : Part σ τ) (act : Run τ α) (s : σ) :
    (on part act).after s = part.set (act.after (part.get s)) s := by
  cases h : act (part.get s) <;> simp only [after, on, h]

/-- What holds before a run holds after it, whatever comes of it. -/
def Preserves (I : σ → Prop) (act : Run σ α) : Prop := ∀ s, I s → I (act.after s)

namespace Preserves

variable {I : σ → Prop} {J : τ → Prop}

theorem bind {act : Run σ α} {f : α → Run σ β} (h : Preserves I act)
    (hf : ∀ a, Preserves I (f a)) : Preserves I (act >>= f) := by
  intro s hs
  have hfirst := h s hs
  cases hact : act s with
  | ok a t =>
    rw [after_of_ok hact] at hfirst
    rw [after_congr (bind_of_ok hact)]
    exact hf a t hfirst
  | error halt t =>
    rw [after_of_error hact] at hfirst
    rw [after_of_error (bind_of_error hact)]
    exact hfirst

theorem lift (x : Attempt α) : Preserves I (Run.lift x) := by
  intro s hs
  cases x with
  | ok a => exact hs
  | error cause => exact hs

theorem read (f : σ → Attempt α) : Preserves I (Run.read f) := fun s hs => lift (f s) s hs

theorem update {f : σ → Attempt σ} (h : ∀ s s', f s = .ok s' → I s → I s') :
    Preserves I (Run.update f) := by
  intro s hs
  cases hf : f s with
  | ok s' =>
    have hrun : Run.update f s = .ok () s' := by rw [Run.update, hf]
    rw [after_of_ok hrun]
    exact h s s' hf hs
  | error cause =>
    have hrun : Run.update f s = .error (.fault cause) s := by rw [Run.update, hf]
    rw [after_of_error hrun]
    exact hs

theorem on {part : Part σ τ} {act : Run τ α} (h : Preserves J act)
    (get : ∀ s, I s → J (part.get s)) (set : ∀ s t, J t → I (part.set t s)) :
    Preserves I (Run.on part act) := by
  intro s hs
  rw [after_on]
  exact set s _ (h _ (get s hs))

theorem pure (a : α) : Preserves I (pure a : Run σ α) := fun _ hs => hs

theorem get : Preserves I (get : Run σ σ) := fun _ hs => hs

theorem modify {f : σ → σ} (h : ∀ s, I s → I (f s)) :
    Preserves I (modify f : Run σ Unit) := fun s hs => h s hs

theorem map {act : Run σ α} (f : α → β) (h : Preserves I act) : Preserves I (f <$> act) := by
  intro s hs
  have hafter := h s hs
  cases hact : act s with
  | ok a t =>
    rw [after_of_ok hact] at hafter
    rwa [after_of_ok (map_of_ok f hact)]
  | error halt t =>
    rw [after_of_error hact] at hafter
    rwa [after_of_error (map_of_error f hact)]

theorem attempt {act : Run σ α} (h : Preserves I act) : Preserves I (Run.attempt act) := by
  intro s hs
  rw [after_attempt]
  exact h s hs

/-- What follows a run need only keep what holds for the results of that run. -/
theorem bind_of_ok {act : Run σ α} {f : α → Run σ β} (h : Preserves I act)
    (hf : ∀ {s a s'}, I s → act s = .ok a s' → I s' → I ((f a).after s')) :
    Preserves I (act >>= f) := by
  intro s hs
  have hfirst := h s hs
  cases hact : act s with
  | ok a s' =>
    rw [after_of_ok hact] at hfirst
    rw [after_congr (Run.bind_of_ok hact)]
    exact hf hs hact hfirst
  | error halt s' =>
    rw [after_of_error hact] at hfirst
    rwa [after_of_error (Run.bind_of_error hact)]

theorem onCase {c : Case σ τ} {act : Run τ α} (h : Preserves J act)
    (get : ∀ s t, c.get? s = some t → I s → J t) (put : ∀ t, J t → I (c.put t)) :
    Preserves I (Run.onCase c act) := by
  intro s hs
  cases hget : c.get? s with
  | none =>
    have hrun : Run.onCase c act s = .ok none s := by rw [Run.onCase, hget]
    rwa [after_of_ok hrun]
  | some t =>
    have hafter := put _ (h t (get s t hget hs))
    cases hact : act t with
    | ok a t' =>
      have hrun : Run.onCase c act s = .ok (some a) (c.put t') := by
        simp only [Run.onCase, hget, hact]
      rw [after_of_ok hrun]
      rwa [after_of_ok hact] at hafter
    | error halt t' =>
      have hrun : Run.onCase c act s = .error halt (c.put t') := by
        simp only [Run.onCase, hget, hact]
      rw [after_of_error hrun]
      rwa [after_of_error hact] at hafter

end Preserves

/-- Whether a run comes to no result for want of steps. -/
def Starves {σ α : Type} (act : Run σ α) (s : σ) : Prop := ∃ s', act s = .error .starved s'

/-- A run that never lacks steps: it comes to a result or fails. -/
def Ends (act : Run σ α) : Prop := ∀ s, ¬ act.Starves s

namespace Ends

theorem pure (a : α) : Ends (pure a : Run σ α) := by
  rintro s ⟨s', h⟩
  cases h

theorem get : Ends (get : Run σ σ) := by
  rintro s ⟨s', h⟩
  cases h

theorem modify (f : σ → σ) : Ends (modify f : Run σ Unit) := by
  rintro s ⟨s', h⟩
  cases h

theorem lift (x : Attempt α) : Ends (Run.lift x : Run σ α) := by
  rintro s ⟨s', h⟩
  cases x <;> cases h

theorem read (f : σ → Attempt α) : Ends (Run.read f) := fun s => lift (f s) s

theorem update (f : σ → Attempt σ) : Ends (Run.update f) := by
  rintro s ⟨s', h⟩
  rw [Run.update] at h
  cases hf : f s <;> simp only [hf] at h <;> cases h

theorem bind {act : Run σ α} {f : α → Run σ β} (h : Ends act) (hf : ∀ a, Ends (f a)) :
    Ends (act >>= f) := by
  rintro s ⟨s', hs⟩
  cases hact : act s with
  | ok a t =>
    rw [bind_of_ok hact] at hs
    exact hf a t ⟨s', hs⟩
  | error halt t =>
    rw [bind_of_error hact] at hs
    cases hs
    exact h s ⟨s', hact⟩

end Ends
end Timebase.Run
