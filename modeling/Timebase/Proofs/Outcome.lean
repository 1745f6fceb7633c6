import Timebase.Device.Guarded
import Timebase.Proofs.Run
import Timebase.Time.Word

/-!
# Runs that come to a result

A run that comes to a result has taken each of its parts to a result, so what the parts do can be
read off one after the other.
-/

namespace Timebase

theorem eq_ok_of_toOption {ε α : Type} {x : Except ε α} {a : α} (h : x.toOption = some a) :
    x = .ok a := by
  cases x with
  | ok b =>
    cases h
    rfl
  | error e => cases h

namespace Attempt

variable {α β : Type}

theorem bind_eq_ok {x : Attempt α} {f : α → Attempt β} {b : β} :
    (x >>= f) = .ok b ↔ ∃ a, x = .ok a ∧ f a = .ok b := by
  cases x with
  | ok a => exact ⟨fun h => ⟨a, rfl, h⟩, fun ⟨_, ha, h⟩ => Except.ok.inj ha ▸ h⟩
  | error cause => exact ⟨fun h => (by cases h), fun ⟨_, ha, _⟩ => (by cases ha)⟩

theorem demand_eq_ok {kept : Bool} {cause : Violation} {u : Unit} :
    demand kept cause = .ok u ↔ kept = true := by
  cases kept with
  | true => exact ⟨fun _ => rfl, fun _ => rfl⟩
  | false => exact ⟨fun h => (by cases h), fun h => (by cases h)⟩

end Attempt

theorem Word.eq_of_add_eq_ok {a b n : Nat} (h : Word.add a b = .ok n) : n = a + b := by
  rw [Word.add] at h
  split at h
  · cases h
    rfl
  · cases h

theorem Word.lt_of_add_eq_ok {a b n : Nat} (h : Word.add a b = .ok n) : n < UInt64.size := by
  rw [Word.add] at h
  split at h
  · cases h
    assumption
  · cases h

theorem Word.eq_of_multiply_eq_ok {a b n : Nat} (h : Word.multiply a b = .ok n) : n = a * b := by
  rw [Word.multiply] at h
  split at h
  · cases h
    rfl
  · cases h

namespace Run

variable {σ τ α β : Type} {s s' : σ}

theorem lift_eq_ok {x : Attempt α} {a : α} :
    lift x s = .ok a s' ↔ x = .ok a ∧ s' = s := by
  cases x with
  | ok b => exact ⟨fun h => (by cases h; exact ⟨rfl, rfl⟩), fun ⟨h, hs⟩ => (by cases h; rw [hs]; rfl)⟩
  | error cause => exact ⟨fun h => (by cases h), fun h => (by cases h.1)⟩

theorem read_eq_ok {f : σ → Attempt α} {a : α} :
    read f s = .ok a s' ↔ f s = .ok a ∧ s' = s := lift_eq_ok

theorem read_of_error {f : σ → Attempt α} {cause : Fault} (h : f s = .error cause) :
    read f s = .error (.fault cause) s := by
  rw [read, h]
  rfl

theorem demand_eq_ok {kept : Bool} {cause : Violation} {u : Unit} :
    (demand kept cause : Run σ Unit) s = .ok u s' ↔ kept = true ∧ s' = s := by
  rw [demand, lift_eq_ok, Attempt.demand_eq_ok]

theorem update_eq_ok {f : σ → Attempt σ} {u : Unit} :
    update f s = .ok u s' ↔ f s = .ok s' := by
  rw [update]
  cases f s with
  | ok t => exact ⟨fun h => (by cases h; rfl), fun h => (by cases h; rfl)⟩
  | error cause => exact ⟨fun h => (by cases h), fun h => (by cases h)⟩

theorem on_eq_ok {part : Part σ τ} {act : Run τ α} {a : α} :
    on part act s = .ok a s' ↔ ∃ t, act (part.get s) = .ok a t ∧ s' = part.set t s := by
  rw [on]
  cases act (part.get s) with
  | ok b t =>
    constructor
    · intro h
      cases h
      exact ⟨t, rfl, rfl⟩
    · rintro ⟨_, h, rfl⟩
      cases h
      rfl
  | error halt t =>
    constructor
    · intro h
      cases h
    · rintro ⟨_, h, -⟩
      cases h

theorem access_of_unpoisoned {act : Run σ α} {g : Guarded σ} {a : α} {value : σ}
    (hg : g.poisoned = false) (h : act g.value = .ok a value) :
    Guarded.access act g = .ok a (.new value) := by
  rw [Guarded.access, if_neg (Bool.eq_false_iff.mp hg), h]
  rfl

theorem access_of_ok {act : Run σ α} {a : α} {x y : σ} (h : act x = .ok a y) :
    Guarded.access act (.new x) = .ok a (.new y) := access_of_unpoisoned rfl h

theorem after_access_get (g : Guarded σ) : (Guarded.access (get : Run σ σ)).after g = g := by
  rcases g with ⟨value, _ | _⟩ <;> rfl

theorem access_eq_ok {act : Run σ α} {g g' : Guarded σ} {a : α} :
    Guarded.access act g = .ok a g' →
      ∃ value, act g.value = .ok a value ∧ g' = .new value := by
  intro h
  rw [Guarded.access] at h
  split at h
  · cases h
  · cases hact : act g.value with
    | ok b value =>
      rw [hact] at h
      cases h
      exact ⟨value, rfl, rfl⟩
    | error halt value =>
      rw [hact] at h
      cases h

theorem access_look_eq_ok {f : σ → α} {g g' : Guarded σ} {a : α}
    (h : Guarded.access (f <$> get) g = .ok a g') : a = f g.value ∧ g' = g := by
  rw [Guarded.access] at h
  split at h
  · cases h
  · rename_i hsound
    cases h
    rcases g with ⟨value, poisoned⟩
    cases poisoned with
    | true => exact absurd rfl hsound
    | false => exact ⟨rfl, rfl⟩

end Run
end Timebase
