import Timebase.Emulator
import Timebase.Proofs.Time.Arithmetic

/-!
# What emulators keep

The CPU does not touch the world. So what every delivery keeps, an emulator keeps however it lets
time pass.
-/

namespace Timebase

namespace Emulator

variable {κ : Type} {tick : Tick κ} {budget : Nat} {e e' : Emulator κ}

theorem runCpu_eq_ok (h : runCpu tick budget e = .ok () e') :
    ∃ used, tick (max budget 1) e.cpu = .ok used e'.cpu ∧ used ≠ 0 ∧
      e.time.addChecked (Span.wrap used) = .ok e'.time := by
  obtain ⟨used, e₁, htick, h⟩ := Run.bind_eq_ok.mp h
  obtain ⟨cpu, hcpu, rfl⟩ := Run.on_eq_ok.mp htick
  obtain ⟨_, _, hget, h⟩ := Run.bind_eq_ok.mp h
  cases hget
  by_cases hused : used = 0
  · rw [if_pos hused] at h
    cases h
  · rw [if_neg hused] at h
    obtain ⟨time, _, htime, h⟩ := Run.bind_eq_ok.mp h
    obtain ⟨hsum, rfl⟩ := Run.lift_eq_ok.mp htime
    cases h
    exact ⟨used, hcpu, hused, hsum⟩

end Emulator

namespace Rig

variable {κ σ : Type} {d : Driver κ σ} {K : World σ → Prop} {r r' : Rig κ σ} {limit : Instant}
  {span : Span} {steps : Nat}

theorem catchUp_keeps (hd : ∀ {limit w v}, d.schedule limit w = .ok () v → K w → K v)
    (h : catchUp d r = .ok () r') (hk : K r.world) : K r'.world := by
  obtain ⟨_, _, hget, hschedule⟩ := Run.bind_eq_ok.mp h
  cases hget
  obtain ⟨v, hv, rfl⟩ := Run.on_eq_ok.mp hschedule
  exact hd hv hk

theorem world_onEmulator {α : Type} {act : Run (Emulator κ) α} {a : α}
    (h : onEmulator act r = .ok a r') : r'.world = r.world := by
  obtain ⟨e, -, rfl⟩ := Run.on_eq_ok.mp h
  rfl

theorem emulator_catchUp (h : catchUp d r = .ok () r') : r'.emulator = r.emulator := by
  obtain ⟨_, _, hget, hschedule⟩ := Run.bind_eq_ok.mp h
  cases hget
  obtain ⟨v, -, rfl⟩ := Run.on_eq_ok.mp hschedule
  rfl

theorem runLoop_zero (d : Driver κ σ) (limit : Instant) (r : Rig κ σ) :
    runLoop d limit 0 r = Run.starve r := by
  rfl

theorem runLoop_succ (d : Driver κ σ) (limit : Instant) (steps : Nat) (r : Rig κ σ) :
    runLoop d limit (steps + 1) r =
      match catchUp d r with
      | .error halt r => .error halt r
      | .ok _ r =>
        if limit ≤ r.emulator.time then .ok () r
        else
          match (do
            let ticks ← Run.read (budget limit)
            onEmulator (Emulator.runCpu d.tick ticks) : Run (Rig κ σ) Unit) r with
          | .ok _ r => runLoop d limit steps r
          | .error halt r => .error halt r := by
  rfl

theorem runLoop_succ_eq_ok (h : runLoop d limit (steps + 1) r = .ok () r') :
    ∃ r₁, catchUp d r = .ok () r₁ ∧
      (limit ≤ r₁.emulator.time ∧ r' = r₁ ∨
        ∃ ticks r₂, onEmulator (Emulator.runCpu d.tick ticks) r₁ = .ok () r₂ ∧
          runLoop d limit steps r₂ = .ok () r') := by
  rw [runLoop_succ] at h
  split at h
  · cases h
  · rename_i r₁ hcatch
    split at h
    · rename_i hlimit
      cases h
      exact ⟨_, hcatch, Or.inl ⟨hlimit, rfl⟩⟩
    · split at h
      · rename_i r₂ hcpu
        obtain ⟨ticks, _, hbudget, hstep⟩ := Run.bind_eq_ok.mp hcpu
        obtain ⟨-, rfl⟩ := Run.read_eq_ok.mp hbudget
        exact ⟨_, hcatch, Or.inr ⟨ticks, r₂, hstep, h⟩⟩
      · cases h

/-- The loop keeps what every delivery in it keeps. -/
theorem runLoop_keeps (hd : ∀ {limit w v}, d.schedule limit w = .ok () v → K w → K v)
    (h : runLoop d limit steps r = .ok () r') (hk : K r.world) : K r'.world := by
  induction steps generalizing r with
  | zero =>
    rw [runLoop_zero] at h
    cases h
  | succ steps ih =>
    obtain ⟨r₁, hcatch, ⟨-, rfl⟩ | ⟨ticks, r₂, hcpu, hrest⟩⟩ := runLoop_succ_eq_ok h
    · exact catchUp_keeps hd hcatch hk
    · refine ih hrest ?_
      rw [world_onEmulator hcpu]
      exact catchUp_keeps hd hcatch hk

theorem runUntil_keeps (hd : ∀ {limit w v}, d.schedule limit w = .ok () v → K w → K v)
    (h : runUntil d steps limit r = .ok () r') (hk : K r.world) : K r'.world := by
  cases hf : limit.isFinite with
  | true =>
    rw [runUntil, hf] at h
    exact runLoop_keeps hd h hk
  | false =>
    rw [runUntil, hf] at h
    cases h

theorem runFor_keeps (hd : ∀ {limit w v}, d.schedule limit w = .ok () v → K w → K v)
    (h : runFor d steps span r = .ok () r') (hk : K r.world) : K r'.world := by
  obtain ⟨_, _, hget, hrest⟩ := Run.bind_eq_ok.mp h
  cases hget
  obtain ⟨limit, _, hlimit, hrun⟩ := Run.bind_eq_ok.mp hrest
  obtain ⟨-, rfl⟩ := Run.lift_eq_ok.mp hlimit
  exact runUntil_keeps hd hrun hk

theorem step_keeps (hd : ∀ {limit w v}, d.schedule limit w = .ok () v → K w → K v)
    (h : step d r = .ok () r') (hk : K r.world) : K r'.world := by
  obtain ⟨_, r₁, hcpu, hcatch⟩ := Run.bind_eq_ok.mp h
  refine catchUp_keeps hd hcatch ?_
  rw [world_onEmulator hcpu]
  exact hk

section

variable {K : Emulator κ → Prop}
  (hcpu : ∀ {budget e e'}, Emulator.runCpu d.tick budget e = .ok () e' → K e → K e')

include hcpu

/-- The loop keeps what every step of the CPU keeps, and it ends at the limit or behind it. -/
theorem runLoop_reaches (h : runLoop d limit steps r = .ok () r') (hk : K r.emulator) :
    K r'.emulator ∧ limit ≤ r'.emulator.time := by
  induction steps generalizing r with
  | zero =>
    rw [runLoop_zero] at h
    cases h
  | succ steps ih =>
    obtain ⟨r₁, hcatch, hturn⟩ := runLoop_succ_eq_ok h
    rw [← emulator_catchUp hcatch] at hk
    rcases hturn with ⟨hlimit, rfl⟩ | ⟨ticks, r₂, hstep, hrest⟩
    · exact ⟨hk, hlimit⟩
    · obtain ⟨e, he, rfl⟩ := Run.on_eq_ok.mp hstep
      exact ih hrest (hcpu he hk)

theorem runFor_reaches (h : runFor d steps span r = .ok () r') (hk : K r.emulator) :
    K r'.emulator ∧ ∃ limit, r.emulator.time.addChecked span = .ok limit ∧
      limit ≤ r'.emulator.time := by
  obtain ⟨_, _, hget, hrest⟩ := Run.bind_eq_ok.mp h
  cases hget
  obtain ⟨limit, _, hlift, hrun⟩ := Run.bind_eq_ok.mp hrest
  obtain ⟨hlimit, rfl⟩ := Run.lift_eq_ok.mp hlift
  cases hf : limit.isFinite with
  | true =>
    rw [runUntil, hf] at hrun
    obtain ⟨hkept, hle⟩ := runLoop_reaches hcpu hrun hk
    exact ⟨hkept, limit, hlimit, hle⟩
  | false =>
    rw [runUntil, hf] at hrun
    cases hrun

end

theorem step_eq_ok (h : step d r = .ok () r') :
    Emulator.runCpu d.tick 1 r.emulator = .ok () r'.emulator := by
  obtain ⟨_, r₁, hcpu, hcatch⟩ := Run.bind_eq_ok.mp h
  obtain ⟨e, he, rfl⟩ := Run.on_eq_ok.mp hcpu
  rw [emulator_catchUp hcatch]
  exact he

end Rig
end Timebase
