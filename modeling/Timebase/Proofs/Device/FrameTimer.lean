import Timebase.Device.FrameTimer
import Timebase.Proofs.Clock

/-!
# Frames in step with time

A frame timer has counted every frame that has ended, and it wants to be woken at the end of the
next one.
-/

namespace Timebase.FrameTimer

open Clock (grid fromPowerOn Steady)

variable {num den : Nat} {now t : Instant} {f f' : FrameTimer} {r : Request}
  {wanted : List Request}

structure InStep (num den : Nat) (now : Instant) (f : FrameTimer) (wanted : List Request) :
    Prop where
  clock : f.clock = fromPowerOn num den f.frames
  passed : grid num den f.frames ≤ now.ticks
  wanted : wanted = [⟨.wrap (grid num den (f.frames + 1)), frameEnd⟩]

theorem inStep_of_new (hs : Steady num den) (h : FrameTimer.new .zero num den = .ok (f, r)) :
    InStep num den .zero f [r] ∧ .zero < r.time := by
  obtain ⟨c, hc, h⟩ := Attempt.bind_eq_ok.mp h
  obtain ⟨c', hc', h⟩ := Attempt.bind_eq_ok.mp h
  obtain ⟨rfl, -⟩ := Clock.new_eq_ok hc
  obtain ⟨rfl, -, -⟩ := Clock.setRatio_fromPowerOn hc'
  obtain ⟨first, hfirst, h⟩ := Attempt.bind_eq_ok.mp h
  cases h
  have hzero : Instant.zero.ticks = grid num den 0 := (Clock.grid_zero num den).symm
  rw [Clock.timeAfter_fromPowerOn hfirst]
  exact ⟨⟨rfl, Nat.le_of_eq hzero.symm, rfl⟩, hs.lt_next Instant.early_zero hzero⟩

theorem wake_of_ok {c : Clock} {next : Instant} (hforward : f.clock.forward 1 = .ok c)
    (hnow : c.time = .ok t) (hcount : Word.add f.frames 1 = .ok (f.frames + 1))
    (hnext : c.timeAfter 1 = .ok next) :
    FrameTimer.wake t f = .ok ⟨next, frameEnd⟩ ⟨c, f.frames + 1⟩ := by
  let f₁ : FrameTimer := ⟨c, f.frames⟩
  let f₂ : FrameTimer := ⟨c, f.frames + 1⟩
  have hmove : Run.update (fun f : FrameTimer => return { f with clock := (← f.clock.forward 1) })
      f = .ok () f₁ := Run.update_eq_ok.mpr (Attempt.bind_eq_ok.mpr ⟨_, hforward, rfl⟩)
  have hread : Run.read (fun f : FrameTimer => f.clock.time) f₁ = .ok t f₁ :=
    Run.read_eq_ok.mpr ⟨hnow, rfl⟩
  have hmatch : (Run.demand (t == t) .frameMismatch : Run FrameTimer Unit) f₁ = .ok () f₁ :=
    Run.demand_eq_ok.mpr ⟨beq_self_eq_true t, rfl⟩
  have hadd : Run.update (fun f : FrameTimer => return { f with frames := (← Word.add f.frames 1) })
      f₁ = .ok () f₂ := Run.update_eq_ok.mpr (Attempt.bind_eq_ok.mpr ⟨_, hcount, rfl⟩)
  have hafter : Run.read (fun f : FrameTimer => f.clock.timeAfter 1) f₂ = .ok next f₂ :=
    Run.read_eq_ok.mpr ⟨hnext, rfl⟩
  rw [FrameTimer.wake, Run.bind_of_ok hmove, Run.bind_of_ok hread, Run.bind_of_ok hmatch,
    Run.bind_of_ok hadd, Run.bind_of_ok hafter]
  rfl

theorem wake_eq_ok (hc : f.clock = fromPowerOn num den f.frames)
    (hw : FrameTimer.wake t f = .ok r f') :
    f' = ⟨fromPowerOn num den (f.frames + 1), f.frames + 1⟩ ∧
      t = .wrap (grid num den (f.frames + 1)) ∧
      r = ⟨.wrap (grid num den (f.frames + 1 + 1)), frameEnd⟩ := by
  obtain ⟨_, f₁, hforward, hrest⟩ := Run.bind_eq_ok.mp hw
  obtain ⟨c, hc₁, hf₁⟩ := Attempt.bind_eq_ok.mp (Run.update_eq_ok.mp hforward)
  rw [hc] at hc₁
  cases hf₁
  cases Clock.forward_fromPowerOn hc₁
  obtain ⟨now, f₂, hread, hrest⟩ := Run.bind_eq_ok.mp hrest
  obtain ⟨hnow, rfl⟩ := Run.read_eq_ok.mp hread
  rw [Clock.time_fromPowerOn] at hnow
  cases hnow
  obtain ⟨_, f₃, hdemand, hrest⟩ := Run.bind_eq_ok.mp hrest
  obtain ⟨hmatch, rfl⟩ := Run.demand_eq_ok.mp hdemand
  obtain ⟨_, f₄, hcount, hrest⟩ := Run.bind_eq_ok.mp hrest
  obtain ⟨n, hn, hf₄⟩ := Attempt.bind_eq_ok.mp (Run.update_eq_ok.mp hcount)
  cases hf₄
  cases Word.eq_of_add_eq_ok hn
  obtain ⟨next, f₅, hafter, hrest⟩ := Run.bind_eq_ok.mp hrest
  obtain ⟨hnext, rfl⟩ := Run.read_eq_ok.mp hafter
  cases hrest
  exact ⟨rfl, (beq_iff_eq.mp hmatch).symm, by rw [Clock.timeAfter_fromPowerOn hnext]⟩

namespace InStep

theorem later (h : InStep num den now f wanted) (hle : now.ticks ≤ t.ticks) :
    InStep num den t f wanted := ⟨h.clock, Nat.le_trans h.passed hle, h.wanted⟩

theorem length_le (h : InStep num den now f wanted) : wanted.length ≤ 1 := by
  rw [h.wanted]
  exact Nat.le_refl 1

theorem wake {q : Request} (hs : Steady num den) (h : InStep num den t f wanted) (ht : t.Early)
    (hw : FrameTimer.wake t f = .ok q f') : InStep num den t f' [q] ∧ t < q.time := by
  obtain ⟨rfl, hnow, rfl⟩ := wake_eq_ok h.clock hw
  have hexact := hs.next_exact ht h.passed
  have hticks : t.ticks = grid num den (f.frames + 1) := by
    rw [hnow, Instant.wrap_ticks (by omega)]
  exact ⟨⟨rfl, Nat.le_of_eq hticks.symm, rfl⟩, hs.lt_next ht hticks⟩

/-- Every frame is counted that ends up to now. -/
theorem frames_eq (hs : Steady num den) (h : InStep num den now f wanted) (hnow : now.Early)
    (hahead : ∀ q ∈ wanted, q.time ≠ .asap → now < q.time) :
    (f.frames : ℕ∞) = {n | 1 ≤ n ∧ grid num den n ≤ now.ticks}.encard := by
  have hnext := hahead ⟨.wrap (grid num den (f.frames + 1)), frameEnd⟩
  rw [h.wanted] at hnext
  exact (hs.encard_passed hnow h.passed (hnext List.mem_cons_self)).symm

end InStep
end Timebase.FrameTimer
