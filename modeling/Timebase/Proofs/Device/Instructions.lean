import Timebase.Proofs.Device.DemoCpu
import Timebase.Proofs.Rates
import Timebase.Proofs.TickLookup

/-!
# Instructions that fit into a budget

The demo CPU turns a budget of master ticks into cycles of its clock, these into whole instructions,
and those into master ticks again. Its clock is exact both ways, so no whole instruction that fits
is left out, and none ends at another instant because of the budgets that there were before.
-/

namespace Timebase.DemoCpu

open Clock (Accepted)

variable {t : Instant} {freq perInstr budget n k : Nat} {cpu cpu₀ : DemoCpu}

/-- Exact instant, in master ticks, at which a CPU has executed `n` instructions. -/
def endOf (t : Instant) (freq perInstr n : Nat) : Nat := t.ticks + n * perInstr * mainFreq / freq

/-- The CPU that has executed `n` whole instructions. -/
def executed (t : Instant) (freq perInstr n : Nat) : DemoCpu :=
  ⟨⟨t, n * perInstr, freq, 1⟩, perInstr, n⟩

/-- What is left behind by any budgets, also by those that come to no result. -/
inductive Fed (cpu₀ : DemoCpu) : DemoCpu → Prop where
  | made : Fed cpu₀ cpu₀
  | ticked {cpu : DemoCpu} (budget : Nat) (h : Fed cpu₀ cpu) : Fed cpu₀ ((tick budget).after cpu)

/-- What a CPU makes of its budgets after `n` instructions of so many cycles each. -/
structure FillsBudgets (t : Instant) (freq perInstr n : Nat) (cpu : DemoCpu) : Prop where
  counted : cpu.instructions = n
  /-- No error adds up: the clock is where that many instructions end. -/
  clock : endOf t freq perInstr n < UInt64.size - 1 →
    ∃ now, cpu.clock.time = .ok now ∧ now.ticks = t.ticks + ⌊(n * perInstr * mainFreq / freq : ℚ)⌋₊
  refused : ∀ budget, 1 ≤ budget → budget < 9223372036854775808 →
    endOf t freq perInstr n < UInt64.size - 1 →
    ¬ endOf t freq perInstr n + budget < Instant.never.ticks →
      tick budget cpu = .error (.fault (.refused (.time .overflow))) cpu
  /-- As many more are executed as end within the budget, or a single one. -/
  executes : ∀ budget, 1 ≤ budget → budget < 9223372036854775808 →
    endOf t freq perInstr n + budget < Instant.never.ticks →
      ∃ k, IsGreatest {k | endOf t freq perInstr (n + k) ≤ endOf t freq perInstr n + budget} k ∧
        (endOf t freq perInstr (n + max 1 k) < UInt64.size - 1 →
          endOf t freq perInstr (n + max 1 k) - endOf t freq perInstr n < 9223372036854775808 →
            1 ≤ endOf t freq perInstr (n + max 1 k) - endOf t freq perInstr n ∧
              ∃ cpu', tick budget cpu =
                  .ok (endOf t freq perInstr (n + max 1 k) - endOf t freq perInstr n) cpu' ∧
                cpu'.instructions = n + max 1 k ∧ Fed cpu cpu')

/-- The last part of a step: a number of instructions, and how long they took. -/
def execute (start : Instant) (instrs : Nat) : Run DemoCpu Nat := do
  let perInstr := (← get).cyclesPerInstr
  Run.update fun c => do
    return { c with clock := (← c.clock.forward (← Word.multiply instrs perInstr)) }
  Run.update fun c => return { c with instructions := (← Word.add c.instructions instrs) }
  let reached ← Run.read fun c => c.clock.time
  return Word.ofInt (← reached.since start).ticks

theorem tick_of_start {start : Instant} (h : cpu.clock.time = .ok start) :
    tick budget cpu =
      match start.addChecked (.wrap budget) with
      | .error cause => .error (.fault cause) cpu
      | .ok target =>
        match cpu.clock.ticksTill target with
        | .error cause => .error (.fault cause) cpu
        | .ok cycles => execute start (max (cycles / cpu.cyclesPerInstr) 1) cpu := by
  have hstart : (Run.read fun c : DemoCpu => c.clock.time) cpu = .ok start cpu :=
    Run.read_eq_ok.mpr ⟨h, rfl⟩
  refine (Run.bind_of_ok hstart).trans ?_
  cases start.addChecked (.wrap budget) with
  | error cause => exact Run.bind_of_error rfl
  | ok target =>
    refine (Run.bind_of_ok (Run.lift_eq_ok.mpr ⟨rfl, rfl⟩)).trans ?_
    dsimp only
    have hlook : (Run.read fun c : DemoCpu => c.clock.ticksTill target) cpu =
        Run.lift (cpu.clock.ticksTill target) cpu := rfl
    cases hcycles : cpu.clock.ticksTill target with
    | error cause =>
      rw [hcycles] at hlook
      exact Run.bind_of_error hlook
    | ok cycles =>
      rw [hcycles] at hlook
      exact (Run.bind_of_ok hlook).trans (Run.get_bind _ _)

theorem after_tick (budget : Nat) (cpu : DemoCpu) :
    (tick budget).after cpu = cpu ∨
      ∃ start k, (tick budget).after cpu = (execute start k).after cpu := by
  cases h : cpu.clock.time with
  | error cause => exact Or.inl (Run.after_of_error (Run.bind_of_error (Run.read_of_error h)))
  | ok start =>
    have htick : tick budget cpu = _ := tick_of_start h
    cases htarget : start.addChecked (.wrap budget) with
    | error cause =>
      simp only [htarget] at htick
      exact Or.inl (Run.after_of_error htick)
    | ok target =>
      cases hcycles : cpu.clock.ticksTill target with
      | error cause =>
        simp only [htarget, hcycles] at htick
        exact Or.inl (Run.after_of_error htick)
      | ok cycles =>
        simp only [htarget, hcycles] at htick
        exact Or.inr ⟨start, _, Run.after_congr htick⟩

/-- What a CPU answers when it is done. -/
def took (start : Instant) : Run DemoCpu Nat := do
  let reached ← Run.read fun c => c.clock.time
  return Word.ofInt (← reached.since start).ticks

theorem execute_of_forward {clock : Clock} (hpos : 0 < perInstr) (start : Instant)
    (h : (do (executed t freq perInstr n).clock.forward (← Word.multiply k perInstr)) = .ok clock) :
    execute start k (executed t freq perInstr n) =
      took start (executed t freq perInstr (n + k)) := by
  obtain ⟨cycles, hcycles, hforward⟩ := Attempt.bind_eq_ok.mp h
  cases Word.eq_of_multiply_eq_ok hcycles
  obtain ⟨count, hcount, hclock⟩ := Attempt.bind_eq_ok.mp hforward
  have hlt := Word.lt_of_add_eq_ok hcount
  have hsum : count = (n + k) * perInstr :=
    (Word.eq_of_add_eq_ok hcount).trans (Nat.add_mul n k perInstr).symm
  have hmoved : Run.update (fun c : DemoCpu => do
      return { c with clock := (← c.clock.forward (← Word.multiply k perInstr)) })
      (executed t freq perInstr n) = .ok () { executed t freq perInstr n with clock } :=
    Run.update_eq_ok.mpr (Attempt.bind_eq_ok.mpr
      ⟨_, hcycles, Attempt.bind_eq_ok.mpr ⟨_, hforward, rfl⟩⟩)
  cases hclock
  -- there are no more instructions than cycles, so they can be counted as well
  have hle : n + k ≤ (n + k) * perInstr := Nat.le_mul_of_pos_right _ hpos
  have hinstr : Word.add n k = .ok (n + k) := if_pos (by omega)
  have hcounted : Run.update (fun c : DemoCpu => do
      return { c with instructions := (← Word.add c.instructions k) })
      { executed t freq perInstr n with clock := ⟨t, count, freq, 1⟩ } =
        .ok () (executed t freq perInstr (n + k)) := by
    rw [hsum]
    exact Run.update_eq_ok.mpr (Attempt.bind_eq_ok.mpr ⟨_, hinstr, rfl⟩)
  exact (Run.bind_of_ok hmoved).trans (Run.bind_of_ok hcounted)

/-- However a number of instructions comes out, all of them have been executed or none. -/
theorem execute_cases (hpos : 0 < perInstr) (start : Instant) (k : Nat) :
    (∃ cause, execute start k (executed t freq perInstr n) =
        .error (.fault cause) (executed t freq perInstr n)) ∨
      execute start k (executed t freq perInstr n) =
        took start (executed t freq perInstr (n + k)) := by
  let forward : DemoCpu → Attempt DemoCpu := fun c => do
    return { c with clock := (← c.clock.forward (← Word.multiply k perInstr)) }
  cases h : forward (executed t freq perInstr n) with
  | ok cpu =>
    obtain ⟨cycles, hcycles, h⟩ := Attempt.bind_eq_ok.mp h
    obtain ⟨clock, hclock, -⟩ := Attempt.bind_eq_ok.mp h
    exact Or.inr (execute_of_forward hpos start (Attempt.bind_eq_ok.mpr ⟨cycles, hcycles, hclock⟩))
  | error cause =>
    have hleft : Run.update forward (executed t freq perInstr n) =
        .error (.fault cause) (executed t freq perInstr n) := by rw [Run.update, h]
    exact Or.inl ⟨cause, (Run.get_bind _ _).trans (Run.bind_of_error hleft)⟩

theorem after_took (start : Instant) (cpu : DemoCpu) : (took start).after cpu = cpu := by
  have hread := Run.Preserves.read (I := (· = cpu)) fun c : DemoCpu => c.clock.time
  exact hread.bind (fun reached => (Run.Preserves.lift _).bind fun _ => .pure _) cpu rfl

theorem Fed.executed (hpos : 0 < perInstr) (h : Fed (executed t freq perInstr n) cpu) :
    ∃ m, cpu = DemoCpu.executed t freq perInstr m := by
  induction h with
  | made => exact ⟨n, rfl⟩
  | ticked budget _ ih =>
    obtain ⟨m, rfl⟩ := ih
    rcases after_tick budget (DemoCpu.executed t freq perInstr m) with hleft | ⟨start, k, hafter⟩
    · exact ⟨m, hleft⟩
    · have hcases : (∃ cause, execute start k (DemoCpu.executed t freq perInstr m) =
          .error (.fault cause) _) ∨ _ := execute_cases hpos start k
      rcases hcases with ⟨cause, hrun⟩ | hrun
      · exact ⟨m, hafter.trans (Run.after_of_error hrun)⟩
      · refine ⟨m + k, hafter.trans ?_⟩
        rw [Run.after_congr hrun, after_took]

theorem exactTicks_executed (t : Instant) (freq perInstr n m : Nat) :
    (executed t freq perInstr n).clock.exactTicks (m * perInstr) = endOf t freq perInstr m := by
  rw [Clock.exactTicks]
  show t.ticks + Clock.grid freq 1 (m * perInstr) = _
  rw [Clock.grid_one, endOf]

theorem endOf_mono (h : n ≤ k) : endOf t freq perInstr n ≤ endOf t freq perInstr k := by
  rw [← exactTicks_executed t freq perInstr 0, ← exactTicks_executed t freq perInstr 0]
  exact Clock.exactTicks_mono _ (Nat.mul_le_mul_right _ h)

/-- The ticks of a clock are at least one master tick apart, and no instruction has none of them. -/
theorem endOf_lt (hrate : Accepted freq 1) (hpos : 0 < perInstr) (h : n < k) :
    endOf t freq perInstr n < endOf t freq perInstr k := by
  have hlater : n * perInstr + 1 ≤ k * perInstr := Nat.mul_lt_mul_of_pos_right h hpos
  calc endOf t freq perInstr n
      = t.ticks + Clock.grid freq 1 (n * perInstr) := by rw [Clock.grid_one, endOf]
    _ < t.ticks + Clock.grid freq 1 (n * perInstr + 1) := Nat.add_lt_add_left (hrate.grid_lt _) _
    _ ≤ t.ticks + Clock.grid freq 1 (k * perInstr) :=
      Nat.add_le_add_left (Clock.grid_mono hlater) _
    _ = endOf t freq perInstr k := by rw [Clock.grid_one, endOf]

theorem time_executed (h : endOf t freq perInstr n < UInt64.size) :
    (executed t freq perInstr n).clock.time = .ok (.wrap (endOf t freq perInstr n)) := by
  rw [← exactTicks_executed t freq perInstr n n] at h ⊢
  exact Clock.instantOf_of_lt h

theorem took_executed {start : Instant} (hstart : start ≠ .asap)
    (hle : start.ticks ≤ endOf t freq perInstr n) (hend : endOf t freq perInstr n < UInt64.size - 1)
    (hshort : endOf t freq perInstr n - start.ticks < 9223372036854775808) :
    took start (executed t freq perInstr n) =
      .ok (endOf t freq perInstr n - start.ticks) (executed t freq perInstr n) := by
  have hlt : endOf t freq perInstr n < UInt64.size := by omega
  have hreached := Instant.wrap_ticks hlt
  have hsince := Instant.since_of_ne_asap (Instant.wrap_ne_asap hend) hstart
  rw [hreached] at hsince
  have hread : (Run.read fun c : DemoCpu => c.clock.time) (executed t freq perInstr n) =
      .ok (.wrap (endOf t freq perInstr n)) (executed t freq perInstr n) :=
    Run.read_eq_ok.mpr ⟨time_executed hlt, rfl⟩
  refine (Run.bind_of_ok hread).trans ((Run.bind_of_ok (Run.lift_eq_ok.mpr ⟨hsince, rfl⟩)).trans ?_)
  have hexact : Word.ofInt (Span.wrap ((endOf t freq perInstr n : Int) - start.ticks)).ticks =
      endOf t freq perInstr n - start.ticks := by
    rw [Span.wrap_of_range (by omega) (by omega), Word.ofInt,
      Int.emod_eq_of_lt (by omega) (by omega)]
    omega
  show EStateM.Result.ok _ _ = _
  rw [hexact]

/-- A budget leads to a finite instant, or the step is refused. -/
theorem target_cases (h : endOf t freq perInstr n < UInt64.size - 1)
    (hbudget : budget < 9223372036854775808) :
    (∃ target, (Instant.wrap (endOf t freq perInstr n)).addChecked (.wrap budget) = .ok target ∧
        target.isFinite = true ∧ target.ticks = endOf t freq perInstr n + budget) ∨
      (Instant.wrap (endOf t freq perInstr n)).addChecked (.wrap budget) =
          Attempt.refuseTime .overflow ∧
        Instant.never.ticks ≤ endOf t freq perInstr n + budget := by
  have hstart : (Instant.wrap (endOf t freq perInstr n)).ticks = endOf t freq perInstr n :=
    Instant.wrap_ticks (by omega)
  have hspan : (Span.wrap budget).ticks = budget := Span.wrap_of_range (by omega) (by omega)
  rcases Instant.addChecked_cases (Instant.wrap_ne_asap h) (Span.wrap budget) with
    ⟨target, htarget, hfinite, hsum⟩ | ⟨hrefused, hlate⟩
  · exact Or.inl ⟨target, htarget, hfinite, by omega⟩
  · exact Or.inr ⟨hrefused, by omega⟩

section

variable (hrate : Accepted freq 1) (hpos : 0 < perInstr)

include hrate hpos

theorem fitting {target : Instant} (htarget : target ≠ .asap) (hanchor : t ≠ .asap)
    (hpassed : endOf t freq perInstr n ≤ target.ticks) :
    ∃ cycles, (executed t freq perInstr n).clock.ticksTill target = .ok cycles ∧
      IsGreatest {k | endOf t freq perInstr (n + k) ≤ target.ticks} (cycles / perInstr) := by
  rw [← exactTicks_executed t freq perInstr n n] at hpassed
  obtain ⟨cycles, hcycles, -, hlast⟩ := Clock.ticksTill_of_passed
    (c := (executed t freq perInstr n).clock) htarget hrate hanchor hpassed
  have hends (k : Nat) : endOf t freq perInstr (n + k) =
      (executed t freq perInstr n).clock.exactTicks (n * perInstr + k * perInstr) := by
    rw [← Nat.add_mul, exactTicks_executed]
  refine ⟨cycles, hcycles, ?_, ?_⟩
  · have hfits : n * perInstr + cycles / perInstr * perInstr ≤ n * perInstr + cycles :=
      Nat.add_le_add_left (Nat.div_mul_le_self cycles perInstr) _
    calc endOf t freq perInstr (n + cycles / perInstr)
        = (executed t freq perInstr n).clock.exactTicks
            (n * perInstr + cycles / perInstr * perInstr) := hends _
      _ ≤ (executed t freq perInstr n).clock.exactTicks (n * perInstr + cycles) :=
        Clock.exactTicks_mono _ hfits
      _ ≤ target.ticks := hlast.1
  · intro k hk
    have hwithin : endOf t freq perInstr (n + k) ≤ target.ticks := hk
    rw [hends] at hwithin
    exact (Nat.le_div_iff_mul_le hpos).mpr (hlast.2 hwithin)

theorem execute_executed {start : Instant} (hstart : start ≠ .asap)
    (hticks : start.ticks = endOf t freq perInstr n)
    (hend : endOf t freq perInstr (n + k) < UInt64.size - 1)
    (hshort : endOf t freq perInstr (n + k) - endOf t freq perInstr n < 9223372036854775808) :
    execute start k (executed t freq perInstr n) =
      .ok (endOf t freq perInstr (n + k) - endOf t freq perInstr n)
        (executed t freq perInstr (n + k)) := by
  have hcycles : n * perInstr + k * perInstr = (n + k) * perInstr := (Nat.add_mul n k _).symm
  have hlt : (executed t freq perInstr n).clock.exactTicks (n * perInstr + k * perInstr) <
      UInt64.size := by
    rw [hcycles, exactTicks_executed]
    omega
  have hforward := Clock.forward_of_lt (c := (executed t freq perInstr n).clock) hrate hlt
  -- the cycles are no more than the ticks of the clock up to the end, which fit
  have hproduct : Word.multiply k perInstr = .ok (k * perInstr) := by
    have hcount := hrate.le_grid (n * perInstr + k * perInstr)
    have hreach : t.ticks + Clock.grid freq 1 (n * perInstr + k * perInstr) < UInt64.size := hlt
    exact if_pos (by omega)
  have hle : start.ticks ≤ endOf t freq perInstr (n + k) := by
    rw [hticks]
    exact endOf_mono (Nat.le_add_right n k)
  rw [← hticks] at hshort ⊢
  rw [execute_of_forward hpos start (Attempt.bind_eq_ok.mpr ⟨_, hproduct, hforward⟩)]
  exact took_executed hstart hle hend hshort

theorem fillsBudgets_executed (t : Instant) (n : Nat) :
    FillsBudgets t freq perInstr n (executed t freq perInstr n) := by
  -- where the instants can be told, the clock is not anchored at the earliest opportunity
  have hanchor (h : endOf t freq perInstr n < UInt64.size - 1) : t ≠ .asap :=
    Clock.anchor_ne_asap (c := (executed t freq perInstr n).clock) (m := n * perInstr)
      (by rwa [exactTicks_executed])
  constructor
  · rfl
  · intro h
    refine ⟨_, time_executed (by omega), ?_⟩
    rw [Instant.wrap_ticks (by omega), endOf, ← Nat.floor_div_eq_div (K := ℚ)]
    push_cast
    rfl
  · intro budget _ hbudget h hlate
    rw [tick_of_start (time_executed (by omega))]
    rcases target_cases h hbudget with ⟨target, -, hfinite, hsum⟩ | ⟨hrefused, -⟩
    · rw [← hsum] at hlate
      exact absurd (Instant.lt_never_of_isFinite hfinite) hlate
    · rw [hrefused]
      rfl
  · intro budget _ hbudget hfits
    have hnow : endOf t freq perInstr n < UInt64.size - 1 :=
      Nat.lt_of_le_of_lt (Nat.le_add_right _ budget) (Nat.lt_trans hfits (by decide))
    rcases target_cases hnow hbudget with ⟨target, htarget, hfinite, hsum⟩ | ⟨-, hlate⟩
    · obtain ⟨cycles, hcycles, hgreatest⟩ := fitting (n := n) hrate hpos
        (Instant.ne_asap_of_isFinite hfinite) (hanchor hnow) (by omega)
      rw [hsum] at hgreatest
      refine ⟨_, hgreatest, ?_⟩
      intro hend hbrief
      have hlonger := endOf_lt (t := t) hrate hpos
        (show n < n + max 1 (cycles / perInstr) by omega)
      have htick : tick budget (executed t freq perInstr n) =
          .ok (endOf t freq perInstr (n + max 1 (cycles / perInstr)) - endOf t freq perInstr n)
            (executed t freq perInstr (n + max 1 (cycles / perInstr))) := by
        rw [tick_of_start (time_executed (by omega))]
        simp only [htarget, hcycles]
        show execute _ (max (cycles / perInstr) 1) _ = _
        rw [Nat.max_comm]
        exact execute_executed hrate hpos (Instant.wrap_ne_asap hnow)
          (Instant.wrap_ticks (by omega)) hend hbrief
      refine ⟨by omega, _, htick, rfl, ?_⟩
      have hfed := Fed.ticked budget (.made : Fed (executed t freq perInstr n) _)
      rwa [Run.after_of_ok htick] at hfed
    · exact absurd hfits (Nat.not_lt.mpr hlate)

end

theorem new_eq_ok (h : new t freq perInstr = .ok cpu) :
    Accepted freq 1 ∧ cpu = executed t freq (max perInstr 1) 0 := by
  obtain ⟨clock, hclock, h⟩ := Attempt.bind_eq_ok.mp h
  cases h
  obtain ⟨hrate, now, hnow, rfl⟩ := Clock.setRatio_eq_ok.mp hclock
  cases (Clock.time_reset ⟨t, 0, 1, 1⟩ t).symm.trans hnow
  refine ⟨hrate, ?_⟩
  rw [executed, Nat.zero_mul]

/-- A CPU executes the greatest number of whole instructions that fit into each of its budgets,
whatever budgets there have been. -/
theorem instructions_fill_budgets (hnew : new t freq perInstr = .ok cpu₀) (h : Fed cpu₀ cpu) :
    FillsBudgets t freq (max perInstr 1) cpu.instructions cpu := by
  obtain ⟨hrate, rfl⟩ := new_eq_ok hnew
  have hpos : 0 < max perInstr 1 := by omega
  obtain ⟨n, rfl⟩ := h.executed hpos
  exact fillsBudgets_executed hrate hpos t n

/-- Instructions of one and a half master ticks end at 1, 3, 4 and 6: three of them fit into the
first five master ticks. -/
theorem instructions_fill_budgets_three :
    new .zero 2290908800 1 = .ok (executed .zero 2290908800 1 0) ∧
      tick 5 (executed .zero 2290908800 1 0) = .ok 4 (executed .zero 2290908800 1 3) ∧
      FillsBudgets .zero 2290908800 1 3 (executed .zero 2290908800 1 3) := by
  have hnew : new .zero 2290908800 1 = .ok (executed .zero 2290908800 1 0) := rfl
  have htick : tick 5 (executed .zero 2290908800 1 0) = .ok 4 (executed .zero 2290908800 1 3) := rfl
  have hfed := Fed.ticked 5 (.made : Fed (executed .zero 2290908800 1 0) _)
  rw [Run.after_of_ok htick] at hfed
  exact ⟨hnew, htick, instructions_fill_budgets hnew hfed⟩

end Timebase.DemoCpu
