import Timebase.Bench.Cpu
import Timebase.Proofs.Driving

/-!
# The turns of an emulator

Whatever an emulator is told to do, it has wake-ups delivered and lets the CPU take steps, one after
the other. The turns of a call list these, also those of a call that breaks off, each with the rig
that it begins with. A step of the CPU either moves time on by what the CPU took, or the call breaks
off there.
-/

namespace Timebase

namespace Emulator

variable {κ : Type}

theorem runCpu_cases (tick : Tick κ) (budget : Nat) (e : Emulator κ) :
    (∃ halt cpu, tick (max budget 1) e.cpu = .error halt cpu ∧
      runCpu tick budget e = .error halt { e with cpu }) ∨
    (∃ cpu, tick (max budget 1) e.cpu = .ok 0 cpu ∧
      runCpu tick budget e = .error (.fault (.refused (.noProgress e.time))) { e with cpu }) ∨
    (∃ used cpu cause, tick (max budget 1) e.cpu = .ok used cpu ∧ used ≠ 0 ∧
      e.time.addChecked (Span.wrap used) = .error cause ∧
      runCpu tick budget e = .error (.fault cause) { e with cpu }) ∨
    ∃ used cpu time, tick (max budget 1) e.cpu = .ok used cpu ∧ used ≠ 0 ∧
      e.time.addChecked (Span.wrap used) = .ok time ∧
      runCpu tick budget e = .ok () ⟨cpu, time, e.steps + 1⟩ := by
  cases htick : tick (max budget 1) e.cpu with
  | error halt cpu =>
    exact Or.inl ⟨halt, cpu, rfl, Run.bind_of_error (Run.on_of_error htick)⟩
  | ok used cpu =>
    have hrun : runCpu tick budget e = _ := Run.bind_of_ok (Run.on_of_ok htick)
    have hrun : runCpu tick budget e = (do
        if used = 0 then Run.refuse (.noProgress e.time)
        let time ← e.time.addChecked (Span.wrap used)
        modify fun e => { e with time, steps := e.steps + 1 } : Run (Emulator κ) Unit)
          { e with cpu } := hrun
    refine Or.inr ?_
    by_cases hused : used = 0
    · rw [if_pos hused] at hrun
      exact Or.inl ⟨cpu, by rw [hused], hrun⟩
    · rw [if_neg hused] at hrun
      refine Or.inr ?_
      cases hsum : e.time.addChecked (Span.wrap used) with
      | error cause =>
        rw [hsum] at hrun
        exact Or.inl ⟨used, cpu, cause, rfl, hused, hsum, hrun⟩
      | ok time =>
        rw [hsum] at hrun
        exact Or.inr ⟨used, cpu, time, rfl, hused, hsum, hrun⟩

end Emulator

namespace Rig

variable {κ σ : Type}

/-- What an emulator does at a time. -/
inductive Turn where
  | catchUp
  | runCpu (budget : Nat)
  deriving DecidableEq

def Turn.run (d : Driver κ σ) : Turn → Run (Rig κ σ) Unit
  | .catchUp => Rig.catchUp d
  | .runCpu budget => onEmulator (Emulator.runCpu d.tick budget)

/-- A turn and the rig that it begins with. -/
structure Stage (κ σ : Type) where
  turn : Turn
  rig : Rig κ σ

variable (d : Driver κ σ)

/-- The turns of one round of a loop, given those of the rounds after it. -/
def roundTurns (limit : Instant) (later : Rig κ σ → List (Stage κ σ)) (r : Rig κ σ) :
    List (Stage κ σ) :=
  ⟨.catchUp, r⟩ ::
    match catchUp d r with
    | .error _ _ => []
    | .ok _ r =>
      if limit ≤ r.emulator.time then []
      else
        match budget limit r with
        | .error _ => []
        | .ok ticks =>
          ⟨.runCpu ticks, r⟩ ::
            match onEmulator (Emulator.runCpu d.tick ticks) r with
            | .error _ _ => []
            | .ok _ r => later r

/-- The turns of a loop up to a limit. -/
def loopTurns (limit : Instant) : Nat → Rig κ σ → List (Stage κ σ)
  | 0, _ => []
  | turns + 1, r => roundTurns d limit (loopTurns limit turns) r

def untilTurns (turns : Nat) (limit : Instant) (r : Rig κ σ) : List (Stage κ σ) :=
  if limit.isFinite then loopTurns d limit turns r else []

def stepTurns (r : Rig κ σ) : List (Stage κ σ) :=
  ⟨.runCpu 1, r⟩ ::
    match onEmulator (Emulator.runCpu d.tick 1) r with
    | .error _ _ => []
    | .ok _ r => [⟨.catchUp, r⟩]

/-- The turns of a call. -/
def callTurns (turns : Nat) (r : Rig κ σ) : Drive → List (Stage κ σ)
  | .runUntil limit => untilTurns d turns limit r
  | .runFor span =>
    match r.emulator.time.addChecked span with
    | .ok limit => untilTurns d turns limit r
    | .error _ => []
  | .step => stepTurns d r

/-- Turns that follow from a rig one by one, and what comes out in the end. -/
inductive Course : Rig κ σ → List (Stage κ σ) → EStateM.Result Halt (Rig κ σ) Unit → Prop where
  | ended (r : Rig κ σ) : Course r [] (.ok () r)
  | refused (halt : Halt) (r : Rig κ σ) : Course r [] (.error halt r)
  | broken (turn : Turn) {halt : Halt} {r r' : Rig κ σ} (h : turn.run d r = .error halt r') :
      Course r [⟨turn, r⟩] (.error halt r')
  | next (turn : Turn) {r r' : Rig κ σ} {stages : List (Stage κ σ)}
      {result : EStateM.Result Halt (Rig κ σ) Unit} (h : turn.run d r = .ok () r')
      (rest : Course r' stages result) : Course r (⟨turn, r⟩ :: stages) result

/-- What may come of a loop that has a turn left. -/
inductive LoopTurn (limit : Instant) (turns : Nat) (r : Rig κ σ) : Prop where
  | broken (halt : Halt) (r₁ : Rig κ σ) (caught : catchUp d r = .error halt r₁)
      (stages : loopTurns d limit (turns + 1) r = [⟨.catchUp, r⟩])
      (result : runLoop d limit (turns + 1) r = .error halt r₁)
  | reached (r₁ : Rig κ σ) (caught : catchUp d r = .ok () r₁) (there : limit ≤ r₁.emulator.time)
      (stages : loopTurns d limit (turns + 1) r = [⟨.catchUp, r⟩])
      (result : runLoop d limit (turns + 1) r = .ok () r₁)
  | unbudgeted (r₁ : Rig κ σ) (cause : Fault) (caught : catchUp d r = .ok () r₁)
      (before : ¬ limit ≤ r₁.emulator.time) (refused : budget limit r₁ = .error cause)
      (stages : loopTurns d limit (turns + 1) r = [⟨.catchUp, r⟩])
      (result : runLoop d limit (turns + 1) r = .error (.fault cause) r₁)
  | halted (r₁ : Rig κ σ) (ticks : Nat) (halt : Halt) (r₂ : Rig κ σ)
      (caught : catchUp d r = .ok () r₁) (before : ¬ limit ≤ r₁.emulator.time)
      (budgeted : budget limit r₁ = .ok ticks)
      (ran : onEmulator (Emulator.runCpu d.tick ticks) r₁ = .error halt r₂)
      (stages : loopTurns d limit (turns + 1) r = [⟨.catchUp, r⟩, ⟨.runCpu ticks, r₁⟩])
      (result : runLoop d limit (turns + 1) r = .error halt r₂)
  | wentOn (r₁ : Rig κ σ) (ticks : Nat) (r₂ : Rig κ σ)
      (caught : catchUp d r = .ok () r₁) (before : ¬ limit ≤ r₁.emulator.time)
      (budgeted : budget limit r₁ = .ok ticks)
      (ran : onEmulator (Emulator.runCpu d.tick ticks) r₁ = .ok () r₂)
      (stages : loopTurns d limit (turns + 1) r =
        ⟨.catchUp, r⟩ :: ⟨.runCpu ticks, r₁⟩ :: loopTurns d limit turns r₂)
      (result : runLoop d limit (turns + 1) r = runLoop d limit turns r₂)

/-- What comes of a step of the CPU. -/
inductive CpuTurn (budget : Nat) (r : Rig κ σ) : Prop where
  /-- Time moves on by what the CPU took. -/
  | accepted (used : Nat) (cpu : κ) (time : Instant)
      (took : d.tick (max budget 1) r.emulator.cpu = .ok used cpu) (some : 1 ≤ used)
      (finite : time.isFinite = true)
      (exact : used < 9223372036854775808 → time.ticks = r.emulator.time.ticks + used)
      (moved : onEmulator (Emulator.runCpu d.tick budget) r =
        .ok () ⟨⟨cpu, time, r.emulator.steps + 1⟩, r.world⟩)
  /-- It breaks off with the time and the steps that there were. -/
  | broken (halt : Halt) (cpu : κ)
      (broke : onEmulator (Emulator.runCpu d.tick budget) r =
        .error halt { r with emulator := { r.emulator with cpu } })
      (reason : d.tick (max budget 1) r.emulator.cpu = .error halt cpu ∨
        ∃ used, d.tick (max budget 1) r.emulator.cpu = .ok used cpu ∧
          (used = 0 ∧ halt = .fault (.refused (.noProgress r.emulator.time)) ∨
            1 ≤ used ∧ (r.emulator.time ≠ .asap → halt = .fault (.refused (.time .overflow)) ∧
              (used < 9223372036854775808 →
                Instant.never.ticks ≤ r.emulator.time.ticks + used))))

/-- Whether the CPU claims at this turn to have taken less than half of all the ticks there are. -/
def Stage.isMeasured (s : Stage κ σ) : Bool :=
  match s.turn with
  | .catchUp => true
  | .runCpu budget =>
    match d.tick (max budget 1) s.rig.emulator.cpu with
    | .ok used _ => decide (used < 9223372036854775808)
    | .error _ _ => true

/-- The turns of an emulator that is told one thing after the other, whether it does them or breaks
off. In between anything may happen to the CPU and to the world. -/
inductive Career : Rig κ σ → List (Stage κ σ) → Rig κ σ → Prop where
  | rest (r : Rig κ σ) : Career r [] r
  | call {r r' : Rig κ σ} {stages : List (Stage κ σ)} (turns : Nat) (order : Drive)
      (later : Career ((follow d turns order).after r) stages r') :
      Career r (callTurns d turns r order ++ stages) r'
  | meanwhile {r r' : Rig κ σ} {stages : List (Stage κ σ)} (cpu : κ) (world : World σ)
      (later : Career ⟨{ r.emulator with cpu }, world⟩ stages r') : Career r stages r'

/-- The rig that a call leaves behind. -/
def leftBehind : EStateM.Result Halt (Rig κ σ) Unit → Rig κ σ
  | .ok _ r => r
  | .error _ r => r

variable {d} {r r' : Rig κ σ} {rs : List (Rig κ σ)} {limit : Instant} {turns budget : Nat}
  {s : Stage κ σ} {stages : List (Stage κ σ)} {result : EStateM.Result Halt (Rig κ σ) Unit}

theorem loopTurn (d : Driver κ σ) (limit : Instant) (turns : Nat) (r : Rig κ σ) :
    LoopTurn d limit turns r := by
  have hturns : loopTurns d limit (turns + 1) r =
      roundTurns d limit (loopTurns d limit turns) r := rfl
  rw [roundTurns] at hturns
  have hrun := runLoop_succ d limit turns r
  cases hcatch : catchUp d r with
  | error halt r₁ =>
    simp only [hcatch] at hturns hrun
    exact .broken halt r₁ hcatch hturns hrun
  | ok _ r₁ =>
    simp only [hcatch] at hturns hrun
    by_cases hl : limit ≤ r₁.emulator.time
    · simp only [if_pos hl] at hturns hrun
      exact .reached r₁ hcatch hl hturns hrun
    · simp only [if_neg hl] at hturns hrun
      cases hb : Rig.budget limit r₁ with
      | error cause =>
        simp only [hb, Run.bind_of_error (Run.read_of_error hb)] at hturns hrun
        exact .unbudgeted r₁ cause hcatch hl hb hturns hrun
      | ok ticks =>
        simp only [hb, Run.bind_of_ok (Run.read_eq_ok.mpr ⟨hb, rfl⟩)] at hturns hrun
        cases hcpu : onEmulator (Emulator.runCpu d.tick ticks) r₁ with
        | error halt r₂ =>
          simp only [hcpu] at hturns hrun
          exact .halted r₁ ticks halt r₂ hcatch hl hb hcpu hturns hrun
        | ok _ r₂ =>
          simp only [hcpu] at hturns hrun
          exact .wentOn r₁ ticks r₂ hcatch hl hb hcpu hturns hrun

/-- The turns of a loop lead to what comes out of it. -/
theorem runLoop_course (d : Driver κ σ) (limit : Instant) (turns : Nat) (r : Rig κ σ) :
    Course d r (loopTurns d limit turns r) (runLoop d limit turns r) := by
  induction turns generalizing r with
  | zero => exact .refused .starved r
  | succ turns ih =>
    cases loopTurn d limit turns r with
    | broken halt r₁ hcatch hstages hresult =>
      rw [hstages, hresult]
      exact .broken .catchUp hcatch
    | reached r₁ hcatch _ hstages hresult =>
      rw [hstages, hresult]
      exact .next .catchUp hcatch (.ended r₁)
    | unbudgeted r₁ cause hcatch _ _ hstages hresult =>
      rw [hstages, hresult]
      exact .next .catchUp hcatch (.refused _ r₁)
    | halted r₁ ticks halt r₂ hcatch _ _ hcpu hstages hresult =>
      rw [hstages, hresult]
      exact .next .catchUp hcatch (.broken (.runCpu ticks) hcpu)
    | wentOn r₁ ticks r₂ hcatch _ _ hcpu hstages hresult =>
      rw [hstages, hresult]
      exact .next .catchUp hcatch (.next (.runCpu ticks) hcpu (ih r₂))

theorem runFor_apply (d : Driver κ σ) (turns : Nat) (span : Span) (r : Rig κ σ) :
    runFor d turns span r =
      match r.emulator.time.addChecked span with
      | .ok limit => runUntil d turns limit r
      | .error cause => .error (.fault cause) r := by
  show (Run.lift (r.emulator.time.addChecked span) >>= fun limit => runUntil d turns limit) r = _
  cases r.emulator.time.addChecked span with
  | ok limit => exact Run.bind_of_ok rfl
  | error cause => exact Run.bind_of_error rfl

theorem runUntil_course (d : Driver κ σ) (turns : Nat) (limit : Instant) (r : Rig κ σ) :
    Course d r (untilTurns d turns limit r) (runUntil d turns limit r) := by
  cases hf : limit.isFinite with
  | true =>
    rw [untilTurns, runUntil, hf]
    exact runLoop_course d limit turns r
  | false =>
    rw [untilTurns, runUntil, hf]
    exact .refused _ r

theorem follow_course (d : Driver κ σ) (turns : Nat) (order : Drive) (r : Rig κ σ) :
    Course d r (callTurns d turns r order) (follow d turns order r) := by
  cases order with
  | runUntil limit => exact runUntil_course d turns limit r
  | runFor span =>
    rw [callTurns, follow, runFor_apply]
    cases r.emulator.time.addChecked span with
    | ok limit => exact runUntil_course d turns limit r
    | error cause => exact .refused _ r
  | step =>
    rw [callTurns, stepTurns, follow, step]
    cases hcpu : onEmulator (Emulator.runCpu d.tick 1) r with
    | error halt r₁ =>
      rw [Run.bind_of_error hcpu]
      exact .broken (.runCpu 1) hcpu
    | ok _ r₁ =>
      rw [Run.bind_of_ok hcpu]
      refine .next (.runCpu 1) hcpu ?_
      cases hcatch : catchUp d r₁ with
      | error halt r₂ => exact .broken .catchUp hcatch
      | ok _ r₂ => exact .next .catchUp hcatch (.ended r₂)

theorem emulator_after_catchUp (d : Driver κ σ) (r : Rig κ σ) :
    ((catchUp d).after r).emulator = r.emulator := by
  have h : catchUp d r = onWorld (d.schedule r.emulator.time) r := rfl
  rw [Run.after_congr h, onWorld, Run.after_on]
  rfl

theorem world_after_catchUp (d : Driver κ σ) (r : Rig κ σ) :
    ((catchUp d).after r).world = (d.schedule r.emulator.time).after r.world := by
  have h : catchUp d r = onWorld (d.schedule r.emulator.time) r := rfl
  rw [Run.after_congr h, onWorld, Run.after_on]
  rfl

theorem leftBehind_apply (act : Run (Rig κ σ) Unit) (r : Rig κ σ) :
    leftBehind (act r) = act.after r := by
  rw [leftBehind.eq_def, Run.after]
  cases act r <;> rfl

namespace Course

/-- What deliveries keep, whatever comes of them, a call keeps whatever comes of it. -/
theorem keeps {K : World σ → Prop} (hd : ∀ limit, Run.Preserves K (d.schedule limit))
    (course : Course d r stages result) (h : K r.world) : K (leftBehind result).world := by
  have hturn (turn : Turn) (r : Rig κ σ) (h : K r.world) : K ((turn.run d).after r).world := by
    cases turn with
    | catchUp =>
      show K ((catchUp d).after r).world
      rw [world_after_catchUp]
      exact hd _ _ h
    | runCpu budget =>
      show K ((onEmulator (Emulator.runCpu d.tick budget)).after r).world
      rw [onEmulator, Run.after_on]
      exact h
  induction course with
  | ended | refused => exact h
  | broken turn hrun =>
    have hkept := hturn turn _ h
    rwa [Run.after_of_error hrun] at hkept
  | next turn hrun _ ih =>
    have hkept := hturn turn _ h
    rw [Run.after_of_ok hrun] at hkept
    exact ih hkept

theorem outcome (course : Course d r stages result) (hs : s ∈ stages) :
    (∃ r', s.turn.run d s.rig = .ok () r') ∨
      ∃ halt r', s.turn.run d s.rig = .error halt r' ∧ result = .error halt r' := by
  induction course with
  | ended | refused => cases hs
  | broken _ h =>
    rw [List.mem_singleton.mp hs]
    exact Or.inr ⟨_, _, h, rfl⟩
  | next _ h _ ih =>
    rcases List.mem_cons.mp hs with rfl | hs
    · exact Or.inl ⟨_, h⟩
    · exact ih hs

end Course

theorem cpuTurn (d : Driver κ σ) (budget : Nat) (r : Rig κ σ) : CpuTurn d budget r := by
  rcases Emulator.runCpu_cases d.tick budget r.emulator with
    ⟨halt, cpu, htick, hrun⟩ | ⟨cpu, htick, hrun⟩ |
    ⟨used, cpu, cause, htick, hused, hsum, hrun⟩ | ⟨used, cpu, time, htick, hused, hsum, hrun⟩
  · exact .broken halt cpu (Run.on_of_error hrun) (Or.inl htick)
  · exact .broken _ cpu (Run.on_of_error hrun) (Or.inr ⟨0, htick, Or.inl ⟨rfl, rfl⟩⟩)
  · refine .broken _ cpu (Run.on_of_error hrun)
      (Or.inr ⟨used, htick, Or.inr ⟨by omega, fun ht => ?_⟩⟩)
    rcases Instant.addChecked_cases ht (Span.wrap used) with ⟨time, h, -⟩ | ⟨h, hfar⟩
    · rw [h] at hsum
      cases hsum
    · rw [h] at hsum
      cases hsum
      refine ⟨rfl, fun hsmall => ?_⟩
      rw [Span.wrap_of_range (by omega) (by omega)] at hfar
      omega
  · obtain ⟨-, hfinite, hticks⟩ := Instant.addChecked_eq_ok hsum
    refine .accepted used cpu time htick (by omega) hfinite ?_ (Run.on_of_ok hrun)
    intro hsmall
    rw [Span.wrap_of_range (by omega) (by omega)] at hticks
    omega

theorem preserves_follow {K : World σ → Prop} (hd : ∀ limit, Run.Preserves K (d.schedule limit))
    (turns : Nat) (order : Drive) : Run.Preserves (fun r => K r.world) (follow d turns order) := by
  intro r h
  rw [← leftBehind_apply]
  exact (follow_course d turns order r).keeps hd h

/-- A turn never moves time back unless the CPU claims to have taken ever so long. -/
private theorem time_le_turn (h : s.isMeasured d = true) :
    s.rig.emulator.time ≤ ((s.turn.run d).after s.rig).emulator.time := by
  rcases s with ⟨_ | budget, r⟩
  · show _ ≤ ((catchUp d).after r).emulator.time
    rw [emulator_after_catchUp]
    exact Instant.le_refl _
  · show _ ≤ ((onEmulator (Emulator.runCpu d.tick budget)).after r).emulator.time
    cases cpuTurn d budget r with
    | broken _ _ hbroke _ =>
      rw [Run.after_of_error hbroke]
      exact Instant.le_refl _
    | accepted used cpu time htook _ hfinite hexact hmoved =>
      simp only [Stage.isMeasured, htook, decide_eq_true_eq] at h
      have hticks := hexact h
      rw [Run.after_of_ok hmoved]
      show r.emulator.time ≤ time
      exact Instant.le_of_ticks_le (Instant.ne_asap_of_isFinite hfinite) (by omega)

/-- The times at which turns begin, and then the time of a rig. -/
def times (stages : List (Stage κ σ)) (last : Rig κ σ) : List Instant :=
  stages.map (fun s => s.rig.emulator.time) ++ [last.emulator.time]

private theorem sorted_pair (t : Instant) : [t, t].Pairwise (· ≤ ·) :=
  .cons (List.forall_mem_singleton.mpr (Instant.le_refl t)) (List.pairwise_singleton _ t)

private theorem sorted_of_le {a b : Instant} {ts : List Instant} (h : a ≤ b)
    (hts : (b :: ts).Pairwise (· ≤ ·)) : (a :: a :: ts).Pairwise (· ≤ ·) := by
  obtain ⟨hb, hrest⟩ := List.pairwise_cons.mp hts
  have ha : ∀ t ∈ ts, a ≤ t := fun t ht => Instant.le_trans h (hb t ht)
  exact .cons (List.forall_mem_cons.mpr ⟨Instant.le_refl a, ha⟩) (.cons ha hrest)

private theorem sorted_append {t : Instant} (before : List Instant) {behind : List Instant}
    (hbefore : (before ++ [t]).Pairwise (· ≤ ·)) (hbehind : (t :: behind).Pairwise (· ≤ ·)) :
    (before ++ behind).Pairwise (· ≤ ·) := by
  obtain ⟨hsorted, -, hle⟩ := List.pairwise_append.mp hbefore
  obtain ⟨hge, hsorted'⟩ := List.pairwise_cons.mp hbehind
  refine List.pairwise_append.mpr ⟨hsorted, hsorted', fun a ha b hb => ?_⟩
  exact Instant.le_trans (hle a ha t (List.mem_singleton_self t)) (hge b hb)

theorem Course.times_sorted (course : Course d r stages result)
    (h : ∀ s ∈ stages, s.isMeasured d = true) :
    (r.emulator.time :: times stages (leftBehind result)).Pairwise (· ≤ ·) := by
  induction course with
  | ended r | refused _ r => exact sorted_pair r.emulator.time
  | broken _ hrun =>
    have hle := time_le_turn (h _ (List.mem_singleton_self _))
    rw [Run.after_of_error hrun] at hle
    exact sorted_of_le hle (sorted_pair _)
  | next _ hrun _ ih =>
    obtain ⟨hfirst, hrest⟩ := List.forall_mem_cons.mp h
    have hle := time_le_turn hfirst
    rw [Run.after_of_ok hrun] at hle
    exact sorted_of_le hle (ih hrest)

/-- Over all that an emulator is ever told, time moves on from turn to turn. -/
theorem Career.times_sorted (career : Career d r stages r') (h : ∀ s ∈ stages, s.isMeasured d = true) :
    (r.emulator.time :: times stages r').Pairwise (· ≤ ·) := by
  induction career with
  | rest r => exact sorted_pair r.emulator.time
  | @call r r' stages turns order _ ih =>
    obtain ⟨hcall, hlater⟩ := List.forall_mem_append.mp h
    have hfirst := (follow_course d turns order r).times_sorted hcall
    rw [leftBehind_apply] at hfirst
    have hall := sorted_append (r.emulator.time :: _) hfirst (ih hlater)
    rw [times, List.map_append, List.append_assoc]
    exact hall
  | meanwhile cpu world _ ih => exact ih h

/-- Every step of the CPU that an emulator accepts moves time on by just what the CPU took; at any
other the call breaks off with the time and the steps that there were. So time never goes back as
long as no step is said to have taken half of all the ticks that there are. -/
theorem cpu_time_moves_on (d : Driver κ σ) (turns : Nat) (order : Drive) (r : Rig κ σ) :
    Course d r (callTurns d turns r order) (follow d turns order r) ∧
    (∀ budget r₁, ⟨.runCpu budget, r₁⟩ ∈ callTurns d turns r order →
      CpuTurn d budget r₁ ∧
      ∀ halt r₂, onEmulator (Emulator.runCpu d.tick budget) r₁ = .error halt r₂ →
        follow d turns order r = .error halt r₂) ∧
    ∀ stages r', Career d r stages r' → (∀ s ∈ stages, s.isMeasured d = true) →
      (r.emulator.time :: times stages r').Pairwise (· ≤ ·) := by
  have course := follow_course d turns order r
  refine ⟨course, fun budget r₁ hs => ⟨cpuTurn d budget r₁, ?_⟩, ?_⟩
  · intro halt r₂ hbroke
    rcases course.outcome hs with ⟨_, hmoved⟩ | ⟨_, _, hbroke', hresult⟩
    · cases hbroke.symm.trans hmoved
    · cases hbroke.symm.trans hbroke'
      exact hresult
  · intro stages r' career h
    exact career.times_sorted h

/-- A CPU that takes the ticks of a script, and no devices. -/
def scripted : Driver Bench.BenchCpu Unit :=
  driver Bench.BenchCpu.tick (fun _ _ _ => .done ()) 1 0

def scriptedRig (ticks : List Nat) : Rig Bench.BenchCpu Unit :=
  ⟨.new (.list ticks) .new, .ofScheduler .new ()⟩

/-- Takes a step, tries one for which the CPU takes no time, and goes on for some more. -/
theorem cpu_time_moves_on_scripted :
    ∃ stages r', Career scripted (scriptedRig [100, 0, 250]) stages r' ∧
      (∀ s ∈ stages, s.isMeasured scripted = true) ∧
      times stages r' = [.zero, .wrap 100, .wrap 100, .wrap 100, .wrap 100, .wrap 350, .wrap 350] ∧
      (times stages r').Pairwise (· ≤ ·) := by
  obtain ⟨stages, r', career, hmeasured, htimes⟩ : ∃ stages r',
      Career scripted (scriptedRig [100, 0, 250]) stages r' ∧
      (∀ s ∈ stages, s.isMeasured scripted = true) ∧
      times stages r' =
        [.zero, .wrap 100, .wrap 100, .wrap 100, .wrap 100, .wrap 350, .wrap 350] :=
    ⟨_, _, .call 0 .step (.call 0 .step (.call 2 (.runUntil (.wrap 300)) (.rest _))),
      by decide +kernel, by decide +kernel⟩
  have hsorted := (cpu_time_moves_on scripted 0 .step _).2.2 stages r' career hmeasured
  exact ⟨stages, r', career, hmeasured, htimes, (List.pairwise_cons.mp hsorted).2⟩

/-- A CPU that claims to have taken nearly all the ticks that there are puts time back. -/
theorem cpu_time_put_back :
    ¬ ∀ stages r', Career scripted (scriptedRig [100, 18446744073709551566]) stages r' →
      (times stages r').Pairwise (· ≤ ·) := by
  intro h
  have hback := h _ _ (.call 0 .step (.call 0 .step (.rest _)))
  revert hback
  decide +kernel

end Rig
end Timebase
