import Timebase.Proofs.LeavingTime
import Timebase.Proofs.Turns

/-!
# Pacing

An emulator that alone moves the time of its devices lets the CPU run up to the next sync point and
no further. So what is pending is delivered at the instant it was asked for, as exactly as the CPU
keeps to what it was told.
-/

namespace Timebase

variable {σ κ : Type}

/-- A scheduler in order, with nothing in the past. -/
structure World.Punctual (w : World σ) : Prop where
  sound : w.scheduler.Sound
  started : w.scheduler.currentTime ≠ .asap
  onTime : w.scheduler.OnTime

theorem World.Punctual.along {w v : World σ} {ms : List (Moment σ)} (h : w.Punctual)
    (path : Path w ms v) (unset : Unset ms) : v.Punctual where
  sound := path.preserves (fun step => step.sound) h.sound
  started := path.preserves (fun step => step.timed) h.started
  onTime := (path.onTime unset h.sound h.started h.onTime).1

namespace Rig

variable {react : Reaction σ} {tick : Tick κ} {steps : Nat} {thread : ThreadId}
  {r r' r₁ r₂ : Rig κ σ} {limit : Instant} {turns ticks : Nat} {e : Nat}

/-- The world is in order and not ahead of the CPU. -/
structure NotAhead (r : Rig κ σ) : Prop where
  punctual : r.world.Punctual
  timed : r.emulator.time ≠ .asap
  behind : r.world.scheduler.currentTime ≤ r.emulator.time

/-- The world is as far as the CPU, and all that is pending lies ahead. -/
structure Level (r : Rig κ σ) : Prop extends NotAhead r where
  level : r.world.scheduler.currentTime = r.emulator.time
  ahead : ∀ q ∈ r.world.scheduler.queue, r.emulator.time < q.time

theorem NotAhead.catchUp (hreact : react.LeavesTime) (h : NotAhead r)
    (hcatch : catchUp (driver tick react steps thread) r = .ok () r₁) :
    Level r₁ ∧ r₁.emulator = r.emulator := by
  obtain ⟨_, _, hget, hschedule⟩ := Run.bind_eq_ok.mp hcatch
  cases hget
  obtain ⟨v, hv, rfl⟩ := Run.on_eq_ok.mp hschedule
  have hv : World.schedule react.wake steps thread r.emulator.time r.world = .ok () v := hv
  have path := (Program.schedule react steps thread r.emulator.time).path r.world
  have hafter : (Program.schedule react steps thread r.emulator.time).after r.world = v :=
    Run.after_of_ok hv
  rw [hafter] at path
  have hnow := World.currentTime_of_schedule hreact h.punctual.started h.behind hv
  have hpunctual := h.punctual.along path (World.schedule_unset hreact steps thread _ _)
  have hahead := (World.lt_of_schedule_ok h.punctual.sound hv).2
  exact ⟨⟨⟨hpunctual, h.timed, hnow ▸ Instant.le_refl _⟩, hnow, hahead⟩, rfl⟩

theorem Level.no_asap (h : Level r) : ∀ q ∈ r.world.scheduler.queue, q.time ≠ .asap :=
  fun q hq => Instant.ne_asap_of_lt (h.ahead q hq)

theorem Level.lt_next (h : Level r) (hlimit : r.emulator.time < limit) :
    r.emulator.time < r.world.scheduler.next := by
  by_cases hq : r.world.scheduler.queue = []
  · rw [h.punctual.sound.next_of_nil hq]
    exact Instant.lt_of_lt_of_le hlimit Instant.le_never
  · obtain ⟨p, hp, hnext, -⟩ := h.punctual.sound.next_of_no_asap h.no_asap hq
    rw [hnext]
    exact h.ahead p hp

theorem Level.next_le (h : Level r) : ∀ q ∈ r.world.scheduler.queue,
    r.world.scheduler.next ≤ q.time := by
  intro q hq
  obtain ⟨p, -, hnext, hle⟩ := h.punctual.sound.next_of_no_asap h.no_asap (List.ne_nil_of_mem hq)
  rw [hnext]
  exact hle q hq

theorem Level.target_ne_asap (h : Level r) (hlimit : r.emulator.time < limit) :
    r.world.scheduler.next.earlier limit ≠ .asap := by
  rw [Instant.earlier]
  split
  · exact Instant.ne_asap_of_lt hlimit
  · exact Instant.ne_asap_of_lt (h.lt_next hlimit)

theorem budget_of_ne_asap (htarget : r.world.scheduler.next.earlier limit ≠ .asap)
    (ht : r.emulator.time ≠ .asap) :
    budget limit r = .ok (max (Span.wrap (((r.world.scheduler.next.earlier limit).ticks : Int) -
      r.emulator.time.ticks)).ticks 1).toNat := by
  rw [budget, Instant.since_of_ne_asap htarget ht]
  rfl

/-- The ticks that the CPU is told to run end at the next sync point or before it. -/
theorem Level.budget (h : Level r) (hlimit : r.emulator.time < limit)
    (hbudget : budget limit r = .ok ticks) :
    1 ≤ ticks ∧ r.emulator.time.ticks + ticks ≤ r.world.scheduler.next.ticks ∧
      r.emulator.time.ticks + ticks ≤ limit.ticks := by
  have hnext := h.lt_next hlimit
  have hne := Instant.ne_asap_of_lt hnext
  have hne' := Instant.ne_asap_of_lt hlimit
  have htarget := Instant.ticks_earlier hne hne'
  rw [budget_of_ne_asap (h.target_ne_asap hlimit) h.timed] at hbudget
  cases hbudget
  rw [Instant.lt_iff_ticks h.timed hne] at hnext
  rw [Instant.lt_iff_ticks h.timed hne'] at hlimit
  have hwrap := Span.wrap_le (n := (r.world.scheduler.next.earlier limit).ticks -
    r.emulator.time.ticks) (by omega)
  omega

theorem Level.runCpu (htick : TakesTime tick) (h : Level r)
    (hcpu : onEmulator (Emulator.runCpu tick ticks) r = .ok () r') :
    NotAhead r' ∧ ∃ used cpu, tick (max ticks 1) r.emulator.cpu = .ok used cpu ∧ 1 ≤ used ∧
      r'.emulator.time.ticks = r.emulator.time.ticks + used := by
  obtain ⟨emulator, hstep, rfl⟩ := Run.on_eq_ok.mp hcpu
  obtain ⟨used, hused, -, hsum⟩ := Emulator.runCpu_eq_ok hstep
  obtain ⟨hpos, hsmall⟩ := htick _ _ _ _ hused
  obtain ⟨-, hfinite, hticks⟩ := Instant.addChecked_eq_ok hsum
  rw [Span.wrap_of_range (by omega) (by omega)] at hticks
  have htime : emulator.time.ticks = r.emulator.time.ticks + used := by
    have hticks : (emulator.time.ticks : Int) = r.emulator.time.ticks + used := hticks
    omega
  have hne := Instant.ne_asap_of_isFinite hfinite
  have hlater : r.emulator.time ≤ emulator.time := Instant.le_of_ticks_le hne (by omega)
  exact ⟨⟨h.punctual, hne, Instant.le_trans h.behind hlater⟩,
    used, emulator.cpu, hused, hpos, htime⟩

/-- How a call may end. -/
inductive Ends (d : Driver κ σ) (stages : List (Stage κ σ)) :
    EStateM.Result Halt (Rig κ σ) Unit → Prop where
  | done (r : Rig κ σ) : Ends d stages (.ok () r)
  /-- A delivery breaks off. -/
  | delivery (r r' : Rig κ σ) (halt : Halt) (h : ⟨.catchUp, r⟩ ∈ stages)
      (broke : catchUp d r = .error halt r') : Ends d stages (.error halt r')
  /-- The CPU gives up. -/
  | cpu (budget : Nat) (cpu cpu' : κ) (halt : Halt) (r' : Rig κ σ)
      (gaveUp : d.tick budget cpu = .error halt cpu') : Ends d stages (.error halt r')
  /-- The CPU gets to the end of all time. -/
  | overflow (r : Rig κ σ) : Ends d stages (.error (.fault (.refused (.time .overflow))) r)

theorem Ends.mono {d : Driver κ σ} {stages stages' : List (Stage κ σ)}
    {result : EStateM.Result Halt (Rig κ σ) Unit} (h : Ends d stages result)
    (hsub : ∀ s ∈ stages, s ∈ stages') : Ends d stages' result := by
  cases h with
  | done r => exact .done r
  | delivery r r' halt hmem hbroke => exact .delivery r r' halt (hsub _ hmem) hbroke
  | cpu budget cpu cpu' halt r' hgaveUp => exact .cpu budget cpu cpu' halt r' hgaveUp
  | overflow r => exact .overflow r

/-- A CPU that takes at most so many ticks more than it is told to. -/
def KeepsTo (e : Nat) (tick : Tick κ) : Prop :=
  ∀ budget cpu used cpu', tick budget cpu = .ok used cpu' → used ≤ budget + e

theorem Level.ends_of_halted {halt : Halt} {stages : List (Stage κ σ)} (htick : TakesTime tick)
    (h : Level r) (hcpu : onEmulator (Emulator.runCpu tick ticks) r = .error halt r') :
    Ends (driver tick react steps thread) stages (.error halt r') := by
  cases cpuTurn (driver tick react steps thread) ticks r with
  | accepted _ _ _ _ _ _ _ hmoved => cases hcpu.symm.trans hmoved
  | broken _ cpu hbroke hreason =>
    cases hcpu.symm.trans hbroke
    rcases hreason with hgaveUp | ⟨used, htook, ⟨hzero, -⟩ | ⟨-, hfar⟩⟩
    · exact .cpu _ _ cpu halt _ hgaveUp
    · have hpos := (htick _ _ _ _ htook).1
      omega
    · rw [(hfar h.timed).1]
      exact .overflow _

theorem time_of_halted {d : Driver κ σ} {halt : Halt}
    (hcpu : onEmulator (Emulator.runCpu d.tick ticks) r = .error halt r') :
    r'.emulator.time = r.emulator.time := by
  cases cpuTurn d ticks r with
  | accepted _ _ _ _ _ _ _ hmoved => cases hcpu.symm.trans hmoved
  | broken _ _ hbroke _ =>
    cases hcpu.symm.trans hbroke
    rfl

section

variable (hreact : react.LeavesTime) (htick : TakesTime tick)

include hreact htick

/-- The CPU is let run only when the world is level with it. What holds when the loop begins and
after each such step holds whenever everything is delivered. -/
theorem NotAhead.loop_stages {I : Rig κ σ → Prop}
    (hstep : ∀ {r ticks r'}, Level r → r.emulator.time < limit → budget limit r = .ok ticks →
      onEmulator (Emulator.runCpu tick ticks) r = .ok () r' → I r')
    (h : NotAhead r) (hr : I r) :
    ∀ s ∈ loopTurns (driver tick react steps thread) limit turns r,
      (s.turn = .catchUp ∧ NotAhead s.rig ∧ I s.rig) ∨
      ∃ ticks, s.turn = .runCpu ticks ∧ Level s.rig ∧ s.rig.emulator.time < limit ∧
        budget limit s.rig = .ok ticks := by
  induction turns generalizing r with
  | zero =>
    intro s hs
    cases hs
  | succ turns ih =>
    intro s hs
    cases loopTurn (driver tick react steps thread) limit turns r with
    | broken _ _ _ hstages _ | reached _ _ _ hstages _ | unbudgeted _ _ _ _ _ hstages _ =>
      rw [hstages] at hs
      rw [List.mem_singleton.mp hs]
      exact Or.inl ⟨rfl, h, hr⟩
    | halted r₁ ticks _ _ hcatch hbefore hbudget _ hstages _ =>
      obtain ⟨hlevel, -⟩ := h.catchUp hreact hcatch
      simp only [hstages, List.mem_cons, List.not_mem_nil, or_false] at hs
      rcases hs with rfl | rfl
      · exact Or.inl ⟨rfl, h, hr⟩
      · exact Or.inr ⟨ticks, rfl, hlevel, Instant.not_le.mp hbefore, hbudget⟩
    | wentOn r₁ ticks r₂ hcatch hbefore hbudget hcpu hstages _ =>
      obtain ⟨hlevel, -⟩ := h.catchUp hreact hcatch
      have hlt := Instant.not_le.mp hbefore
      rw [hstages] at hs
      rcases List.mem_cons.mp hs with rfl | hs
      · exact Or.inl ⟨rfl, h, hr⟩
      rcases List.mem_cons.mp hs with rfl | hs
      · exact Or.inr ⟨ticks, rfl, hlevel, hlt, hbudget⟩
      · exact ih (hlevel.runCpu htick hcpu).1 (hstep hlevel hlt hbudget hcpu) s hs

theorem NotAhead.loop_reaches (h : NotAhead r)
    (hrun : runLoop (driver tick react steps thread) limit turns r = .ok () r') :
    Level r' ∧ limit ≤ r'.emulator.time := by
  induction turns generalizing r with
  | zero => cases hrun
  | succ turns ih =>
    cases loopTurn (driver tick react steps thread) limit turns r with
    | broken _ _ _ _ hresult | unbudgeted _ _ _ _ _ _ hresult | halted _ _ _ _ _ _ _ _ _ hresult =>
      rw [hresult] at hrun
      cases hrun
    | reached r₁ hcatch hthere _ hresult =>
      rw [hresult] at hrun
      cases hrun
      exact ⟨(h.catchUp hreact hcatch).1, hthere⟩
    | wentOn r₁ ticks r₂ hcatch _ _ hcpu _ hresult =>
      obtain ⟨hlevel, -⟩ := h.catchUp hreact hcatch
      rw [hresult] at hrun
      exact ih (hlevel.runCpu htick hcpu).1 hrun

/-- Each step of the CPU takes a tick at least, so there are no more of them than ticks. -/
theorem NotAhead.loop_few (h : NotAhead r) (hlimit : limit ≠ .asap) :
    (loopTurns (driver tick react steps thread) limit turns r).countP
        (fun s => s.turn != .catchUp) ≤ limit.ticks - r.emulator.time.ticks := by
  induction turns generalizing r with
  | zero => exact Nat.zero_le _
  | succ turns ih =>
    cases loopTurn (driver tick react steps thread) limit turns r with
    | broken _ _ _ hstages _ | reached _ _ _ hstages _ | unbudgeted _ _ _ _ _ hstages _ =>
      rw [hstages]
      exact Nat.zero_le _
    | halted r₁ ticks _ _ hcatch hbefore _ _ hstages _ =>
      obtain ⟨hlevel, hsame⟩ := h.catchUp hreact hcatch
      have hlt := (Instant.lt_iff_ticks hlevel.timed hlimit).mp (Instant.not_le.mp hbefore)
      rw [hsame] at hlt
      rw [hstages]
      show 1 ≤ _
      omega
    | wentOn r₁ ticks r₂ hcatch hbefore _ hcpu hstages _ =>
      obtain ⟨hlevel, hsame⟩ := h.catchUp hreact hcatch
      obtain ⟨hnot, used, _, -, hpos, htime⟩ := hlevel.runCpu htick hcpu
      have hlt := (Instant.lt_iff_ticks hlevel.timed hlimit).mp (Instant.not_le.mp hbefore)
      have hrest := ih hnot
      rw [hsame] at hlt htime
      rw [hstages, List.countP_cons_of_neg (by simp), List.countP_cons_of_pos (by simp)]
      omega

/-- With a turn for every tick up to the limit the loop does not run out of turns. -/
theorem NotAhead.loop_ends (h : NotAhead r) (hlimit : limit ≠ .asap)
    (hturns : limit.ticks - r.emulator.time.ticks < turns) :
    Ends (driver tick react steps thread) (loopTurns (driver tick react steps thread) limit turns r)
      (runLoop (driver tick react steps thread) limit turns r) := by
  induction turns generalizing r with
  | zero => omega
  | succ turns ih =>
    cases loopTurn (driver tick react steps thread) limit turns r with
    | broken halt r₁ hbroke hstages hresult =>
      rw [hstages, hresult]
      exact .delivery r r₁ halt (List.mem_singleton_self _) hbroke
    | reached r₁ _ _ _ hresult =>
      rw [hresult]
      exact .done r₁
    | unbudgeted r₁ cause hcatch hbefore hrefused _ _ =>
      obtain ⟨hlevel, -⟩ := h.catchUp hreact hcatch
      have htarget := hlevel.target_ne_asap (Instant.not_le.mp hbefore)
      rw [budget_of_ne_asap htarget hlevel.timed] at hrefused
      cases hrefused
    | halted r₁ ticks halt r₂ hcatch hbefore _ hcpu _ hresult =>
      obtain ⟨hlevel, -⟩ := h.catchUp hreact hcatch
      rw [hresult]
      exact hlevel.ends_of_halted htick hcpu
    | wentOn r₁ ticks r₂ hcatch hbefore _ hcpu hstages hresult =>
      obtain ⟨hlevel, hsame⟩ := h.catchUp hreact hcatch
      obtain ⟨hnot, used, _, -, hpos, htime⟩ := hlevel.runCpu htick hcpu
      have hlt := (Instant.lt_iff_ticks hlevel.timed hlimit).mp (Instant.not_le.mp hbefore)
      rw [hsame] at hlt htime
      rw [hstages, hresult]
      exact (ih hnot (by omega)).mono fun s hs => by simp [hs]

theorem NotAhead.loop_bound {bound : Nat} (hkeeps : KeepsTo e tick) (h : NotAhead r)
    (hr : r.emulator.time.ticks ≤ bound) (hlimit : limit.ticks + e ≤ bound) :
    ((runLoop (driver tick react steps thread) limit turns).after r).emulator.time.ticks ≤ bound := by
  induction turns generalizing r with
  | zero => exact hr
  | succ turns ih =>
    cases loopTurn (driver tick react steps thread) limit turns r with
    | broken halt r₁ hbroke _ hresult =>
      have hsame := emulator_after_catchUp (driver tick react steps thread) r
      rw [Run.after_of_error hbroke] at hsame
      rw [Run.after_of_error hresult, hsame]
      exact hr
    | reached r₁ hcatch _ _ hresult =>
      rw [Run.after_of_ok hresult, (h.catchUp hreact hcatch).2]
      exact hr
    | unbudgeted r₁ _ hcatch _ _ _ hresult =>
      rw [Run.after_of_error hresult, (h.catchUp hreact hcatch).2]
      exact hr
    | halted r₁ ticks halt r₂ hcatch _ _ hcpu _ hresult =>
      rw [Run.after_of_error hresult, time_of_halted hcpu, (h.catchUp hreact hcatch).2]
      exact hr
    | wentOn r₁ ticks r₂ hcatch hbefore hbudget hcpu _ hresult =>
      obtain ⟨hlevel, -⟩ := h.catchUp hreact hcatch
      obtain ⟨hnot, used, cpu, hused, -, htime⟩ := hlevel.runCpu htick hcpu
      have hfit := hlevel.budget (Instant.not_le.mp hbefore) hbudget
      have hover := hkeeps _ _ _ _ hused
      rw [Run.after_congr hresult]
      exact ih hnot (by omega)

end

/-- What has an instant of its own is not pending for longer than so many ticks. -/
def Near (e : Nat) (r : Rig κ σ) : Prop :=
  r.emulator.time.ticks ≤ r.world.scheduler.currentTime.ticks + e ∨
    ∀ q ∈ r.world.scheduler.queue, q.time ≠ .asap ∧ r.emulator.time.ticks ≤ q.time.ticks + e

theorem Level.near_of_runCpu (htick : TakesTime tick) (hkeeps : KeepsTo e tick) (h : Level r)
    (hlimit : r.emulator.time < limit) (hbudget : Rig.budget limit r = .ok ticks)
    (hcpu : onEmulator (Emulator.runCpu tick ticks) r = .ok () r') : Near e r' := by
  obtain ⟨-, used, cpu, hused, -, htime⟩ := h.runCpu htick hcpu
  have hfit := h.budget hlimit hbudget
  have hover := hkeeps _ _ _ _ hused
  refine Or.inr ?_
  intro q hq
  rw [world_onEmulator hcpu] at hq
  have hne := h.no_asap q hq
  have hnext := Instant.ticks_le_of_le hne (Instant.ne_asap_of_lt (h.lt_next hlimit))
    (h.next_le q hq)
  exact ⟨hne, by omega⟩

theorem NotAhead.near_call (h : NotAhead r) (hnear : Near e r) :
    ∀ c ∈ calls ((Program.schedule react steps thread r.emulator.time).history r.world),
      r.emulator.time.ticks ≤ c.time.ticks + e := by
  have path := (Program.schedule react steps thread r.emulator.time).path r.world
  intro c hc
  have hle := path.le_call c hc
  have hne : c.time ≠ .asap := by
    intro hc
    rw [hc] at hle
    exact h.punctual.started (Instant.le_antisymm hle Instant.asap_le)
  rcases hnear with hnow | hqueue
  · have hticks := Instant.ticks_le_of_le hne h.punctual.started hle
    omega
  · by_cases hsmall : r.emulator.time.ticks ≤ e
    · omega
    · -- all that is pending lies behind the last instant that would be too early
      have hbound := r.emulator.time.ticks_lt
      have hticks := Instant.wrap_ticks (n := r.emulator.time.ticks - e - 1) (by omega)
      have hwrap := Instant.wrap_ne_asap (n := r.emulator.time.ticks - e - 1) (by omega)
      have hahead : ∀ q ∈ r.world.scheduler.queue,
          Instant.wrap (r.emulator.time.ticks - e - 1) < q.time := by
        intro q hq
        obtain ⟨hq, hfar⟩ := hqueue q hq
        rw [Instant.lt_iff_ticks hwrap hq]
        omega
      have hlt := World.lt_call_of_schedule hahead c hc
      rw [Instant.lt_iff_ticks hwrap hne] at hlt
      omega

/-- A wake-up finds the CPU at the instant that was asked for or a little later. -/
theorem NotAhead.woken_in_time (hreact : react.LeavesTime) (h : NotAhead r) (hnear : Near e r) :
    ∀ m ∈ (Program.schedule react steps thread r.emulator.time).history r.world,
      ∀ q time, m.event = .woken q time → q.time ≠ .asap →
        q.time ≤ r.emulator.time ∧ r.emulator.time.ticks ≤ q.time.ticks + e := by
  intro m hm q time he hne
  have path := (Program.schedule react steps thread r.emulator.time).path r.world
  have hunset := World.schedule_unset hreact steps thread r.emulator.time r.world
  have htime := (path.onTime hunset h.punctual.sound h.punctual.started h.punctual.onTime).2
    m hm q time he hne
  have hdue := Program.schedule_dueUpTo react steps thread r.emulator.time r.world m hm q
  rw [he] at hdue
  have hcall : (⟨q.device, time, q.tag⟩ : Call) ∈
      calls ((Program.schedule react steps thread r.emulator.time).history r.world) := by
    refine List.mem_flatMap.mpr ⟨m, hm, ?_⟩
    rw [he]
    exact List.mem_singleton_self _
  have hnear := h.near_call hnear _ hcall
  rw [htime] at hnear
  exact ⟨hdue (List.mem_singleton_self q), hnear⟩

/-- How far a call is to run. -/
def Drive.limit? (r : Rig κ σ) : Drive → Option Instant
  | .runUntil limit => if limit.isFinite then some limit else none
  | .runFor span =>
    match r.emulator.time.addChecked span with
    | .ok limit => some limit
    | .error _ => none
  | .step => none

theorem follow_of_limit {order : Drive} (d : Driver κ σ) (turns : Nat)
    (h : order.limit? r = some limit) :
    limit ≠ .asap ∧ callTurns d turns r order = loopTurns d limit turns r ∧
      follow d turns order r = runLoop d limit turns r := by
  have huntil : ∀ {limit : Instant}, limit.isFinite = true →
      limit ≠ .asap ∧ untilTurns d turns limit r = loopTurns d limit turns r ∧
        runUntil d turns limit r = runLoop d limit turns r := by
    intro limit hf
    rw [untilTurns, runUntil, hf]
    exact ⟨Instant.ne_asap_of_isFinite hf, rfl, rfl⟩
  cases order with
  | runUntil limit =>
    cases hf : limit.isFinite with
    | true =>
      simp only [Drive.limit?, hf, if_true, Option.some.injEq] at h
      rw [← h]
      exact huntil hf
    | false => simp [Drive.limit?, hf] at h
  | runFor span =>
    cases hsum : r.emulator.time.addChecked span with
    | ok limit =>
      simp only [Drive.limit?, hsum, Option.some.injEq] at h
      rw [callTurns, follow, runFor_apply, hsum, ← h]
      exact huntil (Instant.addChecked_eq_ok hsum).2.1
    | error cause => simp [Drive.limit?, hsum] at h
  | step => cases h

/-- What a call that runs up to a limit makes of it. -/
structure Paced (react : Reaction σ) (tick : Tick κ) (steps : Nat) (thread : ThreadId)
    (turns : Nat) (order : Drive) (r : Rig κ σ) (limit : Instant) : Prop where
  /-- The CPU is never told to run past a sync point or the limit. -/
  budgets : ∀ budget r₁, ⟨.runCpu budget, r₁⟩ ∈
      callTurns (driver tick react steps thread) turns r order →
    1 ≤ budget ∧ r₁.emulator.time.ticks + budget ≤ r₁.world.scheduler.next.ticks ∧
      r₁.emulator.time.ticks + budget ≤ limit.ticks
  few : (callTurns (driver tick react steps thread) turns r order).countP
      (fun s => s.turn != .catchUp) ≤ limit.ticks - r.emulator.time.ticks
  ends : limit.ticks - r.emulator.time.ticks < turns →
    Ends (driver tick react steps thread) (callTurns (driver tick react steps thread) turns r order)
      (follow (driver tick react steps thread) turns order r)
  reaches : ∀ r', follow (driver tick react steps thread) turns order r = .ok () r' →
    limit ≤ r'.emulator.time ∧ r'.world.scheduler.currentTime = r'.emulator.time ∧
      ∀ q ∈ r'.world.scheduler.queue, r'.emulator.time < q.time
  /-- A CPU that keeps to what it is told stops soon enough, and finds every wake-up in time. -/
  inTime : ∀ e, KeepsTo e tick →
    ((follow (driver tick react steps thread) turns order).after r).emulator.time.ticks ≤
        max limit.ticks r.emulator.time.ticks + e ∧
      ∀ r₁, ⟨.catchUp, r₁⟩ ∈ callTurns (driver tick react steps thread) turns r order →
        ∀ m ∈ (Program.schedule react steps thread r₁.emulator.time).history r₁.world,
          ∀ q time, m.event = .woken q time → q.time ≠ .asap →
            q.time ≤ r₁.emulator.time ∧ r₁.emulator.time.ticks ≤ q.time.ticks + e

theorem NotAhead.paced {order : Drive} (hreact : react.LeavesTime) (htick : TakesTime tick)
    (h : NotAhead r) (hlevel : r.world.scheduler.currentTime = r.emulator.time)
    (hlimit : order.limit? r = some limit) : Paced react tick steps thread turns order r limit := by
  obtain ⟨hne, hturns, hrun⟩ :=
    follow_of_limit (driver tick react steps thread) turns hlimit
  refine ⟨?_, ?_, ?_, ?_, ?_⟩
  · intro budget r₁ hs
    rw [hturns] at hs
    rcases h.loop_stages (I := fun _ => True) hreact htick (fun _ _ _ _ => trivial) trivial _ hs with
      ⟨hturn, -⟩ | ⟨ticks, hturn, hlevel, hlt, hbudget⟩
    · cases hturn
    · cases hturn
      exact hlevel.budget hlt hbudget
  · rw [hturns]
    exact h.loop_few hreact htick hne
  · intro hfuel
    rw [hturns, hrun]
    exact h.loop_ends hreact htick hne hfuel
  · intro r' hok
    rw [hrun] at hok
    obtain ⟨hend, hthere⟩ := h.loop_reaches hreact htick hok
    exact ⟨hthere, hend.level, hend.ahead⟩
  · intro e hkeeps
    rw [Run.after_congr hrun, hturns]
    refine ⟨h.loop_bound hreact htick hkeeps (by omega) (by omega), ?_⟩
    intro r₁ hs
    have hnear : Near e r := Or.inl (by rw [hlevel]; omega)
    rcases h.loop_stages hreact htick
      (fun hlevel hlt hbudget hcpu => hlevel.near_of_runCpu htick hkeeps hlt hbudget hcpu) hnear
      _ hs with ⟨-, hnot, hnear⟩ | ⟨ticks, hturn, -⟩
    · exact hnot.woken_in_time hreact hnear
    · cases hturn

theorem catchUp_punctual (hreact : react.LeavesTime) (h : r.world.Punctual) :
    ((catchUp (driver tick react steps thread)).after r).world.Punctual := by
  have hrun : (catchUp (driver tick react steps thread)).after r =
      { r with world := (Program.schedule react steps thread r.emulator.time).after r.world } := by
    have hcatch : catchUp (driver tick react steps thread) r =
        onWorld (Program.schedule react steps thread r.emulator.time).run r := rfl
    rw [Run.after_congr hcatch, onWorld, Run.after_on]
    rfl
  rw [hrun]
  exact h.along ((Program.schedule react steps thread r.emulator.time).path r.world)
    (World.schedule_unset hreact steps thread r.emulator.time r.world)

theorem Course.punctual {stages : List (Stage κ σ)} {result : EStateM.Result Halt (Rig κ σ) Unit}
    (hreact : react.LeavesTime) (course : Course (driver tick react steps thread) r stages result)
    (h : r.world.Punctual) : (leftBehind result).world.Punctual := by
  have hturn : ∀ (turn : Turn) {r : Rig κ σ}, r.world.Punctual →
      ((turn.run (driver tick react steps thread)).after r).world.Punctual := by
    intro turn r h
    cases turn with
    | catchUp => exact catchUp_punctual hreact h
    | runCpu budget =>
      rw [Turn.run, onEmulator, Run.after_on]
      exact h
  induction course with
  | ended | refused => exact h
  | broken turn hrun =>
    have hr := hturn turn h
    rw [Run.after_of_error hrun] at hr
    exact hr
  | next turn hrun _ ih =>
    have hr := hturn turn h
    rw [Run.after_of_ok hrun] at hr
    exact ih hr

/-- A call to an emulator as it then is. -/
structure Errand (κ σ : Type) where
  turns : Nat
  order : Drive
  rig : Rig κ σ

/-- Errands to run up to a limit, each of which finds the world at the time of the CPU. In between
the CPU and the devices may be told anything that leaves time alone. -/
inductive Series (d : Driver κ σ) : Rig κ σ → List (Errand κ σ) → Prop where
  | rest (r : Rig κ σ) : Series d r []
  | call {r : Rig κ σ} {errands : List (Errand κ σ)} (turns : Nat) (order : Drive)
      (level : r.world.scheduler.currentTime = r.emulator.time)
      (later : Series d ((follow d turns order).after r) errands) :
      Series d r (⟨turns, order, r⟩ :: errands)
  | meanwhile {r : Rig κ σ} {errands : List (Errand κ σ)} (cpu : κ) (p : Program σ Unit)
      (leaves : p.LeavesTime)
      (later : Series d ⟨{ r.emulator with cpu }, p.after r.world⟩ errands) : Series d r errands

theorem Series.punctual {errands : List (Errand κ σ)} (hreact : react.LeavesTime)
    (series : Series (driver tick react steps thread) r errands) (h : r.world.Punctual) :
    ∀ c ∈ errands, c.rig.world.Punctual ∧
      c.rig.world.scheduler.currentTime = c.rig.emulator.time := by
  induction series with
  | rest => exact List.forall_mem_nil _
  | @call r errands turns order hlevel _ ih =>
    have hafter := (follow_course (driver tick react steps thread) turns order r).punctual hreact h
    rw [leftBehind_apply] at hafter
    exact List.forall_mem_cons.mpr ⟨⟨h, hlevel⟩, ih hafter⟩
  | @meanwhile r errands cpu p hleaves _ ih =>
    exact ih (h.along (p.path r.world) (hleaves.timeless r.world).unset)

variable {α : Type} {w w₀ : World σ}

/-- Where nobody but the emulator moves time, it never tells the CPU to run past a wake-up, and it
comes to its limit in no more steps than there are ticks. So a wake-up comes no later than the CPU
runs past what it is told. -/
theorem cpu_stops_for_wake_ups {t : Instant} (h₀ : w₀.scheduler = Scheduler.start t)
    (ht : t ≠ .asap) (p : Program σ α) (hw : r.world ∈ p.worlds w₀)
    (hpast : r.world.scheduler.OnTime) (hreact : react.LeavesTime) (htick : TakesTime tick)
    {errands : List (Errand κ σ)} (series : Series (driver tick react steps thread) r errands) :
    ∀ c ∈ errands, ∀ limit, c.order.limit? c.rig = some limit →
      Paced react tick steps thread c.turns c.order c.rig limit := by
  have hstarted := Program.worlds_timed h₀ ht hw
  intro c hc limit hlimit
  obtain ⟨hpunctual, hlevel⟩ :=
    series.punctual hreact ⟨Program.worlds_sound h₀ hw, hstarted, hpast⟩ c hc
  have hnot : NotAhead c.rig :=
    ⟨hpunctual, hlevel ▸ hpunctual.started, hlevel ▸ Instant.le_refl _⟩
  exact hnot.paced hreact htick hlevel hlimit

theorem fixedTick_takesTime : TakesTime fixedTick := by
  rintro _ _ used _ h
  cases h
  omega

/-- Takes steps of four ticks past two wake-ups, and then some more. -/
theorem cpu_stops_for_wake_ups_plodding :
    ∃ errands, Series (driver fixedTick askingAgain 5 0)
        ⟨.new 0 .new, twoPending.after (.ofScheduler .new ())⟩ errands ∧
      errands.map (fun c => c.order.limit? c.rig) = [some (.wrap 6), some (.wrap 13)] ∧
      KeepsTo 4 fixedTick ∧
      ∀ c ∈ errands, ∀ limit, c.order.limit? c.rig = some limit →
        Paced askingAgain fixedTick 5 0 c.turns c.order c.rig limit := by
  obtain ⟨errands, series, hlimits⟩ : ∃ errands, Series (driver fixedTick askingAgain 5 0)
      ⟨.new 0 .new, twoPending.after (.ofScheduler .new ())⟩ errands ∧
      errands.map (fun c => c.order.limit? c.rig) = [some (.wrap 6), some (.wrap 13)] :=
    ⟨_, .call 7 (.runUntil (.wrap 6)) rfl (.call 6 (.runFor (.wrap 5)) (by decide +kernel)
      (.rest _)), by decide +kernel⟩
  have h₀ : (World.ofScheduler .new () : World Unit).scheduler = .start .zero := rfl
  have hpast : ∀ q ∈ (twoPending.after (.ofScheduler .new ())).scheduler.queue, q.time ≠ .asap →
      (twoPending.after (.ofScheduler .new ())).scheduler.currentTime ≤ q.time := by decide
  refine ⟨errands, series, hlimits, ?_, ?_⟩
  · intro budget _ used _ h
    cases h
    omega
  · exact cpu_stops_for_wake_ups (r := ⟨.new 0 .new, twoPending.after (.ofScheduler .new ())⟩) h₀
      (by decide) twoPending (twoPending.after_mem_worlds _) hpast askingAgain_leavesTime
      fixedTick_takesTime series

end Rig
end Timebase
