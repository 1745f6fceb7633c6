import Timebase.Proofs.Device.FrameTimer
import Timebase.Proofs.Device.Line
import Timebase.Proofs.LeavingTime
import Timebase.Proofs.Rates

/-!
# Frames on their grid

The clock of a frame timer moves on by one tick at each wake-up, while the scheduler moves time as it
likes. The two never part: a frame ends exactly where the rate places it, however time is moved from
limit to limit, and whatever other devices there are.
-/

namespace Timebase.FrameTimer

open Clock (grid Accepted)

variable {σ α β : Type}

/-- Master ticks from power-on to the end of a frame. -/
def frameTicks (since : Instant) (num den k : Nat) : Nat := since.ticks + grid num den k

/-- The end of a frame. -/
def endOfFrame (since : Instant) (num den k : Nat) : Instant := .wrap (frameTicks since num den k)

/-- There is room for the end of the first frame, and for that of the next one after each frame that
has ended by an instant. -/
def InRange (since : Instant) (num den : Nat) (now : Instant) : Prop :=
  ∀ k, k = 0 ∨ frameTicks since num den k ≤ now.ticks →
    frameTicks since num den (k + 1) < UInt64.size - 1

/-- How the timer is woken at the end of a frame. -/
def frameCall (device : DeviceId) (since : Instant) (num den k : Nat) : Call :=
  ⟨device, endOfFrame since num den k, frameEnd⟩

section

variable (place : Place σ (Guarded FrameTimer)) (device : DeviceId)

/-- The timer is woken, and asks for the end of the next frame. -/
def waking (time : Instant) : Program σ Unit :=
  place.deed (Guarded.access (wake time)) (Uart.asking device)

/-- How many frames there have been. -/
def counting : Program σ (Option Nat) :=
  place.deed (Guarded.access get) fun f => .done (f.map frames)

/-- A frame timer among other devices. Nobody asks it for anything, nor does anybody set the time. -/
def resident : Resident σ (Guarded FrameTimer) where
  place := place
  device := device
  wake time _ := waking place device time
  Serves := fun _ => False
  wake_neverLooks _ _ := ⟨trivial, fun _ => Uart.asking_neverLooks device _⟩
  serves_neverLooks := False.elim

/-- A timer that has just been made at the current time, and waits for the end of its first frame. -/
structure Fresh (num den : Nat) (w : World σ) : Prop where
  made : ∃ f r, FrameTimer.new w.scheduler.currentTime num den = .ok (f, r) ∧
    place.get? w.devices = some (.new f) ∧ w.scheduler.wanted device = [r]
  owned : w.isOwned device = true

/-- No wake-up of the timer breaks off: the clock always tells the frame to end when it does. -/
def Answers (ms : List (Moment σ)) : Prop :=
  ∀ m ∈ ms, ∀ p t, m.event = .woken p t → p.device = device →
    ∃ v, (waking place device t).run (m.world.retain p.device) = .ok () v

/-- A timer after some frames. -/
structure Counted (since : Instant) (num den n : Nat) (w : World σ) : Prop where
  state : place.get? w.devices = some (.new ⟨⟨since, n, num, den⟩, n⟩)
  wanted : w.scheduler.wanted device = [⟨endOfFrame since num den (n + 1), frameEnd⟩]
  passed : frameTicks since num den n ≤ w.scheduler.currentTime.ticks
  ahead : w.scheduler.currentTime ≤ endOfFrame since num den (n + 1)
  fits : frameTicks since num den (n + 1) < UInt64.size - 1

/-- In a history with room for the frames the timer goes from frame to frame. -/
def Advances (since : Instant) (num den : Nat) (w : World σ) (ms : List (Moment σ)) : Prop :=
  (∀ m ∈ ms, InRange since num den m.world.scheduler.currentTime) →
    ∀ n, Counted place device since num den n w →
      ∃ j, Counted place device since num den (n + j) (w.upTo ms) ∧
        (resident place device).calls ms =
          (List.range' (n + 1) j).map (frameCall device since num den) ∧
        Answers place device ms

/-- Calls to move time, each of which has come to its end, and between them whatever leaves time
alone. Time has come to the latest of the limits. -/
inductive Course (w : World σ) : List (Moment σ) → Instant → Prop
  | begun : Course w [] w.scheduler.currentTime
  | moved {ms : List (Moment σ)} {now limit : Instant} {react : Reaction σ} {steps : Nat}
      {thread : ThreadId} {v : World σ} (h : Course w ms now)
      (beside : (Program.schedule react steps thread limit).Beside (resident place device))
      (ended : (Program.schedule react steps thread limit).run (w.upTo ms) = .ok () v) :
      Course w (ms ++ (Program.schedule react steps thread limit).history (w.upTo ms))
        (now.later limit)
  | stood {ms : List (Moment σ)} {now : Instant} {α : Type} {p : Program σ α} (h : Course w ms now)
      (beside : p.Beside (resident place device)) (leaves : p.LeavesTime) :
      Course w (ms ++ p.history (w.upTo ms)) now

/-- What a history shows of a timer after some frames: it has been woken at the exact end of each of
them, and waits for the end of the next one alone. -/
structure OnGrid (since : Instant) (num den : Nat) (w : World σ) (ms : List (Moment σ)) (n : Nat) :
    Prop where
  told : ∃ v, (counting place).run (w.upTo ms) = .ok (some n) v
  exact : ∀ k ≤ n + 1, (endOfFrame since num den k).ticks =
    since.ticks + ⌊(k : ℚ) * (mainFreq * den / num)⌋₊
  calls : (resident place device).calls ms = (List.range' 1 n).map (frameCall device since num den)
  pending : (w.upTo ms).scheduler.wanted device = [⟨endOfFrame since num den (n + 1), frameEnd⟩]
  answers : Answers place device ms

end

/-- Where time has come to stand, the frames are those that have ended till then. -/
structure Settled (since : Instant) (num den : Nat) (now : Instant) (v : World σ) (n : Nat) :
    Prop where
  time : v.scheduler.currentTime = now
  frames : (n : ℕ∞) = {k : ℕ | 1 ≤ k ∧
    since.ticks + ⌊(k : ℚ) * (mainFreq * den / num)⌋₊ ≤ now.ticks}.encard
  ahead : now < endOfFrame since num den (n + 1)

variable {place : Place σ (Guarded FrameTimer)} {device : DeviceId} {since now t t' : Instant}
  {num den n k : Nat} {w w₀ v : World σ} {e : Event} {ms ns : List (Moment σ)} {f : FrameTimer}
  {r : Request}

theorem frameTicks_mono (h : n ≤ k) : frameTicks since num den n ≤ frameTicks since num den k :=
  Nat.add_le_add_left (Clock.grid_mono h) _

theorem frameTicks_lt (hrate : Accepted num den) (h : n < k) :
    frameTicks since num den n < frameTicks since num den k :=
  Nat.lt_of_lt_of_le (Nat.add_lt_add_left (hrate.grid_lt n) _) (frameTicks_mono h)

theorem InRange.since_ne_asap (h : InRange since num den now) : since ≠ .asap := by
  rintro rfl
  have hle : UInt64.size - 1 ≤ frameTicks .asap num den (0 + 1) := Nat.le_add_right _ _
  exact Nat.not_lt.mpr hle (h 0 (Or.inl rfl))

theorem InRange.of_le (h : InRange since num den t') (ht : t ≠ .asap) (hle : t ≤ t') :
    InRange since num den t := by
  have ht' : t' ≠ .asap := by
    rintro rfl
    exact ht (Instant.le_antisymm hle Instant.asap_le)
  exact fun k hk => h k (hk.imp_right fun hk => Nat.le_trans hk (Instant.ticks_le_of_le ht' ht hle))

theorem ticks_endOfFrame (h : frameTicks since num den k < UInt64.size - 1) :
    (endOfFrame since num den k).ticks = frameTicks since num den k :=
  Instant.wrap_ticks (Nat.lt_of_lt_of_le h (Nat.sub_le _ _))

theorem endOfFrame_ne_asap (h : frameTicks since num den k < UInt64.size - 1) :
    endOfFrame since num den k ≠ .asap := Instant.wrap_ne_asap h

theorem wake_counted (hrate : Accepted num den)
    (hfits : frameTicks since num den (n + 2) < UInt64.size - 1) :
    wake (endOfFrame since num den (n + 1)) ⟨⟨since, n, num, den⟩, n⟩ =
      .ok ⟨endOfFrame since num den (n + 2), frameEnd⟩ ⟨⟨since, n + 1, num, den⟩, n + 1⟩ := by
  let c : Clock := ⟨since, n, num, den⟩
  let c' : Clock := ⟨since, n + 1, num, den⟩
  have hnext : c'.exactTicks (c'.count + 1) < UInt64.size := Nat.lt_of_lt_of_le hfits (Nat.sub_le _ _)
  have hnow : c.exactTicks (c.count + 1) < UInt64.size :=
    Nat.lt_of_le_of_lt (frameTicks_mono (Nat.le_succ _)) hnext
  exact wake_of_ok (f := ⟨c, n⟩) (Clock.forward_of_lt hrate hnow)
    (Clock.instantOf_of_lt (c := c') hnow)
    (Clock.add_of_lt hrate hnow) (Clock.timeAfter_of_lt (c := c') hrate hnext)

theorem eq_of_new (h : FrameTimer.new since num den = .ok (f, r)) :
    Accepted num den ∧ f = ⟨⟨since, 0, num, den⟩, 0⟩ ∧ f.clock.timeAfter 1 = .ok r.time ∧
      r.tag = frameEnd := by
  obtain ⟨c₁, hnew, h⟩ := Attempt.bind_eq_ok.mp h
  obtain ⟨c₂, hset, h⟩ := Attempt.bind_eq_ok.mp h
  obtain ⟨next, hnext, h⟩ := Attempt.bind_eq_ok.mp h
  cases h
  have hset₁ : Clock.setRatio ⟨since, 0, 1, 1⟩ 1 1 = .ok c₁ := hnew
  obtain ⟨-, t₁, ht₁, rfl⟩ := Clock.setRatio_eq_ok.mp hset₁
  cases Except.ok.inj (ht₁.symm.trans (Clock.time_reset ⟨since, 0, 1, 1⟩ since))
  obtain ⟨hrate, t₂, ht₂, rfl⟩ := Clock.setRatio_eq_ok.mp hset
  cases Except.ok.inj (ht₂.symm.trans (Clock.time_reset ⟨since, 0, 1, 1⟩ since))
  exact ⟨hrate, rfl, hnext, rfl⟩

theorem Fresh.counted (h : Fresh place device num den w)
    (hrange : InRange w.scheduler.currentTime num den w.scheduler.currentTime) :
    Accepted num den ∧ Counted place device w.scheduler.currentTime num den 0 w := by
  obtain ⟨f, r, hnew, hstate, hwanted⟩ := h.made
  obtain ⟨hrate, rfl, hnext, htag⟩ := eq_of_new hnew
  have hzero : frameTicks w.scheduler.currentTime num den 0 = w.scheduler.currentTime.ticks := by
    rw [frameTicks, Clock.grid_zero, Nat.add_zero]
  have hfits := hrange 0 (Or.inl rfl)
  have hfirst := Clock.timeAfter_of_lt (c := ⟨w.scheduler.currentTime, 0, num, den⟩) (n := 1) hrate
    (Nat.lt_of_lt_of_le hfits (Nat.sub_le _ _))
  have hr : r = ⟨endOfFrame w.scheduler.currentTime num den 1, frameEnd⟩ := by
    obtain ⟨time, tag⟩ := r
    cases htag
    exact congrArg (Request.mk · frameEnd) (Except.ok.inj (hnext.symm.trans hfirst))
  refine ⟨hrate, hstate, hr ▸ hwanted, Nat.le_of_eq hzero, ?_, hfits⟩
  apply Instant.le_of_ticks_le (endOfFrame_ne_asap hfits)
  rw [ticks_endOfFrame hfits, ← hzero]
  exact frameTicks_mono (Nat.zero_le _)

theorem Counted.pass (h : Counted place device since num den n w)
    (hw : (resident place device).Lives w) (hv : (resident place device).Passing w e v) :
    Counted place device since num den n v := by
  have hwanted : v.scheduler.wanted device = _ := hv.wanted.trans h.wanted
  rcases hv.time with hsame | ⟨hle, hnext⟩
  · exact ⟨hv.state.trans h.state, hwanted, hsame ▸ h.passed, hsame ▸ h.ahead, h.fits⟩
  · have hahead : v.scheduler.currentTime ≤ endOfFrame since num den (n + 1) :=
      (hnext ⟨endOfFrame since num den (n + 1), frameEnd⟩ (h.wanted ▸ List.mem_singleton_self _)).2
    have hne : v.scheduler.currentTime ≠ .asap := by
      intro heq
      exact hw.timed (Instant.le_antisymm (heq ▸ hle) Instant.asap_le)
    exact ⟨hv.state.trans h.state, hwanted,
      Nat.le_trans h.passed (Instant.ticks_le_of_le hne hw.timed hle), hahead, h.fits⟩

/-- A timer is woken exactly at the end of its frame, and has nothing else pending. -/
theorem Counted.due {limit : Instant} {p : SyncPoint} {s : Scheduler}
    (h : Counted place device since num den n w)
    (hdue : w.scheduler.takeDue limit = (some (p, t), s)) (hd : p.device = device) :
    t = endOfFrame since num den (n + 1) ∧ p.tag = frameEnd ∧ s.wanted device = [] ∧
      s.currentTime = t := by
  have hself := Scheduler.wanted_takeDue_self hdue
  rw [hd, h.wanted, List.cons.injEq, Request.mk.injEq] at hself
  obtain ⟨⟨htime, htag⟩, hrest⟩ := hself
  obtain ⟨_, -, -, ht, hs⟩ := Scheduler.takeDue_eq_some.mp hdue
  have hne : p.time ≠ .asap := htime ▸ endOfFrame_ne_asap h.fits
  refine ⟨?_, htag.symm, hrest.symm, ?_⟩
  · rw [ht, Scheduler.deliveryTime_of_le hne (htime ▸ h.ahead), htime]
  · rw [ht, hs]

/-- What a timer does that is woken at the end of its frame: it counts it and asks for the end of the
next one. -/
structure CountsFrame (place : Place σ (Guarded FrameTimer)) (device : DeviceId) (since : Instant)
    (num den n : Nat) (time : Instant) (u : World σ) : Prop where
  answers : ∃ v, (waking place device time).run u = .ok () v
  counted : Counted place device since num den n ((waking place device time).after u)
  quiet : ∀ m ∈ (waking place device time).history u, m.event.calls = []

theorem countsFrame {u : World σ} (hrate : Accepted num den)
    (hfits : frameTicks since num den (n + 2) < UInt64.size - 1)
    (hstate : place.get? u.devices = some (.new ⟨⟨since, n, num, den⟩, n⟩))
    (hwanted : u.scheduler.wanted device = [])
    (hnow : u.scheduler.currentTime = endOfFrame since num den (n + 1)) :
    CountsFrame place device since num den (n + 1) (endOfFrame since num den (n + 1)) u := by
  let f : FrameTimer := ⟨⟨since, n + 1, num, den⟩, n + 1⟩
  let r : Request := ⟨endOfFrame since num den (n + 2), frameEnd⟩
  let u' : World σ := { u with devices := place.put (.new f) u.devices }
  have hpassed : (endOfFrame since num den (n + 1)).ticks = frameTicks since num den (n + 1) :=
    ticks_endOfFrame (Nat.lt_of_le_of_lt (frameTicks_mono (Nat.le_succ _)) hfits)
  have hnext : endOfFrame since num den (n + 1) ≤ r.time := by
    apply Instant.le_of_ticks_le (endOfFrame_ne_asap hfits)
    rw [hpassed, ticks_endOfFrame hfits]
    exact frameTicks_mono (Nat.le_succ _)
  have hact := Run.access_of_ok (wake_counted hrate hfits)
  have hbooks := Uart.asking_books (σ := σ) device (some r)
  obtain ⟨hstate', htime⟩ := Resident.deed_state (r := resident place device) hstate hact hbooks
  have hregister : ∃ s, u'.scheduler.register r.time device r.tag = .ok s :=
    ⟨_, Scheduler.register_eq_ok.mpr ⟨Or.inr (hnow ▸ hnext), rfl⟩⟩
  refine ⟨?_, ⟨hstate', ?_, ?_, ?_, hfits⟩, ?_⟩
  · obtain ⟨s, hs⟩ := hregister
    have hrun : (waking place device (endOfFrame since num den (n + 1))).run u =
        (Program.register r.time device r.tag).run u' :=
      Resident.deed_run (r := resident place device) hstate hact
    exact ⟨_, hrun.trans (World.register_of_ok hs)⟩
  · have hasked := Program.wanted_register (w := u') r.time r.tag hregister
    have hnone : u'.scheduler.wanted device = [] := hwanted
    have hafter : (waking place device (endOfFrame since num den (n + 1))).after u =
        (Program.register r.time device r.tag).after u' :=
      Resident.deed_after (r := resident place device) hstate hact
    rw [hnone] at hasked
    rw [hafter]
    exact List.perm_singleton.mp hasked
  · exact Nat.le_of_eq (hpassed.symm.trans (congrArg Instant.ticks (htime.trans hnow)).symm)
  · exact (htime.trans hnow).symm ▸ hnext
  · exact fun m hm =>
      (Resident.deed_moment (r := resident place device) hstate hact hbooks m hm).2.2

/-- Whatever passes it by and whenever it is woken, a timer goes from frame to frame. -/
theorem keeps_advances (hrate : Accepted num den) :
    (resident place device).Keeps (Advances place device since num den) where
  cumulative :=
    { nil := fun w _ n h => ⟨0, h, rfl, List.forall_mem_nil _⟩
      append := by
        intro w ms ns hms hns hrange n hn
        obtain ⟨hfirst, hsecond⟩ := List.forall_mem_append.mp hrange
        obtain ⟨j, hj, hcalls, hanswers⟩ := hms hfirst n hn
        obtain ⟨k, hk, hcalls', hanswers'⟩ := hns hsecond (n + j) hj
        refine ⟨j + k, ?_, ?_, List.forall_mem_append.mpr ⟨hanswers, hanswers'⟩⟩
        · rw [World.upTo_append, ← Nat.add_assoc]
          exact hk
        · rw [Resident.calls_append, hcalls, hcalls', ← List.map_append, ← List.range'_append_1,
            Nat.add_right_comm] }
  passing hw hv _ n hn := by
    refine ⟨0, hn.pass hw hv, hv.calls_eq, List.forall_mem_singleton.mpr ?_⟩
    exact fun p t he hd => absurd hd (hv.other p t he)
  serves h _ := h.elim
  wakes {w limit t p s} hw hdue hd := by
    refine ⟨Resident.isOwned_deed _ (Uart.asking_books device) (hw.owned_woken s p.device), ?_⟩
    intro hrange n hn
    let u := ({ w with scheduler := s } : World σ).retain p.device
    obtain ⟨ht, htag, hrest, hnow⟩ := hn.due hdue hd
    have hroom : InRange since num den t := hnow ▸ hrange _ List.mem_cons_self
    have hfits := hroom (n + 1) (Or.inr (Nat.le_of_eq (by rw [ht, ticks_endOfFrame hn.fits])))
    have hcounts : CountsFrame place device since num den (n + 1) t u :=
      ht ▸ countsFrame hrate hfits hn.state hrest (hnow.trans ht)
    have hquiet : (resident place device).calls ((waking place device t).history u) = [] := by
      refine Resident.calls_of_none fun m hm => ?_
      simp [Resident.calls, Timebase.calls, gather, hcounts.quiet m hm]
    refine ⟨1, ?_, ?_, ?_⟩
    · have hend : w.upTo (⟨.woken p t, { w with scheduler := s }⟩ :: ⟨.silent, u⟩ ::
          (waking place device t).history u) = (waking place device t).after u :=
        ((waking place device t).path u).upTo_eq
      exact hend ▸ hcounts.counted
    · have hcalls := Resident.calls_woken (r := resident place device) (t := t) hd
        { w with scheduler := s } u ((waking place device t).history u)
      rw [hquiet, htag, ht] at hcalls
      rw [ht]
      exact hcalls
    · refine List.forall_mem_cons.mpr ⟨fun q t' he _ => ?_, List.forall_mem_cons.mpr ⟨?_, ?_⟩⟩
      · cases he
        exact hcounts.answers
      · exact fun _ _ he => by cases he
      · intro m hm q t' he
        have hnone := hcounts.quiet m hm
        rw [he] at hnone
        cases hnone

theorem endOfFrame_le (h : n ≤ k) (hfits : frameTicks since num den k < UInt64.size - 1) :
    endOfFrame since num den n ≤ endOfFrame since num den k := by
  have hle : frameTicks since num den n ≤ frameTicks since num den k := frameTicks_mono h
  apply Instant.le_of_ticks_le (endOfFrame_ne_asap hfits)
  rw [ticks_endOfFrame hfits, ticks_endOfFrame (Nat.lt_of_le_of_lt hle hfits)]
  exact hle

/-- If there is room for the frames up to the last moment, there was at every moment before. -/
theorem inRange_of_path (path : Path w ms v) (ht : w.scheduler.currentTime ≠ .asap)
    (h : InRange since num den v.scheduler.currentTime) :
    ∀ m ∈ ms, InRange since num den m.world.scheduler.currentTime := by
  intro m hm
  obtain ⟨before, after, rfl⟩ := List.append_of_mem hm
  have hne : m.world.scheduler.currentTime ≠ .asap :=
    path.preserves_mem (I := fun u => u.scheduler.currentTime ≠ .asap) (fun step => step.timed) ht hm
  rw [List.append_cons] at path
  obtain ⟨u, first, second⟩ := path.cut
  have hu : m.world = u := by
    rw [← first.upTo_eq, World.upTo_append]
    rfl
  exact h.of_le hne (hu ▸ second.time_le)

theorem Course.path (h : Course place device w ms now) : Path w ms (w.upTo ms) := by
  induction h with
  | begun => exact .nil w
  | moved _ _ _ ih | stood _ _ _ ih =>
    rw [World.upTo_append, (Program.path _ _).upTo_eq]
    exact ih.append (Program.path _ _)

/-- Nobody asks a timer for anything, so that what is done beside it never sets the time. -/
theorem neverSets_of_beside {p : Program σ α} (h : p.Beside (resident place device)) :
    p.NeverSets := by
  induction p with
  | andThen p next ihp ihnext =>
    obtain ⟨hfirst, hnext⟩ := h.resolve_left id
    exact ⟨ihp hfirst, fun a => ihnext a (hnext a)⟩
  | attempt p ih | visit device p ih => exact ih h
  | setCurrentTime => exact h
  | schedule react steps thread limit ih =>
    intro d time tag
    by_cases hd : d = device
    · have hown : react d time tag = waking place device time := hd ▸ h.1 time tag
      rw [hown]
      refine ⟨trivial, fun asked => ?_⟩
      cases asked <;> trivial
    · exact ih _ _ _ (h.2 d time tag hd)
  | _ => trivial

/-- A timer that has gone from frame to frame all through a history. -/
structure Kept (place : Place σ (Guarded FrameTimer)) (device : DeviceId) (since : Instant)
    (num den : Nat) (w : World σ) (ms : List (Moment σ)) (n : Nat) : Prop where
  lives : (resident place device).Lives (w.upTo ms)
  counted : Counted place device since num den n (w.upTo ms)
  calls : (resident place device).calls ms = (List.range' 1 n).map (frameCall device since num den)
  answers : Answers place device ms

theorem Kept.append {p : Program σ α} (hrate : Accepted num den)
    (h : Kept place device since num den w ms n) (hp : p.Beside (resident place device))
    (hns : p.Looks (w.upTo ms) ns ∨ ns = p.history (w.upTo ms))
    (hrange : ∀ m ∈ ns, InRange since num den m.world.scheduler.currentTime) :
    ∃ j, Kept place device since num den w (ms ++ ns) (n + j) := by
  obtain ⟨hlives, hadvances⟩ := hp.keeps (keeps_advances hrate) h.lives hns
  obtain ⟨j, hcounted, hcalls, hanswers⟩ := hadvances hrange n h.counted
  refine ⟨j, ?_, ?_, ?_, List.forall_mem_append.mpr ⟨h.answers, hanswers⟩⟩
  · rwa [World.upTo_append]
  · rwa [World.upTo_append]
  · rw [Resident.calls_append, h.calls, hcalls, ← List.map_append, ← List.range'_append_1,
      Nat.add_comm 1 n]

theorem counting_run (h : place.get? w.devices = some (.new f)) :
    ∃ v, (counting place).run w = .ok (some f.frames) v := by
  have hread : Guarded.access get (.new f) = .ok f (.new f) := Run.access_of_ok rfl
  exact ⟨_, Resident.deed_run (r := resident place 0) h hread⟩

theorem counting_beside : (counting place).Beside (resident place device) :=
  Or.inr ⟨Or.inr (Place.get?_after_on Run.after_access_get), fun _ => trivial⟩

theorem Kept.onGrid (h : Kept place device since num den w ms n) :
    OnGrid place device since num den w ms n where
  told := counting_run h.counted.state
  exact k hk := by
    rw [ticks_endOfFrame (Nat.lt_of_le_of_lt (frameTicks_mono hk) h.counted.fits), frameTicks,
      Clock.grid_eq_floor]
  calls := h.calls
  pending := h.counted.wanted
  answers := h.answers

theorem Course.time_eq (ht : w.scheduler.currentTime ≠ .asap) (h : Course place device w ms now) :
    (w.upTo ms).scheduler.currentTime = now := by
  induction h with
  | begun => rfl
  | moved h hbeside hended ih =>
    have htimed := h.path.preserves (fun step => step.timed) ht
    rw [World.upTo_append, (Program.path _ _).upTo_eq, Program.after, Run.after_of_ok hended, ← ih]
    exact World.later_of_schedule (neverSets_of_beside hbeside) htimed hended
  | stood _ _ hleaves ih =>
    rw [World.upTo_append, (Program.path _ _).upTo_eq, ← ih]
    exact (hleaves.sameTime _).currentTime

theorem Course.settles (hrate : Accepted num den)
    (hfirst : Kept place device w.scheduler.currentTime num den w [] 0)
    (h : Course place device w ms now)
    (hrange : ∀ m ∈ ms, InRange w.scheduler.currentTime num den m.world.scheduler.currentTime) :
    ∃ n, Kept place device w.scheduler.currentTime num den w ms n ∧
      now < endOfFrame w.scheduler.currentTime num den (n + 1) := by
  have ht : w.scheduler.currentTime ≠ .asap := hfirst.lives.timed
  induction h with
  | begun =>
    have hfits := hfirst.counted.fits
    refine ⟨0, hfirst, ?_⟩
    rw [Instant.lt_iff_ticks ht (endOfFrame_ne_asap hfits), ticks_endOfFrame hfits]
    exact Nat.lt_of_le_of_lt (Nat.le_add_right _ _) (frameTicks_lt hrate (Nat.zero_lt_succ 0))
  | @moved ms now limit react steps thread v h hbeside hended ih =>
    obtain ⟨hpast, hlast⟩ := List.forall_mem_append.mp hrange
    obtain ⟨n, hkept, hahead⟩ := ih hpast
    obtain ⟨j, hkept'⟩ := hkept.append hrate hbeside (Or.inr rfl) hlast
    refine ⟨n + j, hkept', Instant.later_lt ?_ ?_⟩
    · exact Instant.lt_of_lt_of_le hahead
        (endOfFrame_le (Nat.succ_le_succ (Nat.le_add_right n j)) hkept'.counted.fits)
    · have hpending := hkept'.counted.wanted
      rw [World.upTo_append, (Program.path _ _).upTo_eq, Program.after,
        Run.after_of_ok hended] at hpending
      obtain ⟨q, hq, -, hqt, -⟩ :=
        Scheduler.exists_of_mem_wanted (hpending ▸ List.mem_singleton_self _)
      have hlate := (World.lt_of_schedule_ok hkept.lives.sound hended).2 q hq
      rwa [hqt] at hlate
  | stood _ hbeside _ ih =>
    obtain ⟨hpast, hlast⟩ := List.forall_mem_append.mp hrange
    obtain ⟨n, hkept, hahead⟩ := ih hpast
    obtain ⟨j, hkept'⟩ := hkept.append hrate hbeside (Or.inr rfl) hlast
    exact ⟨n + j, hkept', Instant.lt_of_lt_of_le hahead
      (endOfFrame_le (Nat.succ_le_succ (Nat.le_add_right n j)) hkept'.counted.fits)⟩

theorem Counted.settled (h : Counted place device since num den n v)
    (htime : v.scheduler.currentTime = now) (hnow : now ≠ .asap)
    (hahead : now < endOfFrame since num den (n + 1)) : Settled since num den now v n where
  time := htime
  frames := by
    have hpassed : since.ticks + grid num den n ≤ now.ticks := htime ▸ h.passed
    have hnext : now.ticks < since.ticks + grid num den (n + 1) := by
      rw [Instant.lt_iff_ticks hnow (endOfFrame_ne_asap h.fits), ticks_endOfFrame h.fits] at hahead
      exact hahead
    have hcount := Clock.encard_passed (s := now.ticks - since.ticks)
      (Nat.le_sub_of_add_le' hpassed) (by omega)
    have hended (k : ℕ) : since.ticks + ⌊(k : ℚ) * (mainFreq * den / num)⌋₊ ≤ now.ticks ↔
        grid num den k ≤ now.ticks - since.ticks := by
      rw [← Clock.grid_eq_floor]
      omega
    simp only [hended]
    exact hcount.symm
  ahead := hahead

section

variable (hfresh : Fresh place device num den w) (hs : w.scheduler.Sound)

include hfresh hs

theorem Fresh.kept (ht : w.scheduler.currentTime ≠ .asap)
    (hrange : InRange w.scheduler.currentTime num den w.scheduler.currentTime) :
    Accepted num den ∧ Kept place device w.scheduler.currentTime num den w [] 0 := by
  obtain ⟨hrate, hcounted⟩ := hfresh.counted hrange
  have hlives : (resident place device).Lives w := ⟨hs, ht, hfresh.owned⟩
  exact ⟨hrate, hlives, hcounted, rfl, List.forall_mem_nil _⟩

/-- Wherever somebody looks at the world, a timer has kept to the grid. -/
theorem Fresh.keeps_on {p : Program σ α} (hp : p.Beside (resident place device))
    (hms : p.Looks w ms ∨ ms = p.history w)
    (hrange : InRange w.scheduler.currentTime num den (w.upTo ms).scheduler.currentTime) :
    ∃ n, Kept place device w.scheduler.currentTime num den w ms n := by
  have ht := hrange.since_ne_asap
  have path : Path w ms (w.upTo ms) := by
    rcases hms with hlooks | rfl
    · obtain ⟨rest, hrest⟩ := hlooks.isPrefix
      obtain ⟨u, first, -⟩ := (hrest ▸ p.path w).cut
      exact first.upTo_eq ▸ first
    · exact (p.path w).upTo_eq ▸ p.path w
  obtain ⟨hrate, hkept⟩ := hfresh.kept hs ht (hrange.of_le ht path.time_le)
  obtain ⟨j, hj⟩ := hkept.append hrate hp hms (inRange_of_path path ht hrange)
  exact ⟨_, hj⟩

/-- Where time has come to stand, it has counted the frames till then. -/
theorem Fresh.settles (hcourse : Course place device w ms now)
    (hrange : InRange w.scheduler.currentTime num den now) :
    ∃ n, Kept place device w.scheduler.currentTime num den w ms n ∧
      Settled w.scheduler.currentTime num den now (w.upTo ms) n := by
  have ht := hrange.since_ne_asap
  have hnow := hcourse.time_eq ht
  subst hnow
  obtain ⟨hrate, hkept⟩ := hfresh.kept hs ht (hrange.of_le ht hcourse.path.time_le)
  obtain ⟨n, hn, hahead⟩ := hcourse.settles hrate hkept (inRange_of_path hcourse.path ht hrange)
  exact ⟨n, hn, hn.counted.settled rfl hn.lives.timed hahead⟩

end

theorem frames_sit_on_the_grid {start : Instant} {q : Program σ β}
    (h₀ : w₀.scheduler = .start start) (hw : w ∈ q.worlds w₀)
    (hfresh : Fresh place device num den w) :
    (∀ {α : Type} (p : Program σ α) ms, p.Beside (resident place device) →
      p.Looks w ms ∨ ms = p.history w →
      InRange w.scheduler.currentTime num den (w.upTo ms).scheduler.currentTime →
        ∃ n, OnGrid place device w.scheduler.currentTime num den w ms n) ∧
    ∀ ms now, Course place device w ms now → InRange w.scheduler.currentTime num den now →
      ∃ n, OnGrid place device w.scheduler.currentTime num den w ms n ∧
        Settled w.scheduler.currentTime num den now (w.upTo ms) n := by
  have hs := Program.worlds_sound h₀ hw
  constructor
  · intro α p ms hp hms hrange
    obtain ⟨n, hn⟩ := hfresh.keeps_on hs hp hms hrange
    exact ⟨n, hn.onGrid⟩
  · intro ms now hcourse hrange
    obtain ⟨n, hn, hsettled⟩ := hfresh.settles hs hcourse hrange
    exact ⟨n, hn.onGrid, hsettled⟩

/-- Frames of 60000/1001 Hz from 100 on, the first of which is to end at 57330092. -/
def broadcast : World (Guarded FrameTimer) :=
  (Program.andThen (.enroll true) fun device => .register (.wrap 57330092) device frameEnd).after
    (.ofScheduler (.start (.wrap 100)) (.new ⟨⟨.wrap 100, 0, 60000, 1001⟩, 0⟩))

def timerAlone : Reaction (Guarded FrameTimer) := fun device time _ =>
  if device = 0 then waking (.whole _) 0 time else .done ()

theorem timerAlone_beside (steps : Nat) (thread : ThreadId) (limit : Instant) :
    (Program.schedule timerAlone steps thread limit).Beside (resident (.whole _) 0) := by
  refine ⟨fun _ _ => rfl, fun device time tag hd => ?_⟩
  have hne : device ≠ 0 := hd
  simp only [timerAlone, if_neg hne]
  trivial

theorem broadcast_inRange : InRange (.wrap 100) 60000 1001 (.wrap 120000000) := by
  intro k hk
  have hend : frameTicks (.wrap 100) 60000 1001 k = 100 + k * 3439799563200 / 60000 := rfl
  have hnext : frameTicks (.wrap 100) 60000 1001 (k + 1) =
      100 + (k + 1) * 3439799563200 / 60000 := rfl
  have hnow : (Instant.wrap 120000000).ticks = 120000000 := rfl
  have hsize : UInt64.size = 18446744073709551616 := rfl
  omega

/-- Two frames of different lengths, the first of which ends in the midst of a call. -/
theorem frames_sit_on_the_grid_broadcast :
    Fresh (.whole _) 0 60000 1001 broadcast ∧
      ∃ ms, Course (.whole _) 0 broadcast ms (.wrap 120000000) ∧
        OnGrid (.whole _) 0 (.wrap 100) 60000 1001 broadcast ms 2 ∧
        Settled (.wrap 100) 60000 1001 (.wrap 120000000) (broadcast.upTo ms) 2 := by
  have hnew : FrameTimer.new (.wrap 100) 60000 1001 =
      .ok (⟨⟨.wrap 100, 0, 60000, 1001⟩, 0⟩, ⟨.wrap 57330092, frameEnd⟩) := by cbv
  have hfresh : Fresh (.whole _) 0 60000 1001 broadcast := ⟨⟨_, _, hnew, rfl, rfl⟩, rfl⟩
  have hfirst : Course (.whole _) 0 broadcast _ (.wrap 60000000) :=
    Course.begun.moved (timerAlone_beside 20 0 (.wrap 60000000)) rfl
  have hlook : Course (.whole _) 0 broadcast _ (.wrap 60000000) :=
    hfirst.stood counting_beside ⟨trivial, fun _ => trivial⟩
  have hsecond : Course (.whole _) 0 broadcast _ (.wrap 120000000) :=
    hlook.moved (timerAlone_beside 20 0 (.wrap 120000000)) rfl
  obtain ⟨-, hcourses⟩ := frames_sit_on_the_grid rfl (Program.after_mem_worlds _ _) hfresh
  obtain ⟨n, hgrid, hsettled⟩ := hcourses _ _ hsecond broadcast_inRange
  have hn : n = 2 := by
    obtain ⟨v, hv⟩ := hgrid.told
    cases hv
    rfl
  subst hn
  exact ⟨hfresh, _, hsecond, hgrid, hsettled⟩

end Timebase.FrameTimer
