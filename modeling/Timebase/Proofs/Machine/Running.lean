import Timebase.Proofs.Machine.Peripherals

/-!
# Machines in step with time

What the devices of a machine keep in step with time stays so in every delivery, however far the
emulator asks for time to be moved.
-/

namespace Timebase

variable {c : MachineConfig} {out : List UInt8} {w v : World Peripherals} {limit t : Instant}
  {p : SyncPoint} {s : Scheduler} {steps : Nat} {thread : ThreadId}

namespace World

/-- A machine's world in step with time. What is pending may come due within a limit; between calls
it lies ahead, which is so if the limit is the earliest opportunity. -/
structure InStep (c : MachineConfig) (out : List UInt8) (limit : Instant) (w : World Peripherals) :
    Prop where
  sound : w.scheduler.Sound
  timed : w.scheduler.currentTime ≠ .asap
  lifetimes : w.lifetimes = List.replicate 4 ⟨true, 0, true⟩
  upcoming : w.scheduler.currentTime.Early → w.scheduler.Upcoming limit
  devices : w.scheduler.currentTime.Early →
    w.devices.InStep c out w.scheduler.currentTime w.scheduler.wanted

theorem release_of_owned {device : DeviceId}
    (hl : w.lifetimes = List.replicate 4 ⟨true, 0, true⟩)
    (hv : v.lifetimes = (w.retain device).lifetimes) :
    v.release device = { v with lifetimes := w.lifetimes } := by
  have hback : v.lifetimes.modify device (fun l => { l with running := l.running - 1 }) =
      w.lifetimes := by
    rw [hv, retain, List.modify_modify_eq]
    exact List.modify_id _ _
  rw [release, hback, bury, hl, List.getElem?_replicate]
  split
  · rename_i l h
    split at h
    · cases h
      rfl
    · cases h
  · rfl

namespace InStep

theorem due (h : InStep c out limit w) (hd : w.scheduler.takeDue limit = (some (p, t), s))
    (ht : t.Early) :
    w.devices.InStep c out t w.scheduler.wanted ∧ (p.time = .asap ∨ p.time = t) := by
  obtain ⟨rest, hq, -, htime, -⟩ := Scheduler.takeDue_eq_some.mp hd
  have hle : w.scheduler.currentTime ≤ t := by
    rw [htime]
    exact Scheduler.le_deliveryTime p w.scheduler
  have hnow := ht.of_le h.timed hle
  have hticks := Instant.ticks_le_of_le ht.ne_asap h.timed hle
  -- what is wanted at once comes first, so time stands still until nothing of it is left
  rcases (h.upcoming hnow).deliveryTime hd with ⟨hp, heq⟩ | ⟨hp, heq⟩
  · exact ⟨(h.devices hnow).later hticks (Or.inl heq), Or.inl hp⟩
  · refine ⟨(h.devices hnow).later hticks (Or.inr ?_), Or.inr heq.symm⟩
    intro device r hr
    obtain ⟨q, hqueue, -, hqtime, -⟩ := Scheduler.exists_of_mem_wanted hr
    have hlt := Instant.lt_of_lt_of_le (Instant.asap_lt hp) (Scheduler.head_le hq q hqueue)
    rw [← hqtime]
    exact Instant.ne_asap_of_lt hlt

/-- The devices keep step when one of them is woken. -/
theorem woken {asked : Option Request}
    (h : InStep c out limit w) (hd : w.scheduler.takeDue limit = (some (p, t), s))
    (ha : Peripherals.Answers t w.devices p.device p.tag v.devices asked)
    (hr : Peripherals.Registers p.device asked s v.scheduler)
    (hl : v.lifetimes = w.lifetimes) : InStep c out limit v := by
  obtain ⟨rest, hq, -, htime, hs⟩ := Scheduler.takeDue_eq_some.mp hd
  have hsnow : s.currentTime = t := by
    rw [hs, htime]
  have hnow : v.scheduler.currentTime = t := hr.currentTime.trans hsnow
  -- the woken device loses the first of its wishes and may gain another
  have hanswers : t.Early → v.devices.InStep c out t
      (Function.update w.scheduler.wanted p.device (asked.toList ++ s.wanted p.device)) ∧
        ∀ q ∈ asked, t < q.time := by
    intro ht
    obtain ⟨hdue, hptime⟩ := h.due hd ht
    exact hdue.answers ht (Scheduler.wanted_takeDue_self hd) hptime ha
  refine ⟨hr.sound (.takeDue hd), ?_, hl.trans h.lifetimes, ?_, ?_⟩
  · rw [hnow, htime]
    exact Scheduler.deliveryTime_ne_asap h.timed
  · intro ht
    rw [hnow] at ht
    have hle : w.scheduler.currentTime ≤ t := by
      rw [htime]
      exact Scheduler.le_deliveryTime p w.scheduler
    have hupcoming := (h.upcoming (ht.of_le h.timed hle)).takeDue hd
    exact hr.upcoming hupcoming (hsnow ▸ (hanswers ht).2)
  · intro ht
    rw [hnow] at ht ⊢
    refine (hanswers ht).1.of_perm ?_
    rw [Scheduler.wanted_takeDue hd, Function.update_idem]
    exact hr.perm_wanted

theorem inputId_lt_of_gone (h : InStep c out limit w) {device : DeviceId}
    (hgone : w.isAlive device = false) : Peripherals.inputId < device := by
  rw [isAlive, h.lifetimes, List.getElem?_replicate] at hgone
  split at hgone
  · rename_i l hl
    split at hl
    · cases hl
      cases hgone
    · cases hl
  · rename_i hl
    split at hl
    · cases hl
    · rename_i hge
      exact Nat.lt_of_not_le fun hle => hge (Nat.lt_succ_of_le hle)

theorem deliver_eq_ok (h : InStep c out limit w)
    (hp : World.deliver Peripherals.wake p t { w with scheduler := s } = .ok () v) :
    ∃ asked, Peripherals.Answers t w.devices p.device p.tag v.devices asked ∧
      Peripherals.Registers p.device asked s v.scheduler ∧ v.lifetimes = w.lifetimes := by
  cases halive : ({ w with scheduler := s } : World Peripherals).isAlive p.device with
  | true =>
    rw [deliver_of_alive halive] at hp
    cases hx : Peripherals.wake p.device t p.tag
        (({ w with scheduler := s } : World Peripherals).retain p.device) with
    | error halt x =>
      rw [during_of_error hx] at hp
      cases hp
    | ok _ x =>
      rw [during_of_ok hx] at hp
      cases hp
      obtain ⟨devices, asked, ha, hr, hxeq⟩ := Peripherals.wake_eq_ok hx
      have hdevices : x.devices = devices := by
        rw [hxeq]
      have hlifetimes : x.lifetimes = (w.retain p.device).lifetimes := by
        rw [hxeq]
        rfl
      subst hdevices
      rw [release_of_owned h.lifetimes hlifetimes]
      exact ⟨asked, ha, hr, rfl⟩
  | false =>
    rw [deliver_of_gone halive] at hp
    cases hp
    exact ⟨none, .other (h.inputId_lt_of_gone halive), rfl, rfl⟩

theorem deliver (h : InStep c out limit w) (hd : w.scheduler.takeDue limit = (some (p, t), s))
    (hp : World.deliver Peripherals.wake p t { w with scheduler := s } = .ok () v) :
    InStep c out limit v := by
  obtain ⟨asked, ha, hr, hl⟩ := h.deliver_eq_ok hp
  exact h.woken hd ha hr hl

theorem ahead (h : InStep c out .asap w) (hnow : w.scheduler.currentTime.Early)
    (device : DeviceId) : ∀ q ∈ w.scheduler.wanted device, q.time ≠ .asap →
      w.scheduler.currentTime < q.time := by
  intro q hq hne
  obtain ⟨p, hp, -, htime, -⟩ := Scheduler.exists_of_mem_wanted hq
  rw [← htime] at hne ⊢
  exact (h.upcoming hnow).ahead hp hne

theorem of_samePending (h : InStep c out limit w) (hs : w.scheduler.SamePending s)
    (ht : s.currentTime = w.scheduler.currentTime) :
    InStep c out limit { w with scheduler := s } := by
  have hwanted : s.wanted = w.scheduler.wanted := hs.wanted
  refine ⟨hs.sound h.sound, ht ▸ h.timed, h.lifetimes, ?_, ?_⟩
  · intro hnow p hp
    rw [ht] at hnow ⊢
    exact h.upcoming hnow p (hs.queue ▸ hp)
  · intro hnow
    rw [ht] at hnow ⊢
    rw [hwanted]
    exact h.devices hnow

theorem upTo (h : InStep c out .asap w) (limit : Instant) : InStep c out limit w :=
  ⟨h.sound, h.timed, h.lifetimes,
    fun hnow => .of_ahead fun _ hp hne => (h.upcoming hnow).ahead hp hne, h.devices⟩

theorem reach (h : InStep c out limit w) (hl : limit ≠ .asap)
    (hlt : ∀ p ∈ w.scheduler.queue, limit < p.time) :
    InStep c out .asap { w with scheduler := w.scheduler.reach limit } := by
  have hle : w.scheduler.currentTime ≤ (w.scheduler.reach limit).currentTime :=
    Instant.le_later hl
  refine ⟨(Scheduler.samePending_reach limit _).sound h.sound, Instant.later_ne_asap h.timed hl,
    h.lifetimes, ?_, ?_⟩
  · intro hnow
    exact .of_ahead ((h.upcoming (hnow.of_le h.timed hle)).reach h.timed hl hlt)
  · intro hnow
    refine (h.devices (hnow.of_le h.timed hle)).later
      (Instant.ticks_le_of_le hnow.ne_asap h.timed hle) (Or.inr ?_)
    intro device r hr
    obtain ⟨p, hp, -, htime, -⟩ := Scheduler.exists_of_mem_wanted hr
    rw [← htime]
    exact Instant.ne_asap_of_lt (hlt p hp)

/-- A machine is in step whenever it has caught up with its CPU. -/
theorem schedule (h : InStep c out .asap w)
    (hv : World.schedule Peripherals.wake steps thread limit w = .ok () v) :
    InStep c out .asap v := by
  obtain ⟨hl, ⟨hidle, rfl⟩ | ⟨u, hu, hnone, rfl⟩⟩ := schedule_eq_ok hv
  · have howned := h.of_samePending (s := w.scheduler.ownedBy thread) ⟨rfl, rfl⟩ rfl
    exact (howned.upTo limit).reach hl (h.sound.lt_of_isIdleUntil hidle).2
  · have hentered := (h.upTo limit).of_samePending
      (Scheduler.samePending_enteredBy thread w.scheduler) rfl
    have hdispatched : InStep c out limit u :=
      dispatch_keeps (fun h hd hp => h.deliver hd hp) hu hentered
    have hreached := hdispatched.reach hl (Scheduler.lt_of_takeDue_none hnone)
    exact hreached.of_samePending (Scheduler.samePending_leave _) rfl

end InStep
end World
end Timebase
