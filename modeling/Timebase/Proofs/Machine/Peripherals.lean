import Timebase.Machine.Basic
import Timebase.Proofs.Device.AudioSampler
import Timebase.Proofs.Device.FrameTimer
import Timebase.Proofs.Device.Uart
import Timebase.Proofs.Wanted

/-!
# Peripherals in step with time

A device that is woken changes nothing but its own state, and may ask for its next wake-up. If all
devices of a machine are in step with time, they still are after a wake-up of one of them.
-/

namespace Timebase

open Clock (Steady)

theorem VideoStandard.steady (v : VideoStandard) : Steady v.frameRate.1 v.frameRate.2 := by
  cases v
  all_goals exact ⟨by decide, by decide, by decide⟩

theorem InputPort.wake_waiting (t : Instant) (p : InputPort) :
    (p.wake t).waiting = p.waiting.tail := by
  rcases p with ⟨waiting, latched⟩
  cases waiting with
  | nil => rfl
  | cons byte rest => rfl

namespace Peripherals

variable {c : MachineConfig} {out : List UInt8} {now t : Instant} {p p' : Peripherals}
  {wanted wanted' : DeviceId → List Request} {device : DeviceId} {tag : Tag} {r : Request}
  {rest : List Request} {asked : Option Request} {w v : World Peripherals} {s s' : Scheduler}

/-- What the devices do when one of them is woken, and what it asks for then. -/
inductive Answers (t : Instant) (p : Peripherals) :
    DeviceId → Tag → Peripherals → Option Request → Prop
  | frames {tag : Tag} {f : FrameTimer} {r : Request}
      (h : FrameTimer.wake t p.frames.value = .ok r f) :
      Answers t p framesId tag { p with frames := .new f } (some r)
  | uart {tag : Tag} {u : Uart} {asked : Option Request}
      (h : Uart.wake t tag p.uart.value = .ok asked u) :
      Answers t p uartId tag { p with uart := .new u } asked
  | audio {tag : Tag} {a : AudioSampler} {r : Request}
      (h : AudioSampler.update t p.audio.value = .ok () a)
      (hend : p.audioFormat.endOfBatch t = .ok r) :
      Answers t p audioId tag { p with audio := .new a } (some r)
  | input {tag : Tag} : Answers t p inputId tag { p with input := p.input.wake t } none
  | other {tag : Tag} {device : DeviceId} (h : inputId < device) : Answers t p device tag p none

/-- A device registers what it asks for. -/
def Registers (device : DeviceId) (asked : Option Request) (s s' : Scheduler) : Prop :=
  match asked with
  | some r => s.register r.time device r.tag = .ok s'
  | none => s' = s

namespace Registers

variable {limit : Instant}

theorem sound (h : Registers device asked s s') (hs : s.Sound) : s'.Sound := by
  cases asked with
  | some r => exact .register h
  | none =>
    cases h
    exact hs

theorem currentTime (h : Registers device asked s s') : s'.currentTime = s.currentTime := by
  cases asked with
  | some r => exact (Scheduler.sameTime_register h).currentTime
  | none =>
    cases h
    rfl

theorem perm_wanted (h : Registers device asked s s') (other : DeviceId) :
    (s'.wanted other).Perm
      (Function.update s.wanted device (asked.toList ++ s.wanted device) other) := by
  cases asked with
  | some r => exact Scheduler.wanted_register h other
  | none =>
    cases h
    show (s.wanted other).Perm (Function.update s.wanted device (s.wanted device) other)
    rw [Function.update_eq_self]

theorem upcoming (h : Registers device asked s s') (hs : s.Upcoming limit)
    (hasked : ∀ r ∈ asked, s.currentTime < r.time) : s'.Upcoming limit := by
  cases asked with
  | some r => exact hs.register h (Or.inr (hasked r rfl))
  | none =>
    cases h
    exact hs

end Registers

theorem request_eq_ok (h : request device r w = .ok () v) :
    ∃ s, w.scheduler.register r.time device r.tag = .ok s ∧ v = { w with scheduler := s } := by
  cases hs : w.scheduler.register r.time device r.tag with
  | ok s =>
    rw [request, World.register_of_ok hs] at h
    cases h
    exact ⟨s, rfl, rfl⟩
  | error cause =>
    rw [request, World.register_of_error hs] at h
    cases h

theorem onPart_eq_ok {α τ : Type} {part : Part Peripherals (Guarded τ)} {act : Run τ α} {a : α}
    (h : World.onDevices (Run.on part (Guarded.access act)) w = .ok a v) :
    ∃ value, act (part.get w.devices).value = .ok a value ∧
      v = { w with devices := part.set (.new value) w.devices } := by
  obtain ⟨devices, hon, rfl⟩ := Run.on_eq_ok.mp h
  obtain ⟨g, haccess, rfl⟩ := Run.on_eq_ok.mp hon
  obtain ⟨value, hact, rfl⟩ := Run.access_eq_ok haccess
  exact ⟨value, hact, rfl⟩

theorem look_eq_ok {α τ : Type} {part : Part Peripherals (Guarded τ)} {f : τ → α} {a : α}
    (hpart : ∀ p, part.set (part.get p) p = p)
    (h : World.onDevices (Run.on part (Guarded.access (f <$> get))) w = .ok a v) :
    a = f (part.get w.devices).value ∧ v = w := by
  obtain ⟨devices, hon, rfl⟩ := Run.on_eq_ok.mp h
  obtain ⟨g, haccess, rfl⟩ := Run.on_eq_ok.mp hon
  obtain ⟨ha, rfl⟩ := Run.access_look_eq_ok haccess
  refine ⟨ha, ?_⟩
  show { w with devices := part.set (part.get w.devices) w.devices } = w
  rw [hpart]

theorem inputId_lt (hframes : device ≠ framesId) (huart : device ≠ uartId)
    (haudio : device ≠ audioId) (hinput : device ≠ inputId) : inputId < device := by
  match device with
  | 0 => exact absurd rfl hframes
  | 1 => exact absurd rfl huart
  | 2 => exact absurd rfl haudio
  | 3 => exact absurd rfl hinput
  | n + 4 => exact Nat.lt_add_left n (Nat.lt_succ_self 3)

theorem wake_eq_ok (h : wake device t tag w = .ok () v) :
    ∃ devices asked, Answers t w.devices device tag devices asked ∧
      Registers device asked w.scheduler v.scheduler ∧
      v = { w with devices, scheduler := v.scheduler } := by
  rw [wake] at h
  split at h
  · rename_i hd
    subst hd
    obtain ⟨r, u, hframes, hrequest⟩ := Run.bind_eq_ok.mp h
    obtain ⟨f, hf, rfl⟩ := onPart_eq_ok hframes
    obtain ⟨s, hs, rfl⟩ := request_eq_ok hrequest
    exact ⟨_, some r, .frames hf, hs, rfl⟩
  · split at h
    · rename_i hd
      subst hd
      obtain ⟨asked, u, huart, hrequest⟩ := Run.bind_eq_ok.mp h
      obtain ⟨u', hu, rfl⟩ := onPart_eq_ok huart
      cases asked with
      | some r =>
        obtain ⟨s, hs, rfl⟩ := request_eq_ok hrequest
        exact ⟨_, some r, .uart hu, hs, rfl⟩
      | none =>
        cases hrequest
        exact ⟨_, none, .uart hu, rfl, rfl⟩
    · split at h
      · rename_i hd
        subst hd
        obtain ⟨_, u, haudio, hrest⟩ := Run.bind_eq_ok.mp h
        obtain ⟨a, ha, rfl⟩ := onPart_eq_ok haudio
        obtain ⟨u, u', hget, hrest⟩ := Run.bind_eq_ok.mp hrest
        cases hget
        obtain ⟨r, u, hlift, hrequest⟩ := Run.bind_eq_ok.mp hrest
        obtain ⟨hend, rfl⟩ := Run.lift_eq_ok.mp hlift
        obtain ⟨s, hs, rfl⟩ := request_eq_ok hrequest
        exact ⟨_, some r, .audio ha hend, hs, rfl⟩
      · split at h
        · rename_i hd
          subst hd
          cases h
          exact ⟨_, none, .input, rfl, rfl⟩
        · rename_i hframes huart haudio hinput
          cases h
          exact ⟨_, none, .other (inputId_lt hframes huart haudio hinput), rfl, rfl⟩

/-- How the devices of a machine stand at an instant, given what each of them has pending. -/
structure InStep (c : MachineConfig) (out : List UInt8) (now : Instant) (p : Peripherals)
    (wanted : DeviceId → List Request) : Prop where
  frames : FrameTimer.InStep c.video.frameRate.1 c.video.frameRate.2 now p.frames.value
    (wanted framesId)
  uart : Uart.InStep c.baud (Text.toOctets c.message) out now p.uart.value (wanted uartId)
  baud_steady : Steady c.baud 1
  audio : AudioSampler.InStep c.sampleRate now p.audioFormat p.audio.value (wanted audioId)
  input : wanted inputId = List.replicate p.input.waiting.length ⟨.asap, InputPort.arrival⟩
  others : ∀ device, inputId < device → wanted device = []

namespace InStep

theorem later (h : InStep c out now p wanted) (hle : now.ticks ≤ t.ticks)
    (hasap : t = now ∨ ∀ device, ∀ q ∈ wanted device, q.time ≠ .asap) :
    InStep c out t p wanted where
  frames := h.frames.later hle
  uart := h.uart.later hle (hasap.imp id fun h => h uartId)
  baud_steady := h.baud_steady
  audio := h.audio.later hle
  input := h.input
  others := h.others

private theorem eq_of_perm_of_length_le {l l' : List Request} (h : l'.Perm l)
    (hl : l.length ≤ 1) : l' = l := by
  match l with
  | [] => exact List.perm_nil.mp h
  | [r] => exact List.perm_singleton.mp h

/-- A device wants one thing at most or the same thing several times, so the order does not matter. -/
theorem of_perm (h : InStep c out now p wanted)
    (hperm : ∀ device, (wanted' device).Perm (wanted device)) : InStep c out now p wanted' := by
  have heq : wanted' = wanted := by
    funext device
    have hdevice := hperm device
    by_cases hother : inputId < device
    · rw [h.others device hother] at hdevice ⊢
      exact List.perm_nil.mp hdevice
    · match device with
      | 0 => exact eq_of_perm_of_length_le hdevice h.frames.length_le
      | 1 => exact eq_of_perm_of_length_le hdevice h.uart.length_le
      | 2 => exact eq_of_perm_of_length_le hdevice h.audio.length_le
      | 3 =>
        rw [show wanted 3 = _ from h.input] at hdevice ⊢
        exact List.perm_replicate.mp hdevice
      | n + 4 => exact absurd (Nat.lt_add_left n (Nat.lt_succ_self 3)) hother
  rw [heq]
  exact h

/-- A wake-up of one device leaves all of them in step. -/
theorem answers (h : InStep c out t p wanted) (ht : t.Early) (hwanted : wanted device = r :: rest)
    (htime : r.time = .asap ∨ r.time = t) (ha : Answers t p device r.tag p' asked) :
    InStep c out t p' (Function.update wanted device (asked.toList ++ rest)) ∧
      ∀ q ∈ asked, t < q.time := by
  have hr : r ∈ wanted device := by
    rw [hwanted]
    exact List.mem_cons_self
  have hrest : ∀ {n}, (wanted n).length ≤ 1 → n = device → rest = [] := by
    rintro n hle rfl
    rw [hwanted, List.length_cons] at hle
    exact List.length_eq_zero_iff.mp (by omega)
  -- devices that are not part of the machine are told apart from the one that was woken
  have hothers : ∀ {n : DeviceId} {l}, n ≤ inputId → ∀ device, inputId < device →
      Function.update wanted n l device = [] := by
    intro n l hn device hother
    rw [Function.update_of_ne (Nat.ne_of_gt (Nat.lt_of_le_of_lt hn hother))]
    exact h.others device hother
  cases ha with
  | frames hwake =>
    obtain ⟨hframes, hlt⟩ := h.frames.wake c.video.steady ht hwake
    rw [hrest h.frames.length_le rfl, List.append_nil]
    exact ⟨⟨hframes, h.uart, h.baud_steady, h.audio, h.input, hothers (by decide)⟩,
      fun q hq => (by cases hq; exact hlt)⟩
  | uart hwake =>
    obtain ⟨huart, hlt⟩ := h.uart.wake h.baud_steady ht hr htime hwake
    rw [hrest h.uart.length_le rfl, List.append_nil]
    exact ⟨⟨h.frames, huart, h.baud_steady, h.audio, h.input, hothers (by decide)⟩, hlt⟩
  | audio hupdate hend =>
    obtain ⟨-, hupdated⟩ := h.audio.update ht hupdate
    obtain ⟨haudio, hlt⟩ := hupdated.wake ht hr htime hend
    rw [hrest h.audio.length_le rfl, List.append_nil]
    exact ⟨⟨h.frames, h.uart, h.baud_steady, haudio, h.input, hothers (by decide)⟩,
      fun q hq => (by cases hq; exact hlt)⟩
  | input =>
    refine ⟨⟨h.frames, h.uart, h.baud_steady, h.audio, ?_, hothers (by decide)⟩,
      fun q hq => (by cases hq)⟩
    have hinput := congrArg List.tail h.input
    rw [hwanted, List.tail_cons, List.tail_replicate] at hinput
    show rest = List.replicate (p.input.wake t).waiting.length _
    rw [InputPort.wake_waiting, List.length_tail]
    exact hinput
  | other hother =>
    rw [h.others device hother] at hwanted
    cases hwanted

theorem inject (h : InStep c out now p wanted) (byte : UInt8) :
    InStep c out now { p with input := p.input.inject byte }
      (Function.update wanted inputId (⟨.asap, InputPort.arrival⟩ :: wanted inputId)) := by
  refine ⟨h.frames, h.uart, h.baud_steady, h.audio, ?_, ?_⟩
  · show _ :: wanted inputId = List.replicate (p.input.waiting ++ [byte]).length _
    rw [h.input, List.length_append]
    rfl
  · intro device hother
    rw [Function.update_of_ne (Nat.ne_of_gt hother)]
    exact h.others device hother

theorem fetch (h : InStep c out now p wanted) :
    InStep c (out ++ p.uart.value.receiver.arrived) now
      { p with uart := { p.uart with value := { p.uart.value with
          receiver := { p.uart.value.receiver with arrived := [] } } } } wanted :=
  ⟨h.frames, h.uart.fetch, h.baud_steady, h.audio, h.input, h.others⟩

theorem account {a : AudioSampler} (h : InStep c out now p wanted) (hnow : now.Early)
    (ha : AudioSampler.update now p.audio.value = .ok () a) :
    a = AudioSampler.accounted c.sampleRate now ∧
      InStep c out now { p with audio := .new a } wanted := by
  obtain ⟨heq, haudio⟩ := h.audio.update hnow ha
  exact ⟨heq, h.frames, h.uart, h.baud_steady, haudio, h.input, h.others⟩

end InStep

end Peripherals
end Timebase
