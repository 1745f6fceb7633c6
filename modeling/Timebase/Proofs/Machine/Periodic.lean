import Timebase.Proofs.Device.FrameGrid
import Timebase.Proofs.Device.Sampling
import Timebase.Proofs.Machine.Report
import Timebase.Proofs.Machine.Residents

/-!
# Frames and sound of a machine

A machine is powered on with a fresh frame timer and a new sampler, and they are woken as they are
among any other devices. So its frames sit on their grid, and its sound does not drift.
-/

namespace Timebase

namespace Peripherals

variable {device : DeviceId} {time : Instant} {tag : Tag}

def framePlace : Place Peripherals (Guarded FrameTimer) :=
  ⟨some ∘ framesPart.get, framesPart.set, fun _ _ => rfl, fun _ _ _ => rfl⟩

/-- A sampler together with its format. -/
def samplerPart : Part Peripherals (Guarded AudioSampler × AudioFormat) :=
  ⟨fun p => (p.audio, p.audioFormat), fun (audio, audioFormat) p => { p with audio, audioFormat }⟩

def samplerPlace : Place Peripherals (Guarded AudioSampler × AudioFormat) :=
  ⟨some ∘ samplerPart.get, samplerPart.set, fun _ _ => rfl, fun _ _ _ => rfl⟩

/-- The same wake-ups, each of a frame timer or a sampler in one piece. -/
def periodic : Reaction Peripherals := fun device time tag =>
  if device = framesId then FrameTimer.waking framePlace framesId time
  else if device = audioId then AudioSampler.waking samplerPlace audioId time
  else reaction device time tag

theorem wake_frames_in_one (time : Instant) (tag : Tag) :
    (FrameTimer.waking framePlace framesId time).run = wake framesId time tag := by
  rw [FrameTimer.waking, deed_run_of_part framesPart rfl rfl]
  rfl

theorem wake_audio_in_one (time : Instant) (tag : Tag) :
    (AudioSampler.waking samplerPlace audioId time).run = wake audioId time tag := by
  rw [AudioSampler.waking, deed_run_of_part samplerPart rfl rfl]
  funext w
  cases hact : Guarded.access (AudioSampler.update time) w.devices.audio with
  | error halt sampler =>
    have hupdate : onAudio (AudioSampler.update time) w = .error halt _ :=
      World.onDevices_of_error (Run.on_of_error hact)
    have hwake : World.onDevices (Run.on samplerPart (AudioSampler.wake time)) w = .error halt _ :=
      World.onDevices_of_error (Run.on_of_error (AudioSampler.wake_of_error hact))
    exact (Run.bind_of_error hwake).trans (Run.bind_of_error hupdate).symm
  | ok _ sampler =>
    have hupdate : onAudio (AudioSampler.update time) w = .ok () _ :=
      World.onDevices_of_ok (Run.on_of_ok hact)
    have hwake : World.onDevices (Run.on samplerPart (AudioSampler.wake time)) w = .ok _ _ :=
      World.onDevices_of_ok (Run.on_of_ok (AudioSampler.wake_of_ok hact))
    refine (Run.bind_of_ok hwake).trans (Eq.trans ?_ (Run.bind_of_ok hupdate).symm)
    let asked := w.devices.audioFormat.endOfBatch time
    show (AudioSampler.asking audioId (some asked)).run _ =
      (Run.lift asked >>= fun r => request audioId r) _
    cases asked <;> rfl

theorem periodic_wake : periodic.wake = wake := by
  funext device time tag
  rcases device with _ | _ | _ | n
  · exact wake_frames_in_one time tag
  · exact congrFun (congrFun (congrFun reaction_wake uartId) time) tag
  · exact wake_audio_in_one time tag
  · exact congrFun (congrFun (congrFun reaction_wake (n + 3)) time) tag

section

variable {τ : Type} {r : Resident Peripherals τ}

theorem waking_frames_beside (hr : framesId ≠ r.device)
    (hplace : ∀ x p, r.place.get? (framePlace.put x p) = r.place.get? p) (time : Instant) :
    (FrameTimer.waking framePlace framesId time).Beside r :=
  deed_beside framesPart rfl hplace fun _ => asking_beside hr _

theorem waking_audio_beside (hr : audioId ≠ r.device)
    (hplace : ∀ x p, r.place.get? (samplerPlace.put x p) = r.place.get? p) (time : Instant) :
    (AudioSampler.waking samplerPlace audioId time).Beside r := by
  refine deed_beside samplerPart rfl hplace fun asked => ?_
  rcases asked with _ | _ | asked
  · trivial
  · trivial
  · exact hr

end

theorem frameTimer_beside (steps : Nat) (thread : ThreadId) (limit : Instant) :
    (Program.schedule periodic steps thread limit).Beside
      (FrameTimer.resident framePlace framesId) := by
  refine ⟨fun _ _ => rfl, fun device time tag hd => ?_⟩
  rcases device with _ | _ | _ | _ | n
  · exact absurd rfl hd
  · exact waking_line_beside (by decide : uartId ≠ framesId) (fun _ _ => rfl) time tag
  · exact waking_audio_beside (by decide : audioId ≠ framesId) (fun _ _ => rfl) time
  · exact waking_input_beside (fun _ _ => rfl) time
  · trivial

theorem sampler_beside (steps : Nat) (thread : ThreadId) (limit : Instant) :
    (Program.schedule periodic steps thread limit).Beside
      (AudioSampler.resident samplerPlace audioId) := by
  refine ⟨fun _ _ => rfl, fun device time tag hd => ?_⟩
  rcases device with _ | _ | _ | _ | n
  · exact waking_frames_beside (by decide : framesId ≠ audioId) (fun _ _ => rfl) time
  · exact waking_line_beside (by decide : uartId ≠ audioId) (fun _ _ => rfl) time tag
  · exact absurd rfl hd
  · exact waking_input_beside (fun _ _ => rfl) time
  · trivial

end Peripherals

namespace Machine

variable {c : MachineConfig} {w v : World Peripherals}

theorem fresh_of_powerOn (h : powerOn c .new = .ok w) :
    FrameTimer.Fresh Peripherals.framePlace Peripherals.framesId c.video.frameRate.1
      c.video.frameRate.2 w := by
  obtain ⟨f, r, _, _, _, _, _, _, hnew, -, -, -, -, hs₁, hs₂, hs₃, hweq⟩ := powerOn_eq_ok h
  have hwanted : w.scheduler.wanted Peripherals.framesId = [r] := by
    rw [Scheduler.wanted_register_of_ne hs₃ (by decide),
      Scheduler.wanted_register_of_ne hs₂ (by decide)]
    have hfirst := Scheduler.wanted_register hs₁ Peripherals.framesId
    rw [Function.update_self] at hfirst
    exact List.perm_singleton.mp hfirst
  refine ⟨⟨f, r, ?_, ?_, hwanted⟩, isOwned_powerOn h (by decide)⟩
  · rwa [currentTime_powerOn h]
  · rw [hweq]
    rfl

/-- When time has been moved to a limit, a machine has counted its frames up to there. -/
theorem frames_of_schedule {steps : Nat} {thread : ThreadId} {limit : Instant}
    (h : powerOn c .new = .ok w)
    (hmoved : World.schedule Peripherals.wake steps thread limit w = .ok () v)
    (hrange : FrameTimer.InRange .zero c.video.frameRate.1 c.video.frameRate.2 limit) :
    FrameTimer.Settled .zero c.video.frameRate.1 c.video.frameRate.2 limit v
      v.devices.frames.value.frames := by
  have hzero := currentTime_powerOn h
  have hrun : (Program.schedule Peripherals.periodic steps thread limit).run w = .ok () v := by
    rw [← hmoved, ← Peripherals.periodic_wake]
    rfl
  have hcourse : FrameTimer.Course Peripherals.framePlace Peripherals.framesId w _ _ :=
    .moved .begun (Peripherals.frameTimer_beside steps thread limit) hrun
  have hlimit := (World.schedule_eq_ok hmoved).1
  have hnow : w.scheduler.currentTime.later limit = limit :=
    hzero ▸ Instant.later_of_le hlimit Instant.early_zero.ne_asap
      (Instant.le_of_ticks_le hlimit (Nat.zero_le _))
  rw [hnow] at hcourse
  obtain ⟨n, hkept, hsettled⟩ :=
    (fresh_of_powerOn h).settles (sound_powerOn h) hcourse (hzero ▸ hrange)
  have hend : w.upTo ([] ++ (Program.schedule Peripherals.periodic steps thread limit).history
      (w.upTo [])) = v := by
    rw [List.nil_append, World.upTo, (Program.path _ w).upTo_eq, Program.after,
      Run.after_of_ok hrun]
  rw [hend, hzero] at hsettled
  have hstate := hkept.counted.state
  rw [hend] at hstate
  have hframes : v.devices.frames.value.frames = n :=
    congrArg (fun g => g.value.frames) (Option.some.inj hstate)
  rwa [hframes]

theorem made_of_powerOn (h : powerOn c .new = .ok w) :
    AudioSampler.Made Peripherals.samplerPlace w.scheduler.currentTime c.sampleRate c.audioBatch
      w := by
  obtain ⟨_, _, _, a, f, _, _, _, -, -, ha, hf, -, -, -, -, hweq⟩ := powerOn_eq_ok h
  rw [currentTime_powerOn h]
  refine ⟨Instant.early_zero.ne_asap, a, f, ha, hf, ?_⟩
  rw [hweq]
  rfl

/-- While time is moved, a sampler is woken at the ends of its batches alone. As long as these are no
further apart than a span can tell, it counts the exact number of samples up to the last one. -/
theorem samples_of_schedule (steps : Nat) (thread : ThreadId) (limit : Instant)
    (h : powerOn c .new = .ok w) :
    ∃ ts, AudioSampler.Career Peripherals.samplerPlace Peripherals.audioId w
        ((Program.schedule Peripherals.periodic steps thread limit).history w) ts ∧
      (AudioSampler.Near .zero ts → AudioSampler.Tells Peripherals.samplerPlace
        ((Program.schedule Peripherals.periodic steps thread limit).after w)
        ((AudioSampler.latest .zero ts).ticks * c.sampleRate / mainFreq)) := by
  have hzero := currentTime_powerOn h
  have hmade := made_of_powerOn h
  rw [hzero] at hmade
  have hlives : (AudioSampler.resident Peripherals.samplerPlace Peripherals.audioId).Lives w :=
    ⟨sound_powerOn h, hzero ▸ Instant.early_zero.ne_asap, isOwned_powerOn h (by decide)⟩
  obtain ⟨-, ts, hcareer⟩ := (Peripherals.sampler_beside steps thread limit).keeps
    AudioSampler.keeps_career hlives (Or.inr rfl)
  refine ⟨ts, hcareer, fun hnear => ?_⟩
  have htold := hcareer.tells hmade hnear
  rwa [(Program.path _ w).upTo_eq] at htold

end Machine
end Timebase
