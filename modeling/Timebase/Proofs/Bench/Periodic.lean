import Timebase.Proofs.Bench
import Timebase.Proofs.Device.FrameGrid
import Timebase.Proofs.Device.Sampling

/-!
# Frame timers and samplers on a test bench

What is done to a frame timer or a sampler on a bench, and what they do there when they are woken, is
what they do among any other devices.
-/

namespace Timebase.Bench

variable {α : Type} {device : DeviceId} {w : BenchWorld} {wake : WakeOn} {steps : Nat}
  {context : Context}
  {thread : ThreadId} {time : Instant} {tag : Tag}

def framePlace : DeviceId → Place Devices (Guarded FrameTimer) := place Devices.frames fun _ => rfl

def samplerPlace : DeviceId → Place Devices (Guarded AudioSampler × AudioFormat) :=
  place Devices.samplers fun _ => rfl

theorem onFrame_eq (act : Run FrameTimer α) : Devices.onFrame device act =
    World.onDevices ((framePlace device).on (Guarded.access act)) :=
  on_eq Devices.frames (fun _ => rfl) (Guarded.access act)

theorem onSampler_eq (act : Run AudioSampler α) : Devices.onSampler device act =
    World.onDevices ((samplerPlace device).on (Run.on AudioSampler.part (Guarded.access act))) :=
  on_eq Devices.samplers (fun _ => rfl) _

theorem get?_samplerPlace {sampler : Guarded AudioSampler} {format : AudioFormat}
    (h : w.devices.all[device]? = some (.audio sampler format)) :
    (samplerPlace device).get? w.devices = some (sampler, format) := by
  show w.devices.all[device]?.bind Devices.samplers.get? = _
  rw [h]
  rfl

theorem execute_frame {timer : Guarded FrameTimer}
    (h : w.devices.all[device]? = some (.frame timer)) :
    execute (steps + 1) thread device time tag w =
      (FrameTimer.waking (framePlace device) device time).run w := by
  have hget (next : BenchWorld → Run BenchWorld Unit) : (get >>= next) w = next w w := rfl
  rw [execute, hget]
  simp only [h]
  rw [onFrame_eq, FrameTimer.waking, Place.deed, Program.run]
  refine congrFun (congrArg _ (funext fun asked => ?_)) w
  cases asked <;> rfl

theorem execute_audio {sampler : Guarded AudioSampler} {format : AudioFormat}
    (h : w.devices.all[device]? = some (.audio sampler format)) :
    execute (steps + 1) thread device time tag w =
      (AudioSampler.waking (samplerPlace device) device time).run w := by
  have hget (next : BenchWorld → Run BenchWorld Unit) : (get >>= next) w = next w w := rfl
  rw [execute, hget]
  simp only [h]
  rw [onSampler_eq, AudioSampler.waking, Place.deed, Program.run]
  have hplace := get?_samplerPlace h
  cases hact : Guarded.access (AudioSampler.update time) sampler with
  | error halt sampler' =>
    have hon : Run.on AudioSampler.part (Guarded.access (AudioSampler.update time))
        (sampler, format) = .error halt (sampler', format) := Run.on_of_error hact
    have hupdate := World.onDevices_of_error (w := w) (Place.on_of_error hplace hon)
    have hwake := World.onDevices_of_error (w := w)
      (Place.on_of_error hplace (AudioSampler.wake_of_error hact))
    exact (Run.bind_of_error hupdate).trans (Run.bind_of_error hwake).symm
  | ok _ sampler' =>
    have hon : Run.on AudioSampler.part (Guarded.access (AudioSampler.update time))
        (sampler, format) = .ok () (sampler', format) := Run.on_of_ok hact
    have hupdate := World.onDevices_of_ok (w := w) (Place.on_of_ok hplace hon)
    have hwake := World.onDevices_of_ok (w := w)
      (Place.on_of_ok hplace (AudioSampler.wake_of_ok hact))
    refine (Run.bind_of_ok hupdate).trans (Eq.trans ?_ (Run.bind_of_ok hwake).symm)
    cases format.endOfBatch time <;> rfl

section

variable (h : w.isOwned device = true)

include h

theorem perform_frames : perform wake steps context (.frames device) w =
    (about .count <$> (FrameTimer.counting (framePlace device)).run) w := by
  rw [perform, map_eq_pure_bind, map_eq_pure_bind, held_bind h, onFrame_eq, FrameTimer.counting,
    Place.deed, Program.run, bind_assoc]
  refine congrFun (congrArg _ (funext fun f => ?_)) w
  cases f <;> rfl

theorem perform_update {m : Moment} (hm : context.resolve m w = .ok time w) :
    perform wake steps context (.update device m) w =
      ((fun _ => .nothing) <$> (AudioSampler.updating (samplerPlace device) time).run) w := by
  rw [perform, Run.bind_of_ok hm, held_bind h, onSampler_eq, AudioSampler.updating, Place.deed,
    Program.run, map_eq_pure_bind, bind_assoc]
  rfl

theorem perform_samples {sampler : Guarded AudioSampler} {format : AudioFormat}
    (hw : w.devices.all[device]? = some (.audio sampler format)) :
    perform wake steps context (.samples device) w =
      (about (Answer.samples · format.rate) <$>
        (AudioSampler.counting (samplerPlace device)).run) w := by
  rw [perform, map_eq_pure_bind, held_bind h, onSampler_eq, AudioSampler.counting, Place.deed,
    Program.run, bind_assoc]
  have hplace := get?_samplerPlace hw
  let p := samplerPlace device
  cases hread : Run.on AudioSampler.part (Guarded.access get) (sampler, format) with
  | error halt q =>
    have hlook := World.onDevices_of_error (w := w) (Place.on_of_error hplace hread)
    exact (Run.bind_of_error hlook).trans (Run.bind_of_error hlook).symm
  | ok a q =>
    -- a look leaves the sampler as it is, so that its format is there to be read
    have hsame : q = (sampler, format) := by
      have hafter := Run.after_on AudioSampler.part (Guarded.access get) (sampler, format)
      rw [Run.after_access_get, Run.after_of_ok hread] at hafter
      exact hafter
    subst hsame
    have hlook := World.onDevices_of_ok (w := w) (Place.on_of_ok hplace hread)
    let v : BenchWorld := { w with devices := p.put (sampler, format) w.devices }
    have hthere : p.get? v.devices = some (sampler, format) := p.get_put _ hplace
    have hformat : Devices.formatOf device v = .ok (some format) v := by
      have htwice : p.put (sampler, format) v.devices = v.devices := p.put_put _ _ hplace
      have hsnd : (Prod.snd <$> get : Run (Guarded AudioSampler × AudioFormat) AudioFormat)
          (sampler, format) = .ok format (sampler, format) := rfl
      have hon := World.onDevices_of_ok (w := v) (Place.on_of_ok hthere hsnd)
      rw [htwice] at hon
      rwa [Devices.formatOf, on_eq Devices.samplers fun _ => rfl]
    refine (Run.bind_of_ok hlook).trans (Eq.trans ?_ (Run.bind_of_ok hlook).symm)
    exact Run.bind_of_ok hformat

end

end Timebase.Bench
