import Timebase.Proofs.Bench
import Timebase.Proofs.Conservation
import Timebase.Proofs.Device.LineTiming
import Timebase.Proofs.Device.Rearming
import Timebase.Proofs.Turns
import Timebase.Proofs.Wanted

/-!
# What the devices of a bench have pending

A frame timer has the end of its frame pending, a serial line its start or the end of its bit, and
nothing else or nothing at all, as long as nobody but the devices themselves asks for their wake-ups.
-/

namespace Timebase

namespace Scheduler

variable {s s' s'' : Scheduler} {limit time t : Instant} {device : DeviceId} {tag : Tag}
  {p : SyncPoint} {thread : ThreadId}

/-- Nothing new is pending, and time stands at an instant if it did so before. -/
structure NothingNew (s s' : Scheduler) : Prop where
  time : s.currentTime ≠ .asap → s'.currentTime ≠ .asap
  pending : s'.queue.Sublist s.queue

namespace NothingNew

theorem refl (s : Scheduler) : NothingNew s s := ⟨id, List.Sublist.refl _⟩

theorem trans (h : NothingNew s s') (h' : NothingNew s' s'') : NothingNew s s'' :=
  ⟨fun ht => h'.time (h.time ht), h'.pending.trans h.pending⟩

theorem of_samePending (h : s.SamePending s')
    (ht : s.currentTime ≠ .asap → s'.currentTime ≠ .asap) : NothingNew s s' :=
  ⟨ht, by rw [h.queue]⟩

theorem wanted (h : NothingNew s s') (device : DeviceId) :
    (s'.wanted device).Sublist (s.wanted device) := (h.pending.filter _).map _

theorem cancel (device : DeviceId) (tag : Tag) (s : Scheduler) :
    NothingNew s (s.cancel device tag).2 := by
  exact ⟨fun ht => (sameTime_cancel device tag s).currentTime ▸ ht,
    queue_cancel_sublist device tag s⟩

theorem cancelAll (device : DeviceId) (s : Scheduler) : NothingNew s (s.cancelAll device).2 := by
  refine ⟨fun ht => (sameTime_cancelAll device s).currentTime ▸ ht, ?_⟩
  rw [queue_cancelAll]
  exact List.filter_sublist

theorem enter (thread : ThreadId) (limit : Instant) (s : Scheduler) :
    NothingNew s ((Scheduler.enter thread limit).after s) := by
  refine .of_samePending (samePending_enter thread limit s) fun ht => ?_
  rcases enter_after thread limit s with h | ⟨-, h | h⟩
  all_goals rwa [h]

theorem setCurrentTime (thread : ThreadId) (t : Instant) (s : Scheduler) :
    NothingNew s ((Scheduler.setCurrentTime thread t).after s) := by
  refine .of_samePending (samePending_setCurrentTime thread t s) fun ht => ?_
  rcases setCurrentTime_after thread t s with h | ⟨-, h | ⟨hne, h⟩⟩
  all_goals rwa [h]

end NothingNew

theorem NothingNew.takeDue (h : s.takeDue limit = (some (p, t), s')) : NothingNew s s' := by
  obtain ⟨-, -, -, -, hs⟩ := takeDue_eq_some.mp h
  refine ⟨fun ht => hs ▸ deliveryTime_ne_asap ht, ?_⟩
  rw [queue_takeDue h]
  exact List.sublist_cons_self p s'.queue

theorem wanted_register_of_nil (h : s.register time device tag = .ok s')
    (hnone : s.wanted device = []) : s'.wanted device = [⟨time, tag⟩] := by
  have hperm := wanted_register h device
  rw [Function.update_self, hnone] at hperm
  exact List.perm_singleton.mp hperm

end Scheduler

open Clock (Accepted SameRate)

theorem FrameTimer.Waits.sublist {f : FrameTimer} {wanted fewer : List Request}
    (h : f.Waits wanted) (hs : fewer.Sublist wanted) : f.Waits fewer := by
  cases h with
  | idle =>
    rw [List.sublist_nil.mp hs]
    exact .idle
  | next time =>
    rcases List.sublist_singleton.mp hs with rfl | rfl
    · exact .idle
    · exact .next time

theorem Uart.Waits.sublist {u : Uart} {wanted fewer : List Request} (h : u.Waits wanted)
    (hs : fewer.Sublist wanted) : u.Waits fewer := by
  cases h with
  | idle =>
    rw [List.sublist_nil.mp hs]
    exact .idle
  | starting busy =>
    rcases List.sublist_singleton.mp hs with rfl | rfl
    · exact .idle
    · exact .starting busy
  | sending busy time =>
    rcases List.sublist_singleton.mp hs with rfl | rfl
    · exact .idle
    · exact .sending busy time

theorem Guarded.preserves_access {τ α : Type} {J : τ → Prop} {act : Run τ α}
    (h : Run.Preserves J act) : Run.Preserves (fun g => J g.value) (Guarded.access act) := by
  intro g hg
  have hafter := h g.value hg
  by_cases hp : g.poisoned = true
  · have hrun : Guarded.access act g = .error (.fault (.violated .poisoned)) g := by
      rw [Guarded.access, if_pos hp]
      rfl
    rwa [Run.after_of_error hrun]
  · cases hact : act g.value with
    | ok b value =>
      have hrun : Guarded.access act g = .ok b ⟨value, false⟩ := by
        rw [Guarded.access, if_neg hp, hact]
      rw [Run.after_of_ok hrun]
      rwa [Run.after_of_ok hact] at hafter
    | error halt value =>
      have hrun : Guarded.access act g = .error halt ⟨value, Guarded.poisons halt⟩ := by
        rw [Guarded.access, if_neg hp, hact]
      rw [Run.after_of_error hrun]
      rwa [Run.after_of_error hact] at hafter

theorem Guarded.access_ends {τ α : Type} {act : Run τ α} (h : Run.Ends act) :
    Run.Ends (Guarded.access act) := by
  rintro g ⟨g', hstarved⟩
  rw [Guarded.access] at hstarved
  split at hstarved
  · cases hstarved
  · cases hact : act g.value with
    | ok b value =>
      rw [hact] at hstarved
      cases hstarved
    | error halt value =>
      rw [hact] at hstarved
      cases hstarved
      exact h g.value ⟨value, hact⟩

namespace Bench

variable {w v : BenchWorld} {device : DeviceId} {d d' : Device} {wanted fewer : List Request}
  {q r : Request} {t : Instant} {tag : Tag} {answer : Option Request} {s : Scheduler}

namespace Device

/-- A device of the same kind and with the same rate. -/
inductive Alike : Device → Device → Prop where
  | frame {g g' : Guarded FrameTimer} (rate : SameRate g.value.clock g'.value.clock) :
      Alike (.frame g) (.frame g')
  | uart {g g' : Guarded Uart} (rate : SameRate g.value.clock g'.value.clock) :
      Alike (.uart g) (.uart g')
  | audio (g g' : Guarded AudioSampler) (f : AudioFormat) : Alike (.audio g f) (.audio g' f)
  | input (port port' : InputPort) : Alike (.input port) (.input port')

/-- What a device does at its wake-up, and the next wake-up that it asks for. -/
inductive Woken (t : Instant) (tag : Tag) : Device → Device → Option Request → Prop where
  | frame {g g' : Guarded FrameTimer} {r : Request}
      (h : FrameTimer.Woken t g.value g'.value r) : Woken t tag (.frame g) (.frame g') (some r)
  | uart {g g' : Guarded Uart} {answer : Option Request}
      (h : Uart.Woken t g.value g'.value answer tag) : Woken t tag (.uart g) (.uart g') answer
  | audio {g g' : Guarded AudioSampler} {f : AudioFormat} {r : Request}
      (h : f.endOfBatch t = .ok r) : Woken t tag (.audio g f) (.audio g' f) (some r)
  | input (port port' : InputPort) : Woken t tag (.input port) (.input port') none

theorem Woken.alike (h : Woken t tag d d' answer) : Alike d d' := by
  cases h with
  | frame h => exact .frame h.rate
  | uart h => exact .uart h.rate
  | audio _ => exact .audio _ _ _
  | input _ _ => exact .input _ _

end Device

/-- What a device may have pending, and that nothing is pending for a device that there is not. A
scripted one may ask for anything, also for others, so there is none. -/
def Entitled (wanted : List Request) : Option Device → Prop
  | none => wanted = []
  | some (.scripted _) => False
  | some (.frame g) => Accepted g.value.clock.num g.value.clock.den ∧ g.value.Waits wanted
  | some (.uart g) => Accepted g.value.clock.num g.value.clock.den ∧ g.value.Waits wanted
  | some (.audio _ _) => True
  | some (.input _) => True

namespace Entitled

theorem sublist {d : Option Device} (h : Entitled wanted d) (hs : fewer.Sublist wanted) :
    Entitled fewer d := by
  match d, h with
  | none, h =>
    cases h
    exact List.sublist_nil.mp hs
  | some (.frame _), h => exact ⟨h.1, h.2.sublist hs⟩
  | some (.uart _), h => exact ⟨h.1, h.2.sublist hs⟩
  | some (.audio _ _), _ => trivial
  | some (.input _), _ => trivial

/-- A device whose wake-up breaks off is entitled to what else it has pending. -/
theorem alike (h : Entitled (q :: wanted) (some d)) (hd : d.Alike d') :
    Entitled wanted (some d') := by
  cases hd with
  | frame rate =>
    obtain ⟨hrate, hwaits⟩ := h
    cases hwaits with
    | next => exact ⟨rate.accepted hrate, .idle⟩
  | uart rate =>
    obtain ⟨hrate, hwaits⟩ := h
    cases hwaits with
    | starting | sending => exact ⟨rate.accepted hrate, .idle⟩
  | audio | input => trivial

theorem woken (h : Entitled (q :: wanted) (some d)) (hd : d.Woken t tag d' answer) :
    Entitled (answer.toList ++ wanted) (some d') := by
  cases hd with
  | frame hwoken =>
    obtain ⟨hrate, hwaits⟩ := h
    cases hwaits with
    | next => exact ⟨hwoken.rate.accepted hrate, hwoken.waits⟩
  | uart hwoken =>
    obtain ⟨hrate, hwaits⟩ := h
    cases hwaits with
    | starting busy | sending busy =>
      rw [List.append_nil]
      exact ⟨hwoken.rate.accepted hrate, hwoken.waits busy⟩
  | audio | input => trivial

theorem perm (h : Entitled wanted (some d)) (hp : fewer.Perm wanted) :
    Entitled fewer (some d) := by
  match d, h with
  | .frame _, ⟨hrate, hwaits⟩ =>
    cases hwaits with
    | idle => exact List.perm_nil.mp hp ▸ ⟨hrate, .idle⟩
    | next time => exact List.perm_singleton.mp hp ▸ ⟨hrate, .next time⟩
  | .uart _, ⟨hrate, hwaits⟩ =>
    cases hwaits with
    | idle => exact List.perm_nil.mp hp ▸ ⟨hrate, .idle⟩
    | starting busy => exact List.perm_singleton.mp hp ▸ ⟨hrate, .starting busy⟩
    | sending busy time => exact List.perm_singleton.mp hp ▸ ⟨hrate, .sending busy time⟩
  | .audio _ _, _ => trivial
  | .input _, _ => trivial

end Entitled

/-- A bench on which only the devices themselves have asked for their wake-ups. -/
structure InOrder (w : BenchWorld) : Prop where
  timed : w.scheduler.currentTime ≠ .asap
  named : w.devices.all.length = w.lifetimes.length
  entitled : ∀ device, Entitled (w.scheduler.wanted device) w.devices.all[device]?

/-- Nothing new is pending, and the devices are as they were. -/
structure Spared (w v : BenchWorld) : Prop where
  scheduler : w.scheduler.NothingNew v.scheduler
  all : v.devices.all = w.devices.all
  named : v.lifetimes.length = w.lifetimes.length

theorem Spared.inOrder (h : Spared w v) (hw : InOrder w) : InOrder v where
  timed := h.scheduler.time hw.timed
  named := by rw [h.all, h.named, hw.named]
  entitled device := by
    rw [h.all]
    exact (hw.entitled device).sublist (h.scheduler.wanted device)

namespace Spared

variable {u : BenchWorld}

theorem refl (w : BenchWorld) : Spared w w := ⟨.refl _, rfl, rfl⟩

theorem trans (h : Spared w v) (h' : Spared v u) : Spared w u :=
  ⟨h.scheduler.trans h'.scheduler, h'.all.trans h.all, h'.named.trans h.named⟩

theorem of_scheduler (h : w.scheduler.NothingNew s) : Spared w { w with scheduler := s } :=
  ⟨h, rfl, rfl⟩

theorem lifetimes (device : DeviceId) (change : Lifetime → Lifetime) (w : BenchWorld) :
    Spared w { w with lifetimes := w.lifetimes.modify device change } :=
  ⟨.refl _, rfl, List.length_modify ..⟩

theorem bury (device : DeviceId) (w : BenchWorld) : Spared w (w.bury device) := by
  rcases World.bury_cases device w with ⟨-, h⟩ | ⟨-, h⟩
  · rw [h]
    exact .refl w
  · rw [h]
    exact .of_scheduler (.cancelAll device w.scheduler)

theorem retain (device : DeviceId) (w : BenchWorld) : Spared w (w.retain device) :=
  .lifetimes device _ w

theorem release (device : DeviceId) (w : BenchWorld) : Spared w (w.release device) :=
  (Spared.lifetimes device _ w).trans (.bury device _)

theorem drop (device : DeviceId) (w : BenchWorld) : Spared w ((World.drop device).after w) := by
  cases ho : w.isOwned device with
  | true =>
    rw [Run.after_of_ok (World.drop_of_owned ho)]
    exact (Spared.lifetimes device _ w).trans (.bury device _)
  | false =>
    rw [Run.after_of_ok (World.drop_of_not_owned ho)]
    exact .refl w

end Spared

/-- A bench with another state of one device. -/
def put (device : DeviceId) (d : Device) (w : BenchWorld) : BenchWorld :=
  { w with devices := { w.devices with all := w.devices.all.set device d } }

theorem InOrder.put (h : InOrder w) (hd : w.devices.all[device]? = some d)
    (hentitled : Entitled (w.scheduler.wanted device) (some d')) : InOrder (put device d' w) where
  timed := h.timed
  named := (List.length_set ..).trans h.named
  entitled other := by
    show Entitled (w.scheduler.wanted other) (w.devices.all.set device d')[other]?
    obtain ⟨hlt, -⟩ := List.getElem?_eq_some_iff.mp hd
    by_cases heq : device = other
    · subst heq
      rwa [List.getElem?_set_self hlt]
    · rw [List.getElem?_set_ne heq]
      exact h.entitled other

theorem InOrder.register (h : InOrder w) {time : Instant}
    (hr : w.scheduler.register time device tag = .ok s)
    (hentitled : Entitled (s.wanted device) w.devices.all[device]?) :
    InOrder { w with scheduler := s } where
  timed := by
    rw [(Scheduler.sameTime_register hr).currentTime]
    exact h.timed
  named := h.named
  entitled other := by
    show Entitled (s.wanted other) w.devices.all[other]?
    by_cases heq : other = device
    · rwa [heq]
    · rw [Scheduler.wanted_register_of_ne hr heq]
      exact h.entitled other

section

variable {α β : Type} {kind : Case Device β} {x y : β} {act : Run β α}

theorem on_apply (hd : w.devices.all[device]? = some d) (hx : kind.get? d = some x) :
    Devices.on kind device act w =
      match act x with
      | .ok a y => .ok (some a) (put device (kind.put y) w)
      | .error halt y => .error halt (put device (kind.put y) w) := by
  cases hact : act x <;>
    simp [Devices.on, World.onDevices, World.devicesPart, Devices.allPart, Run.on, Run.onItem,
      Run.onCase, hd, hx, hact, put]

theorem on_of_ok {a : α} (hd : w.devices.all[device]? = some d) (hx : kind.get? d = some x)
    (h : act x = .ok a y) :
    Devices.on kind device act w = .ok (some a) (put device (kind.put y) w) := by
  rw [on_apply hd hx, h]

theorem on_of_error {halt : Halt} (hd : w.devices.all[device]? = some d)
    (hx : kind.get? d = some x) (h : act x = .error halt y) :
    Devices.on kind device act w = .error halt (put device (kind.put y) w) := by
  rw [on_apply hd hx, h]

theorem on_of_other (h : w.devices.all[device]?.bind kind.get? = none) :
    Devices.on kind device act w = .ok none w := by
  cases hd : w.devices.all[device]? with
  | none =>
    simp [Devices.on, World.onDevices, World.devicesPart, Devices.allPart, Run.on, Run.onItem, hd]
  | some d =>
    rw [hd] at h
    have hx : kind.get? d = none := h
    obtain ⟨hlt, rfl⟩ := List.getElem?_eq_some_iff.mp hd
    simp [Devices.on, World.onDevices, World.devicesPart, Devices.allPart, Run.on, Run.onItem,
      Run.onCase, hd, hx]

theorem on_eq_ok {a : α} (h : Devices.on kind device act w = .ok (some a) v) :
    ∃ d x y, w.devices.all[device]? = some d ∧ kind.get? d = some x ∧ act x = .ok a y ∧
      v = put device (kind.put y) w := by
  cases hother : w.devices.all[device]?.bind kind.get? with
  | none =>
    rw [on_of_other hother] at h
    cases h
  | some x =>
    obtain ⟨d, hd, hx⟩ := Option.bind_eq_some_iff.mp hother
    cases hact : act x with
    | ok b y =>
      rw [on_of_ok hd hx hact] at h
      cases h
      exact ⟨d, x, y, hd, hx, hact, rfl⟩
    | error halt y =>
      rw [on_of_error hd hx hact] at h
      cases h

theorem preserves_on
    (h : ∀ d x wanted, kind.get? d = some x → Entitled wanted (some d) →
      Entitled wanted (some (kind.put (act.after x)))) :
    Run.Preserves InOrder (Devices.on kind device act) := by
  intro w hw
  cases hother : w.devices.all[device]?.bind kind.get? with
  | none => rwa [Run.after_of_ok (on_of_other hother)]
  | some x =>
    obtain ⟨d, hd, hx⟩ := Option.bind_eq_some_iff.mp hother
    have hentitled := hw.entitled device
    rw [hd] at hentitled
    have hput := hw.put hd (h d x _ hx hentitled)
    cases hact : act x with
    | ok a y =>
      rw [Run.after_of_ok (on_of_ok hd hx hact)]
      rwa [Run.after_of_ok hact] at hput
    | error halt y =>
      rw [Run.after_of_error (on_of_error hd hx hact)]
      rwa [Run.after_of_error hact] at hput

end

theorem getElem?_put (hd : w.devices.all[device]? = some d) (d' : Device) :
    (put device d' w).devices.all[device]? = some d' := by
  obtain ⟨hlt, -⟩ := List.getElem?_eq_some_iff.mp hd
  exact List.getElem?_set_self hlt

/-- What becomes of a wake-up: nobody is there, it breaks off, or it is over, and the next wake-up
that the device asks for is granted. -/
inductive Executed (device : DeviceId) (t : Instant) (tag : Tag) (w : BenchWorld) :
    EStateM.Result Halt BenchWorld Unit → Prop where
  | nobody : Executed device t tag w (.ok () w)
  | broken {d d' : Device} (cause : Fault) (hd : w.devices.all[device]? = some d)
      (alike : d.Alike d') : Executed device t tag w (.error (.fault cause) (put device d' w))
  | silent {d d' : Device} (hd : w.devices.all[device]? = some d) (woken : d.Woken t tag d' none) :
      Executed device t tag w (.ok () (put device d' w))
  | asked {d d' : Device} {r : Request} {s : Scheduler} (hd : w.devices.all[device]? = some d)
      (woken : d.Woken t tag d' (some r))
      (granted : w.scheduler.register r.time device r.tag = .ok s) :
      Executed device t tag w (.ok () { put device d' w with scheduler := s })

namespace Executed

theorem request (hd : w.devices.all[device]? = some d) (hwoken : d.Woken t tag d' answer) :
    Executed device t tag w (Bench.request device answer (put device d' w)) := by
  cases answer with
  | none => exact .silent hd hwoken
  | some r =>
    have hput : (put device d' w).scheduler = w.scheduler := rfl
    cases hr : w.scheduler.register r.time device r.tag with
    | ok s =>
      have hrun : Bench.request device (some r) (put device d' w) =
        .ok () { put device d' w with scheduler := s } := World.register_of_ok hr
      rw [hrun]
      exact .asked hd hwoken hr
    | error cause =>
      have hrun : Bench.request device (some r) (put device d' w) =
        .error (.fault cause) (put device d' w) := World.register_of_error hr
      rw [hrun]
      exact .broken cause hd hwoken.alike

theorem inOrder (hw : InOrder w)
    (hq : Entitled (q :: w.scheduler.wanted device) w.devices.all[device]?)
    {act : Run BenchWorld Unit} (h : Executed device t tag w (act w)) : InOrder (act.after w) := by
  generalize hresult : act w = result at h
  cases h with
  | nobody => rwa [Run.after_of_ok hresult]
  | broken cause hd alike =>
    rw [Run.after_of_error hresult]
    rw [hd] at hq
    exact hw.put hd (hq.alike alike)
  | silent hd woken =>
    rw [Run.after_of_ok hresult]
    rw [hd] at hq
    exact hw.put hd (hq.woken woken)
  | @asked d d' r s hd woken granted =>
    rw [Run.after_of_ok hresult]
    rw [hd] at hq
    have hput : InOrder (put device d' w) := hw.put hd ((hq.woken woken).sublist (by simp))
    refine hput.register granted ?_
    rw [getElem?_put hd]
    have hperm := Scheduler.wanted_register granted device
    rw [Function.update_self] at hperm
    exact (hq.woken woken).perm hperm

end Executed

section

variable {thread : ThreadId} {steps : Nat}

theorem Executed.of_on {α β : Type} (kind : Case Device β) {act : Run β α} {x : β}
    (ask : Option α → Option Request) (hd : w.devices.all[device]? = some d)
    (hx : kind.get? d = some x) (hends : Run.Ends act)
    (hok : ∀ a y, act x = .ok a y → d.Woken t tag (kind.put y) (ask (some a)))
    (hbroken : ∀ halt y, act x = .error halt y → d.Alike (kind.put y)) :
    Executed device t tag w
      ((Devices.on kind device act >>= fun a => Bench.request device (ask a)) w) := by
  cases hact : act x with
  | ok a y =>
    rw [Run.bind_of_ok (on_of_ok hd hx hact)]
    exact .request hd (hok a y hact)
  | error halt y =>
    rw [Run.bind_of_error (on_of_error hd hx hact)]
    cases halt with
    | starved => exact absurd ⟨y, hact⟩ (hends x)
    | fault cause => exact .broken cause hd (hbroken _ y hact)

theorem executed_frame {g : Guarded FrameTimer} (hd : w.devices.all[device]? = some (.frame g)) :
    Executed device t tag w (execute (steps + 1) thread device t tag w) := by
  rw [execute, Run.get_bind]
  simp only [hd]
  refine .of_on Devices.frames id hd rfl (Guarded.access_ends (FrameTimer.wake_ends t)) ?_ ?_
  · intro r g' hact
    obtain ⟨f, hwake, rfl⟩ := Run.access_eq_ok hact
    exact .frame (FrameTimer.woken_of_wake hwake)
  · intro halt g' hact
    have hrate := Guarded.preserves_access (FrameTimer.wake_sameRate t g.value) g ⟨rfl, rfl⟩
    rw [Run.after_of_error hact] at hrate
    exact .frame hrate

theorem executed_uart {g : Guarded Uart} (hd : w.devices.all[device]? = some (.uart g)) :
    Executed device t tag w (execute (steps + 1) thread device t tag w) := by
  rw [execute, Run.get_bind]
  simp only [hd]
  refine .of_on Devices.uarts Option.join hd rfl (Guarded.access_ends (Uart.wake_ends t tag)) ?_ ?_
  · intro answer g' hact
    obtain ⟨u, hwake, rfl⟩ := Run.access_eq_ok hact
    exact .uart (Uart.woken_of_wake hwake)
  · intro halt g' hact
    have hrate := Guarded.preserves_access (Uart.wake_sameRate g.value t tag) g ⟨rfl, rfl⟩
    rw [Run.after_of_error hact] at hrate
    exact .uart hrate

theorem executed_audio {g : Guarded AudioSampler} {f : AudioFormat}
    (hd : w.devices.all[device]? = some (.audio g f)) :
    Executed device t tag w (execute (steps + 1) thread device t tag w) := by
  have hrun : execute (steps + 1) thread device t tag w =
      (Devices.onSampler device (AudioSampler.update t) >>= fun _ =>
        Run.lift (f.endOfBatch t) >>= fun r => request device (some r)) w := by
    rw [execute, Run.get_bind]
    simp only [hd]
    rfl
  rw [hrun, Devices.onSampler]
  cases hact : Guarded.access (AudioSampler.update t) g with
  | ok _ g' =>
    rw [Run.bind_of_ok (on_of_ok hd rfl (Run.on_of_ok (s := (g, f)) hact))]
    cases hend : f.endOfBatch t with
    | ok r => exact .request hd (.audio hend)
    | error cause => exact .broken cause hd (.audio g g' f)
  | error halt g' =>
    rw [Run.bind_of_error (on_of_error hd rfl (Run.on_of_error (s := (g, f)) hact))]
    cases halt with
    | starved => exact absurd ⟨g', hact⟩ (Guarded.access_ends (AudioSampler.update_ends t) g)
    | fault cause => exact .broken cause hd (.audio g g' f)

theorem executed_input {port : InputPort} (hd : w.devices.all[device]? = some (.input port)) :
    Executed device t tag w (execute (steps + 1) thread device t tag w) := by
  rw [execute, Run.get_bind]
  simp only [hd]
  refine .of_on Devices.inputs (fun _ => none) hd rfl (.modify _) ?_ ?_
  · exact fun _ port' _ => .input port port'
  · exact fun _ port' _ => .input port port'

/-- Whatever device is woken, that is what becomes of it. -/
theorem InOrder.executed (hw : InOrder w) :
    Executed device t tag w (execute (steps + 1) thread device t tag w) := by
  have hentitled := hw.entitled device
  match hd : w.devices.all[device]?, hentitled with
  | none, _ =>
    rw [execute, Run.get_bind]
    simp only [hd]
    exact .nobody
  | some (.frame _), _ => exact executed_frame hd
  | some (.uart _), _ => exact executed_uart hd
  | some (.audio _ _), _ => exact executed_audio hd
  | some (.input _), _ => exact executed_input hd

variable {p : SyncPoint} {limit : Instant}

theorem InOrder.due (hw : InOrder w) (hd : w.scheduler.takeDue limit = (some (p, t), s)) :
    Entitled (⟨p.time, p.tag⟩ :: s.wanted p.device) w.devices.all[p.device]? := by
  rw [← Scheduler.wanted_takeDue_self hd]
  exact hw.entitled p.device

theorem InOrder.taken (hw : InOrder w) (hd : w.scheduler.takeDue limit = (some (p, t), s)) :
    InOrder { w with scheduler := s } := (Spared.of_scheduler (.takeDue hd)).inOrder hw

/-- Whatever becomes of a delivery, everything is in order afterwards. -/
theorem InOrder.deliver (hw : InOrder w) (hd : w.scheduler.takeDue limit = (some (p, t), s)) :
    InOrder ((World.deliver (execute steps thread) p t).after { w with scheduler := s }) := by
  have htaken := hw.taken hd
  cases ha : World.isAlive { w with scheduler := s } p.device with
  | false =>
    rw [Run.after_of_ok (World.deliver_of_gone ha)]
    exact ⟨htaken.timed, htaken.named, htaken.entitled⟩
  | true =>
    rw [Run.after_congr (World.deliver_of_alive ha), World.after_during]
    have hkept := (Spared.retain p.device { w with scheduler := s }).inOrder htaken
    refine (Spared.release p.device _).inOrder ?_
    cases steps with
    | zero => exact hkept
    | succ steps => exact hkept.executed.inOrder hkept (hw.due hd)

/-- Moving time brings nothing out of order. -/
theorem preserves_schedule (steps : Nat) (limit : Instant) :
    Run.Preserves InOrder (World.schedule (execute steps thread) steps thread limit) :=
  World.preserves_schedule (fun hs ht hw => (Spared.of_scheduler (.of_samePending hs ht)).inOrder hw)
    fun hw hd => hw.deliver hd

end

end Bench
end Timebase
