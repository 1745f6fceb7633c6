import Timebase.Bench.Session
import Timebase.Proofs.Bench.Wishes
import Timebase.Proofs.Saving

/-!
# The benches that periodic devices are put to work on

Whatever is done to a bench, its devices have pending what they themselves asked for, unless a
wake-up is asked for in their place or a device is woken out of turn.
-/

namespace Timebase.Bench

variable {α : Type} {I : BenchWorld → Prop}

theorem preserves_settled {act : Run BenchWorld Answer} (h : Run.Preserves I act) :
    Run.Preserves I (settled act) := by
  refine .bind h.attempt fun result => ?_
  match result with
  | .ok _ => exact .pure _
  | .error (.refused _) => exact .pure _
  | .error (.violated cause) => exact .lift _

theorem preserves_guarded {act : Run BenchWorld Answer} (h : Run.Preserves I act) :
    Run.Preserves I (guarded act) := by
  refine .bind h.attempt fun result => ?_
  match result with
  | .ok _ => exact .pure _
  | .error _ => exact .pure _

theorem preserves_held {device : DeviceId} {act : Run BenchWorld (Option α)}
    (h : Run.Preserves I act) : Run.Preserves I (Devices.held device act) := by
  refine .bind .get fun w => ?_
  split
  · exact h
  · exact .pure _

theorem preserves_now (context : Context) : Run.Preserves I context.now :=
  .bind .get fun _ => .pure _

theorem preserves_resolve (context : Context) (m : Moment) : Run.Preserves I (context.resolve m) :=
  .bind (preserves_now context) fun _ => .lift _

section

variable {w : BenchWorld} {d : Device} {s : Scheduler} {device : DeviceId} {first : Option Request}

theorem InOrder.wanted_next (hw : InOrder w) : w.scheduler.wanted w.lifetimes.length = [] := by
  have hentitled := hw.entitled w.lifetimes.length
  rwa [← hw.named, List.getElem?_eq_none (Nat.le_refl _), hw.named] at hentitled

theorem InOrder.added (hw : InOrder w) (ht : s.currentTime ≠ .asap)
    (hothers : ∀ other, other ≠ w.lifetimes.length → s.wanted other = w.scheduler.wanted other)
    (hd : Entitled (s.wanted w.lifetimes.length) (some d)) (l : Lifetime) :
    InOrder { w with
      scheduler := s
      lifetimes := w.lifetimes ++ [l]
      devices := { w.devices with all := w.devices.all ++ [d] } } where
  timed := ht
  named := by simp [hw.named]
  entitled other := by
    show Entitled (s.wanted other) (w.devices.all ++ [d])[other]?
    by_cases heq : other = w.lifetimes.length
    · rw [heq, ← hw.named, List.getElem?_concat_length, hw.named]
      exact hd
    · have hentitled := hw.entitled other
      rw [hothers other heq]
      rcases Nat.lt_or_ge other w.devices.all.length with hlt | hge
      · rwa [List.getElem?_append_left hlt]
      · have hbeyond : (w.devices.all ++ [d]).length ≤ other := by
          have hnamed := hw.named
          rw [List.length_append, List.length_singleton]
          exact Nat.lt_of_le_of_ne hge fun hsame => heq (hsame.symm.trans hnamed)
        rw [List.getElem?_eq_none hge] at hentitled
        rwa [List.getElem?_eq_none hbeyond]

theorem preserves_enroll {ownsSyncPoints : Bool} (hd : Entitled first.toList (some d)) :
    Run.Preserves InOrder (Devices.enroll d ownsSyncPoints first) := by
  intro w hw
  -- The wake-up is registered under a number that no device has yet.
  cases first with
  | none =>
    refine hw.added hw.timed (fun _ _ => rfl) ?_ ⟨true, 0, ownsSyncPoints⟩
    rw [hw.wanted_next]
    exact hd
  | some r =>
    have hrun : Devices.enroll d ownsSyncPoints (some r) w =
        (World.register r.time w.lifetimes.length r.tag >>= fun _ =>
          Devices.enroll d ownsSyncPoints none) w := rfl
    cases hr : w.scheduler.register r.time w.lifetimes.length r.tag with
    | ok s =>
      rw [Run.after_congr (hrun.trans (Run.bind_of_ok (World.register_of_ok hr)))]
      refine hw.added ?_ (fun _ hne => Scheduler.wanted_register_of_ne hr hne) ?_ ⟨true, 0, _⟩
      · rw [(Scheduler.sameTime_register hr).currentTime]
        exact hw.timed
      · rw [Scheduler.wanted_register_of_nil hr hw.wanted_next]
        exact hd
    | error cause =>
      rw [Run.after_of_error (hrun.trans (Run.bind_of_error (World.register_of_error hr)))]
      exact hw

end

/-- Whether an action asks for no wake-up in the place of a device and wakes none out of turn, nor
makes a device that may do so. -/
def Action.Ordinary : Action → Prop
  | .new (.scripted _ _) => False
  | .set _ _ _ => False
  | .wake _ _ _ => False
  | .attempt action => action.Ordinary
  | .onThread action => action.Ordinary
  | _ => True

section

variable {device : DeviceId}

theorem preserves_make {spec : DeviceSpec Action} (h : (Action.new spec).Ordinary) :
    Run.Preserves InOrder (make spec) := by
  refine .bind .get fun w => ?_
  match spec, h with
  | .frame num den, _ =>
    refine .bind_of_ok (.lift _) fun {v made v'} hv hmade _ => ?_
    obtain ⟨hnew, rfl⟩ := Run.lift_eq_ok.mp hmade
    refine preserves_enroll ?_ v' hv
    exact FrameTimer.waits_of_new hnew
  | .uart baud, _ =>
    refine .bind_of_ok (.lift _) fun {v u v'} hv hmade _ => ?_
    obtain ⟨hnew, rfl⟩ := Run.lift_eq_ok.mp hmade
    refine preserves_enroll ?_ v' hv
    exact ⟨Uart.accepted_clock_of_new hnew, .idle⟩
  | .audio rate batch, _ =>
    refine .bind (.lift _) fun sampler => .bind (.lift _) fun format => .bind (.lift _) fun first =>
      preserves_enroll ?_
    trivial
  | .input, _ =>
    refine preserves_enroll ?_
    trivial

section

variable {α : Type}

theorem preserves_onFrame {act : Run FrameTimer α}
    (h : ∀ wanted, Run.Preserves
      (fun f => Clock.Accepted f.clock.num f.clock.den ∧ f.Waits wanted) act) :
    Run.Preserves InOrder (Devices.onFrame device act) := by
  refine preserves_on fun d g wanted hg hd => ?_
  cases d with
  | frame g' =>
    cases hg
    exact Guarded.preserves_access (h wanted) g hd
  | _ => cases hg

theorem preserves_onUart {act : Run Uart α}
    (h : ∀ wanted, Run.Preserves
      (fun u => Clock.Accepted u.clock.num u.clock.den ∧ u.Waits wanted) act) :
    Run.Preserves InOrder (Devices.onUart device act) := by
  refine preserves_on fun d g wanted hg hd => ?_
  cases d with
  | uart g' =>
    cases hg
    exact Guarded.preserves_access (h wanted) g hd
  | _ => cases hg

theorem preserves_onReceiver (f : Receiver → α × Receiver) :
    Run.Preserves InOrder (Devices.onReceiver device f) := by
  refine preserves_on fun d g wanted hg hd => ?_
  cases d with
  | uart g' =>
    cases hg
    obtain ⟨hrate, hwaits⟩ := hd
    exact ⟨hrate, by cases hwaits with
      | idle => exact .idle
      | starting busy => exact .starting busy
      | sending busy time => exact .sending busy time⟩
  | _ => cases hg

theorem preserves_onSampler (act : Run AudioSampler α) :
    Run.Preserves InOrder (Devices.onSampler device act) :=
  preserves_on fun _ _ _ _ _ => trivial

theorem preserves_formatOf : Run.Preserves InOrder (Devices.formatOf device) :=
  preserves_on fun _ _ _ _ _ => trivial

theorem preserves_onInput (act : Run InputPort α) :
    Run.Preserves InOrder (Devices.onInput device act) :=
  preserves_on fun _ _ _ _ _ => trivial

end

theorem preserves_handOver (bytes : List UInt8) : Run.Preserves InOrder
    (Devices.onUart device (modifyGet (Uart.send bytes))) := by
  refine preserves_onUart fun wanted u ⟨hrate, hwaits⟩ => ⟨hrate, ?_⟩
  cases hwaits with
  | idle => exact .idle
  | starting => exact .starting rfl
  | sending _ time => exact .sending rfl time

variable {w v : BenchWorld}

theorem held_eq_ok {α : Type} {act : Run BenchWorld (Option α)} {a : α}
    (h : Devices.held device act w = .ok (some a) v) : act w = .ok (some a) v := by
  have hrun : Devices.held device act w = (if w.isOwned device then act else pure none) w := rfl
  rw [hrun] at h
  split at h
  · exact h
  · cases h

theorem entitled_of_handOver {bytes : List UInt8} (hw : InOrder w)
    (h : Devices.onUart device (modifyGet (Uart.send bytes)) w = .ok (some true) v) :
    v.scheduler.wanted device = [] ∧
      Entitled [⟨.asap, Uart.start⟩] v.devices.all[device]? := by
  obtain ⟨d, g, g', hd, hg, hact, rfl⟩ := on_eq_ok h
  obtain ⟨u, hsend, rfl⟩ := Run.access_eq_ok hact
  have hentitled := hw.entitled device
  rw [hd] at hentitled
  rw [getElem?_put hd]
  cases d with
  | uart g₀ =>
    cases hg
    have hanswer : EStateM.Result.ok (!g.value.busy) (Uart.send bytes g.value).2 = .ok true u :=
      hsend
    injection hanswer with hidle hu
    obtain ⟨hrate, hwaits⟩ := hentitled
    show w.scheduler.wanted device = [] ∧ _
    subst hu
    generalize w.scheduler.wanted device = wanted at hwaits
    cases hwaits with
    | idle => exact ⟨rfl, hrate, .starting rfl⟩
    | starting busy | sending busy =>
      rw [busy] at hidle
      cases hidle
  | _ => cases hg

theorem InOrder.asked (hw : InOrder w) {time : Instant} {tag : Tag}
    (h : ∀ s, w.scheduler.register time device tag = .ok s →
      Entitled (s.wanted device) w.devices.all[device]?) :
    InOrder ((World.register time device tag).after w) := by
  cases hr : w.scheduler.register time device tag with
  | ok s =>
    rw [Run.after_of_ok (World.register_of_ok hr)]
    exact hw.register hr (h s hr)
  | error cause => rwa [Run.after_of_error (World.register_of_error hr)]

section

variable {wake : WakeOn} {steps : Nat} {context : Context}

theorem preserves_send (bytes : List UInt8) :
    Run.Preserves InOrder (perform wake steps context (.send device bytes)) := by
  rw [perform]
  refine .bind_of_ok (preserves_held (preserves_handOver bytes)) fun {w idle v} hw hact hv => ?_
  cases idle with
  | none => exact hv
  | some idle =>
    cases idle with
    | false => exact hv
    | true =>
      obtain ⟨hnone, hentitled⟩ := entitled_of_handOver hw (held_eq_ok hact)
      have hasked : InOrder ((World.register .asap device Uart.start).after v) := by
        refine hv.asked fun s hr => ?_
        rwa [Scheduler.wanted_register_of_nil hr hnone]
      rw [← Run.after_bind_pure _ fun _ => Answer.nothing] at hasked
      exact hasked

/-- A line that is reset takes back whatever it waits for. -/
theorem InOrder.reset {g g' : Guarded Uart} (hw : InOrder w)
    (hd : w.devices.all[device]? = some (.uart g)) (hg : g'.value = g.value.reset) :
    InOrder { Bench.put device (.uart g') w with
      scheduler := ((w.scheduler.cancel device Uart.start).2.cancel device Uart.bit).2 } := by
  have hcancelled : InOrder { w with
      scheduler := ((w.scheduler.cancel device Uart.start).2.cancel device Uart.bit).2 } :=
    (Spared.of_scheduler (.trans (.cancel device _ _) (.cancel device _ _))).inOrder hw
  refine hcancelled.put hd ?_
  have hentitled := hw.entitled device
  rw [hd] at hentitled
  obtain ⟨hrate, hwaits⟩ := hentitled
  show Entitled (((w.scheduler.cancel device Uart.start).2.cancel device Uart.bit).2.wanted device) _
  have hstart := Scheduler.wanted_cancel device Uart.start w.scheduler
  have hbit := Scheduler.wanted_cancel device Uart.bit (w.scheduler.cancel device Uart.start).2
  generalize w.scheduler.wanted device = wanted at hwaits hstart
  have hidle := hstart.none_left hbit (by cases hwaits <;> simp) (by cases hwaits <;> simp)
  rw [hidle]
  refine ⟨?_, .idle⟩
  rw [hg]
  exact hrate

theorem preserves_reset :
    Run.Preserves InOrder (perform wake steps context (.reset device)) := by
  intro w hw
  rw [perform]
  cases ho : w.isOwned device with
  | false =>
    have hheld : Devices.held device (Devices.onUart device (modify Uart.reset)) w = .ok none w := by
      rw [Devices.held, Run.get_bind, ho]
      rfl
    rwa [Run.after_congr (Run.bind_of_ok hheld)]
  | true =>
    rw [Run.after_congr (held_bind ho _ _), Devices.onUart]
    cases hother : w.devices.all[device]?.bind Devices.uarts.get? with
    | none => rwa [Run.after_congr (Run.bind_of_ok (on_of_other hother))]
    | some g =>
      obtain ⟨d, hd, hg⟩ := Option.bind_eq_some_iff.mp hother
      cases d with
      | uart g₀ =>
        cases hg
        by_cases hp : g.poisoned = true
        · have hact : Guarded.access (modify Uart.reset : Run Uart Unit) g =
              .error (.fault (.violated .poisoned)) g := by
            rw [Guarded.access, if_pos hp]
            rfl
          have hentitled := hw.entitled device
          rw [hd] at hentitled
          rw [Run.after_of_error (Run.bind_of_error (on_of_error hd rfl hact))]
          exact hw.put hd hentitled
        · have hact : Guarded.access (modify Uart.reset : Run Uart Unit) g =
              .ok () (.new g.value.reset) :=
            Run.access_of_unpoisoned (Bool.eq_false_iff.mpr hp) rfl
          rw [Run.after_congr (Run.bind_of_ok (on_of_ok hd rfl hact))]
          exact hw.reset hd rfl
      | _ => cases hg

theorem preserves_inject (byte : UInt8) :
    Run.Preserves InOrder (perform wake steps context (.inject device byte)) := by
  rw [perform]
  refine .bind_of_ok (preserves_held (preserves_onInput _)) fun {w port v} hw hact hv => ?_
  cases port with
  | none => exact hv
  | some _ =>
    obtain ⟨d, x, y, hd, hx, -, rfl⟩ := on_eq_ok (held_eq_ok hact)
    have hasked : InOrder ((World.register .asap device InputPort.arrival).after
        (put device (Devices.inputs.put y) w)) := by
      refine hv.asked fun s hr => ?_
      rw [getElem?_put hd]
      trivial
    rw [← Run.after_bind_pure _ fun _ => Answer.nothing] at hasked
    exact hasked

theorem preserves_of_spared {α : Type} {act : Run BenchWorld α}
    (h : ∀ w, Spared w (act.after w)) : Run.Preserves InOrder act := fun w hw => (h w).inOrder hw

theorem preserves_onRig {act : Run (Rig RecordedCpu Devices) Answer}
    (h : Run.Preserves (fun r => InOrder r.world) act) : Run.Preserves InOrder (onRig act) := by
  refine preserves_settled (.bind (.onCase h ?_ ?_) fun _ => .pure _)
  · intro w r hr hw
    obtain ⟨e, -, rfl⟩ := Option.map_eq_some_iff.mp hr
    exact ⟨hw.timed, hw.named, hw.entitled⟩
  · intro r hr
    exact ⟨hr.timed, hr.named, hr.entitled⟩

theorem preserves_driven (order : Rig.Drive) : Run.Preserves InOrder
    (driven (Rig.follow (driver (execute steps) steps context.thread) steps order)) :=
  preserves_onRig (.bind (Rig.preserves_follow (preserves_schedule steps) steps order)
    fun _ => .pure _)

/-- Whatever is done to a bench keeps it in order, however it ends. -/
theorem preserves_perform (steps : Nat) : ∀ (action : Action), action.Ordinary → ∀ context,
    Run.Preserves InOrder (perform (execute steps) steps context action)
  | .new spec, h, context => by
    rw [perform]
    exact preserves_settled (.map _ (preserves_make h))
  | .set _ _ _, h, _ | .wake _ _ _, h, _ => h.elim
  | .drop device, _, context => by
    rw [perform]
    exact .map _ (preserves_of_spared (Spared.drop device))
  | .remove device tag, _, context => by
    rw [perform]
    exact .map _ (preserves_of_spared fun w => .of_scheduler (.cancel device tag w.scheduler))
  | .removeAll device, _, context => by
    rw [perform]
    exact .map _ (preserves_of_spared fun w => .of_scheduler (.cancelAll device w.scheduler))
  | .isPending _ _, _, context | .now, _, context | .next, _, context | .size, _, context
  | .debug, _, context | .properties, _, context | .save, _, context => by
    rw [perform]
    exact .bind .get fun _ => .pure _
  | .schedule limit, _, context => by
    rw [perform]
    exact .bind (preserves_resolve context limit) fun _ =>
      .bind (preserves_schedule steps _) fun _ => .pure _
  | .advance time, _, context => by
    rw [perform]
    refine .bind (preserves_resolve context time) fun t => .bind ?_ fun _ => .pure _
    exact preserves_of_spared fun w => by
      rw [World.after_onScheduler]
      exact .of_scheduler (.setCurrentTime context.thread t w.scheduler)
  | .fail, _, context => by
    rw [perform]
    exact .lift _
  | .name device, _, context => by
    rw [perform]
    refine .bind .get fun w => ?_
    split
    · exact .bind .get fun _ => .pure _
    · exact .pure _
  | .attempt action, h, context => by
    rw [perform]
    exact preserves_guarded (preserves_perform steps action h context)
  | .onThread action, h, context => by
    rw [perform]
    refine .bind (fun w hw => ⟨hw.timed, hw.named, hw.entitled⟩) fun thread => ?_
    exact preserves_guarded (preserves_perform steps action h _)
  | .send device bytes, _, context => preserves_send bytes
  | .reset device, _, context => preserves_reset
  | .line device, _, context => by
    rw [perform]
    exact .map _ (preserves_held (preserves_onUart fun _ => .get))
  | .fetch device, _, context => by
    rw [perform]
    exact .bind (preserves_onReceiver _) fun _ => .pure _
  | .hangUp device, _, context => by
    rw [perform]
    exact .map _ (preserves_onReceiver _)
  | .frames device, _, context => by
    rw [perform]
    exact .map _ (preserves_held (preserves_onFrame fun _ => .get))
  | .update device time, _, context => by
    rw [perform]
    exact .bind (preserves_resolve context time) fun _ =>
      .bind (preserves_held (preserves_onSampler _)) fun _ => .pure _
  | .samples device, _, context => by
    rw [perform]
    exact .bind (preserves_held (preserves_onSampler _)) fun _ =>
      .bind preserves_formatOf fun _ => .pure _
  | .inject device byte, _, context => preserves_inject byte
  | .latched device, _, context => by
    rw [perform]
    exact .map _ (preserves_held (preserves_onInput _))
  | .newCpu spec, _, context => by
    rw [perform]
    refine preserves_settled (.bind .get fun _ => .bind (.lift _) fun cpu =>
      .bind ?_ fun _ => .pure _)
    exact .bind .get fun _ => fun w hw => ⟨hw.timed, hw.named, hw.entitled⟩
  | .runUntil limit, _, context => by
    rw [perform]
    exact .bind (preserves_resolve context limit) fun _ => preserves_driven (.runUntil _)
  | .runFor span, _, context => by
    rw [perform]
    exact preserves_driven (.runFor span)
  | .stepCpu, _, context => by
    rw [perform]
    exact preserves_driven .step
  | .tick budget, _, context => by
    rw [perform]
    refine preserves_onRig fun r hr => ?_
    rw [Rig.onEmulator, Run.after_on]
    exact hr
  | .emulator, _, context => by
    rw [perform]
    exact preserves_onRig (.map _ .get)

end

end

/-- The benches that come about, between the actions and between the deliveries of one, whatever the
records are then and whatever becomes of the emulator. -/
inductive Reached : BenchWorld → Prop where
  | started {saved : Option Saved} {w : BenchWorld} (h : Session.start saved = .ok w) : Reached w
  | acted {w : BenchWorld} (steps : Nat) (context : Context) (action : Action)
      (ordinary : action.Ordinary) (h : Reached w) :
      Reached ((perform (execute steps) steps context action).after w)
  | entered {w : BenchWorld} (thread : ThreadId) (limit : Instant) (h : Reached w) :
      Reached ((World.onScheduler (Scheduler.enter thread limit)).after w)
  | delivered {w : BenchWorld} (steps : Nat) (thread : ThreadId) {limit t : Instant}
      {p : SyncPoint} {s : Scheduler} (due : w.scheduler.takeDue limit = (some (p, t), s))
      (h : Reached w) :
      Reached ((World.deliver (execute steps thread) p t).after { w with scheduler := s })
  | recorded {w v : BenchWorld} (scheduler : v.scheduler = w.scheduler)
      (lifetimes : v.lifetimes = w.lifetimes) (all : v.devices.all = w.devices.all)
      (h : Reached w) : Reached v

/-- A session reaches benches with the actions that it takes. -/
theorem Reached.take {w v : BenchWorld} {steps : Nat} {action : Action} {reply : Reply}
    (h : Reached w) (ordinary : action.Ordinary)
    (htake : Session.take steps action w = some (reply, v)) : Reached v := by
  have hacted := h.acted steps ⟨Session.mainThread, none⟩ (.attempt action) ordinary
  rw [perform] at hacted
  rw [Session.take] at htake
  cases hact : guarded (perform (execute steps) steps ⟨Session.mainThread, none⟩ action) w with
  | ok answer u =>
    rw [hact] at htake
    rw [Run.after_of_ok hact] at hacted
    cases htake
    exact .recorded (w := u) rfl rfl rfl hacted
  | error halt u =>
    rw [hact] at htake
    cases htake

/-- Actions performed in turn from outside, whatever comes of each. -/
def performed (steps : Nat) (actions : List Action) (w : BenchWorld) : BenchWorld :=
  actions.foldl
    (fun w action => (perform (execute steps) steps ⟨Session.mainThread, none⟩ action).after w) w

theorem Reached.performed {w : BenchWorld} (h : Reached w) (steps : Nat) {actions : List Action}
    (ordinary : ∀ action ∈ actions, action.Ordinary) : Reached (performed steps actions w) := by
  induction actions generalizing w with
  | nil => exact h
  | cons action rest ih =>
    obtain ⟨hfirst, hrest⟩ := List.forall_mem_cons.mp ordinary
    exact ih (.acted steps _ action hfirst h) hrest

theorem inOrder_of_start {saved : Option Saved} {w : BenchWorld}
    (h : Session.start saved = .ok w) : InOrder w := by
  have hstart {t : Instant} (ht : t ≠ .asap) :
      InOrder (.ofScheduler (Scheduler.start t) .empty) := ⟨ht, rfl, fun _ => rfl⟩
  cases saved with
  | none =>
    cases h
    exact hstart (by decide)
  | some saved =>
    obtain ⟨s, hs, h⟩ := Attempt.bind_eq_ok.mp h
    cases h
    obtain ⟨⟨hasap, -⟩, rfl⟩ := Scheduler.restore_eq_ok.mp hs
    exact hstart hasap

theorem Reached.inOrder {w : BenchWorld} (h : Reached w) : InOrder w := by
  induction h with
  | started h => exact inOrder_of_start h
  | acted steps context action ordinary _ ih =>
    exact preserves_perform steps action ordinary context _ ih
  | @entered w thread limit _ ih =>
    refine Spared.inOrder ?_ ih
    rw [World.after_onScheduler]
    exact .of_scheduler (.enter thread limit w.scheduler)
  | delivered steps thread due _ ih => exact ih.deliver due
  | recorded hscheduler hlifetimes hall _ ih =>
    exact Spared.inOrder ⟨by rw [hscheduler]; exact .refl _, hall, by rw [hlifetimes]⟩ ih

end Timebase.Bench
