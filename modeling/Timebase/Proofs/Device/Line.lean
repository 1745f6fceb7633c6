import Timebase.Proofs.Deeds
import Timebase.Proofs.Device.Uart

/-!
# A serial line among other devices

A serial line is handed data and reset by others at any time, and it is woken when it has asked for
it. To the line a history is a trail of few kinds of steps, in whatever runs they come about.
-/

namespace Timebase

namespace Receiver

theorem fetch_takes (r : Receiver) : (r.fetch.2.connected = true → r.connected = true) ∧
    (r.fetch.2.arrived = [] ∨ r.fetch.2 = r) := by
  rw [fetch]
  split
  · exact ⟨id, Or.inl rfl⟩
  · exact ⟨id, Or.inr rfl⟩

theorem hangUp_takes (r : Receiver) : (r.hangUp.2.connected = true → r.connected = true) ∧
    (r.hangUp.2.arrived = [] ∨ r.hangUp.2 = r) :=
  ⟨fun h => (by cases h), Or.inl rfl⟩

end Receiver

namespace Uart

variable {σ α : Type}

section

variable (place : Place σ (Guarded Uart)) (device : DeviceId)

/-- Data is queued, and a burst is started if none is under way. -/
def sending (bytes : List UInt8) : Program σ Unit :=
  place.deed (Guarded.access (modifyGet (Uart.send bytes)))
    (fun idle => if idle.getD false then .register .asap device Uart.start else .done ())
    (some (device, .take bytes))

/-- The line gives up all it has, and takes back what it has pending. -/
def resetting : Program σ Unit :=
  place.deed (Guarded.access (modify Uart.reset))
    (fun done =>
      if done.isSome then
        .andThen (.cancel device Uart.start) fun _ =>
          .andThen (.cancel device Uart.bit) fun _ => .done ()
      else .done ())
    (some (device, .reset))

def asking : Option Request → Program σ Unit
  | some r => .register r.time device r.tag
  | none => .done ()

/-- The line is woken, and asks for its next wake-up. -/
def waking (time : Instant) (tag : Tag) : Program σ Unit :=
  place.deed (Guarded.access (Uart.wake time tag)) fun asked => asking device asked.join

/-- Something is done at the far end of the line. -/
def listening (f : Receiver → α × Receiver) : Program σ (Option α) :=
  place.deed (modifyGet fun g =>
    ((f g.value.receiver).1,
      { g with value := { g.value with receiver := (f g.value.receiver).2 } })) .done

/-- How a line stands. -/
def looking : Program σ (Option Uart) := .work (place.on (Guarded.access get))

/-- What may be asked of a line and at its far end. -/
inductive Serves (resets : Bool) : {α : Type} → Program σ α → Prop
  | send (bytes : List UInt8) : Serves resets (sending place device bytes)
  | reset (h : resets = true) : Serves resets (resetting place device)
  | fetch : Serves resets (listening place Receiver.fetch)
  | hangUp : Serves resets (listening place Receiver.hangUp)

theorem asking_neverLooks (asked : Option Request) :
    (asking device asked : Program σ Unit).NeverLooks := by
  cases asked <;> trivial

/-- A line, which others may reset or not. -/
def resident (resets : Bool) : Resident σ (Guarded Uart) where
  place := place
  device := device
  wake := waking place device
  Serves := Serves place device resets
  wake_neverLooks _ _ := ⟨Program.neverLooks_workFor, fun _ => asking_neverLooks device _⟩
  serves_neverLooks h := by
    cases h with
    | send bytes => exact ⟨Program.neverLooks_workFor, fun idle => by dsimp only; split <;> trivial⟩
    | reset _ =>
      refine ⟨Program.neverLooks_workFor, fun done => ?_⟩
      dsimp only
      split
      · exact ⟨trivial, fun _ => ⟨trivial, fun _ => trivial⟩⟩
      · trivial
    | fetch | hangUp => exact ⟨Program.neverLooks_workFor, fun _ => trivial⟩

end

/-- What it is to a line that time goes by, that it is handed data, is reset, is heard at its far
end, and is woken to come to a state that is granted. -/
inductive Step (device : DeviceId) (resets : Bool) (granted : Uart → Prop) :
    Stepping (Guarded Uart)
  | pass {now t : Instant} {g : Guarded Uart} {wanted : List Request}
      (h : t = now ∨ now ≤ t ∧ ∀ q ∈ wanted, q.time ≠ .asap ∧ t ≤ q.time) :
      Step device resets granted ⟨now, g, wanted⟩ none [] ⟨t, g, wanted⟩
  | send {now : Instant} {u : Uart} {wanted wanted' : List Request} (bytes : List UInt8)
      (h : wanted'.Perm (if u.busy then wanted else ⟨.asap, start⟩ :: wanted)) :
      Step device resets granted ⟨now, .new u, wanted⟩ (some (.take bytes)) []
        ⟨now, .new (u.send bytes).2, wanted'⟩
  | reset {now : Instant} {u : Uart} {wanted between wanted' : List Request} (h : resets = true)
      (hstart : Request.TakenBack start wanted between)
      (hbit : Request.TakenBack bit between wanted') :
      Step device resets granted ⟨now, .new u, wanted⟩ (some .reset) []
        ⟨now, .new u.reset, wanted'⟩
  | hear {now : Instant} {u : Uart} {wanted wanted' : List Request} (r : Receiver)
      (h : r.connected = true → u.receiver.connected = true) (hr : r.arrived = [] ∨ r = u.receiver)
      (hw : wanted' = wanted) :
      Step device resets granted ⟨now, .new u, wanted⟩ none []
        ⟨now, .new { u with receiver := r }, wanted'⟩
  | wake {now t : Instant} {u u' : Uart} {q : Request} {rest wanted : List Request}
      {answer : Option Request} (le : now ≤ t) (asap : q.time = .asap → t = now)
      (timed : q.time ≠ .asap → now ≤ q.time → t = q.time)
      (h : Uart.wake t q.tag u = .ok answer u') (hw : wanted.Perm (answer.toList ++ rest))
      (hg : granted u') :
      Step device resets granted ⟨now, .new u, q :: rest⟩ none [⟨device, t, q.tag⟩]
        ⟨t, .new u', wanted⟩

variable {place : Place σ (Guarded Uart)} {device : DeviceId} {resets : Bool}
  {w w₀ v : World σ} {u u' : Uart} {g : Guarded Uart} {bytes : List UInt8}
  {past : List (Moment σ)} {s s' : Standing (Guarded Uart)} {granted : Uart → Prop}
  {d : Option Demand} {cs : List (Change (Guarded Uart))} {ks : List Call}

theorem looking_beside : (looking place).Beside (resident place device resets) :=
  Or.inr (Place.get?_after_on Run.after_access_get)

/-- A line that was in order is so after every step. -/
theorem Step.intact (h : Step device resets granted s d ks s') (hs : ∃ u, s.state = .new u) :
    ∃ u, s'.state = .new u := by
  cases h with
  | pass h => exact hs
  | send | reset | hear | wake => exact ⟨_, rfl⟩

theorem intact_of_trail (h : Trail (Step device resets granted) s cs ks s')
    (hs : ∃ u, s.state = .new u) : ∃ u, s'.state = .new u := by
  induction h with
  | here => exact hs
  | on _ step ih => exact step.intact ih

theorem asking_books (device : DeviceId) (asked : Option Request) :
    (asking device asked : Program σ Unit).Books := by
  cases asked with
  | none => exact .done ()
  | some r => exact .register r.time device r.tag

theorem sending_books (device : DeviceId) (idle : Bool) :
    (if idle then .register .asap device start else .done () : Program σ Unit).Books := by
  cases idle with
  | true => exact .register .asap device start
  | false => exact .done ()

theorem resetting_books (device : DeviceId) (done : Bool) :
    (if done then .andThen (.cancel device start) fun _ =>
        .andThen (.cancel device bit) fun _ => .done ()
      else .done () : Program σ Unit).Books := by
  cases done with
  | true =>
    exact .andThen (.cancel device start) fun _ => .andThen (.cancel device bit) fun _ => .done ()
  | false => exact .done ()

theorem wanted_takenBack (w : World σ) :
    ∃ between, Request.TakenBack start (w.scheduler.wanted device) between ∧
      Request.TakenBack bit between (((Program.andThen (.cancel device start) fun _ =>
        .andThen (.cancel device bit) fun _ => .done ()).after w).scheduler.wanted device) := by
  have hrun (tag : Tag) (v : World σ) : (Program.cancel device tag).run v =
      .ok (v.scheduler.cancel device tag).1
        { v with scheduler := (v.scheduler.cancel device tag).2 } := rfl
  rw [Program.after_andThen_of_ok (hrun start w), Program.after_andThen_of_ok (hrun bit _)]
  exact ⟨_, Scheduler.wanted_cancel device start w.scheduler,
    Scheduler.wanted_cancel device bit (w.scheduler.cancel device start).2⟩

theorem wanted_resetting (device : DeviceId) (hstate : place.get? w.devices = some (.new u)) :
    ∃ between, Request.TakenBack start (w.scheduler.wanted device) between ∧
      Request.TakenBack bit between
        (((resetting place device).after w).scheduler.wanted device) := by
  have hact : Guarded.access (modify Uart.reset) (.new u) = .ok () (.new u.reset) :=
    Run.access_of_ok rfl
  have hafter : (resetting place device).after w = _ :=
    Resident.deed_after (r := resident place device true) hstate hact
  rw [hafter]
  exact wanted_takenBack _

theorem waking_eq_ok {t : Instant} {tag : Tag} (hstate : place.get? w.devices = some (.new u))
    (h : (waking place device t tag).run w = .ok () v) :
    ∃ asked u', Uart.wake t tag u = .ok asked u' ∧
      (asking device asked).run { w with devices := place.put (.new u') w.devices } = .ok () v := by
  obtain ⟨a, x, hwork, hnext⟩ := Run.bind_eq_ok.mp h
  rw [Program.run_workFor] at hwork
  cases hact : Guarded.access (Uart.wake t tag) (.new u) with
  | error halt g =>
    rw [World.onDevices_of_error (Place.on_of_error hstate hact)] at hwork
    cases hwork
  | ok asked g =>
    rw [World.onDevices_of_ok (Place.on_of_ok hstate hact)] at hwork
    cases hwork
    obtain ⟨u', hwake, rfl⟩ := Run.access_eq_ok hact
    exact ⟨asked, u', hwake, hnext⟩

theorem asking_wanted {asked : Option Request} (h : (asking device asked).run w = .ok () v) :
    (((asking device asked).after w).scheduler.wanted device).Perm
      (asked.toList ++ w.scheduler.wanted device) := by
  cases asked with
  | none => exact .refl _
  | some r =>
    refine Program.wanted_register r.time r.tag ?_
    cases hs : w.scheduler.register r.time device r.tag with
    | ok s' => exact ⟨s', rfl⟩
    | error cause =>
      have hrun : (asking device (some r)).run w = _ := World.register_of_error hs
      rw [hrun] at h
      cases h

section

variable (hw : ∀ s, (resident place device resets).Stands w s → ∃ u, s.state = .new u)

include hw

theorem sending_makes (bytes : List UInt8) :
    (resident place device resets).Makes (Step device resets granted) w
      ((sending place device bytes).history w) := by
  refine Resident.makes_deed (if_pos rfl) fun s hs => ?_
  obtain ⟨u, hu⟩ := hw s hs
  obtain ⟨now, g, wanted⟩ := s
  subst hu
  have hact : Guarded.access (modifyGet (Uart.send bytes)) (.new u) =
      .ok (!u.busy) (.new (u.send bytes).2) := Run.access_of_ok rfl
  have hwanted : w.scheduler.wanted device = wanted := hs.wanted
  refine ⟨_, _, hact, sending_books device _, .send bytes ?_⟩
  rw [Resident.deed_after hs.state hact, ← hwanted]
  cases hb : u.busy with
  | true => exact .refl _
  | false => exact Program.wanted_register .asap start (w.scheduler.register_asap device start)

theorem resetting_makes (h : resets = true) :
    (resident place device resets).Makes (Step device resets granted) w
      ((resetting place device).history w) := by
  refine Resident.makes_deed (if_pos rfl) fun s hs => ?_
  obtain ⟨u, hu⟩ := hw s hs
  obtain ⟨now, g, wanted⟩ := s
  subst hu
  have hact : Guarded.access (modify Uart.reset) (.new u) = .ok () (.new u.reset) :=
    Run.access_of_ok rfl
  have hwanted : w.scheduler.wanted device = wanted := hs.wanted
  obtain ⟨between, hstart, hbit⟩ := wanted_resetting device hs.state
  exact ⟨_, _, hact, resetting_books device true, .reset h (hwanted ▸ hstart) hbit⟩

theorem listening_makes (f : Receiver → α × Receiver)
    (hf : ∀ r : Receiver, ((f r).2.connected = true → r.connected = true) ∧
      ((f r).2.arrived = [] ∨ (f r).2 = r)) :
    (resident place device resets).Makes (Step device resets granted) w
      ((listening place f).history w) := by
  refine Resident.makes_deed rfl fun s hs => ?_
  obtain ⟨u, hu⟩ := hw s hs
  obtain ⟨now, g, wanted⟩ := s
  subst hu
  have hwanted : w.scheduler.wanted device = wanted := hs.wanted
  let act : Run (Guarded Uart) α := modifyGet fun g =>
    ((f g.value.receiver).1, { g with value := { g.value with receiver := (f g.value.receiver).2 } })
  have hact : act (.new u) = .ok _ (.new { u with receiver := (f u.receiver).2 }) := rfl
  refine ⟨_, _, hact, .done _, ?_⟩
  have hend : (((resident place device resets).place.deed act .done).after w).scheduler.wanted
      device = wanted := by
    rw [Resident.deed_after hs.state hact]
    exact hwanted
  obtain ⟨hconnected, harrived⟩ := hf u.receiver
  exact .hear (f u.receiver).2 hconnected harrived hend

/-- A wake-up that does not break off is a step. -/
theorem waking_makes {limit t : Instant} {p : SyncPoint} {after : Scheduler}
    (hG : ∀ m ∈ (waking place device t p.tag).history
        (({ w with scheduler := after } : World σ).retain p.device), ∀ u,
      place.get? m.world.devices = some (.new u) → granted u)
    (hdue : w.scheduler.takeDue limit = (some (p, t), after)) (hd : p.device = device)
    (hok : (waking place device t p.tag).run (({ w with scheduler := after } : World σ).retain
      p.device) = .ok () v) :
    (resident place device resets).Makes (Step device resets granted) w
      (⟨.woken p t, { w with scheduler := after }⟩ ::
        ⟨.silent, ({ w with scheduler := after } : World σ).retain p.device⟩ ::
          (waking place device t p.tag).history
            (({ w with scheduler := after } : World σ).retain p.device)) := by
  refine Resident.makes_woken hdue hd fun s hs => ?_
  obtain ⟨u, hu⟩ := hw s hs
  obtain ⟨now, g, wanted⟩ := s
  subst hu
  let world := ({ w with scheduler := after } : World σ).retain p.device
  have hstate : (resident place device resets).place.get? world.devices = some (.new u) := hs.state
  obtain ⟨asked, u', hwake, hasked⟩ := waking_eq_ok hstate hok
  have hact := Run.access_of_ok hwake
  have hbooks := asking_books (σ := σ) device asked
  refine ⟨asked, _, hact, hbooks, ?_⟩
  have hgranted : granted u' := by
    have hhistory : (waking place device t p.tag).history world = _ :=
      Resident.deed_history hstate hact
    rw [hhistory] at hG
    exact hG _ List.mem_cons_self u' (place.get_put _ hstate)
  have hwanted : w.scheduler.wanted device = wanted := hs.wanted
  have hnow : w.scheduler.currentTime = now := hs.now
  rw [Scheduler.wanted_takeDue hdue, hd, Function.update_self] at hwanted
  obtain ⟨-, -, -, ht, -⟩ := Scheduler.takeDue_eq_some.mp hdue
  subst hwanted hnow ht
  refine .wake (Scheduler.le_deliveryTime p _) Scheduler.deliveryTime_of_asap
    Scheduler.deliveryTime_of_le hwake ?_ hgranted
  rw [Resident.deed_after hstate hact]
  exact asking_wanted hasked

end

/-- What a line does not do wrong itself makes up a trail, whatever the others do. -/
theorem keeps_leaves {allowed : Moment σ → Prop} {s₀ : Standing (Guarded Uart)}
    (hs₀ : ∃ u, s₀.state = .new u)
    (hgranted : ∀ m u, allowed m → place.get? m.world.devices = some (.new u) → granted u)
    (hok : ∀ {w : World σ} {limit t : Instant} {p : SyncPoint} {s : Scheduler}
      {past : List (Moment σ)}, (resident place device resets).Lives w →
      w.scheduler.takeDue limit = (some (p, t), s) → p.device = device → w₀.upTo past = w →
      (resident place device resets).Leaves (Step device resets granted) w₀ s₀ past →
      let u := ({ w with scheduler := s } : World σ).retain p.device
      (∀ m ∈ ⟨.woken p t, { w with scheduler := s }⟩ :: ⟨.silent, u⟩ ::
        (waking place device t p.tag).history u, allowed m) →
      ∃ v, (waking place device t p.tag).run u = .ok () v) :
    (resident place device resets).Keeps (Carries w₀ allowed
      ((resident place device resets).Leaves (Step device resets granted) w₀ s₀)) := by
  have hintact {w : World σ} {past : List (Moment σ)} (hpast : w₀.upTo past = w)
      (h : (resident place device resets).Leaves (Step device resets granted) w₀ s₀ past) :
      ∀ s, (resident place device resets).Stands w s → ∃ u, s.state = .new u := by
    intro s hs
    obtain ⟨s', cs, hs', htrail, -⟩ := h.trail
    have hstate := hs'.state
    rw [hpast, hs.state] at hstate
    rw [Option.some.inj hstate]
    exact intact_of_trail htrail hs₀
  refine Resident.keeps_leaves ?_ ?_ ?_
  · intro w v e _ hv _
    exact hv.makes fun s _ h => .pass h
  · intro α p w hp hw
    cases hp with
    | send bytes =>
      refine ⟨Resident.isOwned_deed _ (fun _ => sending_books device _) hw.owned, ?_⟩
      exact fun _ _ hpast h => sending_makes (hintact hpast h) bytes
    | reset hr =>
      refine ⟨Resident.isOwned_deed _ (fun _ => resetting_books device _) hw.owned, ?_⟩
      exact fun _ _ hpast h => resetting_makes (hintact hpast h) hr
    | fetch =>
      refine ⟨Resident.isOwned_deed _ (fun _ => .done _) hw.owned, ?_⟩
      exact fun _ _ hpast h => listening_makes (hintact hpast h) _ Receiver.fetch_takes
    | hangUp =>
      refine ⟨Resident.isOwned_deed _ (fun _ => .done _) hw.owned, ?_⟩
      exact fun _ _ hpast h => listening_makes (hintact hpast h) _ Receiver.hangUp_takes
  · intro w limit t p s hw hdue hd
    refine ⟨Resident.isOwned_deed _ (fun _ => asking_books device _) (hw.owned_woken s p.device),
      fun hall past hpast h => ?_⟩
    obtain ⟨v, hv⟩ := hok hw hdue hd hpast h hall
    refine waking_makes (hintact hpast h) (fun m hm u => hgranted m u (hall m ?_)) hdue hd hv
    exact List.mem_cons_of_mem _ (List.mem_cons_of_mem _ hm)

end Uart
end Timebase
