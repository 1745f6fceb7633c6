import Timebase.Proofs.Trails

/-!
# Deeds of a device

What devices do at once, when they are asked for something or woken, is all of one form: they work
on their state, and after that they set what they have pending to rights.
-/

namespace Timebase

variable {σ τ α β : Type} {w v : World σ}

theorem Scheduler.register_asap (s : Scheduler) (device : DeviceId) (tag : Tag) :
    ∃ s', s.register .asap device tag = .ok s' :=
  ⟨_, Scheduler.register_eq_ok.mpr ⟨Or.inl rfl, rfl⟩⟩

theorem Program.wanted_register {device : DeviceId} (time : Instant) (tag : Tag)
    (h : ∃ s', w.scheduler.register time device tag = .ok s') :
    (((Program.register time device tag).after w).scheduler.wanted device).Perm
      (⟨time, tag⟩ :: w.scheduler.wanted device) := by
  obtain ⟨s', hs⟩ := h
  have hrun : (Program.register time device tag).run w = .ok () { w with scheduler := s' } :=
    World.register_of_ok hs
  have hperm := Scheduler.wanted_register hs device
  rw [Function.update_self] at hperm
  rw [Program.after, Run.after_of_ok hrun]
  exact hperm

/-- A program that changes nothing but what is pending. -/
def Program.Books (q : Program σ β) : Prop :=
  ∀ w, ∀ m ∈ q.history w, m.world.devices = w.devices ∧ m.world.lifetimes = w.lifetimes ∧
    m.world.scheduler.currentTime = w.scheduler.currentTime ∧ m.event.calls = [] ∧
      ∀ device, m.event.demand device = none

namespace Program.Books

theorem after {q : Program σ β} (h : q.Books) (w : World σ) :
    (q.after w).devices = w.devices ∧ (q.after w).lifetimes = w.lifetimes ∧
      (q.after w).scheduler.currentTime = w.scheduler.currentTime := by
  rcases List.mem_cons.mp (q.after_mem_worlds w) with hw | hw
  · rw [hw]
    exact ⟨rfl, rfl, rfl⟩
  · obtain ⟨m, hm, hworld⟩ := List.mem_map.mp hw
    obtain ⟨hdevices, hlifetimes, htime, -⟩ := h w m hm
    rw [← hworld]
    exact ⟨hdevices, hlifetimes, htime⟩

theorem done (a : α) : (Program.done a : Program σ α).Books := fun _ _ hm => (by cases hm)

theorem register (time : Instant) (device : DeviceId) (tag : Tag) :
    (Program.register time device tag : Program σ Unit).Books := by
  intro w m hm
  rw [history] at hm
  cases hs : w.scheduler.register time device tag with
  | ok s =>
    rw [hs] at hm
    cases List.mem_singleton.mp hm
    exact ⟨rfl, rfl, (Scheduler.sameTime_register hs).currentTime, rfl, fun _ => rfl⟩
  | error cause =>
    rw [hs] at hm
    cases hm

theorem cancel (device : DeviceId) (tag : Tag) :
    (Program.cancel device tag : Program σ Bool).Books := by
  intro w m hm
  rw [history] at hm
  split at hm
  · cases List.mem_singleton.mp hm
    exact ⟨rfl, rfl, (Scheduler.sameTime_cancel device tag w.scheduler).currentTime, rfl,
      fun _ => rfl⟩
  · cases hm

theorem andThen {p : Program σ α} {next : α → Program σ β} (hp : p.Books)
    (hnext : ∀ a, (next a).Books) : (Program.andThen p next).Books := by
  intro w m hm
  rw [history] at hm
  rcases List.mem_append.mp hm with hm | hm
  · exact hp w m hm
  · cases hrun : p.run w with
    | error halt v =>
      rw [hrun] at hm
      cases hm
    | ok a v =>
      rw [hrun] at hm
      obtain ⟨hdevices, hlifetimes, htime, hcalls⟩ := hnext a v m hm
      obtain ⟨hd, hl, ht⟩ := hp.after w
      rw [Program.after, Run.after_of_ok hrun] at hd hl ht
      exact ⟨hdevices.trans hd, hlifetimes.trans hl, htime.trans ht, hcalls⟩

end Program.Books

/-- What the history tells of work, which a device may have been asked for. -/
def Event.ofWork : Option (DeviceId × Demand) → Event
  | some (device, demand) => .asked device demand
  | none => .silent

/-- Work that a device does because it is asked for something, or of its own accord. -/
def Program.workFor : Option (DeviceId × Demand) → Run σ α → Program σ α
  | some (device, demand), act => .ask device demand act
  | none, act => .work act

namespace Program

variable {asked : Option (DeviceId × Demand)} {act : Run σ α}

theorem run_workFor : (workFor asked act).run = World.onDevices act := by
  cases asked <;> rfl

theorem history_workFor (w : World σ) :
    (workFor asked act).history w = [⟨.ofWork asked, (World.onDevices act).after w⟩] := by
  cases asked <;> rfl

theorem neverLooks_workFor : (workFor asked act).NeverLooks := by
  cases asked <;> trivial

theorem calls_ofWork (asked : Option (DeviceId × Demand)) : (Event.ofWork asked).calls = [] := by
  cases asked <;> rfl

end Program

/-- Work on the state of a device, and then on what it has pending. -/
def Place.deed (place : Place σ τ) (act : Run τ α) (next : Option α → Program σ β)
    (asked : Option (DeviceId × Demand) := none) : Program σ β :=
  .andThen (.workFor asked (place.on act)) next

namespace Resident

variable {r : Resident σ τ} {asked : Option (DeviceId × Demand)} {act : Run τ α} {a : α} {x y : τ}
  {next : Option α → Program σ β}

theorem deed_lifetimes (act : Run τ α) (hnext : ∀ a, (next a).Books) (w : World σ) :
    ((r.place.deed act next asked).after w).lifetimes = w.lifetimes := by
  have hwork : ((Program.workFor asked (r.place.on act)).after w).lifetimes =
      w.lifetimes := by
    rw [Program.after, Program.run_workFor, World.after_onDevices]
  cases hrun : (Program.workFor asked (r.place.on act)).run w with
  | ok a v => rw [Place.deed, Program.after_andThen_of_ok hrun, ((hnext a).after _).2.1, hwork]
  | error halt v => rw [Place.deed, Program.after_andThen_of_error hrun, hwork]

theorem isOwned_deed (act : Run τ α) (hnext : ∀ a, (next a).Books)
    (hw : w.isOwned r.device = true) :
    ((r.place.deed act next asked).after w).isOwned r.device = true := by
  rw [World.isOwned, deed_lifetimes act hnext]
  exact hw

theorem Lives.owned_woken (hw : r.Lives w) (s : Scheduler) (device : DeviceId) :
    (({ w with scheduler := s } : World σ).retain device).isOwned r.device = true :=
  (Passing.of_running (w := { w with scheduler := s }) device (· + 1)).owned.trans hw.owned

section

variable (hx : r.place.get? w.devices = some x) (hact : act x = .ok a y)

include hx hact

private theorem work_run : (Program.workFor asked (r.place.on act)).run w =
    .ok (some a) { w with devices := r.place.put y w.devices } := by
  rw [Program.run_workFor]
  exact World.onDevices_of_ok (Place.on_of_ok hx hact)

theorem deed_run : (r.place.deed act next asked).run w =
    (next (some a)).run { w with devices := r.place.put y w.devices } :=
  Run.bind_of_ok (work_run hx hact)

theorem deed_after : (r.place.deed act next asked).after w =
    (next (some a)).after { w with devices := r.place.put y w.devices } :=
  Run.after_congr (deed_run hx hact)

theorem deed_history : (r.place.deed act next asked).history w =
    ⟨.ofWork asked, { w with devices := r.place.put y w.devices }⟩ ::
      (next (some a)).history { w with devices := r.place.put y w.devices } := by
  have hrun : (Program.workFor asked (r.place.on act)).run w = _ := work_run hx hact
  have hafter := Run.after_of_ok (World.onDevices_of_ok (w := w) (Place.on_of_ok hx hact))
  simp only [Place.deed, Program.history, Program.history_workFor, hrun, hafter,
    List.singleton_append]

theorem deed_moment (hnext : (next (some a)).Books) :
    ∀ m ∈ (r.place.deed act next asked).history w, r.place.get? m.world.devices = some y ∧
      m.world.scheduler.currentTime = w.scheduler.currentTime ∧ m.event.calls = [] := by
  rw [deed_history hx hact]
  have hfirst := Program.calls_ofWork asked
  refine List.forall_mem_cons.mpr ⟨⟨r.place.get_put y hx, rfl, hfirst⟩, fun m hm => ?_⟩
  obtain ⟨hdevices, -, htime, hcalls, -⟩ := hnext _ m hm
  exact ⟨hdevices ▸ r.place.get_put y hx, htime, hcalls⟩

theorem deed_undergoes (hnext : (next (some a)).Books) :
    r.Undergoes w ⟨w.scheduler.currentTime, x, y, (Event.ofWork asked).demand r.device⟩
        ((r.place.deed act next asked).history w) ∧
      r.calls ((r.place.deed act next asked).history w) = [] := by
  let c : Change τ := ⟨w.scheduler.currentTime, x, y, (Event.ofWork asked).demand r.device⟩
  have hreaches : ∀ m ∈ (r.place.deed act next asked).history w,
      r.Reaches c (m.event.demand r.device) m := by
    intro m hm
    obtain ⟨hstate, htime, hcalls⟩ := deed_moment hx hact hnext m hm
    exact ⟨hstate, htime, by simp [calls, Timebase.calls, gather, hcalls], rfl⟩
  refine ⟨?_, calls_of_none fun m hm => (hreaches m hm).calls⟩
  rw [deed_history hx hact] at hreaches ⊢
  obtain ⟨hfirst, hrest⟩ := List.forall_mem_cons.mp hreaches
  refine .at_once hx hfirst fun m hm => ?_
  have hquiet : m.event.demand r.device = none := (hnext _ m hm).2.2.2.2 r.device
  exact hquiet ▸ hrest m hm

theorem deed_state (hnext : (next (some a)).Books) :
    r.place.get? ((r.place.deed act next asked).after w).devices = some y ∧
      ((r.place.deed act next asked).after w).scheduler.currentTime = w.scheduler.currentTime := by
  obtain ⟨hdevices, -, htime⟩ := hnext.after { w with devices := r.place.put y w.devices }
  rw [deed_after hx hact, hdevices, htime]
  exact ⟨r.place.get_put y hx, rfl⟩

end

variable {Step : Stepping τ} {limit t : Instant} {p : SyncPoint} {s : Scheduler}

/-- A deed is a step to a device that gets by it where the step leads. -/
theorem makes_deed {demand : Option Demand}
    (hasked : (Event.ofWork asked).demand r.device = demand)
    (h : ∀ st : Standing τ, r.Stands w st → ∃ a y, act st.state = .ok a y ∧
      (next (some a)).Books ∧ Step st demand [] ⟨st.now, y,
        ((r.place.deed act next asked).after w).scheduler.wanted r.device⟩) :
    r.Makes Step w ((r.place.deed act next asked).history w) := by
  intro st hst
  obtain ⟨a, y, hact, hnext, hstep⟩ := h st hst
  obtain ⟨hchange, hcalls⟩ :
      r.Undergoes w _ ((r.place.deed act next asked).history w) ∧ _ :=
    deed_undergoes hst.state hact hnext
  obtain ⟨hstate, htime⟩ :
      r.place.get? ((r.place.deed act next asked).after w).devices = some y ∧ _ :=
    deed_state hst.state hact hnext
  rw [hst.now, hasked] at hchange
  rw [hst.now] at htime
  refine ⟨demand, _, hcalls ▸ hstep, ⟨?_, ?_, ?_⟩, hchange⟩
  all_goals rw [((r.place.deed act next asked).path w).upTo_eq]
  exacts [hstate, htime]

theorem makes_woken (hdue : w.scheduler.takeDue limit = (some (p, t), s)) (hd : p.device = r.device)
    (h : let u := ({ w with scheduler := s } : World σ).retain p.device
      ∀ st : Standing τ, r.Stands w st → ∃ a y, act st.state = .ok a y ∧
        (next (some a)).Books ∧ Step st none [⟨r.device, t, p.tag⟩] ⟨t, y,
          ((r.place.deed act next).after u).scheduler.wanted r.device⟩) :
    r.Makes Step w (⟨.woken p t, { w with scheduler := s }⟩ ::
      ⟨.silent, ({ w with scheduler := s } : World σ).retain p.device⟩ ::
        (r.place.deed act next).history (({ w with scheduler := s } : World σ).retain p.device)) := by
  intro st hst
  let u := ({ w with scheduler := s } : World σ).retain p.device
  obtain ⟨a, y, hact, hnext, hstep⟩ := h st hst
  have hu : r.place.get? u.devices = some st.state := hst.state
  have hnow : u.scheduler.currentTime = t := by
    obtain ⟨_, -, -, rfl, rfl⟩ := Scheduler.takeDue_eq_some.mp hdue
    rfl
  obtain ⟨hchange, hcalls⟩ : r.Undergoes u _ ((r.place.deed act next).history u) ∧ _ :=
    deed_undergoes hu hact hnext
  obtain ⟨hstate, htime⟩ : r.place.get? ((r.place.deed act next).after u).devices = some y ∧ _ :=
    deed_state hu hact hnext
  rw [hnow] at hchange htime
  have hfront : r.place.Stays r.device w st.state
      [⟨.woken p t, { w with scheduler := s }⟩, ⟨.silent, u⟩] :=
    ⟨hst.state, List.forall_mem_cons.mpr ⟨⟨hst.state, rfl⟩,
      List.forall_mem_singleton.mpr ⟨hst.state, rfl⟩⟩⟩
  have hboth := Undergoes.after_stays (c := ⟨t, st.state, y, none⟩) hfront hchange
  refine ⟨none, ⟨t, y, ((r.place.deed act next).after u).scheduler.wanted r.device⟩, ?_, ?_, hboth⟩
  · have hall := calls_woken (t := t) hd { w with scheduler := s } u
      ((r.place.deed act next).history u)
    rw [hcalls] at hall
    exact hall.symm ▸ hstep
  · have hend : w.upTo (⟨.woken p t, { w with scheduler := s }⟩ :: ⟨.silent, u⟩ ::
        (r.place.deed act next).history u) = (r.place.deed act next).after u :=
      ((r.place.deed act next).path u).upTo_eq
    exact ⟨hend ▸ hstate, hend ▸ htime, by rw [hend]⟩

end Resident
end Timebase
