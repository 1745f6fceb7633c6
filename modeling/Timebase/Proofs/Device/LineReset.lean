import Timebase.Proofs.Device.Conveyance

/-!
# A line is woken exactly when it is busy

Whatever others ask of a line and whenever, what it has pending is the one wake-up it is waiting
for, or nothing if it is idle. So a reset finds all there is to take back, and what is handed over
afterwards gets through as if nothing had been before.
-/

namespace Timebase

namespace Uart

variable {σ α β : Type} {place : Place σ (Guarded Uart)} {device : DeviceId} {w w₀ : World σ}
  {u u₀ : Uart} {past : List (Moment σ)} {now t : Instant} {baud : Nat}

theorem orderly_of_new (h : Uart.new now baud = .ok u) : Orderly u [] ∧ u.busy = false := by
  obtain ⟨c, -, hu⟩ := Attempt.bind_eq_ok.mp h
  cases hu
  exact ⟨.idle rfl rfl rfl, rfl⟩

/-- None of the wake-ups that a line gets has broken off. -/
def Unbroken (place : Place σ (Guarded Uart)) (device : DeviceId) (past : List (Moment σ)) : Prop :=
  ∀ r time v, ⟨.woken r time, v⟩ ∈ past → r.device = device →
    ∃ u, (waking place device time r.tag).run (v.retain r.device) = .ok () u

/-- Whether a wake-up comes to its end, if there is one at a moment. -/
def comesThrough (place : Place σ (Guarded Uart)) (device : DeviceId) (m : Moment σ) : Bool :=
  match m.event with
  | .woken r time =>
    match (waking place device time r.tag).run (m.world.retain r.device) with
    | .ok _ _ => true
    | .error _ _ => false
  | _ => true

theorem unbroken_of_all (h : past.all (comesThrough place device) = true) :
    Unbroken place device past := by
  intro r time v hv _
  have hm := List.all_eq_true.mp h _ hv
  cases hrun : (waking place device time r.tag).run (v.retain r.device) with
  | ok _ u => exact ⟨u, rfl⟩
  | error halt u => simp [comesThrough, hrun] at hm

/-- A line that its owner keeps and that nothing was asked of yet. -/
structure Fresh (place : Place σ (Guarded Uart)) (device : DeviceId) (baud : Nat) (u : Uart)
    (w : World σ) : Prop where
  made : ∃ now, Uart.new now baud = .ok u
  state : place.get? w.devices = some (.new u)
  wanted : w.scheduler.wanted device = []
  owned : w.isOwned device = true

theorem Fresh.stands (h : Fresh place device baud u w) (resets : Bool) :
    (resident place device resets).Stands w ⟨w.scheduler.currentTime, .new u, []⟩ :=
  ⟨h.state, rfl, h.wanted⟩

/-- What becomes of a line from a moment on at which it is idle, whatever was before. -/
structure SinceIdle (place : Place σ (Guarded Uart)) (device : DeviceId) (w : World σ)
    (after : List (Moment σ)) (u₁ u : Uart) : Prop where
  silent : input device after = [] →
    Silent u₁.bitsSent u ∧ (place.changes device w after).flatMap received = []
  conveys : (place.changes device w after).flatMap lost = [] →
    ∃ sent, Conveys u₁.bitsSent (input device after)
      ((place.changes device w after).flatMap received) u sent
  complete : (place.changes device w after).flatMap lost = [] → u.busy = false →
    u.bitsSent = u₁.bitsSent + bitsPerFrame * (input device after).length ∧
      (u.receiver.connected = true →
        (place.changes device w after).flatMap received = input device after)

/-- A line that is in order, can be reset, and has been in order since it was idle. -/
structure Sound (place : Place σ (Guarded Uart)) (device : DeviceId) (w : World σ)
    (past : List (Moment σ)) (u : Uart) : Prop where
  state : place.get? (w.upTo past).devices = some (.new u)
  orderly : Orderly u ((w.upTo past).scheduler.wanted device)
  reset : ∃ v, (resetting place device).run (w.upTo past) = .ok () v ∧
    place.get? v.devices = some (.new u.reset) ∧ v.scheduler.wanted device = []
  since : ∀ before after, past = before ++ after → ∀ u₁,
    place.get? (w.upTo before).devices = some (.new u₁) → u₁.busy = false →
      SinceIdle place device (w.upTo before) after u₁ u

theorem resetting_run (hstate : place.get? w.devices = some (.new u))
    (h : Orderly u (w.scheduler.wanted device)) :
    ∃ v, (resetting place device).run w = .ok () v ∧
      place.get? v.devices = some (.new u.reset) ∧ v.scheduler.wanted device = [] := by
  have hact : Guarded.access (modify Uart.reset) (.new u) = .ok () (.new u.reset) :=
    Run.access_of_ok rfl
  let line := resident place device true
  have hrun : (resetting place device).run w = _ := Resident.deed_run (r := line) hstate hact
  have hend : (resetting place device).run w = .ok () ((resetting place device).after w) := by
    rw [Program.after, hrun, Run.after_congr hrun]
    rfl
  have hdone : place.get? ((resetting place device).after w).devices = some (.new u.reset) ∧
      ((resetting place device).after w).scheduler.currentTime = w.scheduler.currentTime :=
    Resident.deed_state (r := line) hstate hact (resetting_books device true)
  refine ⟨_, hend, hdone.1, ?_⟩
  obtain ⟨between, hstart, hbit⟩ := wanted_resetting device hstate
  exact h.takenBack hstart hbit

theorem leaves_of_unbroken (hlives : (resident place device true).Lives w)
    (hfresh : Fresh place device baud u₀ w) {p : Program σ α}
    (hp : p.Beside (resident place device true)) (hpast : p.Looks w past ∨ past = p.history w)
    (hok : Unbroken place device past) :
    (resident place device true).Leaves (Step device true fun _ => True) w
      ⟨w.scheduler.currentTime, .new u₀, []⟩ past := by
  have hkeeps : (resident place device true).Keeps (Carries w (fun m => Unbroken place device [m])
      ((resident place device true).Leaves (Step device true fun _ => True) w
        ⟨w.scheduler.currentTime, .new u₀, []⟩)) := by
    refine keeps_leaves ⟨u₀, rfl⟩ (fun _ _ _ _ => trivial) ?_
    intro w limit t p s past _ _ hd _ _ u hall
    exact hall _ List.mem_cons_self p t _ List.mem_cons_self hd
  exact (hp.leaves hkeeps hlives (hfresh.stands true) hpast fun m hm r time v hv =>
    hok r time v (List.mem_singleton.mp hv ▸ hm)).2

/-- A trail from where a line was idle tells what has become of it since. -/
theorem sinceIdle_of_trail {s₁ s : Standing (Guarded Uart)} {cs : List (Change (Guarded Uart))}
    {ks : List Call} {v : World σ} {after : List (Moment σ)} {u₁ : Uart} {wanted : List Request}
    (h : Trail (Step device true fun _ => True) s₁ cs ks s)
    (hchanges : Change.Alike (place.changes device v after) cs)
    (hinput : (place.changes device v after).flatMap Change.input = input device after)
    (hbegin : Orderly s₁.state.value s₁.wanted) (hs₁ : s₁.state = .new u₁) (hs : s.state = .new u)
    (hend : Orderly u wanted) (hidle : u₁.busy = false) : SinceIdle place device v after u₁ u := by
  have hidle : s₁.state.value.busy = false := by rw [hs₁]; exact hidle
  have hbits : s₁.state.value.bitsSent = u₁.bitsSent := by rw [hs₁]; rfl
  have hvalue : s.state.value = u := by rw [hs]; rfl
  have hhanded := hchanges _ _ Change.input_tells
  rw [hinput] at hhanded
  have hreceived := hchanges _ _ received_tells
  have hlost := hchanges _ _ lost_tells
  have hconveys (hnone : (place.changes device v after).flatMap lost = []) :
      ∃ sent, Conveys u₁.bitsSent (input device after)
        ((place.changes device v after).flatMap received) u sent := by
    rw [hlost] at hnone
    have h := conveys_of_trail h hbegin hidle hnone
    rwa [hbits, hvalue, ← hhanded, ← hreceived] at h
  refine ⟨?_, hconveys, ?_⟩
  · intro hnone
    rw [hhanded] at hnone
    have hsilent := silent_of_trail h hbegin hidle hnone
    rwa [hbits, hvalue, ← hreceived] at hsilent
  · intro hnone hdone
    obtain ⟨sent, h⟩ := hconveys hnone
    obtain ⟨hall, hsent⟩ := h.of_idle hend hdone
    rw [hall]
    exact ⟨hsent, h.complete⟩

/-- A line is woken when it is busy and only then. -/
theorem line_is_woken_exactly_when_busy {t : Instant} (ht : t ≠ .asap)
    (h₀ : w₀.scheduler = .start t) {q : Program σ β} (hw : w ∈ q.worlds w₀)
    (hfresh : Fresh place device baud u₀ w) {p : Program σ α}
    (hp : p.Beside (resident place device true)) {past : List (Moment σ)}
    (hpast : p.Looks w past ∨ past = p.history w) (hok : Unbroken place device past) :
    ∃ u, Uart.Sound place device w past u := by
  obtain ⟨now, hnew⟩ := hfresh.made
  have hfirst := (orderly_of_new hnew).1
  have hleaves := leaves_of_unbroken (.of_worlds ht h₀ hw hfresh.owned) hfresh hp hpast hok
  have ⟨s, hs, hcuts⟩ := hleaves
  obtain ⟨s₁, cs, cs', ks, ks', hcut⟩ := hcuts past [] (List.append_nil _).symm
  have hwhole := hcut.first.trans hcut.second
  obtain ⟨u, hu⟩ := intact_of_trail hwhole ⟨u₀, rfl⟩
  have horderly := orderly_of_trail hwhole hfirst
  have hstate := hs.state
  rw [hu] at hstate horderly
  rw [← hs.wanted] at horderly
  refine ⟨u, hstate, horderly, resetting_run hstate horderly, ?_⟩
  intro before after hsplit u₁ hu₁ hidle
  obtain ⟨s₁, cs, cs', ks, ks', hcut⟩ := hcuts before after hsplit
  have hs₁ : s₁.state = .new u₁ := Option.some.inj (hcut.state.symm.trans hu₁)
  exact sinceIdle_of_trail hcut.second hcut.future (hleaves.input_eq hsplit).2
    (orderly_of_trail hcut.first hfirst) hs₁ hu horderly hidle

/-- A place for nothing but a line. -/
def onlyLine : Place (Guarded Uart) (Guarded Uart) :=
  ⟨some, fun g _ => g, fun _ _ => rfl, fun _ _ _ => rfl⟩

/-- A line at ten master ticks a bit. -/
def quickLine : Uart := ⟨⟨.zero, 0, 343636320, 1⟩, [], 0, 0, false, 0, .listening⟩

def lineAlone : Reaction (Guarded Uart) := fun device time tag =>
  if device = 0 then waking onlyLine 0 time tag else .done ()

theorem lineAlone_beside (steps : Nat) (thread : ThreadId) (limit : Instant) (resets : Bool) :
    (Program.schedule lineAlone steps thread limit).Beside (resident onlyLine 0 resets) := by
  refine ⟨fun _ _ => rfl, fun device time tag hd => ?_⟩
  have hne : device ≠ 0 := hd
  simp only [lineAlone, if_neg hne]
  trivial

/-- Three bits are out when a message is cut short, and then another one is sent. -/
def cutShort : Program (Guarded Uart) Unit :=
  .andThen (sending onlyLine 0 [72, 73]) fun _ =>
    .andThen (.schedule lineAlone 20 0 (.wrap 35)) fun _ =>
      .andThen (resetting onlyLine 0) fun _ =>
        .andThen (sending onlyLine 0 [74]) fun _ =>
          .schedule lineAlone 20 0 (.wrap 135)

theorem line_is_woken_exactly_when_busy_cut_short :
    let w := (Program.enroll true).after (.ofScheduler .new (.new quickLine))
    ∃ u, Uart.Sound onlyLine 0 w (cutShort.history w) u ∧ u.busy = false ∧ u.bitsSent = 13 ∧
      u.receiver.arrived = [74] ∧ input 0 (cutShort.history w) = [72, 73, 74] := by
  intro w
  have hfresh : Fresh onlyLine 0 343636320 quickLine w :=
    ⟨⟨.zero, rfl⟩, rfl, rfl, by decide⟩
  have hw : w ∈ (Program.enroll true).worlds (.ofScheduler .new (.new quickLine)) :=
    Program.after_mem_worlds _ _
  have hp : cutShort.Beside (resident onlyLine 0 true) := by
    exact Or.inr ⟨Or.inl (.send _), fun _ => Or.inr ⟨lineAlone_beside .., fun _ =>
      Or.inr ⟨Or.inl (.reset rfl), fun _ => Or.inr ⟨Or.inl (.send _), fun _ =>
        lineAlone_beside ..⟩⟩⟩⟩
  have hok : Unbroken onlyLine 0 (cutShort.history w) := unbroken_of_all (by decide +kernel)
  obtain ⟨u, hu⟩ := line_is_woken_exactly_when_busy (by decide) rfl hw hfresh hp (Or.inr rfl) hok
  have hstate := hu.state
  have hend : (w.upTo (cutShort.history w)).devices.value.busy = false ∧
      (w.upTo (cutShort.history w)).devices.value.bitsSent = 13 ∧
      (w.upTo (cutShort.history w)).devices.value.receiver.arrived = [74] := by decide +kernel
  rw [Option.some.inj hstate] at hend
  exact ⟨u, hu, hend.1, hend.2.1, hend.2.2, by decide +kernel⟩

end Uart
end Timebase
