import Timebase.Proofs.Teardown

/-!
# Sync points of devices that have ended

A sync point of a device that has ended is passed over when it comes due. Nobody can tell that from
a wake-up of a device that is kept but does nothing: time and all else that is pending go on alike.
-/

namespace Timebase

variable {σ α β : Type} {w w' v v' : World σ} {gone device : DeviceId}

namespace World

/-- The same world with a device that its owner keeps. -/
def keeping (gone : DeviceId) (w : World σ) : World σ :=
  { w with lifetimes := w.lifetimes.modify gone fun l => { l with owned := true } }

theorem release_retain (h : w.isAlive device = true) : (w.retain device).release device = w := by
  have hlifetimes : (w.lifetimes.modify device fun l => { l with running := l.running + 1 }).modify
      device (fun l => { l with running := l.running - 1 }) = w.lifetimes := by
    rw [List.modify_modify_eq]
    exact List.modify_id _ _
  rw [release, retain, hlifetimes]
  exact bury_of_alive h

private theorem modify_append (change : Lifetime → Lifetime) (l : Lifetime) (ls : List Lifetime)
    (device : DeviceId) (h : device < ls.length) :
    (ls ++ [l]).modify device change = ls.modify device change ++ [l] := by
  induction ls generalizing device with
  | nil => simp at h
  | cons x xs ih =>
    cases device with
    | zero => simp
    | succ n => simpa using ih n (by simpa using h)

theorem deliver_idle {wake : Wake σ} {p : SyncPoint} {time : Instant}
    (hidle : wake p.device time p.tag = pure ()) (h : w.isAlive p.device = true) :
    deliver wake p time w = .ok () w := by
  rw [deliver_of_alive h, hidle]
  have hdone : (pure () : Run (World σ) Unit) (w.retain p.device) = .ok () (w.retain p.device) := rfl
  rw [during_of_ok hdone, release_retain h]

end World

/-- Worlds that differ in a device only that has ended in one of them and is kept in the other. -/
structure Alike (gone : DeviceId) (w w' : World σ) : Prop where
  scheduler : w'.scheduler = w.scheduler
  devices : w'.devices = w.devices
  lifetimes : w'.lifetimes = (w.keeping gone).lifetimes
  ended : w.hasEnded gone = true

namespace Alike

theorem keeping (h : w.hasEnded gone = true) : Alike gone w (w.keeping gone) := ⟨rfl, rfl, rfl, h⟩

theorem lifetime (h : Alike gone w w') (hd : device ≠ gone) :
    w'.lifetimes[device]? = w.lifetimes[device]? := by
  rw [h.lifetimes]
  exact World.lifetime_modify_ne hd _ w

theorem isAlive (h : Alike gone w w') (hd : device ≠ gone) :
    w'.isAlive device = w.isAlive device := by
  rw [World.isAlive, World.isAlive, h.lifetime hd]

theorem isOwned (h : Alike gone w w') (hd : device ≠ gone) :
    w'.isOwned device = w.isOwned device := by
  rw [World.isOwned, World.isOwned, h.lifetime hd]

theorem kept (h : Alike gone w w') : w'.isAlive gone = true := by
  obtain ⟨l, hl, -⟩ := World.hasEnded_iff.mp h.ended
  apply World.isAlive_iff.mpr
  refine ⟨{ l with owned := true }, ?_, rfl⟩
  rw [h.lifetimes]
  simp [World.keeping, List.getElem?_modify_eq, hl]

theorem of_lifetimes_eq (h : Alike gone w w') (hs : v'.scheduler = v.scheduler)
    (hd : v'.devices = v.devices) (hl : v.lifetimes = w.lifetimes)
    (hl' : v'.lifetimes = w'.lifetimes) : Alike gone v v' where
  scheduler := hs
  devices := hd
  lifetimes := by
    rw [hl', h.lifetimes, World.keeping, World.keeping, hl]
  ended := by
    rw [World.hasEnded_congr hl]
    exact h.ended

theorem onScheduler (h : Alike gone w w') (s : Scheduler) :
    Alike gone { w with scheduler := s } { w' with scheduler := s } :=
  h.of_lifetimes_eq rfl h.devices rfl rfl

theorem modify (h : Alike gone w w') (hd : device ≠ gone) (change : Lifetime → Lifetime) :
    Alike gone { w with lifetimes := w.lifetimes.modify device change }
      { w' with lifetimes := w'.lifetimes.modify device change } where
  scheduler := h.scheduler
  devices := h.devices
  lifetimes := by
    show w'.lifetimes.modify device change = (w.lifetimes.modify device change).modify gone _
    rw [h.lifetimes]
    exact List.modify_modify_ne _ _ _ (Ne.symm hd)
  ended := by
    obtain ⟨l, hl, hgone⟩ := World.hasEnded_iff.mp h.ended
    exact World.hasEnded_iff.mpr
      ⟨l, (World.lifetime_modify_ne (Ne.symm hd) change w).trans hl, hgone⟩

theorem bury (h : Alike gone w w') (hd : device ≠ gone) :
    Alike gone (w.bury device) (w'.bury device) := by
  rw [World.bury, World.bury, h.lifetime hd, h.scheduler]
  cases w.lifetimes[device]? with
  | none => exact h
  | some l =>
    cases hl : (!l.isAlive && l.ownsSyncPoints) with
    | true => simpa only [hl, if_true] using h.onScheduler _
    | false => simpa only [hl, Bool.false_eq_true, if_false] using h

end Alike

/-- Outcomes that differ in a device that has ended or is kept. -/
inductive AlikeResult (gone : DeviceId) :
    EStateM.Result Halt (World σ) α → EStateM.Result Halt (World σ) α → Prop where
  | ok (a : α) {v v' : World σ} (h : Alike gone v v') : AlikeResult gone (.ok a v) (.ok a v')
  | error (halt : Halt) {v v' : World σ} (h : Alike gone v v') :
      AlikeResult gone (.error halt v) (.error halt v')

/-- Runs that come out alike in worlds that are alike. -/
def Matches (gone : DeviceId) (act act' : Run (World σ) α) : Prop :=
  ∀ w w', Alike gone w w' → AlikeResult gone (act w) (act' w')

namespace Matches

variable {act act' : Run (World σ) α}

theorem outcome (h : Matches gone act act') (hw : Alike gone w w') :
    (∃ a v v', act w = .ok a v ∧ act' w' = .ok a v' ∧ Alike gone v v') ∨
      ∃ halt v v', act w = .error halt v ∧ act' w' = .error halt v' ∧ Alike gone v v' := by
  have hresult := h w w' hw
  generalize hact : act w = x, hact' : act' w' = x' at hresult
  cases hresult with
  | ok a hv => exact Or.inl ⟨a, _, _, rfl, rfl, hv⟩
  | error halt hv => exact Or.inr ⟨halt, _, _, rfl, rfl, hv⟩

theorem bind {next next' : α → Run (World σ) β} (h : Matches gone act act')
    (hnext : ∀ a, Matches gone (next a) (next' a)) :
    Matches gone (act >>= next) (act' >>= next') := by
  intro w w' hw
  rcases h.outcome hw with ⟨a, v, v', hact, hact', hv⟩ | ⟨halt, v, v', hact, hact', hv⟩
  · rw [Run.bind_of_ok hact, Run.bind_of_ok hact']
    exact hnext a v v' hv
  · rw [Run.bind_of_error hact, Run.bind_of_error hact']
    exact .error halt hv

theorem attempt (h : Matches gone act act') :
    Matches gone (Run.attempt act) (Run.attempt act') := by
  intro w w' hw
  rw [Run.attempt, Run.attempt]
  rcases h.outcome hw with ⟨a, v, v', hact, hact', hv⟩ | ⟨_ | _, v, v', hact, hact', hv⟩
  all_goals rw [hact, hact']
  · exact .ok _ hv
  · exact .ok _ hv
  · exact .error _ hv

theorem onScheduler (act : Run Scheduler α) :
    Matches gone (World.onScheduler act : Run (World σ) α) (World.onScheduler act) := by
  intro w w' hw
  cases hact : act w.scheduler with
  | ok a s =>
    have hact' : act w'.scheduler = .ok a s := by rw [hw.scheduler, hact]
    rw [World.onScheduler_of_ok hact, World.onScheduler_of_ok hact']
    exact .ok a (hw.onScheduler s)
  | error halt s =>
    have hact' : act w'.scheduler = .error halt s := by rw [hw.scheduler, hact]
    rw [World.onScheduler_of_error hact, World.onScheduler_of_error hact']
    exact .error halt (hw.onScheduler s)

theorem onDevices (act : Run σ α) : Matches gone (World.onDevices act) (World.onDevices act) := by
  intro w w' hw
  cases hact : act w.devices with
  | ok a devices =>
    have hact' : act w'.devices = .ok a devices := by rw [hw.devices, hact]
    rw [World.onDevices_of_ok hact, World.onDevices_of_ok hact']
    exact .ok a (hw.of_lifetimes_eq hw.scheduler rfl rfl rfl)
  | error halt devices =>
    have hact' : act w'.devices = .error halt devices := by rw [hw.devices, hact]
    rw [World.onDevices_of_error hact, World.onDevices_of_error hact']
    exact .error halt (hw.of_lifetimes_eq hw.scheduler rfl rfl rfl)

theorem enroll (ownsSyncPoints : Bool) :
    Matches gone (World.enroll (σ := σ) ownsSyncPoints) (World.enroll ownsSyncPoints) := by
  intro w w' hw
  obtain ⟨l, hl, hgone⟩ := World.hasEnded_iff.mp hw.ended
  obtain ⟨hlt, -⟩ := List.getElem?_eq_some_iff.mp hl
  have hlength : w'.lifetimes.length = w.lifetimes.length := by
    rw [hw.lifetimes]
    exact List.length_modify _ _ _
  show AlikeResult gone (.ok w.lifetimes.length _) (.ok w'.lifetimes.length _)
  rw [hlength]
  refine .ok _ ⟨hw.scheduler, hw.devices, ?_, ?_⟩
  · show w'.lifetimes ++ [_] = (w.lifetimes ++ [_]).modify gone _
    rw [hw.lifetimes, World.modify_append _ _ _ _ hlt]
    rfl
  · refine World.hasEnded_iff.mpr ⟨l, ?_, hgone⟩
    show (w.lifetimes ++ [_])[gone]? = some l
    rw [List.getElem?_append_left hlt, hl]

theorem drop (hd : device ≠ gone) :
    Matches gone (World.drop (σ := σ) device) (World.drop device) := by
  intro w w' hw
  cases ho : w.isOwned device with
  | true =>
    rw [World.drop_of_owned ho, World.drop_of_owned ((hw.isOwned hd).trans ho)]
    exact .ok true ((hw.modify hd _).bury hd)
  | false =>
    rw [World.drop_of_not_owned ho, World.drop_of_not_owned ((hw.isOwned hd).trans ho)]
    exact .ok false hw

theorem during (h : Matches gone act act') (hd : device ≠ gone) :
    Matches gone (World.during device act) (World.during device act') := by
  intro w w' hw
  rcases h.outcome (hw.modify hd _ : Alike gone (w.retain device) (w'.retain device)) with
    ⟨a, v, v', hact, hact', hv⟩ | ⟨halt, v, v', hact, hact', hv⟩
  · rw [World.during_of_ok hact, World.during_of_ok hact']
    exact .ok a ((hv.modify hd _).bury hd)
  · rw [World.during_of_error hact, World.during_of_error hact']
    exact .error halt ((hv.modify hd _).bury hd)

variable {wake wake' : Wake σ} {steps : Nat} {thread : ThreadId} {limit : Instant}

section

variable (h : ∀ device time tag, device ≠ gone → Matches gone (wake device time tag)
    (wake' device time tag))
  (hidle : ∀ time tag, wake' gone time tag = pure ())

include h hidle

private theorem deliver (p : SyncPoint) (time : Instant) :
    Matches gone (World.deliver wake p time) (World.deliver wake' p time) := by
  intro w w' hw
  by_cases hd : p.device = gone
  · have hgone : w.isAlive p.device = false := by
      rw [hd]
      exact World.isAlive_of_hasEnded hw.ended
    have hkept : w'.isAlive p.device = true := by
      rw [hd]
      exact hw.kept
    rw [World.deliver_of_gone hgone, World.deliver_idle (by rw [hd]; exact hidle _ _) hkept]
    exact .ok () (hw.of_lifetimes_eq hw.scheduler hw.devices rfl rfl)
  · cases ha : w.isAlive p.device with
    | true =>
      rw [World.deliver_of_alive ha, World.deliver_of_alive ((hw.isAlive hd).trans ha)]
      exact (h _ _ _ hd).during hd w w' hw
    | false =>
      rw [World.deliver_of_gone ha, World.deliver_of_gone ((hw.isAlive hd).trans ha)]
      exact .ok () (hw.of_lifetimes_eq hw.scheduler hw.devices rfl rfl)

private theorem dispatch (limit : Instant) (steps : Nat) :
    Matches gone (World.dispatch wake limit steps) (World.dispatch wake' limit steps) := by
  induction steps with
  | zero => exact fun w w' hw => .error .starved hw
  | succ steps ih =>
    intro w w' hw
    rcases World.dispatch_succ wake limit steps w with
      ⟨hn, he⟩ | ⟨p, time, s, v, hd, hp, he⟩ | ⟨p, time, s, halt, v, hd, hp, he⟩
    · rw [he, World.dispatch_of_none (by rw [hw.scheduler, hn])]
      exact .ok () hw
    all_goals
      have hd' : w'.scheduler.takeDue limit = (some (p, time), s) := by rw [hw.scheduler, hd]
      rcases (Matches.deliver h hidle p time).outcome (hw.onScheduler s) with
        ⟨_, u, u', hu, hu', halike⟩ | ⟨_, u, u', hu, hu', halike⟩
      all_goals cases hp.symm.trans hu
    · rw [he, World.dispatch_of_ok hd' hu']
      exact ih _ _ halike
    · rw [he, World.dispatch_of_error hd' hu']
      exact .error halt halike

end

theorem schedule (h : ∀ device time tag, device ≠ gone → Matches gone (wake device time tag)
    (wake' device time tag)) (hidle : ∀ time tag, wake' gone time tag = pure ()) (steps : Nat)
    (thread : ThreadId) (limit : Instant) :
    Matches gone (World.schedule wake steps thread limit)
      (World.schedule wake' steps thread limit) := by
  intro w w' hw
  cases hi : w.scheduler.isIdleUntil limit with
  | true =>
    have hi' : w'.scheduler.isIdleUntil limit = true := by rw [hw.scheduler, hi]
    rw [World.schedule_of_idle hi, World.schedule_of_idle hi']
    exact onScheduler (Scheduler.idle thread limit) w w' hw
  | false =>
    have hi' : w'.scheduler.isIdleUntil limit = false := by rw [hw.scheduler, hi]
    rw [World.schedule_of_due hi, World.schedule_of_due hi']
    rcases (onScheduler (Scheduler.enter thread limit)).outcome hw with
      ⟨_, v, v', he, he', hv⟩ | ⟨halt, v, v', he, he', hv⟩
    · rcases (dispatch h hidle limit steps).outcome hv with
        ⟨_, u, u', hd, hd', hu⟩ | ⟨halt, u, u', hd, hd', hu⟩
      · rw [World.scheduleDue_of_ok he hd, World.scheduleDue_of_ok he' hd', hu.scheduler]
        exact .ok () (hu.onScheduler _)
      · rw [World.scheduleDue_of_halted he hd, World.scheduleDue_of_halted he' hd', hu.scheduler]
        exact .error halt (hu.onScheduler _)
    · rw [World.scheduleDue_of_refused he, World.scheduleDue_of_refused he']
      exact .error halt hv

end Matches

namespace Program

/-- A program that neither gives a device up nor keeps it nor asks whether it is there. It may have
sync points of it registered and taken back. -/
def Ignores (gone : DeviceId) {α : Type} : Program σ α → Prop
  | .done _ | .halt _ | .work _ | .ask _ _ _ | .enroll _ => True
  | .register _ _ _ | .cancel _ _ | .cancelAll _ | .setCurrentTime _ _ => True
  | .andThen p next => p.Ignores gone ∧ ∀ a, (next a).Ignores gone
  | .attempt p => p.Ignores gone
  | .look f => ∀ w w', Alike gone w w' → f w' = f w
  | .drop device => device ≠ gone
  | .visit device p => device ≠ gone ∧ p.Ignores gone
  | .schedule wake _ _ _ => ∀ device time tag, device ≠ gone → (wake device time tag).Ignores gone

/-- The same program where a device does nothing when it is woken. -/
def idling (gone : DeviceId) {α : Type} : Program σ α → Program σ α
  | .andThen p next => .andThen (p.idling gone) fun a => (next a).idling gone
  | .attempt p => .attempt (p.idling gone)
  | .visit device p => .visit device (p.idling gone)
  | .schedule wake steps thread limit =>
    .schedule
      (fun device time tag =>
        if device = gone then .done () else (wake device time tag).idling gone)
      steps thread limit
  | .done a => .done a
  | .halt cause => .halt cause
  | .look f => .look f
  | .work act => .work act
  | .ask device demand act => .ask device demand act
  | .enroll ownsSyncPoints => .enroll ownsSyncPoints
  | .drop device => .drop device
  | .register time device tag => .register time device tag
  | .cancel device tag => .cancel device tag
  | .cancelAll device => .cancelAll device
  | .setCurrentTime thread time => .setCurrentTime thread time

/-- What a program makes of a world does not depend on whether a device has ended or does nothing. -/
theorem matches_idling {p : Program σ α} (h : p.Ignores gone) :
    Matches gone p.run (p.idling gone).run := by
  induction p with
  | done a => exact fun w w' hw => .ok a hw
  | halt cause => exact fun w w' hw => .error cause hw
  | andThen p next ihp ihnext => exact (ihp h.1).bind fun a => ihnext a (h.2 a)
  | attempt p ih => exact (ih h).attempt
  | look f =>
    intro w w' hw
    show AlikeResult gone (.ok (f w) w) (.ok (f w') w')
    rw [h w w' hw]
    exact .ok _ hw
  | work act | ask _ _ act => exact .onDevices act
  | enroll ownsSyncPoints => exact .enroll ownsSyncPoints
  | drop device => exact .drop h
  | visit device p ih =>
    intro w w' hw
    have halive := hw.isAlive h.1
    cases ha : w.isAlive device with
    | true =>
      rw [ha] at halive
      simp only [run, idling, ha, halive, if_true]
      exact (ih h.2).during h.1 w w' hw
    | false =>
      rw [ha] at halive
      simp only [run, idling, ha, halive, Bool.false_eq_true, if_false]
      exact .ok () hw
  | register time device tag => exact .onScheduler _
  | cancel device tag => exact Matches.onScheduler (modifyGet fun s => s.cancel device tag)
  | cancelAll device => exact Matches.onScheduler (modifyGet fun s => s.cancelAll device)
  | setCurrentTime thread time => exact .onScheduler _
  | schedule wake steps thread limit ih =>
    refine .schedule ?_ ?_ steps thread limit
    · intro device time tag hd
      simp only [hd, if_false]
      exact ih device time tag (h device time tag hd)
    · intro time tag
      simp only [if_true]
      rfl

end Program
theorem Step.skipped_time {e : Event} {r : SyncPoint} {time : Instant}
    (h : Step w e v) (he : e = .skipped r time) : time = v.scheduler.currentTime := by
  cases h with
  | skip h _ =>
    cases he
    obtain ⟨rest, -, -, rfl, rfl⟩ := Scheduler.takeDue_eq_some.mp h
    rfl
  | _ => cases he

/-- Whether a device takes its sync points with it when it ends. -/
def World.ownsSyncPoints (w : World σ) (device : DeviceId) : Bool :=
  match w.lifetimes[device]? with
  | some l => l.ownsSyncPoints
  | none => false

/-- What follows on the moment `m` at which a device ends that had been there in the world `w`. -/
structure TornDown (w : World σ) (device : DeviceId) (m : Moment σ) (future : List (Moment σ)) :
    Prop where
  /-- With its sync points it takes these along at once, and nothing else. -/
  owner : m.world.ownsSyncPoints device = true → ∃ u rest,
    future = ⟨.buried (w.scheduler.queue.filter fun q => q.device == device), u⟩ :: rest ∧
      u.scheduler.queue = w.scheduler.queue.filter (fun q => q.device != device) ∧
      u.scheduler.NextIsFirst ∧ w.scheduler.SameTime u.scheduler ∧ u.devices = m.world.devices ∧
      u.lifetimes = m.world.lifetimes
  other : m.world.ownsSyncPoints device = false →
    m.world.scheduler = w.scheduler ∧ ∃ rest, future = ⟨.buried [], m.world⟩ :: rest
  uncalled : ∀ c ∈ calls future, c.device ≠ device

/-- How a program goes on that begins in a world where a device has ended. -/
structure PassesOver (w : World σ) (gone : DeviceId) (q : Program σ α) : Prop where
  uncalled : ∀ c ∈ calls (q.history w), c.device ≠ gone
  skipped : ∀ m ∈ q.history w, ∀ r ∈ m.event.taken, r.device = gone →
    m.event = .skipped r m.world.scheduler.currentTime
  /-- As if it were there and did nothing. -/
  alike : q.Ignores gone → AlikeResult gone (q.run w) ((q.idling gone).run (w.keeping gone))

namespace Mortal

variable {ms : List (Moment σ)}

theorem uncalled (h : Mortal w ms) (path : Path w ms v) (hd : w.hasEnded gone = true) :
    ∀ c ∈ calls ms, c.device ≠ gone := by
  intro c hc hgone
  obtain ⟨m, hm, hc⟩ := List.mem_flatMap.mp hc
  obtain ⟨u, step⟩ := path.step_mem hm
  have hended := World.isAlive_of_hasEnded (h.hasEnded hd m hm)
  cases he : m.event with
  | woken r time =>
    rw [he] at hc
    rw [List.mem_singleton.mp hc] at hgone
    have hgone : r.device = gone := hgone
    have halive := step.alive.1 r time he
    rw [hgone, hended] at halive
    cases halive
  | _ =>
    rw [he] at hc
    cases hc

theorem skipped (h : Mortal w ms) (path : Path w ms v) (hd : w.hasEnded gone = true) :
    ∀ m ∈ ms, ∀ r ∈ m.event.taken, r.device = gone →
      m.event = .skipped r m.world.scheduler.currentTime := by
  intro m hm r hr hgone
  obtain ⟨u, step⟩ := path.step_mem hm
  have hended := World.isAlive_of_hasEnded (h.hasEnded hd m hm)
  cases he : m.event with
  | woken q time =>
    rw [he] at hr
    rw [List.mem_singleton.mp hr] at hgone
    have halive := step.alive.1 q time he
    rw [hgone, hended] at halive
    cases halive
  | skipped q time =>
    rw [he] at hr
    rw [List.mem_singleton.mp hr, step.skipped_time he]
  | _ =>
    rw [he] at hr
    cases hr

end Mortal

namespace World

theorem bury_of_owner (hended : w.hasEnded device = true)
    (howner : w.ownsSyncPoints device = true) :
    w.burial device = w.scheduler.queue.filter (fun q => q.device == device) ∧
      w.bury device = { w with scheduler := (w.scheduler.cancelAll device).2 } := by
  obtain ⟨l, hl, hgone⟩ := hasEnded_iff.mp hended
  simp only [ownsSyncPoints, hl] at howner
  simp [burial, bury, hl, hgone, howner]

theorem bury_of_not_owner (howner : w.ownsSyncPoints device = false) :
    w.burial device = [] ∧ w.bury device = w := by
  rw [ownsSyncPoints] at howner
  rw [burial, bury]
  cases hl : w.lifetimes[device]? with
  | none => exact ⟨rfl, rfl⟩
  | some l =>
    simp only [hl] at howner
    simp [howner]

end World

theorem Passing.tornDown {m : Moment σ} {ms : List (Moment σ)} (h : Passing w m ms)
    (hmortal : Mortal m.world ms) (path : Path m.world ms v)
    (hsound : m.world.scheduler.Sound) (halive : w.isAlive device = true)
    (hgone : m.world.isAlive device = false) : TornDown w device m ms := by
  obtain ⟨hended, hs, rest, rfl⟩ := h.buried device halive hgone
  refine ⟨?_, ?_, hmortal.uncalled path hended⟩
  · intro howner
    obtain ⟨hburial, hbury⟩ := World.bury_of_owner hended howner
    have hkept := hsound.cancelAll device
    have htime := Scheduler.sameTime_cancelAll device m.world.scheduler
    refine ⟨_, rest, by rw [hburial, hs], ?_, ?_, ?_, ?_, ?_⟩
    all_goals rw [hbury]
    · rw [Scheduler.queue_cancelAll, hs]
    · exact hkept.nextIsFirst
    · rw [← hs]
      exact htime
  · intro howner
    obtain ⟨hburial, hbury⟩ := World.bury_of_not_owner howner
    exact ⟨hs, rest, by rw [hburial, hbury]⟩

/-- Wherever in a run a device ends, it takes just what it has pending with it if it has sync points
of its own, and it is never called again. What it leaves behind, or what others still ask for in its
name, is passed over as if it went to a device that does nothing. -/
theorem devices_end_for_good {t : Instant} {w₀ : World σ} (h₀ : w₀.scheduler = Scheduler.start t)
    (p : Program σ α) :
    (∀ past m future, p.history w₀ = past ++ m :: future → ∀ device,
      (w₀.upTo past).isAlive device = true → m.world.isAlive device = false →
        TornDown (w₀.upTo past) device m future) ∧
    ∀ w ∈ p.worlds w₀, ∀ gone, w.hasEnded gone = true →
      (∀ q : Program σ β, PassesOver w gone q) ∧
      ∀ (react : Reaction σ) (steps : Nat) (thread : ThreadId) (limit : Instant) (v : World σ),
        World.schedule react.wake steps thread limit w = .ok () v →
          ∀ r ∈ v.scheduler.queue, limit < r.time := by
  refine ⟨?_, ?_⟩
  · intro past m future h device halive hgone
    have hmortal := p.mortal w₀
    rw [h] at hmortal
    obtain ⟨hpassing, hrest⟩ := hmortal.upTo
    have hm : m.world ∈ p.worlds w₀ := by
      refine List.mem_cons_of_mem _ (List.mem_map_of_mem ?_)
      simp [h]
    have path := (p.path_upTo h).2
    cases path with
    | cons _ rest => exact hpassing.tornDown hrest rest (Program.worlds_sound h₀ hm) halive hgone
  · intro w hw gone hended
    refine ⟨?_, ?_⟩
    · intro q
      have hmortal := q.mortal w
      exact ⟨hmortal.uncalled (q.path w) hended, hmortal.skipped (q.path w) hended,
        fun h => Program.matches_idling h w _ (.keeping hended)⟩
    · intro react steps thread limit v hv
      exact (World.lt_of_schedule_ok (Program.worlds_sound h₀ hw) hv).2

/-- The first device is given up in its own wake-up, and asks for another one after that. -/
def givenUp : Reaction Unit := fun device _ _ =>
  if device = 0 then .andThen (.drop 0) fun _ => .register (.wrap 6) 0 1 else .done ()

def givenUpRun : Program Unit Unit :=
  .andThen (.enroll true) fun _ => .andThen (.enroll false) fun _ =>
    .andThen (.register (.wrap 5) 0 0) fun _ => .andThen (.register (.wrap 7) 1 0) fun _ =>
      .andThen (.register (.wrap 8) 0 2) fun _ => .schedule givenUp 4 0 (.wrap 5)

/-- A wake-up is asked for in the name of the device that is gone. -/
def inItsName : Program Unit Unit :=
  .andThen (.register (.wrap 9) 0 3) fun _ => .schedule (fun _ _ _ => .done ()) 4 0 (.wrap 9)

theorem devices_end_for_good_given_up :
    ∃ past m future, givenUpRun.history (.ofScheduler .new ()) = past ++ m :: future ∧
      ((World.ofScheduler .new ()).upTo past).isAlive 0 = true ∧ m.world.isAlive 0 = false ∧
      future.head?.map Moment.event = some (.buried [⟨.wrap 6, 0, 1, 3⟩, ⟨.wrap 8, 0, 2, 2⟩]) ∧
      TornDown ((World.ofScheduler .new ()).upTo past) 0 m future ∧
      inItsName.Ignores 0 ∧ PassesOver (givenUpRun.after (.ofScheduler .new ())) 0 inItsName := by
  have h₀ : (World.ofScheduler .new () : World Unit).scheduler = .start .zero := rfl
  have hmain := devices_end_for_good (β := Unit) h₀ givenUpRun
  have hlong : 11 < (givenUpRun.history (.ofScheduler .new ())).length := by decide
  have hgone : (givenUpRun.history (.ofScheduler .new ()))[11].world.isAlive 0 = false := by
    decide +revert
  have hsplit : givenUpRun.history (.ofScheduler .new ()) =
      (givenUpRun.history (.ofScheduler .new ())).take 11 ++
        (givenUpRun.history (.ofScheduler .new ()))[11] ::
          (givenUpRun.history (.ofScheduler .new ())).drop 12 := by
    rw [List.getElem_cons_drop, List.take_append_drop]
  have hafter := givenUpRun.after_mem_worlds (.ofScheduler .new ())
  exact ⟨_, _, _, hsplit, by decide, hgone, by decide, hmain.1 _ _ _ hsplit 0 (by decide) hgone,
    ⟨trivial, fun _ _ _ _ _ => trivial⟩, (hmain.2 _ hafter 0 (by decide)).1 inItsName⟩

end Timebase
