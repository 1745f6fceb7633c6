import Timebase.Proofs.Residents

/-!
# What nobody looks at

A part of the states of the devices may be changed without anybody noticing: if nothing that is done
depends on it, then every run takes the same course with the change as without it.
-/

namespace Timebase

namespace Run

variable {σ τ α β : Type}

/-- The same outcome in a state that has been changed. -/
def changed (m : σ → σ) : EStateM.Result Halt σ α → EStateM.Result Halt σ α
  | .ok a s => .ok a (m s)
  | .error halt s => .error halt (m s)

/-- It makes no difference to a run whether a change is made before it or after it. -/
def Commutes (m : σ → σ) (act : Run σ α) : Prop := ∀ s, act (m s) = changed m (act s)

namespace Commutes

variable {m : σ → σ} {act : Run σ α} {next : α → Run σ β} {s s' : σ} {a : α} {halt : Halt}

theorem of_ok (h : Commutes m act) (hs : act s = .ok a s') : act (m s) = .ok a (m s') := by
  rw [h s, hs]
  rfl

theorem of_error (h : Commutes m act) (hs : act s = .error halt s') :
    act (m s) = .error halt (m s') := by
  rw [h s, hs]
  rfl

theorem after (h : Commutes m act) (s : σ) : act.after (m s) = m (act.after s) := by
  cases hs : act s with
  | ok a s' => rw [after_of_ok hs, after_of_ok (h.of_ok hs)]
  | error halt s' => rw [after_of_error hs, after_of_error (h.of_error hs)]

theorem pure (a : α) : Commutes m (Pure.pure a : Run σ α) := fun _ => rfl

theorem lift (x : Attempt α) : Commutes m (Run.lift x) := by
  intro s
  cases x <;> rfl

theorem bind (h : Commutes m act) (hnext : ∀ a, Commutes m (next a)) :
    Commutes m (act >>= next) := by
  intro s
  cases hs : act s with
  | ok a s' => rw [bind_of_ok hs, bind_of_ok (h.of_ok hs), hnext a s']
  | error halt s' =>
    rw [bind_of_error hs, bind_of_error (h.of_error hs)]
    rfl

theorem get_bind {f : σ → Run σ β} (h : ∀ s, Commutes m (f s)) (hf : ∀ s, f (m s) = f s) :
    Commutes m (get >>= f) := by
  intro s
  have hget (f : σ → Run σ β) (s : σ) : (get >>= f) s = f s s := rfl
  rw [hget, hget, hf, h s s]

theorem modifyGet {f : σ → α × σ} (h : ∀ s, f (m s) = ((f s).1, m (f s).2)) :
    Commutes m (MonadStateOf.modifyGet f : Run σ α) := by
  intro s
  show EStateM.Result.ok (f (m s)).1 (f (m s)).2 = .ok (f s).1 (m (f s).2)
  rw [h]

theorem read {f : σ → Attempt α} (h : ∀ s, f (m s) = f s) : Commutes m (Run.read f) := by
  intro s
  rw [Run.read, Run.read, h]
  exact lift (f s) s

theorem update {f : σ → Attempt σ} (h : ∀ s, f (m s) = m <$> f s) : Commutes m (Run.update f) := by
  intro s
  rw [Run.update, Run.update, h]
  cases f s <;> rfl

theorem attempt (h : Commutes m act) : Commutes m (Run.attempt act) := by
  intro s
  rw [Run.attempt, Run.attempt, h s]
  rcases act s with ⟨a, s'⟩ | ⟨_ | _, s'⟩ <;> rfl

theorem ensuring {cleanup : σ → σ} (h : Commutes m act)
    (hc : ∀ s, cleanup (m s) = m (cleanup s)) : Commutes m (Run.ensuring act cleanup) := by
  intro s
  cases hs : act s with
  | ok a s' => rw [ensuring_of_ok hs, ensuring_of_ok (h.of_ok hs), hc]; rfl
  | error halt s' => rw [ensuring_of_error hs, ensuring_of_error (h.of_error hs), hc]; rfl

end Commutes
end Run

open Run (Commutes)

variable {σ α β : Type} {f : σ → σ} {w v : World σ}

namespace World

/-- A world in which the states of the devices are changed. -/
def through (f : σ → σ) (w : World σ) : World σ := { w with devices := f w.devices }

theorem bury_through (device : DeviceId) (w : World σ) :
    (w.through f).bury device = (w.bury device).through f := by
  have hsame : (w.through f).lifetimes = w.lifetimes := rfl
  rw [bury, bury, hsame]
  cases w.lifetimes[device]? with
  | none => rfl
  | some l => cases h : (!l.isAlive && l.ownsSyncPoints) <;> simp only [h] <;> rfl

theorem release_through (device : DeviceId) (w : World σ) :
    (w.through f).release device = (w.release device).through f := by
  rw [release, release, ← bury_through]
  rfl

theorem onScheduler_commutes (act : Run Scheduler α) :
    Commutes (World.through f) (onScheduler act) := by
  intro w
  cases h : act w.scheduler with
  | ok a s => rw [onScheduler_of_ok h, onScheduler_of_ok (w := w.through f) h]; rfl
  | error halt s => rw [onScheduler_of_error h, onScheduler_of_error (w := w.through f) h]; rfl

theorem onDevices_commutes {act : Run σ α} (h : Commutes f act) :
    Commutes (World.through f) (onDevices act) := by
  intro w
  cases hs : act w.devices with
  | ok a s =>
    rw [onDevices_of_ok hs, onDevices_of_ok (w := w.through f) (h.of_ok hs)]
    rfl
  | error halt s =>
    rw [onDevices_of_error hs, onDevices_of_error (w := w.through f) (h.of_error hs)]
    rfl

theorem drop_commutes (device : DeviceId) : Commutes (World.through f) (drop device) := by
  intro w
  cases ho : w.isOwned device with
  | true =>
    have hb : (w.through f).isOwned device = true := ho
    rw [drop_of_owned ho, drop_of_owned hb]
    exact congrArg _ (bury_through device
      { w with lifetimes := w.lifetimes.modify device fun l => { l with owned := false } })
  | false =>
    have hb : (w.through f).isOwned device = false := ho
    rw [drop_of_not_owned ho, drop_of_not_owned hb]
    rfl

theorem during_commutes {act : Run (World σ) α} (device : DeviceId)
    (h : Commutes (World.through f) act) : Commutes (World.through f) (during device act) :=
  .bind (.modifyGet fun _ => rfl) fun _ => h.ensuring (release_through device)

section

variable {wake : Wake σ} (hwake : ∀ device time tag, Commutes (World.through f)
  (wake device time tag))

include hwake

theorem deliver_commutes (p : SyncPoint) (time : Instant) :
    Commutes (World.through f) (deliver wake p time) := by
  refine .get_bind (fun w => ?_) fun _ => rfl
  split
  · exact during_commutes p.device (hwake p.device time p.tag)
  · exact .modifyGet fun _ => rfl

theorem dispatch_commutes (limit : Instant) (steps : Nat) :
    Commutes (World.through f) (dispatch wake limit steps) := by
  induction steps with
  | zero => exact fun _ => rfl
  | succ steps ih =>
    intro w
    rcases dispatch_succ wake limit steps w with
      ⟨hn, he⟩ | ⟨p, time, s, v, hd, hp, he⟩ | ⟨p, time, s, halt, v, hd, hp, he⟩
    · rw [he]
      exact dispatch_of_none (w := w.through f) hn
    · rw [he, ← ih v]
      exact dispatch_of_ok (w := w.through f) hd ((deliver_commutes hwake p time).of_ok hp)
    · rw [he]
      exact dispatch_of_error (w := w.through f) hd ((deliver_commutes hwake p time).of_error hp)

theorem schedule_commutes (steps : Nat) (thread : ThreadId) (limit : Instant) :
    Commutes (World.through f) (schedule wake steps thread limit) := by
  refine .get_bind (fun w => ?_) fun _ => rfl
  split
  · exact onScheduler_commutes _
  · refine .bind (onScheduler_commutes _) fun _ => ?_
    refine Commutes.ensuring ?_ fun _ => rfl
    exact .bind (dispatch_commutes hwake limit steps) fun _ => onScheduler_commutes _

end

end World

def Moment.through (f : σ → σ) (m : Moment σ) : Moment σ := ⟨m.event, m.world.through f⟩

/-- The same changes of a world whether another one was made before or not. -/
def HistoryCommutes (f : σ → σ) (history : World σ → List (Moment σ)) : Prop :=
  ∀ w, history (w.through f) = (history w).map (Moment.through f)

namespace World

theorem loseHold_through (device : DeviceId) (change : Lifetime → Lifetime) (w : World σ) :
    (w.through f).loseHold device change = (w.loseHold device change).map (Moment.through f) := by
  let v : World σ := { w with lifetimes := w.lifetimes.modify device change }
  have hbury : (v.through f).bury device = (v.bury device).through f := bury_through device v
  simp only [loseHold, List.map_cons, List.map_nil, Moment.through]
  rw [← show _ = (v.bury device).through f from hbury]
  rfl

theorem visitHistory_through {act : Run (World σ) α} {inner : World σ → List (Moment σ)}
    (device : DeviceId) (hact : Commutes (World.through f) act) (h : HistoryCommutes f inner) :
    HistoryCommutes f (visitHistory device act inner) := by
  intro w
  have hafter := hact.after (w.retain device)
  have hinner := h (w.retain device)
  simp only [visitHistory, List.map_cons, List.map_append, ← loseHold_through, ← hafter, ← hinner]
  rfl

section

variable {wake : Wake σ} {history : DeviceId → Instant → Tag → World σ → List (Moment σ)}
  (hwake : ∀ device time tag, Commutes (World.through f) (wake device time tag))
  (hhistory : ∀ device time tag, HistoryCommutes f (history device time tag))

include hwake hhistory

theorem deliverHistory_through (p : SyncPoint) (time : Instant) :
    HistoryCommutes f (deliverHistory wake history p time) := by
  intro w
  have hsame : (w.through f).isAlive p.device = w.isAlive p.device := rfl
  have hvisit := visitHistory_through p.device (hwake p.device time p.tag)
    (hhistory p.device time p.tag) w
  rw [deliverHistory, deliverHistory, hsame]
  cases w.isAlive p.device with
  | true => simp [hvisit, Moment.through]
  | false => rfl

theorem dispatchHistory_through (limit : Instant) (steps : Nat) :
    HistoryCommutes f (dispatchHistory wake history limit steps) := by
  induction steps with
  | zero => exact fun _ => rfl
  | succ steps ih =>
    intro w
    rcases dispatch_succ wake limit steps w with
      ⟨hn, -⟩ | ⟨p, time, s, v, hd, hp, -⟩ | ⟨p, time, s, halt, v, hd, hp, -⟩
    · rw [dispatchHistory_of_none hn, dispatchHistory_of_none (w := w.through f) hn]
      rfl
    all_goals have hfirst := deliverHistory_through hwake hhistory p time { w with scheduler := s }
    · have hp' := (deliver_commutes hwake p time).of_ok hp
      rw [dispatchHistory_of_ok hd hp, dispatchHistory_of_ok (w := w.through f) hd hp',
        List.map_append, ← hfirst, ← ih v]
      rfl
    · have hp' := (deliver_commutes hwake p time).of_error hp
      rw [dispatchHistory_of_error hd hp, dispatchHistory_of_error (w := w.through f) hd hp',
        ← hfirst]
      rfl

theorem scheduleHistory_through (steps : Nat) (thread : ThreadId) (limit : Instant) :
    HistoryCommutes f (scheduleHistory wake history steps thread limit) := by
  intro w
  have hsame : (w.through f).scheduler.isIdleUntil limit = w.scheduler.isIdleUntil limit := rfl
  rw [scheduleHistory, scheduleHistory, hsame]
  split
  · have hidle := onScheduler_commutes (f := f) (Scheduler.idle thread limit)
    simp [hidle.after, Moment.through]
  · have henter := onScheduler_commutes (f := f) (Scheduler.enter thread limit)
    rw [scheduleDueHistory, scheduleDueHistory, henter.after]
    cases he : onScheduler (Scheduler.enter thread limit) w with
    | error halt v =>
      rw [henter.of_error he]
      rfl
    | ok _ v =>
      have hdispatch := dispatch_commutes hwake limit steps
      have hhist := dispatchHistory_through hwake hhistory limit steps v
      rw [henter.of_ok he]
      cases hd : dispatch wake limit steps v with
      | error halt u =>
        simp only [hdispatch.of_error hd, hd, hhist, List.map_cons, List.map_append]
        rfl
      | ok _ u =>
        simp only [hdispatch.of_ok hd, hd, hhist, List.map_cons, List.map_append]
        rfl

end

end World

/-- A program nothing in which depends on a change of the states, but for what some devices do when
they are woken. -/
def Program.BlindBut (f : σ → σ) (except : DeviceId → Prop) {α : Type} : Program σ α → Prop
  | .look g => ∀ w, g (w.through f) = g w
  | .work act | .ask _ _ act => Commutes f act
  | .andThen p next => p.BlindBut f except ∧ ∀ a, (next a).BlindBut f except
  | .attempt p => p.BlindBut f except
  | .visit _ p => p.BlindBut f except
  | .schedule react _ _ _ =>
    ∀ device time tag, ¬ except device → (react device time tag).BlindBut f except
  | _ => True

/-- A program nothing in which depends on a change of the states. -/
def Program.Blind (f : σ → σ) {α : Type} (p : Program σ α) : Prop := p.BlindBut f fun _ => False

namespace Program.Blind

variable {p : Program σ α}

theorem commutes (h : p.Blind f) : Commutes (World.through f) p.run := by
  induction p with
  | done a => exact .pure a
  | halt | enroll => exact fun _ => rfl
  | andThen p next ihp ihnext => exact (ihp h.1).bind fun a => ihnext a (h.2 a)
  | attempt p ih => exact (ih h).attempt
  | look g =>
    intro w
    exact congrArg (fun a => EStateM.Result.ok a (w.through f)) (h w)
  | work | ask => exact World.onDevices_commutes h
  | drop device => exact World.drop_commutes device
  | visit device p ih =>
    intro w
    have hduring := World.during_commutes device (ih h) w
    show (if w.isAlive device then _ else _) = Run.changed _ (if w.isAlive device then _ else _)
    split
    · exact hduring
    · rfl
  | register | setCurrentTime => exact World.onScheduler_commutes _
  | cancel | cancelAll => exact fun _ => rfl
  | schedule react steps thread limit ih =>
    exact World.schedule_commutes (fun device time tag => ih device time tag (h device time tag id))
      steps thread limit

/-- What nobody looks at changes nothing in the course of a run. -/
theorem history (h : p.Blind f) : HistoryCommutes f p.history := by
  induction p with
  | done | halt | look => exact fun _ => rfl
  | andThen p next ihp ihnext =>
    intro w
    have hfirst : Commutes (World.through f) p.run := commutes (p := p) h.1
    rw [Program.history, Program.history, List.map_append, ihp h.1 w]
    cases hp : p.run w with
    | ok a v => rw [hfirst.of_ok hp, ← ihnext a (h.2 a) v]
    | error halt v => rw [hfirst.of_error hp]; rfl
  | attempt p ih => exact ih h
  | work act | ask _ _ act =>
    intro w
    simp [Program.history, (World.onDevices_commutes h).after, Moment.through]
  | enroll ownsSyncPoints => exact fun _ => rfl
  | drop device =>
    intro w
    have hsame : (w.through f).isOwned device = w.isOwned device := rfl
    rw [Program.history, Program.history, hsame]
    split
    · exact World.loseHold_through device _ w
    · rfl
  | visit device p ih =>
    intro w
    have hsame : (w.through f).isAlive device = w.isAlive device := rfl
    rw [Program.history, Program.history, hsame]
    split
    · exact World.visitHistory_through device (commutes (p := p) h) (ih h) w
    · rfl
  | register time device tag =>
    intro w
    have hsame : (w.through f).scheduler = w.scheduler := rfl
    rw [Program.history, Program.history, hsame]
    cases w.scheduler.register time device tag <;> rfl
  | cancel device tag =>
    intro w
    have hsame : (w.through f).scheduler = w.scheduler := rfl
    rw [Program.history, Program.history, hsame]
    cases w.scheduler.find? device tag <;> rfl
  | cancelAll device => exact fun _ => rfl
  | setCurrentTime thread time =>
    intro w
    simp [Program.history, (World.onScheduler_commutes _).after, Moment.through]
  | schedule react steps thread limit ih =>
    exact World.scheduleHistory_through
      (fun device time tag => commutes (p := react device time tag) (h device time tag id))
      (fun device time tag => ih device time tag (h device time tag id)) steps thread limit

theorem but (h : p.Blind f) (except : DeviceId → Prop) : p.BlindBut f except := by
  induction p with
  | done | halt | enroll | drop | register | cancel | cancelAll | setCurrentTime => trivial
  | look | work | ask => exact h
  | andThen p next ihp ihnext => exact ⟨ihp h.1, fun a => ihnext a (h.2 a)⟩
  | attempt p ih | visit device p ih => exact ih h
  | schedule react steps thread limit ih =>
    exact fun device time tag _ => ih device time tag (h device time tag id)

end Program.Blind

/-- Nobody notices a change that a device does not notice itself, nor the others. -/
theorem Program.Beside.blind {τ : Type} {r : Resident σ τ} {p : Program σ α} (hp : p.Beside r)
    (others : p.BlindBut f (· = r.device)) (wakes : ∀ time tag, (r.wake time tag).Blind f)
    (serves : ∀ {β : Type} {q : Program σ β}, r.Serves q → q.BlindBut f (· = r.device) → q.Blind f) :
    p.Blind f := by
  induction p with
  | done | halt | enroll | drop | register | cancel | cancelAll | setCurrentTime => trivial
  | look | work | ask => exact others
  | andThen p next ihp ihnext =>
    rcases hp with hs | ⟨first, second⟩
    · exact serves hs others
    · exact ⟨ihp first others.1, fun a => ihnext a (second a) (others.2 a)⟩
  | attempt p ih | visit device p ih => exact ih hp others
  | schedule react steps thread limit ih =>
    intro device time tag _
    by_cases hd : device = r.device
    · subst hd
      exact hp.1 time tag ▸ wakes time tag
    · exact ih device time tag (hp.2 device time tag hd) (others device time tag hd)

namespace Place

variable {τ : Type} {place : Place σ τ} {g : τ → τ} {act : Run τ α}

/-- Changes the state in a place, if there is one. -/
def map (place : Place σ τ) (g : τ → τ) (s : σ) : σ :=
  match place.get? s with
  | some x => place.put (g x) s
  | none => s

theorem map_of_some {s : σ} {x : τ} (h : place.get? s = some x) :
    place.map g s = place.put (g x) s := by
  simp [map, h]

theorem on_commutes (h : Commutes g act) : Commutes (place.map g) (place.on act) := by
  intro s
  cases hx : place.get? s with
  | none => simp [map, on, hx, Run.changed]
  | some x =>
    have hput (y z : τ) : place.put z (place.put y s) = place.put z s := place.put_put y z hx
    have hchanged := map_of_some (g := g) hx
    have hthere : place.get? (place.map g s) = some (g x) := by
      rw [hchanged]
      exact place.get_put (g x) hx
    cases hact : act x with
    | ok a y =>
      rw [on_of_ok hthere (h.of_ok hact), on_of_ok hx hact]
      simp only [Run.changed]
      rw [map_of_some (place.get_put y hx), hchanged, hput, hput]
    | error halt y =>
      rw [on_of_error hthere (h.of_error hact), on_of_error hx hact]
      simp only [Run.changed]
      rw [map_of_some (place.get_put y hx), hchanged, hput, hput]

end Place

/-- Changes a state under its guard. -/
def Guarded.map {τ : Type} (g : τ → τ) (x : Guarded τ) : Guarded τ := ⟨g x.value, x.poisoned⟩

theorem Guarded.access_commutes {τ : Type} {g : τ → τ} {act : Run τ α} (h : Commutes g act) :
    Commutes (Guarded.map g) (Guarded.access act) := by
  intro x
  cases hp : x.poisoned with
  | true => simp [access, map, hp, Run.violate, Run.lift, Attempt.violate, Run.changed]
  | false =>
    cases hact : act x.value with
    | ok a y => simp [access, map, hp, h.of_ok hact, hact, Run.changed]
    | error halt y => simp [access, map, hp, h.of_error hact, hact, Run.changed]

end Timebase
