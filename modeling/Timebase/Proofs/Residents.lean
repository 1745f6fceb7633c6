import Timebase.Proofs.Holds
import Timebase.Proofs.Wanted

/-!
# One device among others

Others may do with a world what they like: as long as they leave a device to itself and use nothing
but what it offers, its state and its wishes change only when it is woken or asked for something. So
what it keeps to when it is woken and when it is asked holds in every run.
-/

namespace Timebase

variable {σ τ α β : Type}

/-- Where the state of one device is kept among those of all, if it is there. -/
structure Place (σ τ : Type) where
  get? : σ → Option τ
  put : τ → σ → σ
  get_put : ∀ {s : σ} {x : τ} (y : τ), get? s = some x → get? (put y s) = some y
  put_put : ∀ {s : σ} {x : τ} (y z : τ), get? s = some x → put z (put y s) = put z s

namespace Place

variable {place : Place σ τ} {act : Run τ α} {s : σ} {x y : τ} {a : α} {halt : Halt}

/-- A run on the state in a place, if there is one. -/
def on (place : Place σ τ) (act : Run τ α) : Run σ (Option α) := fun s =>
  match place.get? s with
  | none => .ok none s
  | some x =>
    match act x with
    | .ok a y => .ok (some a) (place.put y s)
    | .error halt y => .error halt (place.put y s)

theorem on_of_ok (hx : place.get? s = some x) (h : act x = .ok a y) :
    place.on act s = .ok (some a) (place.put y s) := by
  simp [on, hx, h]

theorem on_of_error (hx : place.get? s = some x) (h : act x = .error halt y) :
    place.on act s = .error halt (place.put y s) := by
  simp [on, hx, h]

theorem after_on (hx : place.get? s = some x) :
    (place.on act).after s = place.put (act.after x) s := by
  cases h : act x with
  | ok a y => rw [Run.after_of_ok (on_of_ok hx h), Run.after_of_ok h]
  | error halt y => rw [Run.after_of_error (on_of_error hx h), Run.after_of_error h]

theorem get?_after_on (hact : ∀ x, act.after x = x) (s : σ) :
    place.get? ((place.on act).after s) = place.get? s := by
  cases hs : place.get? s with
  | none =>
    have hnone : place.on act s = .ok none s := by
      rw [on, hs]
    rw [Run.after_of_ok hnone, hs]
  | some x =>
    rw [after_on hs, hact]
    exact place.get_put x hs

/-- The place of a state that is all there is. -/
def whole (τ : Type) : Place τ τ := ⟨some, fun y _ => y, fun _ _ => rfl, fun _ _ _ => rfl⟩

end Place

/-- Deliveries up to a limit come, after some moments, to the wake-up of a device. -/
inductive World.ComesTo (react : Reaction σ) (limit : Instant) :
    Nat → World σ → List (Moment σ) → SyncPoint → Instant → World σ → Prop
  | now {steps : Nat} {w : World σ} {p : SyncPoint} {t : Instant} {s : Scheduler}
      (due : w.scheduler.takeDue limit = (some (p, t), s)) (alive : w.isAlive p.device = true) :
      ComesTo react limit (steps + 1) w [] p t { w with scheduler := s }
  | later {steps : Nat} {w v u : World σ} {p q : SyncPoint} {t t' : Instant} {s : Scheduler}
      {ms : List (Moment σ)} (due : w.scheduler.takeDue limit = (some (p, t), s))
      (delivered : World.deliver (Reaction.wake react) p t { w with scheduler := s } = .ok () v)
      (rest : ComesTo react limit steps v ms q t' u) :
      ComesTo react limit (steps + 1) w
        (World.deliverHistory (Reaction.wake react)
          (fun device time tag => (react device time tag).history) p t { w with scheduler := s } ++
            ms) q t' u

/-- A program comes, after some moments, to look at the world. -/
inductive Program.Looks : {α : Type} → Program σ α → World σ → List (Moment σ) → Prop
  | look {α : Type} (f : World σ → α) (w : World σ) : Looks (.look f) w []
  | first {α β : Type} {p : Program σ α} {next : α → Program σ β} {w : World σ}
      {ms : List (Moment σ)} (h : Looks p w ms) : Looks (.andThen p next) w ms
  | second {α β : Type} {p : Program σ α} {next : α → Program σ β} {w v : World σ} {a : α}
      {ms : List (Moment σ)} (hp : p.run w = .ok a v) (h : Looks (next a) v ms) :
      Looks (.andThen p next) w (p.history w ++ ms)
  | attempt {α : Type} {p : Program σ α} {w : World σ} {ms : List (Moment σ)}
      (h : Looks p w ms) : Looks (.attempt p) w ms
  | visit {device : DeviceId} {p : Program σ Unit} {w : World σ} {ms : List (Moment σ)}
      (alive : w.isAlive device = true) (h : Looks p (w.retain device) ms) :
      Looks (.visit device p) w (⟨.silent, w.retain device⟩ :: ms)
  | schedule {react : Reaction σ} {steps : Nat} {thread : ThreadId} {limit t : Instant}
      {w v u : World σ} {p : SyncPoint} {ms ns : List (Moment σ)}
      (due : w.scheduler.isIdleUntil limit = false)
      (enter : World.onScheduler (Scheduler.enter thread limit) w = .ok () v)
      (come : v.ComesTo react limit steps ms p t u)
      (h : Looks (react p.device t p.tag) (u.retain p.device) ns) :
      Looks (.schedule react steps thread limit) w
        (⟨.silent, v⟩ :: ms ++ ⟨.woken p t, u⟩ :: ⟨.silent, u.retain p.device⟩ :: ns)

/-- A program that never looks at the world. -/
def Program.NeverLooks {α : Type} : Program σ α → Prop
  | .look _ => False
  | .andThen p next => p.NeverLooks ∧ ∀ a, (next a).NeverLooks
  | .attempt p => p.NeverLooks
  | .visit _ p => p.NeverLooks
  | .schedule react _ _ _ => ∀ device time tag, (react device time tag).NeverLooks
  | _ => True

theorem Program.NeverLooks.not_looks {p : Program σ α} {w : World σ} {ms : List (Moment σ)}
    (hp : p.NeverLooks) : ¬ p.Looks w ms := by
  intro h
  induction h with
  | look f w => exact hp
  | first h ih => exact ih hp.1
  | second hrun h ih => exact ih (hp.2 _)
  | attempt h ih => exact ih hp
  | visit alive h ih => exact ih hp
  | schedule due enter come h ih => exact ih (hp _ _ _)

/-- A device: where its state is, what it does when it is woken, and what others may ask of it. It is
done with either before anyone looks at the world. -/
structure Resident (σ τ : Type) where
  place : Place σ τ
  device : DeviceId
  wake : Instant → Tag → Program σ Unit
  Serves : {α : Type} → Program σ α → Prop
  wake_neverLooks : ∀ time tag, (wake time tag).NeverLooks
  serves_neverLooks : ∀ {α : Type} {p : Program σ α}, Serves p → p.NeverLooks

/-- A program that leaves a device to itself, but for what the device serves. Time is moved by having
wake-ups delivered, unless setting it is among the services. -/
def Program.Beside (r : Resident σ τ) {α : Type} : Program σ α → Prop
  | .done _ | .halt _ | .look _ | .enroll _ => True
  | .andThen p next => r.Serves (.andThen p next) ∨ p.Beside r ∧ ∀ a, (next a).Beside r
  | .attempt p => p.Beside r
  | .work act => r.Serves (.work act) ∨ ∀ s, r.place.get? (act.after s) = r.place.get? s
  | .ask device demand act => r.Serves (.ask device demand act) ∨
    device ≠ r.device ∧ ∀ s, r.place.get? (act.after s) = r.place.get? s
  | .visit _ p => p.Beside r
  | .drop device | .register _ device _ | .cancel device _ | .cancelAll device =>
    device ≠ r.device
  | .setCurrentTime thread time => r.Serves (.setCurrentTime thread time)
  | .schedule react _ _ _ =>
    (∀ time tag, react r.device time tag = r.wake time tag) ∧
      ∀ device time tag, device ≠ r.device → (react device time tag).Beside r

variable {r : Resident σ τ} {w v : World σ} {e : Event} {ms : List (Moment σ)}

namespace Resident

/-- A device that its owner keeps, in a world whose scheduler is in order. -/
structure Lives (r : Resident σ τ) (w : World σ) : Prop where
  sound : w.scheduler.Sound
  timed : w.scheduler.currentTime ≠ .asap
  owned : w.isOwned r.device = true

/-- A change that passes a device by: time moves at most to what the device wants. -/
structure Passing (r : Resident σ τ) (w : World σ) (e : Event) (v : World σ) : Prop where
  other : ∀ p t, e = .woken p t → p.device ≠ r.device
  quiet : e.demand r.device = none
  state : r.place.get? v.devices = r.place.get? w.devices
  wanted : v.scheduler.wanted r.device = w.scheduler.wanted r.device
  time : v.scheduler.currentTime = w.scheduler.currentTime ∨
    w.scheduler.currentTime ≤ v.scheduler.currentTime ∧
      ∀ q ∈ w.scheduler.wanted r.device, q.time ≠ .asap ∧ v.scheduler.currentTime ≤ q.time
  owned : v.isOwned r.device = w.isOwned r.device

namespace Passing

theorem of_lifetimes {lifetimes : List Lifetime}
    (h : ({ w with lifetimes } : World σ).isOwned r.device = w.isOwned r.device) :
    r.Passing w .silent { w with lifetimes } :=
  ⟨fun _ _ h => (by cases h), rfl, rfl, rfl, Or.inl rfl, h⟩

theorem of_samePending {s : Scheduler} (h : w.scheduler.SamePending s)
    (ht : s.currentTime = w.scheduler.currentTime ∨ w.scheduler.currentTime ≤ s.currentTime ∧
      ∀ q ∈ w.scheduler.wanted r.device, q.time ≠ .asap ∧ s.currentTime ≤ q.time) :
    r.Passing w .silent { w with scheduler := s } := by
  exact ⟨fun _ _ h => (by cases h), rfl, rfl, congrFun h.wanted r.device, ht, rfl⟩

theorem of_sameTime {s : Scheduler} (he : ∀ p t, e ≠ .woken p t) (hq : e.demand r.device = none)
    (h : w.scheduler.SameTime s) (hs : s.wanted r.device = w.scheduler.wanted r.device) :
    r.Passing w e { w with scheduler := s } :=
  ⟨fun p t h => absurd h (he p t), hq, rfl, hs, Or.inl h.currentTime, rfl⟩

/-- What is delivered to another device is no later than what the device itself wants. -/
theorem time_of_takeDue {limit t : Instant} {p : SyncPoint} {s : Scheduler}
    (h : w.scheduler.takeDue limit = (some (p, t), s)) :
    s.currentTime = w.scheduler.currentTime ∨ w.scheduler.currentTime ≤ s.currentTime ∧
      ∀ q ∈ w.scheduler.wanted r.device, q.time ≠ .asap ∧ s.currentTime ≤ q.time := by
  obtain ⟨rest, hq, -, -, rfl⟩ := Scheduler.takeDue_eq_some.mp h
  show w.scheduler.deliveryTime p = _ ∨ w.scheduler.currentTime ≤ w.scheduler.deliveryTime p ∧ _
  by_cases hp : p.time = .asap
  · exact Or.inl (Scheduler.deliveryTime_of_asap hp)
  by_cases hlt : p.time < w.scheduler.currentTime
  · left
    rw [Scheduler.deliveryTime, Instant.isAsap_of_ne hp, if_neg Bool.false_ne_true, if_pos hlt]
  · refine Or.inr ⟨Scheduler.le_deliveryTime p w.scheduler, fun q hqw => ?_⟩
    rw [Scheduler.deliveryTime_of_le hp (Instant.not_lt.mp hlt)]
    obtain ⟨x, hx, -, hxt, -⟩ := Scheduler.exists_of_mem_wanted hqw
    have hle := Scheduler.head_le hq x hx
    rw [hxt] at hle
    exact ⟨Instant.ne_asap_of_lt (Instant.lt_of_lt_of_le (Instant.asap_lt hp) hle), hle⟩

theorem of_takeDue {limit t : Instant} {p : SyncPoint} {s : Scheduler}
    (h : w.scheduler.takeDue limit = (some (p, t), s)) (hp : p.device ≠ r.device)
    (skipped : List Skipped) (he : ∀ q t', e = .woken q t' → q = p)
    (hq : e.demand r.device = none) : r.Passing w e { w with scheduler := s, skipped } := by
  refine ⟨fun q t' h => he q t' h ▸ hp, hq, rfl, ?_, time_of_takeDue h, rfl⟩
  show s.wanted r.device = _
  rw [Scheduler.wanted_takeDue h, Function.update_of_ne hp.symm]

theorem of_running (device : DeviceId) (f : Nat → Nat) :
    r.Passing w .silent
      { w with
        lifetimes := w.lifetimes.modify device fun l => { l with running := f l.running } } := by
  apply of_lifetimes
  rw [World.isOwned, World.isOwned, List.getElem?_modify]
  cases w.lifetimes[r.device]? with
  | none => rfl
  | some l =>
    by_cases hd : device = r.device
    · simp [hd]
    · simp [hd]

theorem of_bury (device : DeviceId) (h : w.isOwned r.device = true) :
    r.Passing w (.buried (w.burial device)) (w.bury device) := by
  by_cases hd : device = r.device
  · subst hd
    rw [World.bury_of_alive (World.isAlive_of_isOwned h)]
    exact ⟨fun _ _ h => (by cases h), rfl, rfl, rfl, Or.inl rfl, rfl⟩
  · rcases World.bury_cases device w with ⟨-, hb⟩ | ⟨-, hb⟩
    · rw [hb]
      exact ⟨fun _ _ h => (by cases h), rfl, rfl, rfl, Or.inl rfl, rfl⟩
    · rw [hb]
      exact of_sameTime (fun _ _ h => (by cases h)) rfl (Scheduler.sameTime_cancelAll device _)
        (Scheduler.wanted_cancelAll_of_ne (Ne.symm hd) _)

theorem of_reach {limit : Instant} (ht : w.scheduler.currentTime ≠ .asap) (hl : limit ≠ .asap)
    (h : ∀ p ∈ w.scheduler.queue, limit < p.time) {s : Scheduler}
    (hs : w.scheduler.SamePending s) (htime : s.currentTime = w.scheduler.currentTime.later limit) :
    r.Passing w .silent { w with scheduler := s } := by
  refine of_samePending hs ?_
  rw [htime, Instant.later_eq ht hl]
  split
  · rename_i hlt
    refine Or.inr ⟨Instant.le_of_lt hlt, fun q hq => ?_⟩
    obtain ⟨p, hp, -, hpt, -⟩ := Scheduler.exists_of_mem_wanted hq
    have hlate := h p hp
    rw [hpt] at hlate
    exact ⟨Instant.ne_asap_of_lt hlate, Instant.le_of_lt hlate⟩
  · exact Or.inl rfl

end Passing

/-- What passing changes keep, and the device with its services and wake-ups, holds of histories. -/
structure Keeps (r : Resident σ τ) (H : World σ → List (Moment σ) → Prop) : Prop where
  cumulative : Cumulative H
  passing : ∀ {w v : World σ} {e : Event}, r.Lives w → r.Passing w e v → H w [⟨e, v⟩]
  serves : ∀ {α : Type} {p : Program σ α} {w : World σ}, r.Serves p → r.Lives w →
    (p.after w).isOwned r.device = true ∧ H w (p.history w)
  wakes : ∀ {w : World σ} {limit t : Instant} {p : SyncPoint} {s : Scheduler}, r.Lives w →
    w.scheduler.takeDue limit = (some (p, t), s) → p.device = r.device →
      let u := ({ w with scheduler := s } : World σ).retain p.device
      ((r.wake t p.tag).after u).isOwned r.device = true ∧
        H w (⟨.woken p t, { w with scheduler := s }⟩ :: ⟨.silent, u⟩ :: (r.wake t p.tag).history u)

/-- What is kept of a history by a device that still lives after it. -/
private def KeptBy (r : Resident σ τ) (H : World σ → List (Moment σ) → Prop) (w : World σ)
    (ms : List (Moment σ)) : Prop :=
  r.Lives w → r.Lives (w.upTo ms) ∧ H w ms

theorem Lives.of_path (hw : r.Lives w) (path : Path w ms v) (h : v.isOwned r.device = true) :
    r.Lives v :=
  ⟨path.preserves (fun step => step.sound) hw.sound,
    path.preserves (fun step => step.timed) hw.timed, h⟩

/-- In whatever a world has come to from its start a device that its owner keeps is in order. -/
theorem Lives.of_worlds {t : Instant} {w₀ : World σ} {q : Program σ β} (ht : t ≠ .asap)
    (h₀ : w₀.scheduler = .start t) (hw : w ∈ q.worlds w₀) (howned : w.isOwned r.device = true) :
    r.Lives w := by
  refine ⟨Program.worlds_sound h₀ hw, ?_, howned⟩
  refine Program.worlds_preserve (I := fun w => w.scheduler.currentTime ≠ .asap)
    (fun step => step.timed) hw ?_
  rw [h₀]
  exact ht

namespace Keeps

variable {H : World σ → List (Moment σ) → Prop} (hr : r.Keeps H)

include hr

private theorem keptBy : Cumulative (KeptBy r H) where
  nil w hw := ⟨hw, hr.cumulative.nil w⟩
  append hms hns hw := by
    obtain ⟨hv, hpast⟩ := hms hw
    obtain ⟨hu, hfuture⟩ := hns hv
    refine ⟨?_, hr.cumulative.append hpast hfuture⟩
    rwa [World.upTo_append]

private theorem single (h : r.Lives w → r.Passing w e v) (step : Step w e v) :
    KeptBy r H w [⟨e, v⟩] := by
  intro hw
  have hv := h hw
  exact ⟨hw.of_path (.single step) (hv.owned.trans hw.owned), hr.passing hw hv⟩

private theorem retain (device : DeviceId) (w : World σ) :
    KeptBy r H w [⟨.silent, w.retain device⟩] :=
  hr.single (fun _ => .of_running device (· + 1)) (.live w _)

private theorem loseHold (device : DeviceId) (w : World σ) :
    KeptBy r H w (w.loseHold device fun l => { l with running := l.running - 1 }) :=
  hr.keptBy.append (hr.single (fun _ => .of_running device (· - 1)) (.live w _))
    (hr.single (fun hv => .of_bury device hv.owned) (.bury _ device))

section

variable {react : Reaction σ} {limit t : Instant} {steps : Nat} {p q : SyncPoint} {s : Scheduler}
  (own : ∀ time tag, react r.device time tag = r.wake time tag)
  (others : ∀ device time tag w, device ≠ r.device →
    KeptBy r H w ((react device time tag).history w))

include own others

private theorem deliverHistory (hdue : w.scheduler.takeDue limit = (some (p, t), s)) :
    KeptBy r H w (World.deliverHistory (Reaction.wake react)
      (fun device time tag => (react device time tag).history) p t { w with scheduler := s }) := by
  intro hw
  by_cases hd : p.device = r.device
  · obtain ⟨howned, hwoken⟩ := hr.wakes hw hdue hd
    have halive : w.isAlive p.device = true := World.isAlive_of_isOwned (hd ▸ hw.owned)
    have hwake : react p.device t p.tag = r.wake t p.tag := hd ▸ own t p.tag
    let u := ({ w with scheduler := s } : World σ).retain p.device
    have path : Path w (⟨.woken p t, { w with scheduler := s }⟩ :: ⟨.silent, u⟩ ::
        (r.wake t p.tag).history u) ((r.wake t p.tag).after u) :=
      .cons (.wake hdue halive) (.cons (.live _ _) (Program.path _ u))
    have hfirst : KeptBy r H w (⟨.woken p t, { w with scheduler := s }⟩ :: ⟨.silent, u⟩ ::
        (r.wake t p.tag).history u) := by
      intro _
      rw [path.upTo_eq]
      exact ⟨hw.of_path path howned, hwoken⟩
    have hboth := hr.keptBy.append hfirst (by rw [path.upTo_eq]; exact hr.loseHold p.device _)
    have hthere : ({ w with scheduler := s } : World σ).isAlive p.device = true := halive
    rw [World.deliverHistory_of_alive hthere]
    simp only [Reaction.wake, hwake]
    exact hboth hw
  · rw [World.deliverHistory]
    split
    · rename_i halive
      have hwoken := hr.single (fun _ => .of_takeDue hdue hd w.skipped
        (fun q t' h => (by cases h; rfl)) rfl) (.wake hdue halive)
      exact hr.keptBy.append hwoken (hr.keptBy.visitHistory p.device (hr.retain p.device _)
        (others _ _ _ _ hd) ((react p.device t p.tag).path _) (hr.loseHold p.device)) hw
    · rename_i hgone
      have hgone : w.isAlive p.device = false := Bool.eq_false_iff.mpr hgone
      exact hr.single (fun _ => .of_takeDue hdue hd _ (fun q t' h => (by cases h)) rfl)
        (.skip hdue hgone) hw

end

end Keeps

end Resident

namespace Program.Beside

variable {H : World σ → List (Moment σ) → Prop} {p : Program σ α}

open Resident (Passing)

private theorem keptBy_of_serves (hr : r.Keeps H) (hp : r.Serves p) :
    r.KeptBy H w (p.history w) := by
  intro hw
  obtain ⟨howned, hH⟩ := hr.serves hp hw
  rw [(p.path w).upTo_eq]
  exact ⟨hw.of_path (p.path w) howned, hH⟩

private theorem keptBy (hr : r.Keeps H) (hp : p.Beside r) (w : World σ) :
    r.KeptBy H w (p.history w) := by
  induction p generalizing w with
  | done | halt | look => exact hr.keptBy.nil w
  | andThen p next ihp ihnext =>
    rcases hp with hs | ⟨first, second⟩
    · exact keptBy_of_serves hr hs
    · exact hr.keptBy.andThen (ihp first w) fun a v => ihnext a (second a) v
  | attempt p ih => exact ih hp w
  | work act =>
    rcases hp with hs | h
    · exact keptBy_of_serves hr hs
    · refine hr.single (fun _ => ?_) ?_
      · rw [World.after_onDevices]
        exact ⟨fun _ _ h => (by cases h), rfl, h _, rfl, Or.inl rfl, rfl⟩
      · rw [World.after_onDevices]
        exact .work w _
  | ask device demand act =>
    rcases hp with hs | ⟨hd, h⟩
    · exact keptBy_of_serves hr hs
    · refine hr.single (fun _ => ?_) ?_
      · rw [World.after_onDevices]
        exact ⟨fun _ _ h => (by cases h), if_neg hd, h _, rfl, Or.inl rfl, rfl⟩
      · rw [World.after_onDevices]
        exact .ask w device demand _
  | enroll ownsSyncPoints =>
    refine hr.single (fun hw => .of_lifetimes ?_) (.live w _)
    have howned := hw.owned
    rw [World.isOwned] at howned ⊢
    cases hl : w.lifetimes[r.device]? with
    | none =>
      rw [hl] at howned
      cases howned
    | some l =>
      have hlt : r.device < w.lifetimes.length := (List.getElem?_eq_some_iff.mp hl).1
      rw [World.isOwned, List.getElem?_append_left hlt, hl]
  | drop device =>
    rw [history]
    split
    · have hkept : ({ w with lifetimes := w.lifetimes.modify device fun l =>
          { l with owned := false } } : World σ).isOwned r.device = w.isOwned r.device := by
        rw [World.isOwned, World.isOwned, World.lifetime_modify_ne (Ne.symm hp)]
      exact hr.keptBy.append (hr.single (fun _ => .of_lifetimes hkept) (.live w _))
        (hr.single (fun hv => .of_bury device hv.owned) (.bury _ device))
    · exact hr.keptBy.nil w
  | visit device p ih =>
    rw [history]
    split
    · exact hr.keptBy.visitHistory device (hr.retain device w) (ih hp _) (p.path _)
        (hr.loseHold device)
    · exact hr.keptBy.nil w
  | register time device tag =>
    rw [history]
    cases hs : w.scheduler.register time device tag with
    | ok s =>
      exact hr.single (fun _ => .of_sameTime (fun _ _ h => (by cases h)) rfl
        (Scheduler.sameTime_register hs) (Scheduler.wanted_register_of_ne hs (Ne.symm hp)))
        (.register hs)
    | error cause => exact hr.keptBy.nil w
  | cancel device tag =>
    rw [history]
    split
    · rename_i q hq
      exact hr.single (fun _ => .of_sameTime (fun _ _ h => (by cases h)) rfl
        (Scheduler.sameTime_cancel device tag _)
        (Scheduler.wanted_cancel_of_ne (Ne.symm hp) tag _)) (.cancel hq)
    · exact hr.keptBy.nil w
  | cancelAll device =>
    exact hr.single (fun _ => .of_sameTime (fun _ _ h => (by cases h)) rfl
      (Scheduler.sameTime_cancelAll device _)
      (Scheduler.wanted_cancelAll_of_ne (Ne.symm hp) _)) (.cancelAll w device)
  | setCurrentTime thread time => exact keptBy_of_serves hr hp
  | schedule react steps thread limit ih =>
    obtain ⟨own, others⟩ := hp
    refine hr.keptBy.scheduleHistory (fun device time tag => Program.path _)
      (hr.deliverHistory own fun device time tag w h => ih device time tag (others _ _ _ h) w)
      (fun hi => hr.single (fun hw => ?_) ?_) (hr.single (fun _ => ?_) ?_)
      (fun v hl hnone => hr.single (fun hv => ?_) (.reach hl hnone))
      fun v => hr.single (fun _ => .of_samePending ⟨rfl, rfl⟩ (Or.inl rfl)) (.leave v)
    · rw [World.after_onScheduler]
      have hsame := Scheduler.samePending_idle thread limit w.scheduler
      rcases Scheduler.idle_after thread limit w.scheduler with h | ⟨-, h | h⟩
      · exact .of_samePending hsame (Or.inl (by simp [h]))
      · exact .of_samePending hsame (Or.inl (by simp [h, Scheduler.ownedBy]))
      · exact .of_reach hw.timed (Scheduler.ne_asap_of_isIdleUntil hi)
          (hw.sound.lt_of_isIdleUntil hi).2 hsame (by rw [h]; rfl)
    · rw [World.after_onScheduler]
      exact .idle thread hi
    · rw [World.after_onScheduler]
      have hsame := Scheduler.samePending_enter thread limit w.scheduler
      rcases Scheduler.enter_after thread limit w.scheduler with h | ⟨-, h | h⟩
      all_goals
        exact .of_samePending hsame
          (Or.inl (by simp [h, Scheduler.ownedBy, Scheduler.enteredBy]))
    · rw [World.after_onScheduler]
      exact .enter w thread limit
    · exact .of_reach hv.timed hl (Scheduler.lt_of_takeDue_none hnone)
        (Scheduler.samePending_reach limit _) rfl

private theorem keptBy_comesTo {react : Reaction σ} {limit t : Instant} {steps : Nat}
    {q : SyncPoint} {u : World σ} (hr : r.Keeps H)
    (own : ∀ time tag, react r.device time tag = r.wake time tag)
    (others : ∀ device time tag, device ≠ r.device → (react device time tag).Beside r)
    (h : w.ComesTo react limit steps ms q t u) :
    r.KeptBy H w ms ∧ ∃ s, (w.upTo ms).scheduler.takeDue limit = (some (q, t), s) ∧
      u = { w.upTo ms with scheduler := s } ∧ (w.upTo ms).isAlive q.device = true := by
  induction h with
  | now due alive => exact ⟨hr.keptBy.nil _, _, due, rfl, alive⟩
  | later due delivered _ ih =>
    have hpath : ∀ device time tag w, Path w ((react device time tag).history w)
        ((Reaction.wake react device time tag).after w) :=
      fun device time tag => (react device time tag).path
    have hend := (World.deliverHistory_path hpath due).upTo_eq
    rw [Run.after_of_ok delivered] at hend
    obtain ⟨hrest, s, hdue, hu, halive⟩ := ih
    rw [World.upTo_append, hend]
    refine ⟨hr.keptBy.append ?_ (hend ▸ hrest), s, hdue, hu, halive⟩
    exact hr.deliverHistory own
      (fun device time tag w h => (others device time tag h).keptBy hr w) due

private theorem keptBy_looks (hr : r.Keeps H) (hp : p.Beside r) (h : p.Looks w ms) :
    r.KeptBy H w ms := by
  induction h with
  | look f w => exact hr.keptBy.nil w
  | first h ih =>
    rcases hp with hs | ⟨hfirst, -⟩
    · exact absurd (.first h) (r.serves_neverLooks hs).not_looks
    · exact ih hfirst
  | @second α β p next w v a ms hrun h ih =>
    rcases hp with hs | ⟨hfirst, hsecond⟩
    · exact absurd (.second hrun h) (r.serves_neverLooks hs).not_looks
    · refine hr.keptBy.append (hfirst.keptBy hr w) ?_
      rw [(p.path w).upTo_eq, after, Run.after_of_ok hrun]
      exact ih (hsecond a)
  | attempt h ih => exact ih hp
  | @visit device p w ms alive h ih => exact hr.keptBy.append (hr.retain device w) (ih hp)
  | @schedule react steps thread limit t w v u p ms ns due enter come h ih =>
    obtain ⟨own, others⟩ := hp
    obtain ⟨hms, s, hdue, rfl, halive⟩ := keptBy_comesTo hr own others come
    have hd : p.device ≠ r.device := by
      intro hd
      rw [show react p.device t p.tag = r.wake t p.tag from hd ▸ own t p.tag] at h
      exact (r.wake_neverLooks t p.tag).not_looks h
    obtain ⟨s', henter, rfl⟩ := World.onScheduler_eq_ok.mp enter
    have hstep : Step w .silent { w with scheduler := s' } := by
      have step := Step.enter w thread limit
      rwa [Run.after_of_ok henter] at step
    obtain ⟨-, -, -, rfl⟩ := Scheduler.enter_eq_ok.mp henter
    have hfirst := hr.single (fun _ => .of_samePending
      (Scheduler.samePending_enteredBy thread _) (Or.inl rfl)) hstep
    have hwoken := hr.single (fun _ => .of_takeDue hdue hd _
      (fun q t' h => (by cases h; rfl)) rfl) (.wake hdue halive)
    have hlast := hr.keptBy.append hwoken
      (hr.keptBy.append (hr.retain p.device _) (ih (others _ _ _ hd)))
    exact hr.keptBy.append (hr.keptBy.append hfirst hms) hlast

/-- What a device keeps holds up to wherever somebody looks at the world, and of the whole run. -/
theorem keeps (hr : r.Keeps H) (hp : p.Beside r) (hw : r.Lives w)
    (h : p.Looks w ms ∨ ms = p.history w) : r.Lives (w.upTo ms) ∧ H w ms := by
  rcases h with h | rfl
  · exact keptBy_looks hr hp h hw
  · exact hp.keptBy hr w hw

end Program.Beside

private theorem World.ComesTo.history {react : Reaction σ} {limit t : Instant} {steps : Nat}
    {q : SyncPoint} {u : World σ} (h : w.ComesTo react limit steps ms q t u) :
    u.isAlive q.device = true ∧ ∃ rest,
      dispatchHistory (Reaction.wake react)
        (fun device time tag => (react device time tag).history) limit steps w =
      ms ++ (deliverHistory (Reaction.wake react)
        (fun device time tag => (react device time tag).history) q t u ++ rest) := by
  induction h with
  | @now steps w p t s due alive =>
    refine ⟨alive, ?_⟩
    cases hp : deliver (Reaction.wake react) p t { w with scheduler := s } with
    | ok _ v => exact ⟨_, dispatchHistory_of_ok due hp⟩
    | error halt v =>
      refine ⟨[], ?_⟩
      rw [dispatchHistory_of_error due hp, List.append_nil]
      rfl
  | later due delivered _ ih =>
    obtain ⟨halive, rest, hrest⟩ := ih
    refine ⟨halive, rest, ?_⟩
    rw [dispatchHistory_of_ok due delivered, hrest, List.append_assoc]

theorem Program.Looks.isPrefix {p : Program σ α} (h : p.Looks w ms) : ms <+: p.history w := by
  induction h with
  | look f w => exact List.nil_prefix
  | first h ih =>
    rw [history]
    exact ih.trans (List.prefix_append _ _)
  | second hp h ih =>
    rw [history]
    simp only [hp]
    exact (List.prefix_append_right_inj _).mpr ih
  | attempt h ih => exact ih
  | @visit device p w ms alive h ih =>
    rw [history, if_pos alive, World.visitHistory]
    exact ((List.prefix_cons_inj _).mpr ih).trans (List.prefix_append _ _)
  | @schedule react steps thread limit t w v u p ms ns due enter come h ih =>
    obtain ⟨halive, rest, hrest⟩ := come.history
    obtain ⟨more, hmore⟩ := ih
    rw [history, World.scheduleHistory, if_neg (by simp [due]), World.scheduleDueHistory, enter,
      Run.after_of_ok enter]
    have hdispatch : World.dispatchHistory (fun device time tag => (react device time tag).run)
        (fun device time tag => (react device time tag).history) limit steps v = _ := hrest
    have hwake : (Reaction.wake react p.device t p.tag) = (react p.device t p.tag).run := rfl
    simp only [hdispatch, World.deliverHistory_of_alive halive, ← hmore]
    exact ⟨_, by simp only [List.cons_append, List.append_assoc]; rfl⟩

end Timebase
