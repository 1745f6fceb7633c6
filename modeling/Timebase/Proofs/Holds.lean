import Timebase.Proofs.Path

/-!
# Holds on devices

A program that keeps a device alive for a while lets it go again, however it ends. So after a
program every device is held as before, unless its owner has given it up meanwhile.
-/

namespace Timebase

variable {σ α : Type} {w v u : World σ}

namespace World

variable {device : DeviceId}

theorem bury_lifetimes (device : DeviceId) (w : World σ) :
    (w.bury device).lifetimes = w.lifetimes := by
  rcases bury_cases device w with ⟨-, h⟩ | ⟨-, h⟩
  all_goals rw [h]

theorem isAlive_iff : w.isAlive device = true ↔
    ∃ l, w.lifetimes[device]? = some l ∧ l.isAlive = true := by
  rw [isAlive]
  cases w.lifetimes[device]? with
  | none => simp
  | some l => simp

theorem isAlive_of_isOwned (h : w.isOwned device = true) : w.isAlive device = true := by
  rw [isOwned] at h
  cases hl : w.lifetimes[device]? with
  | none =>
    rw [hl] at h
    cases h
  | some l =>
    rw [hl] at h
    have ho : l.owned = true := h
    exact isAlive_iff.mpr ⟨l, hl, by simp [Lifetime.isAlive, ho]⟩

theorem bury_of_alive (h : w.isAlive device = true) : w.bury device = w := by
  obtain ⟨l, hl, hlive⟩ := isAlive_iff.mp h
  simp [bury, hl, hlive]

theorem lifetime_modify_ne {other : DeviceId} (h : other ≠ device) (change : Lifetime → Lifetime)
    (w : World σ) : (w.lifetimes.modify device change)[other]? = w.lifetimes[other]? :=
  List.getElem?_modify_ne _ _ (Ne.symm h)

end World

/-- Devices of one world are held as in another, though their owners may have given them up. -/
def HeldAlike (w v : World σ) : Prop :=
  ∀ (device : DeviceId) (l : Lifetime), w.lifetimes[device]? = some l →
    ∃ owned : Bool, v.lifetimes[device]? = some { l with owned } ∧ (owned = true → l.owned = true)

namespace HeldAlike

theorem of_lifetimes_eq (h : v.lifetimes = w.lifetimes) : HeldAlike w v := by
  intro device l hl
  rw [h]
  exact ⟨l.owned, hl, id⟩

theorem refl (w : World σ) : HeldAlike w w := .of_lifetimes_eq rfl

theorem trans (h : HeldAlike w v) (h' : HeldAlike v u) : HeldAlike w u := by
  intro device l hl
  obtain ⟨owned, hv, howned⟩ := h device l hl
  obtain ⟨owned', hu, howned'⟩ := h' device _ hv
  exact ⟨owned', hu, fun ho => howned (howned' ho)⟩

theorem release {device : DeviceId} (h : HeldAlike (w.retain device) v) :
    HeldAlike w (v.release device) := by
  have hv : (v.release device).lifetimes =
      v.lifetimes.modify device fun l => { l with running := l.running - 1 } :=
    World.bury_lifetimes device _
  intro other l hl
  rw [hv]
  by_cases hd : device = other
  · subst hd
    have hw : (w.retain device).lifetimes[device]? = some { l with running := l.running + 1 } := by
      rw [World.retain, List.getElem?_modify_eq, hl]
      rfl
    obtain ⟨owned, ho, howned⟩ := h device _ hw
    refine ⟨owned, ?_, howned⟩
    rw [List.getElem?_modify_eq, ho]
    rfl
  · have hw : (w.retain device).lifetimes[other]? = some l := by
      rw [World.retain, List.getElem?_modify_ne _ _ hd, hl]
    obtain ⟨owned, ho, howned⟩ := h other _ hw
    refine ⟨owned, ?_, howned⟩
    rw [List.getElem?_modify_ne _ _ hd, ho]

theorem drop (device : DeviceId) (w : World σ) : HeldAlike w ((World.drop device).after w) := by
  cases hd : w.isOwned device with
  | false =>
    rw [Run.after_of_ok (World.drop_of_not_owned hd)]
    exact .refl w
  | true =>
    rw [Run.after_of_ok (World.drop_of_owned hd)]
    intro other l hl
    rw [World.bury_lifetimes]
    by_cases he : device = other
    · subst he
      rw [List.getElem?_modify_eq, hl]
      exact ⟨false, rfl, fun h => (by cases h)⟩
    · rw [List.getElem?_modify_ne _ _ he, hl]
      exact ⟨l.owned, rfl, id⟩

end HeldAlike

namespace World

variable {wake : Wake σ} {steps : Nat} {thread : ThreadId} {limit time : Instant} {p : SyncPoint}

private theorem heldAlike_deliver
    (h : ∀ device time tag w, HeldAlike w ((wake device time tag).after w)) (p : SyncPoint)
    (time : Instant) (w : World σ) : HeldAlike w ((deliver wake p time).after w) := by
  cases ha : w.isAlive p.device with
  | true =>
    rw [Run.after_congr (deliver_of_alive ha), after_during]
    exact (h _ _ _ _).release
  | false =>
    rw [Run.after_of_ok (deliver_of_gone ha)]
    exact .of_lifetimes_eq rfl

private theorem heldAlike_dispatch
    (h : ∀ device time tag w, HeldAlike w ((wake device time tag).after w)) (w : World σ) :
    HeldAlike w ((dispatch wake limit steps).after w) := by
  induction steps generalizing w with
  | zero => exact .refl w
  | succ steps ih =>
    rcases dispatch_succ wake limit steps w with
      ⟨-, he⟩ | ⟨p, time, scheduler, v, -, hp, he⟩ | ⟨p, time, scheduler, halt, v, -, hp, he⟩
    · rw [Run.after_of_ok he]
      exact .refl w
    · have hdeliver := heldAlike_deliver h p time { w with scheduler }
      rw [Run.after_of_ok hp] at hdeliver
      rw [Run.after_congr he]
      exact hdeliver.trans (ih v)
    · have hdeliver := heldAlike_deliver h p time { w with scheduler }
      rw [Run.after_of_error hp] at hdeliver
      rw [Run.after_of_error he]
      exact hdeliver

private theorem heldAlike_schedule
    (h : ∀ device time tag w, HeldAlike w ((wake device time tag).after w)) (w : World σ) :
    HeldAlike w ((schedule wake steps thread limit).after w) := by
  cases hi : w.scheduler.isIdleUntil limit with
  | true =>
    rw [Run.after_congr (schedule_of_idle hi), after_onScheduler]
    exact .of_lifetimes_eq rfl
  | false =>
    rw [Run.after_congr (schedule_of_due hi)]
    cases he : onScheduler (Scheduler.enter thread limit) w with
    | error halt v =>
      obtain ⟨s, -, rfl⟩ := onScheduler_eq_error.mp he
      rw [Run.after_of_error (scheduleDue_of_refused he)]
      exact .of_lifetimes_eq rfl
    | ok _ v =>
      obtain ⟨s, -, rfl⟩ := onScheduler_eq_ok.mp he
      have hdispatch : HeldAlike w ((dispatch wake limit steps).after { w with scheduler := s }) :=
        heldAlike_dispatch h { w with scheduler := s }
      cases hd : dispatch wake limit steps { w with scheduler := s } with
      | error halt u =>
        rw [Run.after_of_error hd] at hdispatch
        rw [Run.after_of_error (scheduleDue_of_halted he hd)]
        exact hdispatch
      | ok _ u =>
        rw [Run.after_of_ok hd] at hdispatch
        rw [Run.after_of_ok (scheduleDue_of_ok he hd)]
        exact hdispatch

end World

/-- A program gives back every hold that it takes. -/
theorem Program.heldAlike (p : Program σ α) (w : World σ) : HeldAlike w (p.after w) := by
  induction p generalizing w with
  | done a => exact .refl w
  | halt cause => exact .refl w
  | andThen p next ihp ihnext =>
    rcases Run.ok_or_error p.run w with ⟨a, hp⟩ | ⟨halt, hp⟩
    · rw [after_andThen_of_ok hp]
      exact (ihp w).trans (ihnext a _)
    · rw [after_andThen_of_error hp]
      exact ihp w
  | attempt p ih =>
    rw [after, run, Run.after_attempt]
    exact ih w
  | look f => exact .refl w
  | work act | ask _ _ act =>
    rw [after, run, World.after_onDevices]
    exact .of_lifetimes_eq rfl
  | enroll ownsSyncPoints =>
    intro device l hl
    refine ⟨l.owned, ?_, id⟩
    have hlt := (List.getElem?_eq_some_iff.mp hl).1
    show (w.lifetimes ++ [_])[device]? = some l
    rw [List.getElem?_append_left hlt, hl]
  | drop device => exact .drop device w
  | visit device p ih =>
    cases ha : w.isAlive device with
    | true =>
      rw [after_visit_of_alive ha, World.after_during]
      exact (ih _).release
    | false =>
      rw [after_visit_of_gone ha]
      exact .refl w
  | register time device tag =>
    rw [after, run, World.register, World.after_onScheduler]
    exact .of_lifetimes_eq rfl
  | cancel device tag => exact .of_lifetimes_eq rfl
  | cancelAll device => exact .of_lifetimes_eq rfl
  | setCurrentTime thread time =>
    rw [after, run, World.after_onScheduler]
    exact .of_lifetimes_eq rfl
  | schedule wake steps thread limit ih => exact World.heldAlike_schedule ih w

end Timebase
