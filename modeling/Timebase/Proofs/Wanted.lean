import Mathlib.Logic.Function.Basic
import Timebase.Device.Guarded
import Timebase.Proofs.Punctuality

/-!
# What each device wants

The pending sync points of a device are its wishes. A registration adds one to those of its device
and a delivery takes the first one away, whatever other devices want; so what devices keep of their
own wishes can be followed one delivery at a time.
-/

namespace Timebase

/-- One request with a tag is taken back, if there is any. -/
inductive Request.TakenBack (tag : Tag) (wanted wanted' : List Request) : Prop
  | one (r : Request) (h : r.tag = tag) (hw : wanted.Perm (r :: wanted'))
  | none (h : ∀ r ∈ wanted, r.tag ≠ tag) (hw : wanted' = wanted)

namespace Request.TakenBack

variable {r : Request} {tag tag' : Tag} {wanted between wanted' : List Request}

theorem of_nil (h : TakenBack tag [] wanted') : wanted' = [] := by
  cases h with
  | one r _ hw => exact absurd hw.length_eq (Nat.zero_ne_add_one _)
  | none _ hw => exact hw

theorem of_single (h : TakenBack r.tag [r] wanted') : wanted' = [] := by
  cases h with
  | one q _ hw => exact List.length_eq_zero_iff.mp (Nat.succ.inj hw.length_eq).symm
  | none hne _ => exact absurd rfl (hne r List.mem_cons_self)

theorem of_other (hne : r.tag ≠ tag) (h : TakenBack tag [r] wanted') : wanted' = [r] := by
  cases h with
  | one q htag hw =>
    have hq : q = r := List.mem_singleton.mp (hw.mem_iff.mpr List.mem_cons_self)
    exact absurd (hq ▸ htag) hne
  | none _ hw => exact hw

theorem none_left (h : TakenBack tag wanted between) (h' : TakenBack tag' between wanted')
    (hlength : wanted.length ≤ 1) (htags : ∀ r ∈ wanted, r.tag = tag ∨ r.tag = tag') :
    wanted' = [] := by
  cases wanted with
  | nil =>
    rw [h.of_nil] at h'
    exact h'.of_nil
  | cons r rest =>
    obtain rfl : rest = [] := List.length_eq_zero_iff.mp (Nat.le_zero.mp (Nat.le_of_succ_le_succ
      hlength))
    by_cases htag : r.tag = tag
    · subst htag
      rw [h.of_single] at h'
      exact h'.of_nil
    · rw [h.of_other htag] at h'
      obtain rfl := (htags r List.mem_cons_self).resolve_left htag
      exact h'.of_single

end Request.TakenBack

namespace Scheduler

variable {s s' : Scheduler} {limit time t : Instant} {device other : DeviceId} {tag : Tag}
  {p : SyncPoint}

/-- What a device has pending, in the order in which it comes due. -/
def wanted (s : Scheduler) (device : DeviceId) : List Request :=
  (s.queue.filter fun p => p.device == device).map fun p => ⟨p.time, p.tag⟩

theorem wanted_start (t : Instant) (device : DeviceId) : (start t).wanted device = [] := rfl

theorem SamePending.wanted (h : s.SamePending s') : s'.wanted = s.wanted := by
  funext device
  rw [Scheduler.wanted, h.queue, ← Scheduler.wanted]

theorem exists_of_mem_wanted {r : Request} (h : r ∈ s.wanted device) :
    ∃ p ∈ s.queue, p.device = device ∧ p.time = r.time ∧ p.tag = r.tag := by
  obtain ⟨p, hp, rfl⟩ := List.mem_map.mp h
  obtain ⟨hp, hd⟩ := List.mem_filter.mp hp
  exact ⟨p, hp, beq_iff_eq.mp hd, rfl, rfl⟩

theorem mem_wanted_of_mem (h : p ∈ s.queue) : ⟨p.time, p.tag⟩ ∈ s.wanted p.device :=
  List.mem_map.mpr ⟨p, List.mem_filter.mpr ⟨h, beq_self_eq_true p.device⟩, rfl⟩

theorem wanted_register (h : s.register time device tag = .ok s') (other : DeviceId) :
    (s'.wanted other).Perm
      (Function.update s.wanted device (⟨time, tag⟩ :: s.wanted device) other) := by
  have hperm := ((perm_of_register h).filter fun p => p.device == other).map fun p =>
    (⟨p.time, p.tag⟩ : Request)
  by_cases hd : other = device
  · subst hd
    rw [Function.update_self]
    rw [List.filter_cons_of_pos (by simp)] at hperm
    exact hperm
  · rw [Function.update_of_ne hd]
    rw [List.filter_cons_of_neg (by simpa using Ne.symm hd)] at hperm
    exact hperm

theorem wanted_register_of_perm {wishes : DeviceId → List Request}
    (hs : ∀ other, (s.wanted other).Perm (wishes other))
    (h : s.register time device tag = .ok s') (other : DeviceId) :
    (s'.wanted other).Perm (Function.update wishes device (⟨time, tag⟩ :: wishes device) other) := by
  refine (wanted_register h other).trans ?_
  by_cases hd : other = device
  · subst hd
    rw [Function.update_self, Function.update_self]
    exact (hs other).cons _
  · rw [Function.update_of_ne hd, Function.update_of_ne hd]
    exact hs other

theorem wanted_takeDue (h : s.takeDue limit = (some (p, t), s')) :
    s.wanted = Function.update s'.wanted p.device (⟨p.time, p.tag⟩ :: s'.wanted p.device) := by
  funext other
  by_cases hd : other = p.device
  · subst hd
    rw [Function.update_self, wanted, queue_takeDue h, List.filter_cons_of_pos (by simp)]
    rfl
  · rw [Function.update_of_ne hd, wanted, queue_takeDue h,
      List.filter_cons_of_neg (by simpa using Ne.symm hd)]
    rfl

/-- What is delivered is the first that its device wants. -/
theorem wanted_takeDue_self (h : s.takeDue limit = (some (p, t), s')) :
    s.wanted p.device = ⟨p.time, p.tag⟩ :: s'.wanted p.device := by
  rw [wanted_takeDue h, Function.update_self]

theorem wanted_register_of_ne (h : s.register time device tag = .ok s') (hne : other ≠ device) :
    s'.wanted other = s.wanted other := by
  have hp : ((⟨time, device, tag, s.nextSeq⟩ : SyncPoint).device == other) = false :=
    beq_eq_false_iff_ne.mpr hne.symm
  rw [wanted, queue_register h, Queue.filter_insert_of_neg hp, wanted]

theorem wanted_cancel_of_ne (hne : other ≠ device) (tag : Tag) (s : Scheduler) :
    (s.cancel device tag).2.wanted other = s.wanted other := by
  cases hf : s.find? device tag with
  | none => rw [cancel_of_none hf]
  | some p =>
    have hp : p ∉ s.queue.filter fun p => p.device == other := by
      rw [List.mem_filter, beq_iff_eq]
      exact fun h => hne (h.2.symm.trans (mem_of_find? hf).2.1)
    rw [wanted, queue_cancel hf, ← List.erase_filter, List.erase_of_not_mem hp, wanted]

theorem wanted_cancel (device : DeviceId) (tag : Tag) (s : Scheduler) :
    Request.TakenBack tag (s.wanted device) ((s.cancel device tag).2.wanted device) := by
  cases hf : s.find? device tag with
  | none =>
    rw [cancel_of_none hf]
    refine .none (fun r hr htag => ?_) rfl
    obtain ⟨p, hp, hdevice, -, hptag⟩ := exists_of_mem_wanted hr
    exact find?_eq_none.mp hf p hp (SyncPoint.isFor_iff.mpr ⟨hdevice, hptag.trans htag⟩)
  | some p =>
    obtain ⟨-, hdevice, htag⟩ := mem_of_find? hf
    refine .one ⟨p.time, p.tag⟩ htag ?_
    have hperm := (perm_of_cancel hf).filter fun p => p.device == device
    rw [List.filter_cons_of_pos (by simp [hdevice])] at hperm
    exact hperm.map _

theorem wanted_cancelAll_of_ne (hne : other ≠ device) (s : Scheduler) :
    (s.cancelAll device).2.wanted other = s.wanted other := by
  rw [wanted, wanted, queue_cancelAll, List.filter_filter]
  congr 1
  apply List.filter_congr
  intro p _
  by_cases hp : p.device = other
  · simp [hp, hne]
  · simp [hp]

/-- What has an instant of its own lies ahead, or it comes due within a limit. -/
def Upcoming (limit : Instant) (s : Scheduler) : Prop :=
  ∀ p ∈ s.queue, p.time ≠ .asap →
    s.currentTime < p.time ∨ s.currentTime ≤ p.time ∧ p.time ≤ limit

namespace Upcoming

theorem of_ahead (h : ∀ p ∈ s.queue, p.time ≠ .asap → s.currentTime < p.time) :
    Upcoming limit s := fun p hp hne => Or.inl (h p hp hne)

theorem ahead (h : Upcoming .asap s) (hp : p ∈ s.queue) (hne : p.time ≠ .asap) :
    s.currentTime < p.time := by
  rcases h p hp hne with hlt | ⟨-, hle⟩
  · exact hlt
  · exact absurd (Instant.le_antisymm hle Instant.asap_le) hne

theorem register (h : Upcoming limit s) (hr : s.register time device tag = .ok s')
    (htime : time = .asap ∨ s.currentTime < time) : Upcoming limit s' := by
  intro p hp hne
  rw [(sameTime_register hr).currentTime]
  rcases (mem_queue_register hr).mp hp with rfl | hp
  · exact Or.inl (htime.resolve_left hne)
  · exact h p hp hne

theorem deliveryTime (h : Upcoming limit s) (hd : s.takeDue limit = (some (p, t), s')) :
    p.time = .asap ∧ t = s.currentTime ∨ p.time ≠ .asap ∧ t = p.time := by
  obtain ⟨rest, hq, -, rfl, -⟩ := takeDue_eq_some.mp hd
  by_cases hp : p.time = .asap
  · exact Or.inl ⟨hp, deliveryTime_of_asap hp⟩
  · have hmem := mem_of_takeDue hd
    refine Or.inr ⟨hp, deliveryTime_of_le hp ?_⟩
    rcases h p hmem hp with hlt | ⟨hle, -⟩
    · exact Instant.le_of_lt hlt
    · exact hle

theorem takeDue (h : Upcoming limit s) (hd : s.takeDue limit = (some (p, t), s')) :
    Upcoming limit s' := by
  have htime := h.deliveryTime hd
  obtain ⟨rest, hq, hdue, rfl, hs⟩ := takeDue_eq_some.mp hd
  intro q hqr hne
  have hmem := queue_takeDue_subset hd hqr
  rw [hs]
  show s.deliveryTime p < q.time ∨ s.deliveryTime p ≤ q.time ∧ q.time ≤ limit
  rcases htime with ⟨-, ht⟩ | ⟨-, ht⟩
  · rw [ht]
    exact h q hmem hne
  · rw [ht]
    have hpq : p.time ≤ q.time := head_le hq q hmem
    by_cases hlt : p.time < q.time
    · exact Or.inl hlt
    · have heq : q.time = p.time := Instant.le_antisymm (Instant.not_lt.mp hlt) hpq
      exact Or.inr ⟨hpq, heq ▸ hdue⟩

theorem reach (h : Upcoming limit s) (ht : s.currentTime ≠ .asap) (hl : limit ≠ .asap)
    (hlt : ∀ p ∈ s.queue, limit < p.time) :
    ∀ p ∈ (s.reach limit).queue, p.time ≠ .asap → (s.reach limit).currentTime < p.time := by
  intro p hp hne
  have hlimit := hlt p hp
  have hnow : s.currentTime < p.time := by
    rcases h p hp hne with hnow | ⟨-, hle⟩
    · exact hnow
    · exact absurd hlimit (Instant.not_lt.mpr hle)
  show s.currentTime.later limit < p.time
  rw [Instant.later_eq ht hl]
  split
  · exact hlimit
  · exact hnow

end Upcoming
end Scheduler

namespace World

variable {σ : Type} {wake : Wake σ} {steps : Nat} {thread : ThreadId} {limit : Instant}
  {w v : World σ} {I : World σ → Prop}

theorem dispatch_keeps
    (hdeliver : ∀ {w v p t s}, I w → w.scheduler.takeDue limit = (some (p, t), s) →
      deliver wake p t { w with scheduler := s } = .ok () v → I v)
    (h : dispatch wake limit steps w = .ok () v) (hw : I w) : I v := by
  induction steps generalizing w with
  | zero => cases h
  | succ steps ih =>
    rcases dispatch_succ wake limit steps w with
      ⟨-, he⟩ | ⟨p, t, s, u, hd, hp, he⟩ | ⟨_, _, _, _, _, -, -, he⟩
    · rw [he] at h
      cases h
      exact hw
    · rw [he] at h
      exact ih h (hdeliver hw hd hp)
    · rw [he] at h
      cases h

/-- What a delivery keeps however it ends, any number of deliveries keeps. -/
theorem preserves_dispatch
    (hdeliver : ∀ {w p t s}, I w → w.scheduler.takeDue limit = (some (p, t), s) →
      I ((deliver wake p t).after { w with scheduler := s }))
    (steps : Nat) : Run.Preserves I (dispatch wake limit steps) := by
  induction steps with
  | zero => exact fun w hw => hw
  | succ steps ih =>
    intro w hw
    rcases dispatch_succ wake limit steps w with
      ⟨-, he⟩ | ⟨p, t, s, u, hd, hp, he⟩ | ⟨p, t, s, halt, u, hd, hp, he⟩
    · rwa [Run.after_of_ok he]
    all_goals have hafter := hdeliver hw hd
    · rw [Run.after_congr he]
      rw [Run.after_of_ok hp] at hafter
      exact ih u hafter
    · rw [Run.after_of_error he]
      rwa [Run.after_of_error hp] at hafter

/-- What does not depend on the mark or the owner of time, nor on time, and what deliveries keep, a
call to move time keeps however it ends. -/
theorem preserves_schedule
    (hmark : ∀ {w s}, w.scheduler.SamePending s →
      (w.scheduler.currentTime ≠ .asap → s.currentTime ≠ .asap) → I w → I { w with scheduler := s })
    (hdeliver : ∀ {w p t s}, I w → w.scheduler.takeDue limit = (some (p, t), s) →
      I ((deliver wake p t).after { w with scheduler := s })) :
    Run.Preserves I (schedule wake steps thread limit) := by
  have hreach {s : Scheduler} (hl : limit ≠ .asap) (h : s.currentTime ≠ .asap) :
      (s.reach limit).currentTime ≠ .asap := Instant.later_ne_asap h hl
  intro w hw
  cases hi : w.scheduler.isIdleUntil limit with
  | true =>
    rw [Run.after_congr (schedule_of_idle hi), after_onScheduler]
    refine hmark (Scheduler.samePending_idle thread limit w.scheduler) (fun h => ?_) hw
    rcases Scheduler.idle_after thread limit w.scheduler with he | ⟨-, he | he⟩
    all_goals rw [he]
    · exact h
    · exact h
    · exact hreach (Scheduler.ne_asap_of_isIdleUntil hi) h
  | false =>
    rw [Run.after_congr (schedule_of_due hi)]
    cases he : Scheduler.enter thread limit w.scheduler with
    | error halt s =>
      rw [Run.after_of_error (scheduleDue_of_refused (onScheduler_of_error he))]
      have hs := Run.after_of_error he
      subst hs
      refine hmark (Scheduler.samePending_enter thread limit w.scheduler) (fun h => ?_) hw
      rcases Scheduler.enter_after thread limit w.scheduler with he | ⟨-, he | he⟩
      all_goals rwa [he]
    | ok _ s =>
      obtain ⟨-, hl, -, rfl⟩ := Scheduler.enter_eq_ok.mp he
      have henter : onScheduler (Scheduler.enter thread limit) w =
          .ok () { w with scheduler := w.scheduler.enteredBy thread } := onScheduler_of_ok he
      have hentered : I { w with scheduler := w.scheduler.enteredBy thread } :=
        hmark (Scheduler.samePending_enteredBy thread w.scheduler) id hw
      have hdone := preserves_dispatch hdeliver steps _ hentered
      cases hd : dispatch wake limit steps { w with scheduler := w.scheduler.enteredBy thread } with
      | error halt u =>
        rw [Run.after_of_error (scheduleDue_of_halted henter hd)]
        rw [Run.after_of_error hd] at hdone
        exact hmark (Scheduler.samePending_leave u.scheduler) id hdone
      | ok _ u =>
        rw [Run.after_of_ok (scheduleDue_of_ok henter hd)]
        rw [Run.after_of_ok hd] at hdone
        exact hmark (s := (u.scheduler.reach limit).leave) ⟨rfl, rfl⟩ (hreach hl) hdone

theorem schedule_eq_ok (h : schedule wake steps thread limit w = .ok () v) :
    limit ≠ .asap ∧
      (w.scheduler.isIdleUntil limit = true ∧
          v = { w with scheduler := (w.scheduler.ownedBy thread).reach limit } ∨
        ∃ u, dispatch wake limit steps { w with scheduler := w.scheduler.enteredBy thread } =
            .ok () u ∧
          (u.scheduler.takeDue limit).1 = none ∧
          v = { u with scheduler := (u.scheduler.reach limit).leave }) := by
  cases hi : w.scheduler.isIdleUntil limit with
  | true =>
    rw [schedule_of_idle hi] at h
    obtain ⟨s, hs, rfl⟩ := onScheduler_eq_ok.mp h
    obtain ⟨-, -, rfl⟩ := Scheduler.idle_eq_ok.mp hs
    exact ⟨Scheduler.ne_asap_of_isIdleUntil hi, Or.inl ⟨rfl, rfl⟩⟩
  | false =>
    rw [schedule_of_due hi] at h
    obtain ⟨s, u, henter, hd, rfl⟩ := scheduleDue_eq_ok.mp h
    obtain ⟨-, hl, -, rfl⟩ := Scheduler.enter_eq_ok.mp henter
    exact ⟨hl, Or.inr ⟨u, hd, takeDue_of_dispatch hd, rfl⟩⟩

end World
end Timebase
