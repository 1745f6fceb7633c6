import Timebase.Dispatch.Schedule
import Timebase.Proofs.Storage
import Timebase.Proofs.Run

/-!
# Operations one by one

Each operation of a scheduler or a world comes out in one of a few ways: what it answers and what
it leaves behind are given for each of them.
-/

namespace Timebase

namespace Scheduler

variable {s s' : Scheduler} {thread : ThreadId} {operation : OwnerOperation} {t limit : Instant}
  {device : DeviceId} {tag : Tag} {p : SyncPoint}

/-- The owner bound to a thread. -/
def ownedBy (s : Scheduler) (thread : ThreadId) : Scheduler := { s with owner := some thread }

/-- The delivery of wake-ups under way for a thread. -/
def enteredBy (s : Scheduler) (thread : ThreadId) : Scheduler :=
  { s.ownedBy thread with dispatching := true }

theorem checkOwner_of_owner (h : s.owner.getD thread = thread) :
    checkOwner thread operation s = .ok () (s.ownedBy thread) := by
  have hb : (s.owner.getD thread == thread) = true := beq_iff_eq.mpr h
  show (Run.demand (s.owner.getD thread == thread) _ : Run Scheduler Unit)
    { s with owner := some (s.owner.getD thread) } = _
  rw [hb, h]
  rfl

theorem checkOwner_of_foreign (h : s.owner.getD thread ≠ thread) :
    checkOwner thread operation s = .error (.fault (.violated (.foreignThread operation))) s := by
  have hb : (s.owner.getD thread == thread) = false := beq_eq_false_iff_ne.mpr h
  have hs : { s with owner := some (s.owner.getD thread) } = s := by
    cases s with
    | mk pending currentTime nextKey owner dispatching =>
      cases owner with
      | none => exact absurd rfl h
      | some o => rfl
  show (Run.demand (s.owner.getD thread == thread) _ : Run Scheduler Unit)
    { s with owner := some (s.owner.getD thread) } = _
  rw [hb, hs]
  rfl

theorem setCurrentTime_of_foreign (ho : s.owner.getD thread ≠ thread) :
    setCurrentTime thread t s =
      .error (.fault (.violated (.foreignThread .setCurrentTime))) s :=
  Run.bind_of_error (checkOwner_of_foreign ho)

theorem setCurrentTime_of_ok (ho : s.owner.getD thread = thread) (ht : t ≠ .asap)
    (hle : s.currentTime ≤ t) :
    setCurrentTime thread t s = .ok () { s.ownedBy thread with currentTime := t } := by
  have hb : (!t.isAsap && decide (s.currentTime ≤ t)) = true := by
    simp [Instant.isAsap_of_ne ht, hle]
  rw [setCurrentTime, Run.bind_of_ok (checkOwner_of_owner ho)]
  show (Run.demand (!t.isAsap && decide (s.currentTime ≤ t)) _ >>= fun _ => _ :
    Run Scheduler Unit) (s.ownedBy thread) = _
  rw [hb]
  rfl

theorem setCurrentTime_of_back (ho : s.owner.getD thread = thread)
    (h : t = .asap ∨ t < s.currentTime) :
    setCurrentTime thread t s =
      .error (.fault (.violated (.timeReversed s.currentTime t))) (s.ownedBy thread) := by
  have hb : (!t.isAsap && decide (s.currentTime ≤ t)) = false := by
    rcases h with rfl | h
    · rfl
    · simp [Instant.not_le.mpr h]
  rw [setCurrentTime, Run.bind_of_ok (checkOwner_of_owner ho)]
  show (Run.demand (!t.isAsap && decide (s.currentTime ≤ t)) _ >>= fun _ => _ :
    Run Scheduler Unit) (s.ownedBy thread) = _
  rw [hb]
  rfl

theorem idle_of_foreign (ho : s.owner.getD thread ≠ thread) :
    idle thread limit s = .error (.fault (.violated (.foreignThread .schedule))) s :=
  Run.bind_of_error (checkOwner_of_foreign ho)

theorem idle_of_ok (ho : s.owner.getD thread = thread) (hd : s.dispatching = false) :
    idle thread limit s = .ok () ((s.ownedBy thread).reach limit) := by
  rw [idle, Run.bind_of_ok (checkOwner_of_owner ho)]
  show (Run.demand (!s.dispatching) _ >>= fun _ => _ : Run Scheduler Unit)
    (s.ownedBy thread) = _
  rw [hd]
  rfl

theorem idle_of_dispatching (ho : s.owner.getD thread = thread) (hd : s.dispatching = true) :
    idle thread limit s = .error (.fault (.violated .reentered)) (s.ownedBy thread) := by
  rw [idle, Run.bind_of_ok (checkOwner_of_owner ho)]
  show (Run.demand (!s.dispatching) _ >>= fun _ => _ : Run Scheduler Unit)
    (s.ownedBy thread) = _
  rw [hd]
  rfl

theorem enter_of_foreign (ho : s.owner.getD thread ≠ thread) :
    enter thread limit s = .error (.fault (.violated (.foreignThread .schedule))) s :=
  Run.bind_of_error (checkOwner_of_foreign ho)

theorem enter_of_asap (ho : s.owner.getD thread = thread) :
    enter thread .asap s = .error (.fault (.violated .scheduleToAsap)) (s.ownedBy thread) := by
  rw [enter, Run.bind_of_ok (checkOwner_of_owner ho)]
  rfl

theorem enter_of_ok (ho : s.owner.getD thread = thread) (hl : limit ≠ .asap)
    (hd : s.dispatching = false) :
    enter thread limit s = .ok () (s.enteredBy thread) := by
  rw [enter, Run.bind_of_ok (checkOwner_of_owner ho)]
  show (Run.demand (!limit.isAsap) _ >>= fun _ => _ : Run Scheduler Unit) (s.ownedBy thread) = _
  rw [Instant.isAsap_of_ne hl]
  show (Run.demand (!s.dispatching) _ : Run Scheduler Unit) (s.enteredBy thread) = _
  rw [hd]
  rfl

theorem enter_of_dispatching (ho : s.owner.getD thread = thread) (hl : limit ≠ .asap)
    (hd : s.dispatching = true) :
    enter thread limit s =
      .error (.fault (.violated .reentered)) (s.enteredBy thread) := by
  rw [enter, Run.bind_of_ok (checkOwner_of_owner ho)]
  show (Run.demand (!limit.isAsap) _ >>= fun _ => _ : Run Scheduler Unit) (s.ownedBy thread) = _
  rw [Instant.isAsap_of_ne hl]
  show (Run.demand (!s.dispatching) _ : Run Scheduler Unit) (s.enteredBy thread) = _
  rw [hd]
  rfl

theorem idle_eq_ok :
    idle thread limit s = .ok () s' ↔
      s.owner.getD thread = thread ∧ s.dispatching = false ∧
        s' = (s.ownedBy thread).reach limit := by
  constructor
  · intro h
    by_cases ho : s.owner.getD thread = thread
    · cases hd : s.dispatching with
      | true =>
        rw [idle_of_dispatching ho hd] at h
        cases h
      | false =>
        rw [idle_of_ok ho hd] at h
        cases h
        exact ⟨ho, rfl, rfl⟩
    · rw [idle_of_foreign ho] at h
      cases h
  · rintro ⟨ho, hd, rfl⟩
    exact idle_of_ok ho hd

/-- What an attempt to set the time may leave behind. -/
theorem setCurrentTime_after (thread : ThreadId) (t : Instant) (s : Scheduler) :
    (setCurrentTime thread t).after s = s ∨
      s.owner.getD thread = thread ∧
        ((setCurrentTime thread t).after s = s.ownedBy thread ∨
          t ≠ .asap ∧
            (setCurrentTime thread t).after s = { s.ownedBy thread with currentTime := t }) := by
  by_cases ho : s.owner.getD thread = thread
  · refine Or.inr ⟨ho, ?_⟩
    by_cases hb : t = .asap ∨ t < s.currentTime
    · exact Or.inl (Run.after_of_error (setCurrentTime_of_back ho hb))
    · have ht : t ≠ .asap := fun h => hb (Or.inl h)
      have hle : s.currentTime ≤ t := Instant.not_lt.mp fun h => hb (Or.inr h)
      exact Or.inr ⟨ht, Run.after_of_ok (setCurrentTime_of_ok ho ht hle)⟩
  · exact Or.inl (Run.after_of_error (setCurrentTime_of_foreign ho))

theorem idle_after (thread : ThreadId) (limit : Instant) (s : Scheduler) :
    (idle thread limit).after s = s ∨
      s.owner.getD thread = thread ∧
        ((idle thread limit).after s = s.ownedBy thread ∨
          (idle thread limit).after s = (s.ownedBy thread).reach limit) := by
  by_cases ho : s.owner.getD thread = thread
  · refine Or.inr ⟨ho, ?_⟩
    cases hd : s.dispatching with
    | true => exact Or.inl (Run.after_of_error (idle_of_dispatching ho hd))
    | false => exact Or.inr (Run.after_of_ok (idle_of_ok ho hd))
  · exact Or.inl (Run.after_of_error (idle_of_foreign ho))

theorem enter_after (thread : ThreadId) (limit : Instant) (s : Scheduler) :
    (enter thread limit).after s = s ∨
      s.owner.getD thread = thread ∧
        ((enter thread limit).after s = s.ownedBy thread ∨
          (enter thread limit).after s = s.enteredBy thread) := by
  by_cases ho : s.owner.getD thread = thread
  · refine Or.inr ⟨ho, ?_⟩
    by_cases hl : limit = .asap
    · rw [hl]
      exact Or.inl (Run.after_of_error (enter_of_asap ho))
    · cases hd : s.dispatching with
      | true => exact Or.inr (Run.after_of_error (enter_of_dispatching ho hl hd))
      | false => exact Or.inr (Run.after_of_ok (enter_of_ok ho hl hd))
  · exact Or.inl (Run.after_of_error (enter_of_foreign ho))

theorem enter_eq_ok :
    enter thread limit s = .ok () s' ↔
      s.owner.getD thread = thread ∧ limit ≠ .asap ∧ s.dispatching = false ∧
        s' = s.enteredBy thread := by
  constructor
  · intro h
    by_cases ho : s.owner.getD thread = thread
    · by_cases hl : limit = .asap
      · rw [hl, enter_of_asap ho] at h
        cases h
      · cases hd : s.dispatching with
        | true =>
          rw [enter_of_dispatching ho hl hd] at h
          cases h
        | false =>
          rw [enter_of_ok ho hl hd] at h
          cases h
          exact ⟨ho, hl, rfl, rfl⟩
    · rw [enter_of_foreign ho] at h
      cases h
  · rintro ⟨ho, hl, hd, rfl⟩
    exact enter_of_ok ho hl hd

theorem register_eq_ok :
    s.register t device tag = .ok s' ↔
      (t = .asap ∨ s.currentTime ≤ t) ∧
        s' = refresh { s with pending := s.pending.push t device tag } := by
  have hb : (t.isAsap || decide (s.currentTime ≤ t)) = true ↔
      (t = .asap ∨ s.currentTime ≤ t) := by
    rw [Bool.or_eq_true, Instant.isAsap_iff, decide_eq_true_iff]
  rw [← hb, register]
  cases (t.isAsap || decide (s.currentTime ≤ t)) with
  | true => exact ⟨fun h => ⟨rfl, (Except.ok.inj h).symm⟩, fun h => congrArg _ h.2.symm⟩
  | false => exact ⟨fun h => (by cases h), fun h => (by cases h.1)⟩

theorem queue_register (h : s.register t device tag = .ok s') :
    s'.queue = s.queue.insert ⟨t, device, tag, s.nextSeq⟩ := by
  obtain ⟨-, rfl⟩ := register_eq_ok.mp h
  exact s.pending.queue_push t device tag

theorem mem_queue_register {q : SyncPoint} (h : s.register t device tag = .ok s') :
    q ∈ s'.queue ↔ q = ⟨t, device, tag, s.nextSeq⟩ ∨ q ∈ s.queue := by
  rw [queue_register h]
  exact Queue.mem_insert

theorem perm_of_register (h : s.register t device tag = .ok s') :
    s'.queue.Perm (⟨t, device, tag, s.nextSeq⟩ :: s.queue) := by
  rw [queue_register h]
  exact Queue.insert_perm _ s.queue

theorem nextSeq_register (h : s.register t device tag = .ok s') : s'.nextSeq = s.nextSeq + 1 := by
  obtain ⟨-, rfl⟩ := register_eq_ok.mp h
  rfl

theorem cancel_of_found (h : s.find? device tag = some p) :
    s.cancel device tag =
      (true, refresh { s with pending := s.pending.removeOne (SyncPoint.isFor device tag) }) := by
  have hh : s.pending.has (SyncPoint.isFor device tag) = true := by
    rw [Pending.has_eq_isSome]
    exact Option.isSome_of_eq_some h
  rw [cancel, if_pos hh]

theorem cancel_of_none (h : s.find? device tag = none) : s.cancel device tag = (false, s) := by
  have hh : s.pending.has (SyncPoint.isFor device tag) = false := by
    rw [Pending.has_eq_isSome]
    exact Option.isSome_eq_false_iff.mpr (Option.isNone_iff_eq_none.mpr h)
  rw [cancel, if_neg (by simp [hh])]

theorem nextSeq_cancel (device : DeviceId) (tag : Tag) (s : Scheduler) :
    (s.cancel device tag).2.nextSeq = s.nextSeq := by
  rw [cancel]
  split <;> rfl

theorem queue_cancel (h : s.find? device tag = some p) :
    (s.cancel device tag).2.queue = s.queue.erase p := by
  rw [cancel_of_found h]
  exact s.pending.queue_removeOne h

theorem perm_of_cancel (h : s.find? device tag = some p) :
    s.queue.Perm (p :: (s.cancel device tag).2.queue) := by
  rw [queue_cancel h]
  exact List.perm_cons_erase (mem_of_find? h).1

theorem queue_cancel_sublist (device : DeviceId) (tag : Tag) (s : Scheduler) :
    (s.cancel device tag).2.queue.Sublist s.queue := by
  cases h : s.find? device tag with
  | none => simp [cancel_of_none h]
  | some p =>
    rw [queue_cancel h]
    exact List.erase_sublist

theorem cancelAll_cases (device : DeviceId) (s : Scheduler) :
    (s.cancelAll device).2 =
        refresh { s with pending := s.pending.removeAll fun p => p.device == device } ∨
      (s.queue.filter fun p => p.device != device) = s.queue ∧ (s.cancelAll device).2 = s := by
  by_cases h : 0 < s.pending.size - (s.pending.removeAll fun p => p.device == device).size
  · exact Or.inl (if_pos h)
  · refine Or.inr ⟨?_, if_neg h⟩
    rw [Pending.size_eq_length, Pending.size_eq_length, Pending.queue_removeAll] at h
    apply List.filter_sublist.eq_of_length_le
    show s.pending.queue.length ≤ (s.pending.queue.filter fun p => !(p.device == device)).length
    omega

theorem queue_cancelAll (device : DeviceId) (s : Scheduler) :
    (s.cancelAll device).2.queue = s.queue.filter fun p => p.device != device := by
  rcases cancelAll_cases device s with h | ⟨hsame, h⟩
  · rw [h]
    exact s.pending.queue_removeAll _
  · rw [h, hsame]

theorem perm_of_cancelAll (device : DeviceId) (s : Scheduler) :
    s.queue.Perm
      ((s.cancelAll device).2.queue ++ s.queue.filter fun p => p.device == device) := by
  rw [queue_cancelAll]
  have h := List.filter_append_perm (fun p : SyncPoint => p.device != device) s.queue
  simp only [bne, Bool.not_not] at h ⊢
  exact h.symm

theorem first?_of_queue {rest : Queue} (hq : s.queue = p :: rest) : s.pending.first? = some p := by
  rw [Pending.first?_eq_head?]
  exact congrArg List.head? hq

theorem takeDue_of_due {rest : Queue} (hq : s.queue = p :: rest)
    (h : p.time ≤ limit) :
    s.takeDue limit =
      (some (p, s.deliveryTime p),
        { refresh { s with pending := s.pending.pop } with currentTime := s.deliveryTime p }) := by
  rw [takeDue, first?_of_queue hq]
  exact if_pos h

theorem takeDue_of_none (h : ∀ p ∈ s.queue, limit < p.time) :
    s.takeDue limit = (none, s) := by
  cases hq : s.queue with
  | nil =>
    have hfirst : s.pending.first? = none := by
      rw [Pending.first?_eq_head?]
      exact congrArg List.head? hq
    rw [takeDue, hfirst]
  | cons p rest =>
    rw [takeDue, first?_of_queue hq]
    exact if_neg (Instant.not_le.mpr (h p (hq ▸ List.mem_cons_self)))

theorem head_le {rest : Queue} (hq : s.queue = p :: rest) : ∀ q ∈ s.queue, p.time ≤ q.time := by
  have hsorted := s.sorted_queue
  rw [hq] at hsorted ⊢
  intro q h
  rcases List.mem_cons.mp h with rfl | h
  · exact Instant.le_refl _
  · exact ((List.pairwise_cons.mp hsorted).1 q h).time_le

theorem lt_of_takeDue_none (h : (s.takeDue limit).1 = none) : ∀ p ∈ s.queue, limit < p.time := by
  intro p hp
  rw [← Instant.not_le]
  intro hle
  cases hq : s.queue with
  | nil =>
    rw [hq] at hp
    cases hp
  | cons q rest =>
    rw [takeDue_of_due hq (Instant.le_trans (head_le hq p hp) hle)] at h
    cases h

theorem takeDue_eq_some :
    s.takeDue limit = (some (p, t), s') ↔
      ∃ rest, s.queue = p :: rest ∧ p.time ≤ limit ∧ t = s.deliveryTime p ∧
        s' = { refresh { s with pending := s.pending.pop } with
          currentTime := s.deliveryTime p } := by
  constructor
  · intro h
    cases hq : s.queue with
    | nil =>
      rw [takeDue_of_none (by simp [hq])] at h
      cases h
    | cons q rest =>
      by_cases hd : q.time ≤ limit
      · rw [takeDue_of_due hq hd] at h
        cases h
        exact ⟨rest, rfl, hd, rfl, rfl⟩
      · have hn : ∀ p ∈ s.queue, limit < p.time := fun p hp =>
          Instant.lt_of_lt_of_le (Instant.not_le.mp hd) (head_le hq p hp)
        rw [takeDue_of_none hn] at h
        cases h
  · rintro ⟨rest, hq, hd, rfl, rfl⟩
    exact takeDue_of_due hq hd

theorem queue_takeDue (h : s.takeDue limit = (some (p, t), s')) : s.queue = p :: s'.queue := by
  obtain ⟨rest, hq, -, -, rfl⟩ := takeDue_eq_some.mp h
  rw [hq]
  have hpop : s.pending.pop.queue = s.queue.tail := s.pending.queue_pop
  rw [hq] at hpop
  exact congrArg (List.cons p) hpop.symm

theorem mem_of_takeDue (h : s.takeDue limit = (some (p, t), s')) : p ∈ s.queue := by
  rw [queue_takeDue h]
  exact List.mem_cons_self

theorem queue_takeDue_subset (h : s.takeDue limit = (some (p, t), s')) : s'.queue ⊆ s.queue := by
  rw [queue_takeDue h]
  exact List.subset_cons_self p s'.queue

end Scheduler

namespace World

variable {σ α : Type} {w v u : World σ} {wake : Wake σ} {steps : Nat} {thread : ThreadId}
  {limit time : Instant} {device : DeviceId} {tag : Tag} {p : SyncPoint} {scheduler : Scheduler}

theorem onScheduler_of_ok {act : Run Scheduler α} {a : α} (h : act w.scheduler = .ok a scheduler) :
    onScheduler act w = .ok a { w with scheduler } := Run.on_of_ok h

theorem onScheduler_of_error {act : Run Scheduler α} {halt : Halt}
    (h : act w.scheduler = .error halt scheduler) :
    onScheduler act w = .error halt { w with scheduler } := Run.on_of_error h

theorem onScheduler_eq_ok {act : Run Scheduler α} {a : α} :
    onScheduler act w = .ok a v ↔
      ∃ scheduler, act w.scheduler = .ok a scheduler ∧ v = { w with scheduler } := by
  constructor
  · intro h
    cases hact : act w.scheduler with
    | ok b scheduler =>
      rw [onScheduler_of_ok hact] at h
      cases h
      exact ⟨scheduler, rfl, rfl⟩
    | error halt scheduler =>
      rw [onScheduler_of_error hact] at h
      cases h
  · rintro ⟨scheduler, hact, rfl⟩
    exact onScheduler_of_ok hact

theorem onScheduler_eq_error {act : Run Scheduler α} {halt : Halt} :
    onScheduler act w = .error halt v ↔
      ∃ scheduler, act w.scheduler = .error halt scheduler ∧ v = { w with scheduler } := by
  constructor
  · intro h
    cases hact : act w.scheduler with
    | ok a scheduler =>
      rw [onScheduler_of_ok hact] at h
      cases h
    | error halt' scheduler =>
      rw [onScheduler_of_error hact] at h
      cases h
      exact ⟨scheduler, rfl, rfl⟩
  · rintro ⟨scheduler, hact, rfl⟩
    exact onScheduler_of_error hact

theorem onDevices_of_ok {act : Run σ α} {a : α} {devices : σ} (h : act w.devices = .ok a devices) :
    onDevices act w = .ok a { w with devices } := Run.on_of_ok h

theorem onDevices_of_error {act : Run σ α} {halt : Halt} {devices : σ}
    (h : act w.devices = .error halt devices) :
    onDevices act w = .error halt { w with devices } := Run.on_of_error h

theorem after_onScheduler (act : Run Scheduler α) (w : World σ) :
    (onScheduler act).after w = { w with scheduler := act.after w.scheduler } := Run.after_on _ act w

theorem after_onDevices (act : Run σ α) (w : World σ) :
    (onDevices act).after w = { w with devices := act.after w.devices } := Run.after_on _ act w

theorem register_of_ok (h : w.scheduler.register time device tag = .ok scheduler) :
    register time device tag w = .ok () { w with scheduler } := by
  have hu : Run.update (fun s => s.register time device tag) w.scheduler = .ok () scheduler := by
    rw [Run.update, h]
  exact onScheduler_of_ok hu

theorem register_of_error {cause : Fault}
    (h : w.scheduler.register time device tag = .error cause) :
    register time device tag w = .error (.fault cause) w := by
  have hu : Run.update (fun s => s.register time device tag) w.scheduler =
      .error (.fault cause) w.scheduler := by
    rw [Run.update, h]
  exact onScheduler_of_error hu

theorem cancel_apply (device : DeviceId) (tag : Tag) (w : World σ) :
    cancel device tag w =
      .ok (w.scheduler.cancel device tag).1
        { w with scheduler := (w.scheduler.cancel device tag).2 } := rfl

theorem cancelAll_apply (device : DeviceId) (w : World σ) :
    cancelAll device w =
      .ok (w.scheduler.cancelAll device).1
        { w with scheduler := (w.scheduler.cancelAll device).2 } := rfl

theorem drop_of_owned (h : w.isOwned device = true) :
    drop device w =
      .ok true
        (({ w with lifetimes := w.lifetimes.modify device fun l => { l with owned := false } } :
          World σ).bury device) := by
  rw [isOwned] at h
  have hget : (get : Run (World σ) (World σ)) w = .ok w w := rfl
  rw [drop, Run.bind_of_ok hget]
  cases hl : w.lifetimes[device]? with
  | none =>
    rw [hl] at h
    cases h
  | some l =>
    rw [hl] at h
    have ho : l.owned = true := h
    simp only [ho, if_true]
    rfl

theorem drop_of_not_owned (h : w.isOwned device = false) : drop device w = .ok false w := by
  rw [isOwned] at h
  have hget : (get : Run (World σ) (World σ)) w = .ok w w := rfl
  rw [drop, Run.bind_of_ok hget]
  cases hl : w.lifetimes[device]? with
  | none => rfl
  | some l =>
    rw [hl] at h
    have ho : l.owned = false := h
    simp only [ho]
    rfl

theorem after_during (device : DeviceId) (act : Run (World σ) α) (w : World σ) :
    (during device act).after w = (act.after (w.retain device)).release device :=
  Run.after_ensuring act (release device) (w.retain device)

theorem during_of_ok {act : Run (World σ) α} {a : α} (h : act (w.retain device) = .ok a v) :
    during device act w = .ok a (v.release device) := Run.ensuring_of_ok h

theorem during_of_error {act : Run (World σ) α} {halt : Halt}
    (h : act (w.retain device) = .error halt v) :
    during device act w = .error halt (v.release device) := Run.ensuring_of_error h

theorem during_congr {act act' : Run (World σ) α}
    (h : act (w.retain device) = act' (w.retain device)) :
    during device act w = during device act' w := by
  show Run.ensuring act (release device) (w.retain device) = _
  rw [Run.ensuring, h]
  rfl

theorem deliver_of_alive (h : w.isAlive p.device = true) :
    deliver wake p time w = during p.device (wake p.device time p.tag) w := by
  show (if w.isAlive p.device then _ else _ : Run (World σ) Unit) w = _
  rw [if_pos h]

theorem deliver_of_gone (h : w.isAlive p.device = false) :
    deliver wake p time w = .ok () { w with skipped := w.skipped ++ [⟨p.tag, time⟩] } := by
  show (if w.isAlive p.device then _ else _ : Run (World σ) Unit) w = _
  rw [if_neg (by simp [h])]
  rfl

theorem dispatch_of_none (h : (w.scheduler.takeDue limit).1 = none) :
    dispatch wake limit (steps + 1) w = .ok () w := by
  rw [dispatch]
  cases hd : w.scheduler.takeDue limit with
  | mk taken scheduler =>
    rw [hd] at h
    cases h
    rfl

theorem dispatch_of_ok (h : w.scheduler.takeDue limit = (some (p, time), scheduler))
    (hp : deliver wake p time { w with scheduler } = .ok () v) :
    dispatch wake limit (steps + 1) w = dispatch wake limit steps v := by
  rw [dispatch, h]
  simp only [hp]

theorem dispatch_of_error {halt : Halt}
    (h : w.scheduler.takeDue limit = (some (p, time), scheduler))
    (hp : deliver wake p time { w with scheduler } = .error halt v) :
    dispatch wake limit (steps + 1) w = .error halt v := by
  rw [dispatch, h]
  simp only [hp]

/-- Delivery ends, goes on after the first sync point that is due, or breaks off there. -/
theorem dispatch_succ (wake : Wake σ) (limit : Instant) (steps : Nat) (w : World σ) :
    ((w.scheduler.takeDue limit).1 = none ∧ dispatch wake limit (steps + 1) w = .ok () w) ∨
      (∃ p time scheduler v, w.scheduler.takeDue limit = (some (p, time), scheduler) ∧
        deliver wake p time { w with scheduler } = .ok () v ∧
        dispatch wake limit (steps + 1) w = dispatch wake limit steps v) ∨
      ∃ p time scheduler halt v, w.scheduler.takeDue limit = (some (p, time), scheduler) ∧
        deliver wake p time { w with scheduler } = .error halt v ∧
        dispatch wake limit (steps + 1) w = .error halt v := by
  cases hd : w.scheduler.takeDue limit with
  | mk taken scheduler =>
    cases taken with
    | none => exact Or.inl ⟨rfl, dispatch_of_none (by rw [hd])⟩
    | some due =>
      obtain ⟨p, time⟩ := due
      refine Or.inr ?_
      cases hp : deliver wake p time { w with scheduler } with
      | ok _ v => exact Or.inl ⟨p, time, scheduler, v, rfl, hp, dispatch_of_ok hd hp⟩
      | error halt v =>
        exact Or.inr ⟨p, time, scheduler, halt, v, rfl, hp, dispatch_of_error hd hp⟩

/-- Delivery ends by itself only when nothing is due any more. -/
theorem takeDue_of_dispatch (h : dispatch wake limit steps w = .ok () v) :
    (v.scheduler.takeDue limit).1 = none := by
  induction steps generalizing w with
  | zero => cases h
  | succ steps ih =>
    rcases dispatch_succ wake limit steps w with
      ⟨hn, he⟩ | ⟨_, _, _, u, -, -, he⟩ | ⟨_, _, _, _, _, -, -, he⟩
    · rw [he] at h
      cases h
      exact hn
    · rw [he] at h
      exact ih h
    · rw [he] at h
      cases h

theorem schedule_of_idle (h : w.scheduler.isIdleUntil limit = true) :
    schedule wake steps thread limit w = onScheduler (Scheduler.idle thread limit) w := by
  show (if w.scheduler.isIdleUntil limit then _ else _ : Run (World σ) Unit) w = _
  rw [if_pos h]

theorem schedule_of_due (h : w.scheduler.isIdleUntil limit = false) :
    schedule wake steps thread limit w = scheduleDue wake steps thread limit w := by
  show (if w.scheduler.isIdleUntil limit then _ else _ : Run (World σ) Unit) w = _
  rw [if_neg (by simp [h])]

theorem scheduleDue_of_refused {halt : Halt}
    (h : onScheduler (Scheduler.enter thread limit) w = .error halt v) :
    scheduleDue wake steps thread limit w = .error halt v := Run.bind_of_error h

theorem scheduleDue_of_halted {halt : Halt}
    (henter : onScheduler (Scheduler.enter thread limit) w = .ok () v)
    (h : dispatch wake limit steps v = .error halt u) :
    scheduleDue wake steps thread limit w =
      .error halt { u with scheduler := u.scheduler.leave } := by
  rw [scheduleDue, Run.bind_of_ok henter]
  exact Run.ensuring_of_error (Run.bind_of_error h)

theorem scheduleDue_of_ok (henter : onScheduler (Scheduler.enter thread limit) w = .ok () v)
    (h : dispatch wake limit steps v = .ok () u) :
    scheduleDue wake steps thread limit w =
      .ok () { u with scheduler := (u.scheduler.reach limit).leave } := by
  have hr : (do
      dispatch wake limit steps
      onScheduler (modify (Scheduler.reach limit)) : Run (World σ) Unit) v =
        .ok () { u with scheduler := u.scheduler.reach limit } := by
    rw [Run.bind_of_ok h]
    rfl
  rw [scheduleDue, Run.bind_of_ok henter]
  exact Run.ensuring_of_ok hr

theorem scheduleDue_eq_ok :
    scheduleDue wake steps thread limit w = .ok () v ↔
      ∃ s u, Scheduler.enter thread limit w.scheduler = .ok () s ∧
        dispatch wake limit steps { w with scheduler := s } = .ok () u ∧
        v = { u with scheduler := (u.scheduler.reach limit).leave } := by
  constructor
  · intro h
    cases he : Scheduler.enter thread limit w.scheduler with
    | error halt s =>
      rw [scheduleDue_of_refused (onScheduler_of_error he)] at h
      cases h
    | ok _ s =>
      cases hd : dispatch wake limit steps { w with scheduler := s } with
      | error halt u =>
        rw [scheduleDue_of_halted (onScheduler_of_ok he) hd] at h
        cases h
      | ok _ u =>
        rw [scheduleDue_of_ok (onScheduler_of_ok he) hd] at h
        cases h
        exact ⟨s, u, rfl, hd, rfl⟩
  · rintro ⟨s, u, he, hd, rfl⟩
    exact scheduleDue_of_ok (onScheduler_of_ok he) hd

end World
end Timebase
