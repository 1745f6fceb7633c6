import Timebase.Proofs.Blindness
import Timebase.Proofs.Conservation

/-!
# Sync points apart from their numbers

A number tells only which of two sync points of the same instant was registered first, and the place
in the queue tells that as well. So operations do the same to queues that hold the same sync points
in order, whatever their numbers are, and also where one of the queues lacks sync points that are
not taken from the other. Only which of several matches is taken back is not told by the queue, but
by the heap.
-/

namespace Timebase

namespace SyncPoint

variable {p p' q : SyncPoint} {device : DeviceId} {tag : Tag}

/-- What was asked for, without the number of the registration. -/
def unnumbered (p : SyncPoint) : SyncPoint := { p with seq := 0 }

theorem unnumbered_eq_iff :
    p.unnumbered = p'.unnumbered ↔ p.time = p'.time ∧ p.device = p'.device ∧ p.tag = p'.tag := by
  cases p
  cases p'
  simp [unnumbered]

/-- A sync point registered after another comes due first only if its instant is earlier. -/
theorem before_iff_of_lt (h : q.seq < p.seq) : p.Before q ↔ p.time < q.time := by
  rw [before_iff, Instant.lt_iff_key]
  omega

theorem before_unnumbered : p.unnumbered.Before q.unnumbered ↔ p.time < q.time := by
  rw [before_iff, Instant.lt_iff_key]
  show p.time.key < q.time.key ∨ p.time.key = q.time.key ∧ 0 < 0 ↔ _
  omega

end SyncPoint

namespace Queue

variable {queue queue' : Queue} {p : SyncPoint} {keep f : SyncPoint → Bool}

def unnumbered (queue : Queue) : Queue := queue.map SyncPoint.unnumbered

theorem unnumbered_insert (h : ∀ q ∈ queue, q.seq < p.seq) :
    (queue.insert p).unnumbered = queue.unnumbered.insert p.unnumbered := by
  induction queue with
  | nil => rfl
  | cons q rest ih =>
    have hq := SyncPoint.before_iff_of_lt (h q List.mem_cons_self)
    have hrest := ih fun r hr => h r (List.mem_cons_of_mem q hr)
    by_cases hp : p.time < q.time
    · have hfirst : unnumbered (q :: rest) = q.unnumbered :: unnumbered rest := rfl
      rw [insert, if_pos (hq.mpr hp), hfirst, insert, if_pos (SyncPoint.before_unnumbered.mpr hp)]
      rfl
    · have hfirst : unnumbered (q :: rest) = q.unnumbered :: unnumbered rest := rfl
      rw [insert, if_neg (fun hb => hp (hq.mp hb)), hfirst, insert,
        if_neg (fun hb => hp (SyncPoint.before_unnumbered.mp hb)), ← hrest]
      rfl

theorem insert_of_before (h : ∀ q ∈ queue, p.Before q) : queue.insert p = p :: queue := by
  cases queue with
  | nil => rfl
  | cons q rest => exact if_pos (h q List.mem_cons_self)

theorem filter_insert_of_pos (hsorted : Sorted queue) (hp : keep p = true) :
    (queue.insert p).filter keep = Queue.insert p (queue.filter keep) := by
  induction queue with
  | nil => exact List.filter_cons_of_pos hp
  | cons q rest ih =>
    have hq := List.pairwise_cons.mp hsorted
    rw [insert]
    by_cases hb : p.Before q
    · have hall : ∀ r ∈ (q :: rest).filter keep, p.Before r := by
        intro r hr
        rcases List.mem_cons.mp ((List.mem_filter.mp hr).1) with rfl | hr
        · exact hb
        · exact hb.trans (hq.1 r hr)
      rw [if_pos hb, List.filter_cons_of_pos hp, insert_of_before hall]
    · rw [if_neg hb]
      by_cases hk : keep q = true
      · rw [List.filter_cons_of_pos hk, List.filter_cons_of_pos hk, ih hq.2, insert, if_neg hb]
      · rw [List.filter_cons_of_neg hk, List.filter_cons_of_neg hk, ih hq.2]

theorem unnumbered_filter (hf : ∀ p : SyncPoint, f p.unnumbered = f p) (queue : Queue) :
    Queue.unnumbered (queue.filter f) = queue.unnumbered.filter f := by
  rw [unnumbered, unnumbered, List.filter_map]
  congr 1
  exact List.filter_congr fun p _ => (hf p).symm

/-- Taking out the only match leaves what does not match. -/
theorem erase_of_single (h : queue.filter f = [p]) : queue.erase p = queue.filter fun q => !f q := by
  have hp : f p = true := (List.mem_filter.mp (h ▸ List.mem_singleton_self p)).2
  induction queue with
  | nil => rfl
  | cons q rest ih =>
    cases hq : f q with
    | true =>
      rw [List.filter_cons_of_pos hq] at h
      obtain ⟨rfl, hnone⟩ := List.cons.inj h
      rw [List.filter_eq_nil_iff] at hnone
      rw [List.erase_cons_head, List.filter_cons_of_neg (by simp [hq])]
      exact (List.filter_eq_self.mpr fun r hr => by simp [hnone r hr]).symm
    | false =>
      have hne : q ≠ p := fun hqp => by rw [hqp, hp] at hq; cases hq
      rw [List.filter_cons_of_neg (by simp [hq])] at h
      rw [List.erase_cons_tail (by simpa using hne), List.filter_cons_of_pos (by simp [hq]), ih h]

end Queue

namespace Run

/-- The same result or the same halt, in states that belong together. -/
inductive SameEnd {σ τ α : Type} (R : σ → τ → Prop) :
    EStateM.Result Halt σ α → EStateM.Result Halt τ α → Prop where
  | ok (a : α) {s : σ} {t : τ} (h : R s t) : SameEnd R (.ok a s) (.ok a t)
  | error (halt : Halt) {s : σ} {t : τ} (h : R s t) : SameEnd R (.error halt s) (.error halt t)

end Run

namespace Scheduler

open Run (Commutes SameEnd)

variable {s s' s₁ s₁' : Scheduler} {keep : SyncPoint → Bool} {thread : ThreadId}
  {operation : OwnerOperation} {t limit : Instant} {device : DeviceId} {tag : Tag} {p : SyncPoint}
  {α : Type}

/-- The same time with other sync points pending. -/
def pendingFrom (s' s : Scheduler) : Scheduler :=
  { s with pending := s'.pending, nextKey := s'.nextKey }

theorem SameTime.eq_pendingFrom (h : SameTime s s') : s' = s'.pendingFrom s := by
  rw [pendingFrom, ← h.currentTime, ← h.owner, ← h.dispatching]

theorem checkOwner_commutes (s' : Scheduler) :
    Commutes s'.pendingFrom (checkOwner thread operation) := by
  intro s
  by_cases ho : s.owner.getD thread = thread
  · rw [checkOwner_of_owner ho, checkOwner_of_owner (s := s'.pendingFrom s) ho]
    rfl
  · rw [checkOwner_of_foreign ho, checkOwner_of_foreign (s := s'.pendingFrom s) ho]
    rfl

theorem setCurrentTime_commutes (s' : Scheduler) :
    Commutes s'.pendingFrom (setCurrentTime thread t) :=
  (checkOwner_commutes s').bind fun _ =>
    .get_bind (fun _ => (Commutes.lift _).bind fun _ => fun _ => rfl) fun _ => rfl

theorem idle_commutes (s' : Scheduler) : Commutes s'.pendingFrom (idle thread limit) :=
  (checkOwner_commutes s').bind fun _ =>
    .get_bind (fun _ => (Commutes.lift _).bind fun _ => fun _ => rfl) fun _ => rfl

theorem enter_commutes (s' : Scheduler) : Commutes s'.pendingFrom (enter thread limit) :=
  (checkOwner_commutes s').bind fun _ => (Commutes.lift _).bind fun _ =>
    .get_bind (fun _ => Commutes.bind (fun _ => rfl) fun _ => .lift _) fun _ => rfl

theorem pending_cancel (h : s'.pending = s.pending) (device : DeviceId) (tag : Tag) :
    (s'.cancel device tag).2.pending = (s.cancel device tag).2.pending := by
  rw [Scheduler.cancel, Scheduler.cancel, h]
  split
  · rfl
  · exact h

theorem pending_cancelAll (h : s'.pending = s.pending) (device : DeviceId) :
    (s'.cancelAll device).2.pending = (s.cancelAll device).2.pending := by
  rw [Scheduler.cancelAll, Scheduler.cancelAll, h]
  dsimp only
  split
  · rfl
  · exact h

/-- A scheduler whose queue lacks those sync points of another one that are not kept, and nothing
else. The numbers may differ. -/
structure Lacking (keep : SyncPoint → Bool) (s s' : Scheduler) : Prop where
  queue : Queue.unnumbered (s.queue.filter keep) = Queue.unnumbered s'.queue
  time : SameTime s s'
  sound : s.Sound
  sound' : s'.Sound

namespace Lacking

variable (h : Lacking keep s s')

include h

theorem moved (hs : SamePending s s₁) (hs' : SamePending s' s₁') (ht : SameTime s₁ s₁') :
    Lacking keep s₁ s₁' where
  queue := by
    rw [hs.queue, hs'.queue]
    exact h.queue
  time := ht
  sound := hs.sound h.sound
  sound' := hs'.sound h.sound'

theorem run {act : Run Scheduler α} (hact : Commutes s'.pendingFrom act)
    (hpending : ∀ s, SamePending s (act.after s)) : SameEnd (Lacking keep) (act s) (act s') := by
  have hafter : Lacking keep (act.after s) (s'.pendingFrom (act.after s)) :=
    h.moved (hpending s) ⟨rfl, rfl⟩ ⟨rfl, rfl, rfl⟩
  have hrun : act s' = Run.changed s'.pendingFrom (act s) := by
    rw [h.time.eq_pendingFrom]
    exact hact s
  rw [hrun]
  rcases Run.ok_or_error act s with ⟨a, hs⟩ | ⟨halt, hs⟩
  · rw [hs]
    exact .ok a hafter
  · rw [hs]
    exact .error halt hafter

theorem setCurrentTime : SameEnd (Lacking keep) (Scheduler.setCurrentTime thread t s)
    (Scheduler.setCurrentTime thread t s') :=
  h.run (setCurrentTime_commutes s') (samePending_setCurrentTime thread t)

theorem idle : SameEnd (Lacking keep) (Scheduler.idle thread limit s)
    (Scheduler.idle thread limit s') :=
  h.run (idle_commutes s') (samePending_idle thread limit)

theorem enter : SameEnd (Lacking keep) (Scheduler.enter thread limit s)
    (Scheduler.enter thread limit s') :=
  h.run (enter_commutes s') (samePending_enter thread limit)

theorem reach (limit : Instant) : Lacking keep (s.reach limit) (s'.reach limit) :=
  h.moved (samePending_reach limit s) (samePending_reach limit s')
    ⟨congrArg (·.later limit) h.time.currentTime, h.time.owner, h.time.dispatching⟩

theorem leave : Lacking keep s.leave s'.leave :=
  h.moved (samePending_leave s) (samePending_leave s') ⟨h.time.currentTime, h.time.owner, rfl⟩

theorem register
    (hkeep : t = .asap ∨ s.currentTime ≤ t → keep ⟨t, device, tag, s.nextSeq⟩ = true) :
    (∃ s₁ s₁', s.register t device tag = .ok s₁ ∧ s'.register t device tag = .ok s₁' ∧
        Lacking keep s₁ s₁') ∨
      ∃ cause, s.register t device tag = .error cause ∧
        s'.register t device tag = .error cause := by
  by_cases ht : t = .asap ∨ s.currentTime ≤ t
  · have ht' : t = .asap ∨ s'.currentTime ≤ t := by rwa [h.time.currentTime]
    have hs : s.register t device tag = _ := register_eq_ok.mpr ⟨ht, rfl⟩
    have hs' : s'.register t device tag = _ := register_eq_ok.mpr ⟨ht', rfl⟩
    refine Or.inl ⟨_, _, hs, hs', ?_, ?_, .register hs, .register hs'⟩
    · have hfresh : ∀ q ∈ s.queue.filter keep, q.seq < s.nextSeq := fun q hq =>
        seq_lt_nextSeq (List.mem_filter.mp hq).1
      have hfresh' : ∀ q ∈ s'.queue, q.seq < s'.nextSeq := fun q hq => seq_lt_nextSeq hq
      rw [queue_register hs, queue_register hs', Queue.filter_insert_of_pos s.sorted_queue (hkeep ht),
        Queue.unnumbered_insert hfresh, h.queue, Queue.unnumbered_insert hfresh']
      rfl
    · exact ⟨h.time.currentTime, h.time.owner, h.time.dispatching⟩
  · have hb : (t.isAsap || decide (s.currentTime ≤ t)) = false := by
      rw [Bool.eq_false_iff]
      intro hb
      rw [Bool.or_eq_true, Instant.isAsap_iff, decide_eq_true_iff] at hb
      exact ht hb
    refine Or.inr ⟨.violated (.pastSyncPoint t s.currentTime), ?_, ?_⟩
    · rw [Scheduler.register, hb]
      rfl
    · rw [Scheduler.register, h.time.currentTime, hb]
      rfl

/-- What is not kept may come and go. -/
theorem left_out (hqueue : s₁.queue.filter keep = s.queue.filter keep) (htime : SameTime s s₁)
    (hsound : s₁.Sound) : Lacking keep s₁ s' where
  queue := by
    rw [hqueue]
    exact h.queue
  time := ⟨h.time.currentTime.trans htime.currentTime.symm, h.time.owner.trans htime.owner.symm,
    h.time.dispatching.trans htime.dispatching.symm⟩
  sound := hsound
  sound' := h.sound'

theorem any_eq {f : SyncPoint → Bool} (hf : ∀ p : SyncPoint, f p.unnumbered = f p) :
    s'.queue.any f = (s.queue.filter keep).any f := by
  have hmap (queue : Queue) : (Queue.unnumbered queue).any f = queue.any f := by
    rw [Queue.unnumbered, List.any_map]
    exact congrArg (List.any queue) (funext hf)
  rw [← hmap, ← h.queue, hmap]

theorem filter_eq {f : SyncPoint → Bool} (hf : ∀ p : SyncPoint, f p.unnumbered = f p) :
    Queue.unnumbered ((s.queue.filter f).filter keep) = Queue.unnumbered (s'.queue.filter f) := by
  have hcomm : (s.queue.filter f).filter keep = (s.queue.filter keep).filter f := by
    rw [List.filter_filter, List.filter_filter]
    simp only [Bool.and_comm]
  rw [hcomm, Queue.unnumbered_filter hf, h.queue, ← Queue.unnumbered_filter hf]

theorem filter_kind {f : SyncPoint → Bool} (hf : ∀ p : SyncPoint, f p.unnumbered = f p)
    (hall : ∀ p ∈ s.queue.filter f, keep p = true) :
    Queue.unnumbered (s.queue.filter f) = Queue.unnumbered (s'.queue.filter f) := by
  rw [← h.filter_eq hf, List.filter_eq_self.mpr hall]

theorem kept (hsame : s'.pending = s.pending) (hp : p ∈ s.queue) : keep p = true := by
  have hqueue : s'.queue = s.queue := congrArg Pending.queue hsame
  have hlength := congrArg List.length h.queue
  rw [hqueue, Queue.unnumbered, Queue.unnumbered, List.length_map, List.length_map] at hlength
  exact List.length_filter_eq_length_iff.mp hlength p hp

theorem not_found (hf : s.find? device tag = none) : s'.find? device tag = none := by
  have hany := h.any_eq (f := SyncPoint.isFor device tag) fun _ => rfl
  have hnone : (s.queue.filter keep).any (SyncPoint.isFor device tag) = false :=
    List.any_eq_false.mpr fun q hq => find?_eq_none.mp hf q (List.mem_filter.mp hq).1
  rw [hnone] at hany
  exact find?_eq_none.mpr (List.any_eq_false.mp hany)

/-- What is found and kept is found in both, if it is stored at the same place or the only match. -/
theorem found (hf : s.find? device tag = some p) (hkeep : keep p = true)
    (hone : s'.pending = s.pending ∨ s.queue.filter (SyncPoint.isFor device tag) = [p]) :
    ∃ p', s'.find? device tag = some p' ∧ p.unnumbered = p'.unnumbered ∧
      Queue.unnumbered ((s.queue.erase p).filter keep) = Queue.unnumbered (s'.queue.erase p') := by
  rcases hone with hsame | hone
  · have hqueue : s'.queue = s.queue := congrArg Pending.queue hsame
    have hall : ∀ q ∈ s.queue.erase p, keep q = true := fun q hq =>
      h.kept hsame (List.mem_of_mem_erase hq)
    refine ⟨p, ?_, rfl, ?_⟩
    · rw [Scheduler.find?, hsame]
      exact hf
    · rw [List.filter_eq_self.mpr hall, hqueue]
  · have hkind := h.filter_kind (f := SyncPoint.isFor device tag) (fun _ => rfl)
      fun q hq => by rw [hone] at hq; exact List.mem_singleton.mp hq ▸ hkeep
    rw [hone] at hkind
    obtain ⟨p', hone', hp⟩ := List.map_eq_singleton_iff.mp hkind.symm
    refine ⟨p', find?_of_single hone', hp.symm, ?_⟩
    rw [Queue.erase_of_single hone, Queue.erase_of_single hone']
    exact h.filter_eq fun _ => rfl

/-- What is taken back is kept, or there is nothing to take back. -/
theorem cancel (hfound : ∀ p, s.find? device tag = some p → keep p = true ∧
      (s'.pending = s.pending ∨ s.queue.filter (SyncPoint.isFor device tag) = [p])) :
    (s'.cancel device tag).1 = (s.cancel device tag).1 ∧
      Lacking keep (s.cancel device tag).2 (s'.cancel device tag).2 := by
  have htime := sameTime_cancel device tag s
  have htime' := sameTime_cancel device tag s'
  have hsound := h.sound.cancel device tag
  have hsound' := h.sound'.cancel device tag
  cases hf : s.find? device tag with
  | none =>
    rw [cancel_of_none hf, cancel_of_none (h.not_found hf)]
    exact ⟨rfl, h⟩
  | some p =>
    obtain ⟨hkeep, hone⟩ := hfound p hf
    obtain ⟨p', hf', -, hqueue⟩ := h.found hf hkeep hone
    refine ⟨by rw [cancel_of_found hf, cancel_of_found hf'], ?_, ⟨?_, ?_, ?_⟩, hsound, hsound'⟩
    · rw [queue_cancel hf, queue_cancel hf', hqueue]
    · rw [htime.currentTime, htime'.currentTime, h.time.currentTime]
    · rw [htime.owner, htime'.owner, h.time.owner]
    · rw [htime.dispatching, htime'.dispatching, h.time.dispatching]

theorem cancelAll (device : DeviceId) :
    Lacking keep (s.cancelAll device).2 (s'.cancelAll device).2 := by
  have htime := sameTime_cancelAll device s
  have htime' := sameTime_cancelAll device s'
  refine ⟨?_, ⟨?_, ?_, ?_⟩, h.sound.cancelAll device, h.sound'.cancelAll device⟩
  · rw [queue_cancelAll, queue_cancelAll]
    exact h.filter_eq fun _ => rfl
  · rw [htime.currentTime, htime'.currentTime, h.time.currentTime]
  · rw [htime.owner, htime'.owner, h.time.owner]
  · rw [htime.dispatching, htime'.dispatching, h.time.dispatching]

theorem takeDue_some (hd : s.takeDue limit = (some (p, t), s₁)) (hkeep : keep p = true) :
    ∃ p' s₁', s'.takeDue limit = (some (p', t), s₁') ∧ p.unnumbered = p'.unnumbered ∧
      Lacking keep s₁ s₁' := by
  obtain ⟨-, -, hle, ht, hs₁⟩ := takeDue_eq_some.mp hd
  have hqueue := h.queue
  rw [queue_takeDue hd, List.filter_cons_of_pos hkeep] at hqueue
  obtain ⟨p', rest', hq', hp, hrest⟩ := List.map_eq_cons_iff.mp hqueue.symm
  have htime := (SyncPoint.unnumbered_eq_iff.mp hp).1
  have hdelivery : s'.deliveryTime p' = s.deliveryTime p := by
    rw [deliveryTime, deliveryTime, htime, h.time.currentTime]
  have hd' := takeDue_eq_some.mpr ⟨rest', hq', htime ▸ hle, rfl, rfl⟩
  rw [hdelivery, ← ht] at hd'
  refine ⟨p', _, hd', hp.symm, ?_, ⟨?_, ?_, ?_⟩, .takeDue hd, .takeDue hd'⟩
  · have hleft := queue_takeDue hd'
    rw [hq'] at hleft
    rw [← (List.cons.inj hleft).2]
    exact hrest.symm
  · rw [hs₁, ht]
  · rw [hs₁]
    exact h.time.owner
  · rw [hs₁]
    exact h.time.dispatching

theorem time_le {p' : SyncPoint} {rest' : Queue} (hq' : s'.queue = p' :: rest') :
    ∃ p rest, s.queue = p :: rest ∧ p.time ≤ p'.time := by
  have hqueue := h.queue
  rw [hq'] at hqueue
  obtain ⟨q, rest, hq, hp, -⟩ := List.map_eq_cons_iff.mp hqueue
  have hmem : q ∈ s.queue := by
    have hfirst : q ∈ s.queue.filter keep := by rw [hq]; exact List.mem_cons_self
    exact (List.mem_filter.mp hfirst).1
  cases hs : s.queue with
  | nil =>
    rw [hs] at hmem
    cases hmem
  | cons p rest =>
    refine ⟨p, rest, rfl, ?_⟩
    rw [← (SyncPoint.unnumbered_eq_iff.mp hp).1]
    exact head_le hs q hmem

theorem takeDue_none (hn : (s.takeDue limit).1 = none) : (s'.takeDue limit).1 = none := by
  rw [takeDue_of_none]
  intro q' hq'
  cases hqueue' : s'.queue with
  | nil =>
    rw [hqueue'] at hq'
    cases hq'
  | cons p' rest' =>
    obtain ⟨p, rest, hq, hle⟩ := h.time_le hqueue'
    have hlt := lt_of_takeDue_none hn p (hq ▸ List.mem_cons_self)
    exact Instant.lt_of_lt_of_le hlt (Instant.le_trans hle (head_le hqueue' q' hq'))

theorem nextKey_le : s.nextKey ≤ s'.nextKey := by
  rw [h.sound.cached, h.sound'.cached]
  cases hq' : s'.queue with
  | nil =>
    cases hq : s.queue with
    | nil => exact Nat.le_refl _
    | cons p rest => exact Nat.le_sub_one_of_lt p.time.key_lt
  | cons p' rest' =>
    obtain ⟨p, rest, hq, hle⟩ := h.time_le hq'
    rw [hq]
    exact hle

theorem isIdleUntil (hi : s.isIdleUntil limit = true) : s'.isIdleUntil limit = true := by
  have hle := h.nextKey_le
  rw [Scheduler.isIdleUntil, Bool.and_eq_true, decide_eq_true_iff] at hi ⊢
  exact ⟨hi.1, by omega⟩

/-- The quick way of moving time is open in the second only if what is due in the first begins with
something that is not kept. -/
theorem due_of_isIdleUntil (hi : s.isIdleUntil limit = false)
    (hi' : s'.isIdleUntil limit = true) :
    ∃ p rest, s.queue = p :: rest ∧ p.time ≤ limit ∧ keep p = false := by
  rw [Scheduler.isIdleUntil, Bool.and_eq_true, decide_eq_true_iff] at hi'
  rw [Scheduler.isIdleUntil, hi'.1, Bool.true_and, decide_eq_false_iff_not] at hi
  have hcached := h.sound.cached
  cases hq : s.queue with
  | nil =>
    rw [hq, firstKey] at hcached
    cases hq' : s'.queue with
    | nil =>
      have hcached' := h.sound'.cached
      rw [hq', firstKey] at hcached'
      omega
    | cons p' rest' =>
      obtain ⟨p, rest, hsome, -⟩ := h.time_le hq'
      rw [hq] at hsome
      cases hsome
  | cons p rest =>
    rw [hq, firstKey] at hcached
    refine ⟨p, rest, rfl, ?_, ?_⟩
    · rw [Instant.le_iff_key]
      omega
    · cases hkeep : keep p with
      | false => rfl
      | true =>
        have hqueue := h.queue
        rw [hq, List.filter_cons_of_pos hkeep] at hqueue
        obtain ⟨p', rest', hq', hp, -⟩ := List.map_eq_cons_iff.mp hqueue.symm
        have hcached' := h.sound'.cached
        rw [hq', firstKey, (SyncPoint.unnumbered_eq_iff.mp hp).1] at hcached'
        omega

theorem pending_eq (hall : ∀ p ∈ s.queue, keep p = true) :
    Queue.unnumbered s.queue = Queue.unnumbered s'.queue ∧ s'.nextKey = s.nextKey := by
  have hqueue := h.queue
  rw [List.filter_eq_self.mpr hall] at hqueue
  refine ⟨hqueue, ?_⟩
  have hfirst (queue : Queue) : firstKey queue.unnumbered = firstKey queue := by
    cases queue <;> rfl
  rw [h.sound.cached, h.sound'.cached, ← hfirst, ← hqueue, hfirst]

end Lacking

end Scheduler
end Timebase
