import Timebase.Proofs.SideBySide

/-!
# The order of registrations

Registrations for different instants may be made in any order. A queue is made up of its parts for
each instant, and a registration is put at the end of the part for its own. So what comes after the
registrations goes the same way, with the same sync points in the same order, though their numbers
and the places at which they are stored are different ever after. Places decide which of several
matches is taken back, so nothing is told of a run that takes back one of several.
-/

namespace Timebase

open Run (SameEnd)

variable {σ α : Type} {w v : World σ} {t : Instant} {p : SyncPoint} {queue queue' : Queue}

/-- A sync point as it is asked for. -/
structure Registration where
  time : Instant
  device : DeviceId
  tag : Tag
  deriving DecidableEq, Repr

namespace Registration

variable {rs rs' : List Registration}

def syncPoint (r : Registration) : SyncPoint := ⟨r.time, r.device, r.tag, 0⟩

/-- The registrations for an instant. -/
def atInstant (t : Instant) (rs : List Registration) : List Registration :=
  rs.filter fun r => r.time = t

theorem atInstant_cons (t : Instant) (r : Registration) (rs : List Registration) :
    atInstant t (r :: rs) = (if r.time = t then [r] else []) ++ atInstant t rs := by
  by_cases h : r.time = t
  · rw [if_pos h]
    exact List.filter_cons_of_pos (decide_eq_true h)
  · rw [if_neg h]
    exact List.filter_cons_of_neg (by simp [h])

/-- The same registrations in another order, those for the same instant in the same. -/
def Reordered (rs rs' : List Registration) : Prop :=
  rs.Perm rs' ∧ ∀ t, atInstant t rs = atInstant t rs'

end Registration

namespace Queue

/-- The sync points of a queue for an instant. -/
def atInstant (t : Instant) (queue : Queue) : Queue := queue.filter fun p => p.time = t

theorem unnumbered_atInstant (t : Instant) (queue : Queue) :
    (queue.atInstant t).unnumbered = queue.unnumbered.atInstant t :=
  unnumbered_filter (fun _ => rfl) queue

theorem insert_of_not_before (h : ∀ q ∈ queue, ¬ p.Before q) : queue.insert p = queue ++ [p] := by
  induction queue with
  | nil => rfl
  | cons q rest ih =>
    rw [insert, if_neg (h q List.mem_cons_self), ih fun r hr => h r (List.mem_cons_of_mem q hr)]
    rfl

theorem atInstant_insert (hsorted : Sorted queue) (hfresh : ∀ q ∈ queue, q.seq < p.seq)
    (t : Instant) :
    (queue.insert p).atInstant t = queue.atInstant t ++ if p.time = t then [p] else [] := by
  rw [Queue.atInstant, Queue.atInstant]
  by_cases ht : p.time = t
  · have hlast : ∀ q ∈ queue.filter fun q => q.time = t, ¬ p.Before q := by
      intro q hq
      obtain ⟨hq, htime⟩ := List.mem_filter.mp hq
      rw [SyncPoint.before_iff_of_lt (hfresh q hq), ht, of_decide_eq_true htime]
      exact Instant.not_lt.mpr (Instant.le_refl t)
    rw [filter_insert_of_pos hsorted (decide_eq_true ht), insert_of_not_before hlast, if_pos ht]
  · rw [filter_insert_of_neg (decide_eq_false ht), if_neg ht, List.append_nil]

theorem atInstant_cons_self (p : SyncPoint) (rest : Queue) :
    atInstant p.time (p :: rest) = p :: atInstant p.time rest :=
  List.filter_cons_of_pos (decide_eq_true rfl)

theorem subset_of_atInstant_eq (hat : ∀ t, queue.atInstant t = queue'.atInstant t) :
    queue ⊆ queue' := by
  intro p hp
  have hpart : p ∈ queue.atInstant p.time := List.mem_filter.mpr ⟨hp, decide_eq_true rfl⟩
  rw [hat] at hpart
  exact (List.mem_filter.mp hpart).1

/-- A queue in the order of instants is told by its parts. -/
theorem eq_of_atInstant_eq (h : queue.Pairwise fun p q => p.time ≤ q.time)
    (h' : queue'.Pairwise fun p q => p.time ≤ q.time)
    (hat : ∀ t, queue.atInstant t = queue'.atInstant t) : queue = queue' := by
  have hsub := subset_of_atInstant_eq hat
  have hsub' := subset_of_atInstant_eq fun t => (hat t).symm
  induction queue generalizing queue' with
  | nil => exact (List.eq_nil_of_subset_nil hsub').symm
  | cons p rest ih =>
    cases queue' with
    | nil => exact absurd (hsub List.mem_cons_self) List.not_mem_nil
    | cons q rest' =>
      have hrest := List.pairwise_cons.mp h
      have hrest' := List.pairwise_cons.mp h'
      have hle : p.time ≤ q.time := by
        rcases List.mem_cons.mp (hsub' List.mem_cons_self) with rfl | hq
        · exact Instant.le_refl _
        · exact hrest.1 q hq
      have hge : q.time ≤ p.time := by
        rcases List.mem_cons.mp (hsub List.mem_cons_self) with rfl | hp
        · exact Instant.le_refl _
        · exact hrest'.1 p hp
      have hfirst := hat p.time
      rw [atInstant_cons_self, Instant.le_antisymm hle hge, atInstant_cons_self] at hfirst
      obtain ⟨rfl, -⟩ := List.cons.inj hfirst
      have hparts : ∀ t, Queue.atInstant t rest = Queue.atInstant t rest' := by
        intro t
        have ht := hat t
        rw [atInstant, atInstant, List.filter_cons, List.filter_cons] at ht
        split at ht
        · exact (List.cons.inj ht).2
        · exact ht
      rw [ih hrest.2 hrest'.2 hparts (subset_of_atInstant_eq hparts)
        (subset_of_atInstant_eq fun t => (hparts t).symm)]

end Queue

/-- Registrations one after the other, also after one that is turned away. -/
def Program.registerAll : List Registration → Program σ Unit
  | [] => .done ()
  | r :: rest => .andThen (.attempt (.register r.time r.device r.tag)) fun _ => registerAll rest

/-- What a scheduler makes of registrations: those that are not in the past are put behind what was
pending for their instants. -/
structure Scheduler.Registered (s : Scheduler) (rs : List Registration) (s' : Scheduler) :
    Prop where
  time : SameTime s s'
  sound : s'.Sound
  parts : ∀ t, Queue.unnumbered (s'.queue.atInstant t) =
    Queue.unnumbered (s.queue.atInstant t) ++
      if t = .asap ∨ s.currentTime ≤ t then
        (Registration.atInstant t rs).map Registration.syncPoint
      else []

namespace Scheduler

variable {s s' s₁ : Scheduler} {r : Registration} {rs : List Registration}

theorem atInstant_register (h : s.register r.time r.device r.tag = .ok s₁) (t : Instant) :
    Queue.unnumbered (s₁.queue.atInstant t) =
      Queue.unnumbered (s.queue.atInstant t) ++ if r.time = t then [r.syncPoint] else [] := by
  have hinsert : Queue.atInstant t (s.queue.insert ⟨r.time, r.device, r.tag, s.nextSeq⟩) = _ :=
    Queue.atInstant_insert s.sorted_queue (fun q hq => seq_lt_nextSeq hq) t
  rw [queue_register h, hinsert, Queue.unnumbered, List.map_append]
  by_cases hr : r.time = t
  · rw [if_pos hr, if_pos hr]
    rfl
  · rw [if_neg hr, if_neg hr]
    rfl

theorem Registered.cons_of_ok (hr : s.register r.time r.device r.tag = .ok s₁)
    (h : s₁.Registered rs s') : s.Registered (r :: rs) s' := by
  have htime := sameTime_register hr
  refine ⟨⟨?_, ?_, ?_⟩, h.sound, fun t => ?_⟩
  · rw [h.time.currentTime, htime.currentTime]
  · rw [h.time.owner, htime.owner]
  · rw [h.time.dispatching, htime.dispatching]
  · rw [h.parts, atInstant_register hr, htime.currentTime, Registration.atInstant_cons,
      List.append_assoc]
    by_cases hrt : r.time = t
    · have ht := (register_eq_ok.mp hr).1
      rw [hrt] at ht
      rw [if_pos hrt, if_pos hrt, if_pos ht, if_pos ht]
      rfl
    · rw [if_neg hrt, if_neg hrt, List.nil_append, List.nil_append]

theorem Registered.cons_of_error {cause : Fault}
    (hr : s.register r.time r.device r.tag = .error cause) (h : s.Registered rs s') :
    s.Registered (r :: rs) s' := by
  refine ⟨h.time, h.sound, fun t => ?_⟩
  rw [h.parts, Registration.atInstant_cons]
  by_cases hrt : r.time = t
  · have ht : ¬ (t = .asap ∨ s.currentTime ≤ t) := by
      intro ht
      rw [← hrt] at ht
      rw [register_eq_ok.mpr ⟨ht, rfl⟩] at hr
      cases hr
    rw [if_neg ht, if_neg ht]
  · rw [if_neg hrt, List.nil_append]

theorem Registered.lacking {rs' : List Registration} (h : s.Registered rs s₁)
    (h' : s.Registered rs' s') (hrs : Registration.Reordered rs rs') :
    s₁.Lacking (fun _ => true) s' := by
  have hpairwise (s : Scheduler) :
      (Queue.unnumbered s.queue).Pairwise fun p q => p.time ≤ q.time := by
    rw [Queue.unnumbered, List.pairwise_map]
    exact s.sorted_queue.imp fun hb => hb.time_le
  refine ⟨?_, ⟨?_, ?_, ?_⟩, h.sound, h'.sound⟩
  · rw [List.filter_eq_self.mpr fun _ _ => rfl]
    apply Queue.eq_of_atInstant_eq (hpairwise s₁) (hpairwise s')
    intro t
    rw [← Queue.unnumbered_atInstant, ← Queue.unnumbered_atInstant, h.parts, h'.parts, hrs.2 t]
  · rw [h'.time.currentTime, h.time.currentTime]
  · rw [h'.time.owner, h.time.owner]
  · rw [h'.time.dispatching, h.time.dispatching]

end Scheduler

/-- All registrations are tried, whether the ones before were accepted or not. -/
theorem Program.registerAll_run (hs : w.scheduler.Sound) (rs : List Registration) :
    ∃ s, (registerAll rs).run w = .ok () { w with scheduler := s } ∧
      w.scheduler.Registered rs s := by
  induction rs generalizing w with
  | nil =>
    refine ⟨w.scheduler, rfl, .refl _, hs, fun t => ?_⟩
    split <;> exact (List.append_nil _).symm
  | cons r rest ih =>
    have hrun : (registerAll (r :: rest)).run w =
        (Run.attempt (World.register r.time r.device r.tag) >>= fun _ =>
          (registerAll rest).run) w := rfl
    cases hr : w.scheduler.register r.time r.device r.tag with
    | ok s₁ =>
      have hfirst : Run.attempt (World.register r.time r.device r.tag) w =
          .ok (.ok ()) { w with scheduler := s₁ } := by
        rw [Run.attempt, World.register_of_ok hr]
      obtain ⟨s, hrest, hregistered⟩ := ih (w := { w with scheduler := s₁ }) (.register hr)
      exact ⟨s, hrun.trans ((Run.bind_of_ok hfirst).trans hrest), hregistered.cons_of_ok hr⟩
    | error cause =>
      have hfirst : Run.attempt (World.register r.time r.device r.tag) w =
          .ok (.error cause) w := by
        rw [Run.attempt, World.register_of_error hr]
      obtain ⟨s, hrest, hregistered⟩ := ih hs
      exact ⟨s, hrun.trans ((Run.bind_of_ok hfirst).trans hrest), hregistered.cons_of_error hr⟩

/-- Worlds are compared by all but numbers and places. -/
def numbersAside (σ : Type) : Comparison σ σ where
  keep _ := true
  devices := id
  Known _ _ _ := True
  Twin _ := False
  Spared := Moment.Unambiguous
  known_of_sublist _ _ _ := trivial
  keep_of_taken _ _ := rfl
  keep_of_buried _ _ _ := rfl

theorem unnumbered_eq_of_matched (h : (numbersAside σ).Matched w v) :
    w.unnumbered = v.unnumbered := h.unnumbered_eq fun _ _ => rfl

theorem unnumbered_eq_of_paired {m m' : Moment σ} (h : (numbersAside σ).Paired m m') :
    m.unnumbered = m'.unnumbered := by
  rw [Moment.unnumbered, Moment.unnumbered, h.told.unnumbered_eq fun _ _ => rfl,
    unnumbered_eq_of_matched h.world]

theorem sameWork_numbersAside (act : Run σ α) : (numbersAside σ).SameWork act act where
  ends d := by
    show SameEnd _ (act d) (act d)
    cases act d with
    | ok a d => exact .ok a rfl
    | error halt d => exact .error halt rfl
  known _ := trivial
  twin _ := id

/-- What a program makes of a world does not depend on numbers if it does not look at them. -/
theorem Program.mirrored_numbersAside {q : Program σ α}
    (h : q.Overlooks fun w v => w.unnumbered = v.unnumbered) : (numbersAside σ).Mirrored q q := by
  induction q with
  | done a => exact .done a
  | halt cause => exact .halt cause
  | andThen p next ihp ihnext => exact (ihp h.1).andThen fun a => ihnext a (h.2 a)
  | attempt p ih => exact (ih h).attempt
  | look f => exact .look fun w v hw => h w v (unnumbered_eq_of_matched hw)
  | work act => exact .work (sameWork_numbersAside act)
  | ask device demand act => exact .ask device demand (sameWork_numbersAside act)
  | enroll ownsSyncPoints => exact .enroll ownsSyncPoints
  | drop device => exact .drop device
  | visit device p ih => exact .visit device (ih h)
  | register time device tag => exact fun w v hw _ => hw.register fun _ => ⟨rfl, trivial⟩
  | cancel device tag =>
    refine fun w v hw hspared => hw.cancel fun p hp => ⟨rfl, Or.inr ?_⟩
    exact filter_of_unambiguous hp hspared
  | cancelAll device => exact fun w v hw _ => hw.cancelAll fun _ _ => rfl
  | setCurrentTime thread time => exact .setCurrentTime thread time
  | schedule react steps thread limit ih =>
    exact .schedule (fun device time tag => ih device time tag (h device time tag)) fun _ _ => rfl

/-- A program takes the same course from two worlds: the same devices are woken at the same instants
for the same reasons, and at every moment all but the numbers and places of sync points is the
same. -/
structure SameCourse (q : Program σ α) (w v : World σ) : Prop where
  calls : calls (q.history w) = calls (q.history v)
  moments : (q.history w).map Moment.unnumbered = (q.history v).map Moment.unnumbered
  ended : SameEnd (fun w v => w.unnumbered = v.unnumbered) (q.run w) (q.run v)

theorem sameCourse_of_lacking {q : Program σ α} {s s' : Scheduler}
    (h : s.Lacking (fun _ => true) s')
    (hq : q.Overlooks fun w v => w.unnumbered = v.unnumbered)
    (hclear : ∀ m ∈ q.history { w with scheduler := s }, m.Unambiguous) :
    SameCourse q { w with scheduler := s } { w with scheduler := s' } := by
  obtain ⟨hpaired, hend⟩ := Program.mirrored_numbersAside hq { w with scheduler := s }
    { w with scheduler := s' } ⟨h, rfl, rfl, rfl, trivial, False.elim⟩ hclear
  have hmoments : (q.history { w with scheduler := s }).map Moment.unnumbered =
      (q.history { w with scheduler := s' }).map Moment.unnumbered := by
    rw [← List.forall₂_eq_eq_eq, List.forall₂_map_left_iff, List.forall₂_map_right_iff]
    exact hpaired.imp fun _ _ hm => unnumbered_eq_of_paired hm
  exact ⟨Comparison.calls_eq_of_paired hpaired, hmoments,
    hend.of_after (unnumbered_eq_of_matched hend.after)⟩

/-- Registrations that are made in another order make no difference to anything that follows as long
as those for the same instant stay in order, and what is taken back is the only match. -/
theorem registration_order_matters_for_ties_only {β : Type} {w₀ : World σ}
    (h₀ : w₀.scheduler = Scheduler.start t) (p : Program σ α) (hw : w ∈ p.worlds w₀)
    {rs rs' : List Registration} (hrs : Registration.Reordered rs rs') (q : Program σ β)
    (hq : q.Overlooks fun w v => w.unnumbered = v.unnumbered)
    (hclear : ∀ m ∈ q.history ((Program.registerAll rs).after w), m.Unambiguous) :
    ∃ v v', (Program.registerAll rs).run w = .ok () v ∧
      (Program.registerAll rs').run w = .ok () v' ∧ SameCourse q v v' := by
  have hs := Program.worlds_sound h₀ hw
  obtain ⟨s, hrun, hregistered⟩ := Program.registerAll_run hs rs
  obtain ⟨s', hrun', hregistered'⟩ := Program.registerAll_run hs rs'
  rw [Program.after, Run.after_of_ok hrun] at hclear
  exact ⟨_, _, hrun, hrun',
    sameCourse_of_lacking (hregistered.lacking hregistered' hrs) hq hclear⟩

/-- Two wake-ups for the same instant, and one for an earlier instant that asks for another one. -/
def tiedWishes : List Registration := [⟨.wrap 9, 0, 1⟩, ⟨.wrap 9, 0, 3⟩, ⟨.wrap 5, 0, 0⟩]

def tiedWishesReordered : List Registration := [⟨.wrap 9, 0, 1⟩, ⟨.wrap 5, 0, 0⟩, ⟨.wrap 9, 0, 3⟩]

theorem registration_order_matters_for_ties_only_tied :
    ∃ v v' : World Unit, (Program.registerAll tiedWishes).run
        ((Program.enroll true).after (.ofScheduler .new ())) = .ok () v ∧
      (Program.registerAll tiedWishesReordered).run
        ((Program.enroll true).after (.ofScheduler .new ())) = .ok () v' ∧
      calls ((Program.schedule askingAgain 5 0 (.wrap 9)).history v') =
        [⟨0, .wrap 5, 0⟩, ⟨0, .wrap 5, 2⟩, ⟨0, .wrap 9, 1⟩, ⟨0, .wrap 9, 3⟩] := by
  have h₀ : (World.ofScheduler .new () : World Unit).scheduler = .start .zero := rfl
  have hw := (Program.enroll true).after_mem_worlds (.ofScheduler .new () : World Unit)
  have hrs : Registration.Reordered tiedWishes tiedWishesReordered := by
    refine ⟨by decide, fun t => ?_⟩
    simp only [tiedWishes, tiedWishesReordered, Registration.atInstant_cons]
    by_cases h : Instant.wrap 9 = t
    · subst h
      rfl
    · simp only [h, if_false, List.nil_append]
  have hq : (Program.schedule askingAgain 5 0 (.wrap 9)).Overlooks
      fun w v : World Unit => w.unnumbered = v.unnumbered := by
    intro device time tag
    rw [askingAgain]
    split <;> trivial
  have hclear : ∀ m ∈ (Program.schedule askingAgain 5 0 (.wrap 9)).history
      ((Program.registerAll tiedWishes).after
        ((Program.enroll true).after (.ofScheduler .new () : World Unit))), m.Unambiguous := by
    decide +kernel
  obtain ⟨v, v', hv, hv', hcourse⟩ :=
    registration_order_matters_for_ties_only h₀ (.enroll true) hw hrs _ hq hclear
  refine ⟨v, v', hv, hv', ?_⟩
  rw [← hcourse.calls, ← Run.after_of_ok hv]
  decide +kernel

example : calls ((Program.andThen (.enroll true) fun _ => .andThen
      (.registerAll tiedWishes.reverse) fun _ => .schedule askingAgain 5 0 (.wrap 9)).history
        (.ofScheduler .new ())) =
    [⟨0, .wrap 5, 0⟩, ⟨0, .wrap 5, 2⟩, ⟨0, .wrap 9, 3⟩, ⟨0, .wrap 9, 1⟩] := by
  decide +kernel

end Timebase
