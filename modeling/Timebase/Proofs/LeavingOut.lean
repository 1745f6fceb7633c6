import Mathlib.Data.List.Nodup
import Timebase.Proofs.SideBySide

/-!
# Sync points left out

A sync point that is taken back before it was delivered leaves no trace. As long as it is pending it
holds nothing up: what is due is delivered as if it were not there, and a move of time that stops
before it may take the quick way or not, which makes no difference. So a program does the same
without the call that registers it and the call that takes it back.
-/

namespace Timebase

open Run (SameEnd)

variable {σ α : Type} {x p q : SyncPoint} {f : SyncPoint → Bool} {queue : Queue} {time : Instant}
  {device : DeviceId} {tag : Tag}

theorem Queue.filter_eq_singleton_iff (h : queue.Nodup) : queue.filter f = [x] ↔
    (x ∈ queue ∧ f x = true) ∧ ∀ q ∈ queue, f q = true → q = x := by
  have hsingle : [x].Nodup := List.pairwise_singleton _ x
  rw [← List.perm_singleton, List.perm_ext_iff_of_nodup (h.filter f) hsingle]
  simp only [List.mem_filter, List.mem_singleton]
  constructor
  · exact fun hiff => ⟨(hiff x).mpr rfl, fun q hq hfq => (hiff q).mp ⟨hq, hfq⟩⟩
  · rintro ⟨hx, honly⟩ q
    exact ⟨fun hq => honly q hq.1 hq.2, fun hq => hq ▸ hx⟩

/-- How far a run without a sync point has come. -/
inductive Omission where
  /-- The sync point has not been registered yet. -/
  | waiting
  /-- It would be pending. -/
  | missing
  /-- It would have been taken back. -/
  | finished
  deriving DecidableEq, Repr

namespace World

/-- A world in which a sync point is going to be left out. -/
def omitting (w : World σ) : World (σ × Omission) :=
  ⟨w.scheduler, w.lifetimes, w.skipped, (w.devices, .waiting)⟩

def original (w : World (σ × Omission)) : World σ :=
  ⟨w.scheduler, w.lifetimes, w.skipped, w.devices.1⟩

/-- Whether a registration made now is that of the sync point to leave out. -/
def isEntryOf (x : SyncPoint) (time : Instant) (device : DeviceId) (tag : Tag)
    (w : World (σ × Omission)) : Bool :=
  w.devices.2 == .waiting && (⟨time, device, tag, w.scheduler.nextSeq⟩ : SyncPoint) == x &&
    (time.isAsap || decide (w.scheduler.currentTime ≤ time))

/-- Whether the sync point left out is the only one of a kind that could be taken back now. -/
def isRemovalOf (x : SyncPoint) (kind : SyncPoint → Bool) (w : World (σ × Omission)) : Bool :=
  w.devices.2 == .missing && kind x && !w.scheduler.queue.any kind

/-- Worlds that are the same to those who do not look at what is pending. -/
structure SameButPending (w v : World σ) : Prop where
  time : w.scheduler.SameTime v.scheduler
  lifetimes : v.lifetimes = w.lifetimes
  skipped : v.skipped = w.skipped
  devices : v.devices = w.devices

/-- Worlds that are the same but for numbers and for a sync point that the second lacks. -/
structure SameBut (x : SyncPoint) (w v : World σ) : Prop extends SameButPending w v where
  pending : Queue.unnumbered (w.scheduler.queue.filter (· != x)) =
    Queue.unnumbered v.scheduler.queue

end World

def Moment.original (m : Moment (σ × Omission)) : Moment σ := ⟨m.event, m.world.original⟩

/-- The states of the devices as they are in the original. -/
def originalPart : Part (σ × Omission) σ := ⟨Prod.fst, fun devices s => (devices, s.2)⟩

namespace Program

/-- A call that is not made, though answered, where it is the one to leave out. -/
def leaveOut {α : Type} (out : World (σ × Omission) → Bool) (stage : Omission) (answer : α)
    (call : Program (σ × Omission) α) : Program (σ × Omission) α :=
  .andThen (.look out) fun isOut =>
    if isOut then .andThen (.work (modify fun s => (s.1, stage))) fun _ => .done answer else call

/-- The same program without the two calls by which a sync point is registered and taken back. -/
def without (x : SyncPoint) {α : Type} : Program σ α → Program (σ × Omission) α
  | .done a => .done a
  | .halt cause => .halt cause
  | .andThen p next => .andThen (p.without x) fun a => (next a).without x
  | .attempt p => .attempt (p.without x)
  | .look f => .look fun w => f w.original
  | .work act => .work (Run.on originalPart act)
  | .ask device demand act => .ask device demand (Run.on originalPart act)
  | .enroll ownsSyncPoints => .enroll ownsSyncPoints
  | .drop device => .drop device
  | .visit device p => .visit device (p.without x)
  | .register time device tag =>
    leaveOut (World.isEntryOf x time device tag) .missing () (.register time device tag)
  | .cancel device tag =>
    leaveOut (World.isRemovalOf x (SyncPoint.isFor device tag)) .finished true (.cancel device tag)
  | .cancelAll device =>
    leaveOut (World.isRemovalOf x fun p => p.device == device) .finished 1 (.cancelAll device)
  | .setCurrentTime thread time => .setCurrentTime thread time
  | .schedule react steps thread limit =>
    .schedule (fun device time tag => (react device time tag).without x) steps thread limit

/-- A program that never moves time without a step to deliver anything. Such a call is starved at
once where something is due, and tells nothing. -/
def Stepped {α : Type} : Program σ α → Prop
  | .done _ | .halt _ | .look _ | .work _ | .ask _ _ _ | .enroll _ | .drop _ => True
  | .register _ _ _ | .cancel _ _ | .cancelAll _ | .setCurrentTime _ _ => True
  | .andThen p next => p.Stepped ∧ ∀ a, (next a).Stepped
  | .attempt p => p.Stepped
  | .visit _ p => p.Stepped
  | .schedule react steps _ _ => steps ≠ 0 ∧ ∀ device time tag, (react device time tag).Stepped

section

variable (out : World (σ × Omission) → Bool) (v : World (σ × Omission)) (stage : Omission)
  (answer : α) (call : Program (σ × Omission) α)

theorem leaveOut_apply :
    (leaveOut out stage answer call).history v =
        (if out v then [⟨.silent, { v with devices := (v.devices.1, stage) }⟩]
          else call.history v) ∧
      (leaveOut out stage answer call).run v =
        if out v then .ok answer { v with devices := (v.devices.1, stage) } else call.run v := by
  let next (isOut : Bool) : Program (σ × Omission) α :=
    if isOut then .andThen (.work (modify fun s => (s.1, stage))) fun _ => .done answer else call
  have hhistory : (leaveOut out stage answer call).history v = (next (out v)).history v := rfl
  have hrun : (leaveOut out stage answer call).run v = (next (out v)).run v := rfl
  rw [hhistory, hrun]
  cases out v <;> exact ⟨rfl, rfl⟩

end

end Program

/-- What is known of the queue of the original and of its next number. -/
def Omission.Known (x : SyncPoint) : Omission → Queue → Nat → Prop
  | .waiting, _, n => n ≤ x.seq
  | .missing, queue, n => x ∈ queue ∧ (∀ p ∈ queue, p.seq = x.seq → p = x) ∧ x.seq < n
  | .finished, queue, n => (∀ p ∈ queue, p.seq ≠ x.seq) ∧ x.seq < n

namespace Omission

variable {stage : Omission} {n : Nat}

theorem Known.sublist {rest : Queue} (h : stage.Known x queue n) (hrest : rest.Sublist queue)
    (hkept : ∀ p ∈ queue, (p.seq != x.seq) = false → p ∈ rest) : stage.Known x rest n := by
  cases stage with
  | waiting => exact h
  | missing =>
    obtain ⟨hx, honly, hlt⟩ := h
    exact ⟨hkept x hx (bne_self_eq_false x.seq), fun p hp => honly p (hrest.subset hp), hlt⟩
  | finished => exact ⟨fun p hp => h.1 p (hrest.subset hp), h.2⟩

theorem Known.insert (h : stage.Known x queue n) (hp : p.seq = n)
    (hother : stage = .waiting → n ≠ x.seq) :
    p.seq ≠ x.seq ∧ stage.Known x (queue.insert p) (n + 1) := by
  cases stage with
  | waiting =>
    have hle : n ≤ x.seq := h
    have hne := hother rfl
    exact ⟨by omega, Nat.lt_of_le_of_ne hle hne⟩
  | missing =>
    obtain ⟨hx, honly, hlt⟩ := h
    refine ⟨by omega, Queue.mem_insert.mpr (Or.inr hx), ?_, by omega⟩
    intro q hq hseq
    rcases Queue.mem_insert.mp hq with rfl | hq
    · omega
    · exact honly q hq hseq
  | finished =>
    obtain ⟨hnone, hlt⟩ := h
    refine ⟨by omega, ?_, by omega⟩
    intro q hq
    rcases Queue.mem_insert.mp hq with rfl | hq
    · omega
    · exact hnone q hq

end Omission

/-- A moment at which a sync point is not delivered, and if it is taken back, then as the only one
that matches. Once it is registered nothing else is taken back that is not the only match either. -/
structure Moment.Spares (x : SyncPoint) (m : Moment σ) : Prop where
  entered : ∀ q ∈ m.event.entered, q.seq = x.seq → q = x
  taken : ∀ q ∈ m.event.taken, q.seq ≠ x.seq
  takenBack : ∀ q ∈ m.event.takenBack, q.seq = x.seq →
    m.event = .cancelled [x] ∧ m.world.scheduler.isPending x.device x.tag = false
  clear : x.seq < m.world.scheduler.nextSeq → m.Unambiguous

/-- The run of a program is compared with the one without a sync point. -/
def leavingOut (σ : Type) (x : SyncPoint) : Comparison σ (σ × Omission) where
  keep p := p.seq != x.seq
  devices := Prod.fst
  Known s := s.2.Known x
  Twin s := s.2 = .waiting
  Spared := Moment.Spares x
  known_of_sublist h hrest hkept := h.sublist hrest hkept
  keep_of_taken h hp := bne_iff_ne.mpr (h.taken _ hp)
  keep_of_buried {m ps p} h he hp := by
    refine bne_iff_ne.mpr fun hseq => ?_
    have hback : p ∈ m.event.takenBack := by
      rw [he]
      exact hp
    rw [(h.takenBack p hback hseq).1] at he
    cases he

namespace LeavingOut

variable {w : World σ} {v : World (σ × Omission)}

theorem keep_iff : (leavingOut σ x).keep p = true ↔ p.seq ≠ x.seq := bne_iff_ne

theorem not_keep_iff : (leavingOut σ x).keep p = false ↔ p.seq = x.seq := by
  rw [← Bool.not_eq_true, keep_iff, not_not]

section

variable (h : (leavingOut σ x).Matched w v)

include h

theorem known : v.devices.2.Known x w.scheduler.queue w.scheduler.nextSeq := h.known

theorem lt_nextSeq (hstage : v.devices.2 ≠ .waiting) : x.seq < w.scheduler.nextSeq := by
  have hknown := known h
  cases hs : v.devices.2 with
  | waiting => exact absurd hs hstage
  | missing =>
    rw [hs] at hknown
    exact hknown.2.2
  | finished =>
    rw [hs] at hknown
    exact hknown.2

theorem sameButPending : w.SameButPending v.original :=
  ⟨h.scheduler.time, h.lifetimes, h.skipped, h.devices⟩

theorem seq_ne_of_not_missing (hstage : v.devices.2 ≠ .missing) (hp : p ∈ w.scheduler.queue) :
    p.seq ≠ x.seq := by
  have hknown := known h
  cases hs : v.devices.2 with
  | missing => exact absurd hs hstage
  | waiting =>
    rw [hs] at hknown
    have hfresh := Scheduler.seq_lt_nextSeq hp
    have hle : w.scheduler.nextSeq ≤ x.seq := hknown
    omega
  | finished =>
    rw [hs] at hknown
    exact hknown.1 p hp

theorem isEntryOf_iff : v.isEntryOf x time device tag = true ↔ v.devices.2 = .waiting ∧
    (⟨time, device, tag, w.scheduler.nextSeq⟩ : SyncPoint) = x ∧
      (time = .asap ∨ w.scheduler.currentTime ≤ time) := by
  rw [World.isEntryOf, Bool.and_eq_true, Bool.and_eq_true, beq_iff_eq, beq_iff_eq,
    Bool.or_eq_true, Instant.isAsap_iff, decide_eq_true_iff, h.scheduler.time.currentTime,
    and_assoc]
  refine and_congr_right fun hstage => ?_
  have hsame : v.scheduler.nextSeq = w.scheduler.nextSeq := congrArg Pending.nextSeq (h.twin hstage)
  rw [hsame]

theorem entered (hout : v.isEntryOf x time device tag = true) {s : Scheduler}
    (hs : w.scheduler.register time device tag = .ok s) :
    (leavingOut σ x).Paired
      ⟨.registered ⟨time, device, tag, w.scheduler.nextSeq⟩, { w with scheduler := s }⟩
      ⟨.silent, { v with devices := (v.devices.1, .missing) }⟩ := by
  obtain ⟨-, hpoint, -⟩ := (isEntryOf_iff h).mp hout
  have hseq : w.scheduler.nextSeq = x.seq := congrArg SyncPoint.seq hpoint
  have htime := Scheduler.sameTime_register hs
  have hsound := Scheduler.Sound.register hs
  have hmem (q : SyncPoint) := Scheduler.mem_queue_register (q := q) hs
  have hnot : (leavingOut σ x).keep ⟨time, device, tag, w.scheduler.nextSeq⟩ = false :=
    not_keep_iff.mpr hseq
  refine ⟨.registered hnot, h.scheduler.left_out ?_ htime hsound, h.lifetimes, h.skipped,
    h.devices, ⟨(hmem x).mpr (Or.inl hpoint.symm), ?_, ?_⟩, fun hwaiting => (by cases hwaiting)⟩
  · rw [Scheduler.queue_register hs]
    exact Queue.filter_insert_of_neg hnot _
  · intro q hq hsame
    rcases (hmem q).mp hq with rfl | hq
    · exact hpoint
    · have hfresh := Scheduler.seq_lt_nextSeq hq
      omega
  · show x.seq < s.nextSeq
    rw [Scheduler.nextSeq_register hs]
    omega

/-- The run without the sync point can tell whether no other one of a kind is pending. -/
theorem isRemovalOf_iff (hf : ∀ p : SyncPoint, f p.unnumbered = f p) :
    v.isRemovalOf x f = true ↔ v.devices.2 = .missing ∧ w.scheduler.queue.filter f = [x] := by
  have hnodup := w.scheduler.nodup_queue
  rw [World.isRemovalOf, Bool.and_eq_true, Bool.and_eq_true, beq_iff_eq, Bool.not_eq_true',
    h.scheduler.any_eq hf, List.any_eq_false, Queue.filter_eq_singleton_iff hnodup]
  have hknown := known h
  constructor
  · rintro ⟨⟨hstage, hx⟩, hnone⟩
    rw [hstage] at hknown
    obtain ⟨hmem, honly, -⟩ := hknown
    refine ⟨hstage, ⟨hmem, hx⟩, fun q hq hfq => ?_⟩
    by_contra hne
    have hkeep : (leavingOut σ x).keep q = true := keep_iff.mpr fun hseq => hne (honly q hq hseq)
    exact hnone q (List.mem_filter.mpr ⟨hq, hkeep⟩) hfq
  · rintro ⟨hstage, ⟨-, hx⟩, honly⟩
    refine ⟨⟨hstage, hx⟩, fun q hq hfq => ?_⟩
    obtain ⟨hq, hkeep⟩ := List.mem_filter.mp hq
    exact keep_iff.mp hkeep (congrArg SyncPoint.seq (honly q hq hfq))

theorem removed (hf : ∀ p : SyncPoint, f p.unnumbered = f p) (hout : v.isRemovalOf x f = true)
    {s : Scheduler} (hqueue : s.queue = w.scheduler.queue.filter fun p => !f p)
    (hseq : s.nextSeq = w.scheduler.nextSeq) (htime : w.scheduler.SameTime s) (hsound : s.Sound) :
    (leavingOut σ x).Paired ⟨.cancelled [x], { w with scheduler := s }⟩
      ⟨.silent, { v with devices := (v.devices.1, .finished) }⟩ := by
  obtain ⟨hstage, hfilter⟩ := (isRemovalOf_iff h hf).mp hout
  have hnodup := w.scheduler.nodup_queue
  obtain ⟨⟨-, hx⟩, hmatch⟩ := (Queue.filter_eq_singleton_iff hnodup).mp hfilter
  have hknown := known h
  rw [hstage] at hknown
  obtain ⟨-, honly, hlt⟩ := hknown
  have hkept : s.queue.filter (leavingOut σ x).keep =
      w.scheduler.queue.filter (leavingOut σ x).keep := by
    rw [hqueue, List.filter_filter]
    refine List.filter_congr fun q hq => ?_
    cases hfq : f q with
    | false => rw [Bool.not_false, Bool.and_true]
    | true => rw [hmatch q hq hfq, not_keep_iff.mpr rfl, Bool.false_and]
  refine ⟨.cancelled (not_keep_iff.mpr rfl), h.scheduler.left_out hkept htime hsound, h.lifetimes,
    h.skipped, h.devices, ?_, fun hwaiting => (by cases hwaiting)⟩
  show (∀ q ∈ s.queue, q.seq ≠ x.seq) ∧ x.seq < s.nextSeq
  rw [hqueue, hseq]
  refine ⟨fun q hq hsame => ?_, hlt⟩
  obtain ⟨hq, hfq⟩ := List.mem_filter.mp hq
  rw [honly q hq hsame, hx] at hfq
  cases hfq

end

theorem mirrored_leaveOut {call : Program σ α} {call' : Program (σ × Omission) α}
    {out : World (σ × Omission) → Bool} {stage : Omission} {answer : α}
    (hout : ∀ w v, (leavingOut σ x).Matched w v → (∀ m ∈ call.history w, m.Spares x) →
      out v = true → ∃ m, call.history w = [m] ∧ call.run w = .ok answer m.world ∧
        (leavingOut σ x).Paired m ⟨.silent, { v with devices := (v.devices.1, stage) }⟩)
    (hin : ∀ w v, (leavingOut σ x).Matched w v → (∀ m ∈ call.history w, m.Spares x) →
      out v = false → List.Forall₂ (leavingOut σ x).Paired (call.history w) (call'.history v) ∧
        SameEnd (leavingOut σ x).Matched (call.run w) (call'.run v)) :
    (leavingOut σ x).Mirrored call (.leaveOut out stage answer call') := by
  intro w v hw hspared
  obtain ⟨hhistory', hrun'⟩ := Program.leaveOut_apply out v stage answer call'
  rw [hhistory', hrun']
  cases ho : out v with
  | true =>
    obtain ⟨m, hhistory, hrun, hpaired⟩ := hout w v hw hspared ho
    rw [hhistory, hrun]
    exact ⟨.cons hpaired .nil, .ok answer hpaired.world⟩
  | false => exact hin w v hw hspared ho

theorem mirrored_register (time : Instant) (device : DeviceId) (tag : Tag) :
    (leavingOut σ x).Mirrored (.register time device tag)
      ((Program.register time device tag).without x) := by
  have hentered {w : World σ} {s : Scheduler} (hs : w.scheduler.register time device tag = .ok s) :
      (Program.register time device tag).history w =
        [⟨.registered ⟨time, device, tag, w.scheduler.nextSeq⟩, { w with scheduler := s }⟩] := by
    rw [Program.history, hs]
  apply mirrored_leaveOut
  · intro w v h _ hout
    obtain ⟨-, -, ht⟩ := (isEntryOf_iff h).mp hout
    have hs : w.scheduler.register time device tag = _ := Scheduler.register_eq_ok.mpr ⟨ht, rfl⟩
    exact ⟨_, hentered hs, World.register_of_ok hs, entered h hout hs⟩
  · intro w v h hspared hin
    refine h.register fun ht => ?_
    have hs : w.scheduler.register time device tag = _ := Scheduler.register_eq_ok.mpr ⟨ht, rfl⟩
    rw [hentered hs] at hspared
    -- no other sync point is ever registered under its number
    have hother : v.devices.2 = .waiting → w.scheduler.nextSeq ≠ x.seq := by
      intro hstage hseq
      have hpoint := (hspared _ (List.mem_singleton_self _)).entered _ (List.mem_singleton_self _)
        hseq
      rw [(isEntryOf_iff h).mpr ⟨hstage, hpoint, ht⟩] at hin
      cases hin
    have hpoint : (⟨time, device, tag, w.scheduler.nextSeq⟩ : SyncPoint).seq = _ := rfl
    obtain ⟨hne, hknown⟩ := (known h).insert hpoint hother
    exact ⟨keep_iff.mpr hne, hknown⟩

theorem mirrored_cancel (device : DeviceId) (tag : Tag) :
    (leavingOut σ x).Mirrored (.cancel device tag) ((Program.cancel device tag).without x) := by
  have hf (p : SyncPoint) : p.unnumbered.isFor device tag = p.isFor device tag := rfl
  apply mirrored_leaveOut
  · intro w v h _ hout
    obtain ⟨-, hfilter⟩ := (isRemovalOf_iff h hf).mp hout
    have hfind := Scheduler.find?_of_single hfilter
    refine ⟨_, Program.history_cancel hfind, ?_, ?_⟩
    · show World.cancel device tag w = _
      rw [World.cancel_apply, Scheduler.cancel_of_found hfind]
    · refine removed h hf hout ?_ (Scheduler.nextSeq_cancel device tag _)
        (Scheduler.sameTime_cancel device tag _) (h.scheduler.sound.cancel device tag)
      rw [Scheduler.queue_cancel hfind, Queue.erase_of_single hfilter]
  · intro w v h hspared hin
    refine h.cancel fun p hp => ⟨keep_iff.mpr fun hseq => ?_, ?_⟩
    · have hmem := (Scheduler.mem_of_find? hp).1
      by_cases hstage : v.devices.2 = .missing
      · have hknown := known h
        rw [hstage] at hknown
        obtain rfl := hknown.2.1 p hmem hseq
        rw [Program.history_cancel hp] at hspared
        obtain ⟨-, hnone⟩ := (hspared _ (List.mem_singleton_self _)).takenBack p
          (List.mem_singleton_self p) rfl
        rw [(isRemovalOf_iff h hf).mpr ⟨hstage, Scheduler.filter_of_alone hp hnone⟩] at hin
        cases hin
      · exact seq_ne_of_not_missing h hstage hmem hseq
    · -- up to the registration the heaps are the same, and afterwards there is one match at most
      by_cases hstage : v.devices.2 = .waiting
      · exact Or.inl hstage
      · refine Or.inr (Program.filter_of_unambiguous hp fun m hm => (hspared m hm).clear ?_)
        rw [Program.history_cancel hp] at hm
        rw [List.mem_singleton.mp hm]
        show x.seq < (w.scheduler.cancel device tag).2.nextSeq
        rw [Scheduler.nextSeq_cancel]
        exact lt_nextSeq h hstage

theorem mirrored_cancelAll (device : DeviceId) :
    (leavingOut σ x).Mirrored (.cancelAll device) ((Program.cancelAll device).without x) := by
  have hf (p : SyncPoint) : (p.unnumbered.device == device) = (p.device == device) := rfl
  apply mirrored_leaveOut
  · intro w v h _ hout
    obtain ⟨hstage, hfilter⟩ := (isRemovalOf_iff h hf).mp hout
    refine ⟨⟨.cancelled [x], { w with scheduler := (w.scheduler.cancelAll device).2 }⟩, ?_, ?_, ?_⟩
    · rw [Program.history, hfilter]
      rfl
    · show World.cancelAll device w = _
      rw [World.cancelAll_apply, Scheduler.cancelAll_count, hfilter]
      rfl
    · refine removed h hf hout ?_ (Scheduler.nextSeq_cancelAll device _)
        (Scheduler.sameTime_cancelAll device _) (h.scheduler.sound.cancelAll device)
      exact Scheduler.queue_cancelAll device w.scheduler
  · intro w v h hspared hin
    refine h.cancelAll fun p hp => keep_iff.mpr fun hseq => ?_
    have hmem := (List.mem_filter.mp hp).1
    by_cases hstage : v.devices.2 = .missing
    · have hknown := known h
      rw [hstage] at hknown
      obtain rfl := hknown.2.1 p hmem hseq
      obtain ⟨halone, -⟩ := (hspared _ (List.mem_singleton_self _)).takenBack p hp rfl
      rw [(isRemovalOf_iff h hf).mpr ⟨hstage, Event.cancelled.inj halone⟩] at hin
      cases hin
    · exact seq_ne_of_not_missing h hstage hmem hseq

end LeavingOut

theorem LeavingOut.sameWork (act : Run σ α) :
    (leavingOut σ x).SameWork act (Run.on originalPart act) where
  ends d := by
    show SameEnd _ (act (originalPart.get d)) (Run.on originalPart act d)
    rw [Run.on]
    cases act (originalPart.get d) with
    | ok a d => exact .ok a rfl
    | error halt d => exact .error halt rfl
  known {d queue n} hknown := by
    rw [Run.after_on]
    exact hknown
  twin d := by
    rw [Run.after_on]
    exact id

/-- A program that does not look at what is pending goes side by side with the one without a sync
point. -/
theorem Program.mirrored_without {p : Program σ α} (h : p.Overlooks World.SameButPending)
    (hsteps : p.Stepped) : (leavingOut σ x).Mirrored p (p.without x) := by
  induction p with
  | done a => exact .done a
  | halt cause => exact .halt cause
  | andThen p next ihp ihnext =>
    exact (ihp h.1 hsteps.1).andThen fun a => ihnext a (h.2 a) (hsteps.2 a)
  | attempt p ih => exact (ih h hsteps).attempt
  | look f => exact .look fun w v hw => h w v.original (LeavingOut.sameButPending hw)
  | work act => exact .work (LeavingOut.sameWork act)
  | ask device demand act => exact .ask device demand (LeavingOut.sameWork act)
  | enroll ownsSyncPoints => exact .enroll ownsSyncPoints
  | drop device => exact .drop device
  | visit device p ih => exact .visit device (ih h hsteps)
  | register time device tag => exact LeavingOut.mirrored_register time device tag
  | cancel device tag => exact LeavingOut.mirrored_cancel device tag
  | cancelAll device => exact LeavingOut.mirrored_cancelAll device
  | setCurrentTime thread time => exact .setCurrentTime thread time
  | schedule react steps thread limit ih =>
    -- the quick way may be open only without the sync point, so there must be a step to tell
    refine .schedule (fun device time tag => ?_) fun hzero => absurd hzero hsteps.1
    exact ih device time tag (h device time tag) (hsteps.2 device time tag)

/-- A sync point of a run that is registered and, before it is delivered, taken back as the only one
that matches. -/
structure Withdrawal (p : Program σ α) (w₀ : World σ) where
  point : SyncPoint
  past : List (Moment σ)
  /-- The world right after the registration. -/
  entered : World σ
  middle : List (Moment σ)
  /-- The world right after the sync point was taken back. -/
  left : World σ
  future : List (Moment σ)
  history : p.history w₀ = past ++ ⟨.registered point, entered⟩ :: middle ++
    ⟨.cancelled [point], left⟩ :: future
  alone : left.scheduler.isPending point.device point.tag = false

theorem Event.count_points (e : Event) (r : SyncPoint) :
    e.points.count r = e.entered.count r + e.takenBack.count r + e.delivered.count r +
      e.passedOver.count r := by
  cases e <;> simp [points, entered, takenBack, delivered, passedOver]

theorem count_gather_points (ms : List (Moment σ)) (r : SyncPoint) :
    (gather Event.points ms).count r =
      (gather Event.entered ms).count r + (gather Event.takenBack ms).count r +
        (gather Event.delivered ms).count r + (gather Event.passedOver ms).count r := by
  induction ms with
  | nil => rfl
  | cons m ms ih =>
    have h := m.event.count_points r
    simp only [gather, List.flatMap_cons, List.count_append] at ih ⊢
    omega

/-- In a run that begins with nothing pending a sync point is dealt with at two moments at most. -/
theorem Path.count_points {w v : World σ} {ms : List (Moment σ)} (path : Path w ms v)
    (hq : w.scheduler.queue = []) (r : SyncPoint) :
    v.scheduler.queue.count r + (gather Event.points ms).count r =
      if r ∈ gather Event.entered ms then 2 else 0 := by
  have hone := path.one_place hq r
  rw [count_gather_points]
  by_cases hr : r ∈ gather Event.entered ms
  · have hentered := List.count_eq_one_of_mem path.entered_nodup hr
    rw [if_pos hr] at hone ⊢
    omega
  · have hentered := List.count_eq_zero_of_not_mem hr
    rw [if_neg hr] at hone ⊢
    omega

theorem World.exists_upTo {ms : List (Moment σ)} {m : Moment σ} (hm : m ∈ ms) :
    ∃ before after, ms = (before ++ [m]) ++ after ∧
      ∀ w : World σ, w.upTo (before ++ [m]) = m.world := by
  obtain ⟨before, after, rfl⟩ := List.append_of_mem hm
  exact ⟨before, after, (List.append_cons before m after), fun w => w.upTo_append before [m]⟩

theorem Path.eq_of_seq_eq {w v : World σ} {ms : List (Moment σ)} (path : Path w ms v)
    (hp : p ∈ gather Event.entered ms) (hq : q ∈ gather Event.entered ms) (h : p.seq = q.seq) :
    p = q := by
  have hnodup : ((gather Event.entered ms).map SyncPoint.seq).Nodup := by
    rw [path.numbered.2]
    exact List.nodup_range'
  exact List.inj_on_of_nodup_map hnodup hp hq h

namespace Withdrawal

variable {p : Program σ α} {w₀ : World σ} {t : Instant} (h₀ : w₀.scheduler = Scheduler.start t)
  (d : Withdrawal p w₀) {before after : List (Moment σ)} {m : Moment σ}

theorem mem_entered : d.point ∈ gather Event.entered (p.history w₀) := by
  rw [d.history]
  simp [gather, Event.entered]

theorem nextSeq_le_of_past (hm : m ∈ d.past) : m.world.scheduler.nextSeq ≤ d.point.seq := by
  obtain ⟨before, after, hsplit, hworld⟩ := World.exists_upTo hm
  have hwhole : p.history w₀ = (before ++ [m]) ++ (after ++ ⟨.registered d.point, d.entered⟩ ::
      d.middle ++ ⟨.cancelled [d.point], d.left⟩ :: d.future) := by
    simp only [d.history, hsplit, List.append_assoc]
  have hnumbered := ((p.path_upTo hwhole).2.numbered).2
  have hseq : d.point.seq ∈ (gather Event.entered (after ++ ⟨.registered d.point, d.entered⟩ ::
      d.middle ++ ⟨.cancelled [d.point], d.left⟩ :: d.future)).map SyncPoint.seq :=
    List.mem_map_of_mem (by simp [gather, Event.entered])
  rw [hnumbered, hworld w₀, List.mem_range'_1] at hseq
  exact hseq.1

include h₀

theorem count_points (h : p.history w₀ = before ++ after) (r : SyncPoint) :
    (w₀.upTo before).scheduler.queue.count r + (gather Event.points before).count r =
      if r ∈ gather Event.entered before then 2 else 0 :=
  (p.path_upTo h).1.count_points (by rw [h₀]; rfl) r

theorem entered_of_pending (h : p.history w₀ = before ++ after)
    (hq : q ∈ (w₀.upTo before).scheduler.queue) : q ∈ gather Event.entered before := by
  have hcount := count_points h₀ h q
  have hpos := List.count_pos_iff.mpr hq
  by_contra hnot
  rw [if_neg hnot] at hcount
  omega

theorem eq_of_pending (h : p.history w₀ = before ++ after)
    (hq : q ∈ (w₀.upTo before).scheduler.queue) (hseq : q.seq = d.point.seq) : q = d.point := by
  have hentered : q ∈ gather Event.entered (p.history w₀) := by
    rw [h, gather, List.flatMap_append]
    exact List.mem_append_left _ (entered_of_pending h₀ h hq)
  exact (p.path w₀).eq_of_seq_eq hentered d.mem_entered hseq

theorem eq_of_pending_at (hm : m ∈ p.history w₀) (hq : q ∈ m.world.scheduler.queue)
    (hseq : q.seq = d.point.seq) : q = d.point := by
  obtain ⟨before, after, hwhole, hworld⟩ := World.exists_upTo hm
  rw [← hworld w₀] at hq
  exact d.eq_of_pending h₀ hwhole hq hseq

theorem entered_of_points (hm : m ∈ p.history w₀) (hq : q ∈ m.event.points) :
    q ∈ gather Event.entered (p.history w₀) := by
  have hcount := count_points h₀ (List.append_nil (p.history w₀)).symm q
  have hpoints : q ∈ gather Event.points (p.history w₀) := List.mem_flatMap.mpr ⟨m, hm, hq⟩
  have hpos := List.count_pos_iff.mpr hpoints
  by_contra hnot
  rw [if_neg hnot] at hcount
  omega

/-- The sync point is dealt with at the two moments only. -/
theorem count_elsewhere :
    (gather Event.points d.past).count d.point = 0 ∧
      (gather Event.points d.middle).count d.point = 0 ∧
      (gather Event.points d.future).count d.point = 0 := by
  have hcount := count_points h₀ (List.append_nil (p.history w₀)).symm d.point
  rw [if_pos d.mem_entered, d.history] at hcount
  simp only [gather, List.flatMap_append, List.flatMap_cons, List.count_append, Event.points,
    List.count_singleton_self] at hcount ⊢
  omega

theorem seq_ne_of_points {ms : List (Moment σ)} (hms : ∀ m ∈ ms, m ∈ p.history w₀)
    (hcount : (gather Event.points ms).count d.point = 0) (hm : m ∈ ms) (hq : q ∈ m.event.points) :
    q.seq ≠ d.point.seq := by
  intro hseq
  have hsame := (p.path w₀).eq_of_seq_eq (entered_of_points h₀ (hms m hm) hq) d.mem_entered hseq
  refine List.count_eq_zero.mp hcount ?_
  rw [← hsame]
  exact List.mem_flatMap.mpr ⟨m, hm, hq⟩

theorem seq_ne_elsewhere (hm : m ∈ d.past ∨ m ∈ d.middle ∨ m ∈ d.future)
    (hq : q ∈ m.event.points) : q.seq ≠ d.point.seq := by
  obtain ⟨hpast, hmiddle, hfuture⟩ := d.count_elsewhere h₀
  rcases hm with hm | hm | hm
  · exact d.seq_ne_of_points h₀ (fun n hn => by rw [d.history]; simp [hn]) hpast hm hq
  · exact d.seq_ne_of_points h₀ (fun n hn => by rw [d.history]; simp [hn]) hmiddle hm hq
  · exact d.seq_ne_of_points h₀ (fun n hn => by rw [d.history]; simp [hn]) hfuture hm hq

theorem spares (hclear : ∀ m ∈ d.middle ++ d.future, m.Unambiguous) (hm : m ∈ p.history w₀) :
    m.Spares d.point := by
  have hplace : (m ∈ d.past ∨ m ∈ d.middle ∨ m ∈ d.future) ∨
      m = ⟨.registered d.point, d.entered⟩ ∨ m = ⟨.cancelled [d.point], d.left⟩ := by
    rw [d.history] at hm
    simp only [List.mem_append, List.mem_cons] at hm
    tauto
  rcases hplace with hm | rfl | rfl
  · have hne {q : SyncPoint} (hq : 0 < m.event.points.count q) : q.seq ≠ d.point.seq :=
      d.seq_ne_elsewhere h₀ hm (List.count_pos_iff.mp hq)
    constructor
    · intro q hq hseq
      have hpos := List.count_pos_iff.mpr hq
      exact absurd hseq (hne (by rw [Event.count_points]; omega))
    · intro q hq
      have hpos := List.count_pos_iff.mpr hq
      rw [Event.taken, List.count_append] at hpos
      exact hne (by rw [Event.count_points]; omega)
    · intro q hq hseq
      have hpos := List.count_pos_iff.mpr hq
      exact absurd hseq (hne (by rw [Event.count_points]; omega))
    · intro hlt
      rcases hm with hm | hm | hm
      · exact absurd (d.nextSeq_le_of_past hm) (Nat.not_le.mpr hlt)
      · exact hclear m (List.mem_append_left _ hm)
      · exact hclear m (List.mem_append_right _ hm)
  · exact ⟨fun q hq _ => List.mem_singleton.mp hq, fun q hq => absurd hq List.not_mem_nil,
      fun q hq _ => absurd hq List.not_mem_nil, fun _ q hq => absurd hq List.not_mem_nil⟩
  · exact ⟨fun q hq _ => absurd hq List.not_mem_nil, fun q hq => absurd hq List.not_mem_nil,
      fun _ _ _ => ⟨rfl, d.alone⟩, fun _ q hq => List.mem_singleton.mp hq ▸ d.alone⟩

theorem seq_ne_of_past (hm : m ∈ d.past) (hq : q ∈ m.world.scheduler.queue) :
    q.seq ≠ d.point.seq := by
  obtain ⟨before, after, hsplit, hworld⟩ := World.exists_upTo hm
  have hwhole : p.history w₀ = (before ++ [m]) ++ (after ++ ⟨.registered d.point, d.entered⟩ ::
      d.middle ++ ⟨.cancelled [d.point], d.left⟩ :: d.future) := by
    simp only [d.history, hsplit, List.append_assoc]
  rw [← hworld w₀] at hq
  intro hseq
  obtain ⟨n, hn, hentered⟩ := List.mem_flatMap.mp (entered_of_pending h₀ hwhole hq)
  have hpast : n ∈ d.past := by
    rw [hsplit]
    exact List.mem_append_left _ hn
  refine d.seq_ne_elsewhere h₀ (Or.inl hpast) (List.count_pos_iff.mp ?_) hseq
  have hpos := List.count_pos_iff.mpr hentered
  rw [Event.count_points]
  omega

theorem seq_ne_of_left (h : d.future = before ++ after)
    (hq : q ∈ (d.left.upTo before).scheduler.queue) : q.seq ≠ d.point.seq := by
  let prior := d.past ++ ⟨.registered d.point, d.entered⟩ :: d.middle ++
    ⟨.cancelled [d.point], d.left⟩ :: before
  have hwhole : p.history w₀ = prior ++ after := by
    rw [d.history, h]
    simp [prior]
  have hworld : w₀.upTo prior = d.left.upTo before := World.upTo_append _ _ _
  have hback : d.point ∈ gather Event.takenBack prior :=
    List.mem_flatMap.mpr ⟨⟨.cancelled [d.point], d.left⟩, by simp [prior],
      List.mem_singleton_self d.point⟩
  rw [← hworld] at hq
  intro hseq
  rw [d.eq_of_pending h₀ hwhole hq hseq] at hq
  have hone := (p.path_upTo hwhole).1.one_place (by rw [h₀]; rfl) d.point
  have hpending := List.count_pos_iff.mpr hq
  have hpos := List.count_pos_iff.mpr hback
  split at hone <;> omega

theorem seq_ne_of_future (hm : m ∈ d.future) (hq : q ∈ m.world.scheduler.queue) :
    q.seq ≠ d.point.seq := by
  obtain ⟨before, after, hwhole, hworld⟩ := World.exists_upTo hm
  rw [← hworld d.left] at hq
  exact d.seq_ne_of_left h₀ hwhole hq

end Withdrawal

/-- The run of a program and the one without a sync point that is taken back. -/
structure Withdrawal.LeavesNoTrace {p : Program σ α} {w₀ : World σ} (d : Withdrawal p w₀) :
    Prop where
  calls : calls ((p.without d.point).history w₀.omitting) = calls (p.history w₀)
  /-- The two calls left out are moments at which nothing is done. In between the sync point is
  missing from what is pending, and before and after there is no difference but in numbers. -/
  history : ∃ past entered middle left future,
    (p.without d.point).history w₀.omitting =
      past ++ ⟨.silent, entered⟩ :: middle ++ ⟨.silent, left⟩ :: future ∧
    List.Forall₂ (fun m m' => m.unnumbered = m'.original.unnumbered) d.past past ∧
    World.SameBut d.point d.entered entered.original ∧
    List.Forall₂ (fun m m' => m.event.unnumbered = m'.event.unnumbered ∧
      World.SameBut d.point m.world m'.world.original) d.middle middle ∧
    d.left.unnumbered = left.original.unnumbered ∧
    List.Forall₂ (fun m m' => m.unnumbered = m'.original.unnumbered) d.future future
  ended : SameEnd (fun w v => w.unnumbered = v.original.unnumbered) (p.run w₀)
    ((p.without d.point).run w₀.omitting)

theorem forall₂_append_left {β γ : Type} {R : β → γ → Prop} {as bs : List β} {cs : List γ}
    (h : List.Forall₂ R (as ++ bs) cs) :
    ∃ cs₁ cs₂, cs = cs₁ ++ cs₂ ∧ List.Forall₂ R as cs₁ ∧ List.Forall₂ R bs cs₂ := by
  induction as generalizing cs with
  | nil => exact ⟨[], cs, rfl, .nil, h⟩
  | cons a as ih =>
    cases h with
    | cons hac hrest =>
      obtain ⟨cs₁, cs₂, rfl, h₁, h₂⟩ := ih hrest
      exact ⟨_ :: cs₁, cs₂, rfl, .cons hac h₁, h₂⟩

theorem forall₂_imp_of_mem {β γ : Type} {R S : β → γ → Prop} {as : List β} {cs : List γ}
    (h : List.Forall₂ R as cs) (hS : ∀ {a c}, a ∈ as → R a c → S a c) : List.Forall₂ S as cs :=
  ((List.forall₂_and_left as cs).mpr ⟨fun _ ha => ha, h⟩).imp fun _ _ hac => hS hac.1 hac.2

namespace LeavingOut

variable {w : World σ} {v : World (σ × Omission)} {m : Moment σ} {m' : Moment (σ × Omission)}

theorem matched_omitting {t : Instant} (h₀ : w.scheduler = Scheduler.start t) (x : SyncPoint) :
    (leavingOut σ x).Matched w w.omitting := by
  have hs : w.scheduler.Sound := by
    rw [h₀]
    exact .start t
  have hnext : w.scheduler.nextSeq = 0 := by
    rw [h₀]
    rfl
  refine ⟨⟨?_, .refl _, hs, hs⟩, rfl, rfl, rfl, ?_, fun _ => rfl⟩
  · show Queue.unnumbered (w.scheduler.queue.filter _) = Queue.unnumbered w.scheduler.queue
    rw [h₀]
    rfl
  · rw [hnext]
    exact Nat.zero_le _

theorem unnumbered_eq (h : (leavingOut σ x).Matched w v)
    (hall : ∀ q ∈ w.scheduler.queue, q.seq ≠ x.seq) : w.unnumbered = v.original.unnumbered :=
  h.unnumbered_eq fun q hq => keep_iff.mpr (hall q hq)

theorem sameBut (h : (leavingOut σ x).Matched w v)
    (honly : ∀ q ∈ w.scheduler.queue, q.seq = x.seq → q = x) : World.SameBut x w v.original := by
  refine ⟨sameButPending h, ?_⟩
  have hkeep : w.scheduler.queue.filter (· != x) =
      w.scheduler.queue.filter (leavingOut σ x).keep := by
    refine List.filter_congr fun q hq => ?_
    rw [Bool.eq_iff_iff, bne_iff_ne, keep_iff]
    exact ⟨fun hne hseq => hne (honly q hq hseq), fun hne hsame => hne (congrArg _ hsame)⟩
  rw [hkeep]
  exact h.scheduler.queue

theorem event_eq (h : (leavingOut σ x).Paired m m')
    (hall : ∀ q ∈ m.event.points, q.seq ≠ x.seq) : m.event.unnumbered = m'.event.unnumbered :=
  h.told.unnumbered_eq fun q hq => keep_iff.mpr (hall q hq)

theorem moment_eq (h : (leavingOut σ x).Paired m m') (hpoints : ∀ q ∈ m.event.points, q.seq ≠ x.seq)
    (hqueue : ∀ q ∈ m.world.scheduler.queue, q.seq ≠ x.seq) :
    m.unnumbered = m'.original.unnumbered := by
  rw [Moment.unnumbered, event_eq h hpoints, unnumbered_eq h.world hqueue]
  rfl

/-- What deals with the sync point itself is not told. -/
theorem silent_of_point (h : (leavingOut σ x).Paired m m') (hx : x ∈ m.event.points) :
    m'.event = .silent := by
  obtain ⟨e, w⟩ := m
  obtain ⟨e', w'⟩ := m'
  cases h.told with
  | same _ kept => exact absurd rfl (keep_iff.mp (kept x hx))
  | registered _ => rfl
  | cancelled _ => rfl

end LeavingOut

namespace Withdrawal

variable {p : Program σ α} {w₀ : World σ} {t : Instant} (h₀ : w₀.scheduler = Scheduler.start t)
  (d : Withdrawal p w₀) {m : Moment σ} {m' : Moment (σ × Omission)}
  (h : (leavingOut σ d.point).Paired m m')

include h₀ h

theorem same_of_past (hm : m ∈ d.past) : m.unnumbered = m'.original.unnumbered :=
  LeavingOut.moment_eq h (fun _ hq => d.seq_ne_elsewhere h₀ (Or.inl hm) hq)
    fun _ hq => d.seq_ne_of_past h₀ hm hq

theorem sameBut_of_mem (hm : m ∈ p.history w₀) : World.SameBut d.point m.world m'.world.original :=
  LeavingOut.sameBut h.world fun _ hq => d.eq_of_pending_at h₀ hm hq

theorem same_of_middle (hm : m ∈ d.middle) : m.event.unnumbered = m'.event.unnumbered ∧
    World.SameBut d.point m.world m'.world.original := by
  refine ⟨LeavingOut.event_eq h fun q hq => d.seq_ne_elsewhere h₀ (Or.inr (Or.inl hm)) hq, ?_⟩
  refine d.sameBut_of_mem h₀ h ?_
  rw [d.history]
  simp [hm]

theorem same_of_future (hm : m ∈ d.future) : m.unnumbered = m'.original.unnumbered :=
  LeavingOut.moment_eq h (fun _ hq => d.seq_ne_elsewhere h₀ (Or.inr (Or.inr hm)) hq)
    fun _ hq => d.seq_ne_of_future h₀ hm hq

end Withdrawal

/-- Without a sync point that is taken back before it was delivered, as the only one that matches, a
run takes the same course: the same devices are woken at the same instants for the same reasons, the
time is the same throughout, and after the sync point was taken back the same is pending in the same
order. Since its place in the heap has been taken by others, nothing is told of a run that later
takes back one of several matches. -/
theorem taken_back_as_if_never_registered {w₀ : World σ} {t : Instant}
    (h₀ : w₀.scheduler = Scheduler.start t) {p : Program σ α}
    (hp : p.Overlooks World.SameButPending) (hsteps : p.Stepped) (d : Withdrawal p w₀)
    (hclear : ∀ m ∈ d.middle ++ d.future, m.Unambiguous) : d.LeavesNoTrace := by
  obtain ⟨hpaired, hend⟩ := Program.mirrored_without hp hsteps w₀ w₀.omitting
    (LeavingOut.matched_omitting h₀ d.point) fun m hm => d.spares h₀ hclear hm
  refine ⟨(Comparison.calls_eq_of_paired hpaired).symm, ?_, hend.of_after ?_⟩
  · rw [d.history] at hpaired
    obtain ⟨first, future, hhistory, hfirst, hfuture⟩ := forall₂_append_left hpaired
    obtain ⟨past, middle, rfl, hpast, hmiddle⟩ := forall₂_append_left hfirst
    cases hmiddle with
    | @cons _ m₁ _ middle hentered hmiddle =>
      cases hfuture with
      | @cons _ m₂ _ future hleft hfuture =>
        have hmoment₁ : m₁ = ⟨.silent, m₁.world⟩ := by
          rw [← LeavingOut.silent_of_point hentered (List.mem_singleton_self d.point)]
        have hmoment₂ : m₂ = ⟨.silent, m₂.world⟩ := by
          rw [← LeavingOut.silent_of_point hleft (List.mem_singleton_self d.point)]
        have hmem : (⟨.registered d.point, d.entered⟩ : Moment σ) ∈ p.history w₀ := by
          rw [d.history]
          simp
        refine ⟨past, m₁.world, middle, m₂.world, future, ?_, ?_, ?_, ?_, ?_, ?_⟩
        · rw [← hmoment₁, ← hmoment₂, hhistory]
        · exact forall₂_imp_of_mem hpast fun hm h => d.same_of_past h₀ h hm
        · exact d.sameBut_of_mem h₀ hentered hmem
        · exact forall₂_imp_of_mem hmiddle fun hm h => d.same_of_middle h₀ h hm
        · exact LeavingOut.unnumbered_eq hleft.world fun q hq =>
            d.seq_ne_of_left h₀ (List.nil_append d.future).symm hq
        · exact forall₂_imp_of_mem hfuture fun hm h => d.same_of_future h₀ h hm
  · refine LeavingOut.unnumbered_eq hend.after fun q hq => ?_
    have hlast : w₀.upTo (p.history w₀) = p.after w₀ := (p.path w₀).upTo_eq
    rw [d.history, World.upTo_append] at hlast
    have hfuture : d.left.upTo d.future = p.after w₀ := hlast
    exact d.seq_ne_of_left h₀ (List.append_nil d.future).symm (hfuture ▸ hq)

/-- The first wake-up makes the second one needless. -/
def secondThoughts : Program Unit Unit :=
  .andThen twoPending fun _ =>
    .schedule (fun device _ _ => .andThen (.cancel device 1) fun _ => .done ()) 3 0 (.wrap 9)

def secondHistory : List (Moment Unit) := secondThoughts.history (.ofScheduler .new ())

def secondWithdrawn : Withdrawal secondThoughts (.ofScheduler .new ()) where
  point := ⟨.wrap 9, 0, 1, 1⟩
  past := secondHistory.take 2
  entered := (World.ofScheduler .new ()).upTo (secondHistory.take 3)
  middle := (secondHistory.take 6).drop 3
  left := (World.ofScheduler .new ()).upTo (secondHistory.take 7)
  future := secondHistory.drop 7
  history := rfl
  alone := by decide

theorem taken_back_as_if_never_registered_second :
    calls ((secondThoughts.without ⟨.wrap 9, 0, 1, 1⟩).history
      (World.omitting (.ofScheduler .new ()))) = [⟨0, .wrap 5, 0⟩] := by
  have h₀ : (World.ofScheduler .new () : World Unit).scheduler = .start .zero := rfl
  have hoverlooks : secondThoughts.Overlooks World.SameButPending :=
    ⟨⟨trivial, fun _ => ⟨trivial, fun _ => trivial⟩⟩, fun _ _ _ _ => ⟨trivial, fun _ => trivial⟩⟩
  have hstepped : secondThoughts.Stepped :=
    ⟨⟨trivial, fun _ => ⟨trivial, fun _ => trivial⟩⟩, fun _ => ⟨by decide, fun _ _ _ =>
      ⟨trivial, fun _ => trivial⟩⟩⟩
  have h := taken_back_as_if_never_registered h₀ hoverlooks hstepped secondWithdrawn
    (by decide +kernel)
  exact h.calls.trans (by decide)

/-- A wake-up is taken back, and then one of two that differ in their instants only. -/
def oneOfTwo : Program Unit Unit :=
  .andThen (.enroll true) fun device =>
    .andThen (.register (.wrap 10) device 0) fun _ =>
      .andThen (.register (.wrap 60) device 9) fun _ =>
        .andThen (.register (.wrap 50) device 1) fun _ =>
          .andThen (.register (.wrap 20) device 1) fun _ =>
            .andThen (.cancel device 9) fun _ =>
              .andThen (.cancel device 1) fun _ => .schedule (fun _ _ _ => .done ()) 3 0 (.wrap 30)

def oneOfTwoHistory : List (Moment Unit) := oneOfTwo.history (.ofScheduler .new ())

def oneOfTwoWithdrawn : Withdrawal oneOfTwo (.ofScheduler .new ()) where
  point := ⟨.wrap 60, 0, 9, 1⟩
  past := oneOfTwoHistory.take 2
  entered := (World.ofScheduler .new ()).upTo (oneOfTwoHistory.take 3)
  middle := (oneOfTwoHistory.take 5).drop 3
  left := (World.ofScheduler .new ()).upTo (oneOfTwoHistory.take 6)
  future := oneOfTwoHistory.drop 6
  history := rfl
  alone := by decide

/-- With the wake-up the earlier of the two is taken back, and without it the later one. -/
theorem taken_back_and_still_of_effect :
    oneOfTwo.Overlooks World.SameButPending ∧ oneOfTwo.Stepped ∧
      calls (oneOfTwo.history (.ofScheduler .new ())) = [⟨0, .wrap 10, 0⟩] ∧
      calls ((oneOfTwo.without oneOfTwoWithdrawn.point).history
        (World.omitting (.ofScheduler .new ()))) = [⟨0, .wrap 10, 0⟩, ⟨0, .wrap 20, 1⟩] ∧
      ¬ oneOfTwoWithdrawn.LeavesNoTrace := by
  have hwith : calls (oneOfTwo.history (.ofScheduler .new ())) = [⟨0, .wrap 10, 0⟩] := by
    decide +kernel
  have hwithout : calls ((oneOfTwo.without oneOfTwoWithdrawn.point).history
      (World.omitting (.ofScheduler .new ()))) = [⟨0, .wrap 10, 0⟩, ⟨0, .wrap 20, 1⟩] := by
    decide +kernel
  refine ⟨?_, ?_, hwith, hwithout, fun h => ?_⟩
  · simp [oneOfTwo, Program.Overlooks]
  · simp [oneOfTwo, Program.Stepped]
  · have hcalls := h.calls
    rw [hwith, hwithout] at hcalls
    cases hcalls

end Timebase
