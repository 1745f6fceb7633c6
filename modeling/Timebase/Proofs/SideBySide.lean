import Mathlib.Data.List.Forall2
import Timebase.Proofs.Unnumbered

/-!
# Two runs side by side

Two runs of much the same program go side by side if their worlds differ in nothing but numbers and
in sync points of the first one that are not kept, and that nobody takes. What is told here is how
they go on so through everything that does not deal with those sync points itself: through wake-ups,
deliveries and moves of time. What remains to be told is left to the comparison at hand.
-/

namespace Timebase

open Run (SameEnd)

variable {σ τ α β : Type}

theorem Run.SameEnd.after {R : σ → τ → Prop} {act : Run σ α} {act' : Run τ α} {s : σ} {t : τ}
    (h : SameEnd R (act s) (act' t)) : R (act.after s) (act'.after t) := by
  generalize hx : act s = x, hx' : act' t = x' at h
  cases h with
  | ok a hR =>
    rw [Run.after_of_ok hx, Run.after_of_ok hx']
    exact hR
  | error halt hR =>
    rw [Run.after_of_error hx, Run.after_of_error hx']
    exact hR

theorem Run.SameEnd.of_after {R S : σ → τ → Prop} {act : Run σ α} {act' : Run τ α} {s : σ} {t : τ}
    (h : SameEnd R (act s) (act' t)) (hS : S (act.after s) (act'.after t)) :
    SameEnd S (act s) (act' t) := by
  generalize hx : act s = x, hx' : act' t = x' at h
  cases h with
  | ok a _ =>
    rw [Run.after_of_ok hx, Run.after_of_ok hx'] at hS
    exact .ok a hS
  | error halt _ =>
    rw [Run.after_of_error hx, Run.after_of_error hx'] at hS
    exact .error halt hS

namespace Event

variable {e e' : Event} {keep : SyncPoint → Bool}

def unnumbered : Event → Event
  | .registered p => .registered p.unnumbered
  | .cancelled ps => .cancelled (Queue.unnumbered ps)
  | .buried ps => .buried (Queue.unnumbered ps)
  | .woken p time => .woken p.unnumbered time
  | .skipped p time => .skipped p.unnumbered time
  | .asked device demand => .asked device demand
  | .timeSet => .timeSet
  | .silent => .silent

theorem calls_unnumbered (e : Event) : e.unnumbered.calls = e.calls := by
  cases e <;> rfl

/-- The sync points that an event deals with. -/
def points : Event → List SyncPoint
  | .registered p => [p]
  | .cancelled ps => ps
  | .buried ps => ps
  | .woken p _ => [p]
  | .skipped p _ => [p]
  | .asked _ _ => []
  | .timeSet => []
  | .silent => []

/-- The second event tells the same as the first, or nothing where that deals with a sync point that
is not kept. -/
inductive Told (keep : SyncPoint → Bool) : Event → Event → Prop where
  | same {e e' : Event} (h : e.unnumbered = e'.unnumbered)
      (kept : ∀ p ∈ e.points, keep p = true) : Told keep e e'
  | registered {p : SyncPoint} (h : keep p = false) : Told keep (.registered p) .silent
  | cancelled {p : SyncPoint} (h : keep p = false) : Told keep (.cancelled [p]) .silent

theorem Told.calls_eq (h : Told keep e e') : e.calls = e'.calls := by
  cases h with
  | same h _ => rw [← calls_unnumbered, h, calls_unnumbered]
  | registered _ => rfl
  | cancelled _ => rfl

theorem Told.unnumbered_eq (h : Told keep e e') (kept : ∀ p ∈ e.points, keep p = true) :
    e.unnumbered = e'.unnumbered := by
  cases h with
  | same h _ => exact h
  | registered h | cancelled h =>
    rw [kept _ (List.mem_singleton_self _)] at h
    cases h

end Event

/-- A scheduler apart from the numbers of its sync points and the places at which they are stored. -/
structure Scheduler.Unnumbered where
  /-- What is pending, in the order in which it comes due. -/
  queue : Queue
  currentTime : Instant
  nextKey : Nat
  owner : Option ThreadId
  dispatching : Bool

def Scheduler.unnumbered (s : Scheduler) : Scheduler.Unnumbered :=
  ⟨s.queue.unnumbered, s.currentTime, s.nextKey, s.owner, s.dispatching⟩

structure World.Unnumbered (σ : Type) where
  scheduler : Scheduler.Unnumbered
  lifetimes : List Lifetime
  skipped : List Skipped
  devices : σ

def World.unnumbered (w : World σ) : World.Unnumbered σ :=
  ⟨w.scheduler.unnumbered, w.lifetimes, w.skipped, w.devices⟩

def Moment.unnumbered (m : Moment σ) : Event × World.Unnumbered σ :=
  (m.event.unnumbered, m.world.unnumbered)

/-- What is taken back at a moment was the only match. All of a device never leaves another one. -/
def Moment.Unambiguous (m : Moment σ) : Prop :=
  ∀ p ∈ m.event.takenBack, m.world.scheduler.isPending p.device p.tag = false

instance (m : Moment σ) : Decidable m.Unambiguous :=
  inferInstanceAs (Decidable (∀ p ∈ m.event.takenBack, _))

section

variable {w : World σ} {p : SyncPoint} {device : DeviceId} {tag : Tag}

theorem Program.history_cancel (hp : w.scheduler.find? device tag = some p) :
    (Program.cancel device tag).history w =
      [⟨.cancelled [p], { w with scheduler := (w.scheduler.cancel device tag).2 }⟩] := by
  rw [Program.history, hp]
  rfl

/-- What is taken back while nothing else matches was the only match. -/
theorem Scheduler.filter_of_alone {s : Scheduler} (hp : s.find? device tag = some p)
    (halone : (s.cancel device tag).2.isPending p.device p.tag = false) :
    s.queue.filter (SyncPoint.isFor device tag) = [p] := by
  obtain ⟨-, hdevice, htag⟩ := mem_of_find? hp
  have hkind : p.isFor device tag = true := SyncPoint.isFor_iff.mpr ⟨hdevice, htag⟩
  rw [hdevice, htag, isPending_eq_any] at halone
  have hrest := List.filter_eq_nil_iff.mpr (List.any_eq_false.mp halone)
  have hperm := (perm_of_cancel hp).filter (SyncPoint.isFor device tag)
  rw [List.filter_cons_of_pos hkind, hrest] at hperm
  exact List.perm_singleton.mp hperm

theorem Program.filter_of_unambiguous (hp : w.scheduler.find? device tag = some p)
    (h : ∀ m ∈ (Program.cancel device tag).history w, m.Unambiguous) :
    w.scheduler.queue.filter (SyncPoint.isFor device tag) = [p] := by
  rw [history_cancel hp] at h
  exact Scheduler.filter_of_alone hp (h _ (List.mem_singleton_self _) p (List.mem_singleton_self p))

end

theorem World.exists_taken (wake : Wake σ)
    (history : DeviceId → Instant → Tag → World σ → List (Moment σ)) (p : SyncPoint)
    (time : Instant) (w : World σ) :
    ∃ m ∈ deliverHistory wake history p time w, p ∈ m.event.taken := by
  rw [deliverHistory]
  cases w.isAlive p.device with
  | true => exact ⟨_, List.mem_cons_self, List.mem_singleton_self p⟩
  | false => exact ⟨_, List.mem_singleton_self _, List.mem_singleton_self p⟩

theorem World.mem_dispatchHistory {wake : Wake σ}
    {history : DeviceId → Instant → Tag → World σ → List (Moment σ)} {limit time : Instant}
    {steps : Nat} {w : World σ} {p : SyncPoint} {scheduler : Scheduler} {m : Moment σ}
    (hd : w.scheduler.takeDue limit = (some (p, time), scheduler))
    (hm : m ∈ deliverHistory wake history p time { w with scheduler }) :
    m ∈ dispatchHistory wake history limit (steps + 1) w := by
  rw [dispatchHistory, hd]
  exact List.mem_append_left _ hm

/-- A program that does not tell worlds apart that are alike when it looks at them. -/
def Program.Overlooks (Alike : World σ → World σ → Prop) {α : Type} : Program σ α → Prop
  | .done _ | .halt _ | .work _ | .ask _ _ _ | .enroll _ | .drop _ => True
  | .register _ _ _ | .cancel _ _ | .cancelAll _ | .setCurrentTime _ _ => True
  | .andThen p next => p.Overlooks Alike ∧ ∀ a, (next a).Overlooks Alike
  | .attempt p => p.Overlooks Alike
  | .look f => ∀ w v, Alike w v → f v = f w
  | .visit _ p => p.Overlooks Alike
  | .schedule react _ _ _ => ∀ device time tag, (react device time tag).Overlooks Alike

/-- How the worlds of two runs are compared. -/
structure Comparison (σ τ : Type) where
  /-- The sync points that the second world does not lack. -/
  keep : SyncPoint → Bool
  /-- The states of the devices of the second world as they are in the first. -/
  devices : τ → σ
  /-- What is known about the sync points of the first world and its next number. -/
  Known : τ → Queue → Nat → Prop
  /-- Whether the same is still stored in both worlds. -/
  Twin : τ → Prop
  /-- Moments of the first run at which nothing is delivered or buried that is not kept. -/
  Spared : Moment σ → Prop
  known_of_sublist : ∀ {d : τ} {queue rest : Queue} {n : Nat}, Known d queue n →
    rest.Sublist queue → (∀ p ∈ queue, keep p = false → p ∈ rest) → Known d rest n
  keep_of_taken : ∀ {m : Moment σ} {p : SyncPoint}, Spared m → p ∈ m.event.taken → keep p = true
  keep_of_buried : ∀ {m : Moment σ} {ps : List SyncPoint} {p : SyncPoint}, Spared m →
    m.event = .buried ps → p ∈ ps → keep p = true

namespace Comparison

variable {c : Comparison σ τ} {w : World σ} {v : World τ} {s s' : Scheduler} {device : DeviceId}

/-- Worlds that go side by side. -/
structure Matched (c : Comparison σ τ) (w : World σ) (v : World τ) : Prop where
  scheduler : w.scheduler.Lacking c.keep v.scheduler
  lifetimes : v.lifetimes = w.lifetimes
  skipped : v.skipped = w.skipped
  devices : c.devices v.devices = w.devices
  known : c.Known v.devices w.scheduler.queue w.scheduler.nextSeq
  twin : c.Twin v.devices → v.scheduler.pending = w.scheduler.pending

/-- Moments that go side by side. -/
structure Paired (c : Comparison σ τ) (m : Moment σ) (m' : Moment τ) : Prop where
  told : m.event.Told c.keep m'.event
  world : c.Matched m.world m'.world

/-- Work of the devices that comes to the same on both sides. -/
structure SameWork (c : Comparison σ τ) (act : Run σ α) (act' : Run τ α) : Prop where
  ends : ∀ d, SameEnd (fun d d' => c.devices d' = d) (act (c.devices d)) (act' d)
  known : ∀ {d : τ} {queue : Queue} {n : Nat}, c.Known d queue n → c.Known (act'.after d) queue n
  twin : ∀ d, c.Twin (act'.after d) → c.Twin d

namespace Matched

variable (h : c.Matched w v)

include h

theorem withLifetimes (ls : List Lifetime) :
    c.Matched { w with lifetimes := ls } { v with lifetimes := ls } :=
  ⟨h.scheduler, rfl, h.skipped, h.devices, h.known, h.twin⟩

theorem modify (device : DeviceId) (change : Lifetime → Lifetime) :
    c.Matched { w with lifetimes := w.lifetimes.modify device change }
      { v with lifetimes := v.lifetimes.modify device change } := by
  rw [h.lifetimes]
  exact h.withLifetimes _

theorem isAlive (device : DeviceId) : v.isAlive device = w.isAlive device := by
  rw [World.isAlive, World.isAlive, h.lifetimes]

theorem isOwned (device : DeviceId) : v.isOwned device = w.isOwned device := by
  rw [World.isOwned, World.isOwned, h.lifetimes]

theorem moved (hl : s.Lacking c.keep s') (hs : w.scheduler.SamePending s)
    (hs' : v.scheduler.SamePending s') :
    c.Matched { w with scheduler := s } { v with scheduler := s' } := by
  refine ⟨hl, h.lifetimes, h.skipped, h.devices, ?_, fun htwin => ?_⟩
  · show c.Known v.devices s.queue s.nextSeq
    rw [hs.queue, hs.nextSeq]
    exact h.known
  · show s'.pending = s.pending
    rw [hs.pending, hs'.pending]
    exact h.twin htwin

theorem taken (hl : s.Lacking c.keep s') (hqueue : s.queue.Sublist w.scheduler.queue)
    (hkeep : ∀ p ∈ w.scheduler.queue, c.keep p = false → p ∈ s.queue)
    (hseq : s.nextSeq = w.scheduler.nextSeq)
    (htwin : v.scheduler.pending = w.scheduler.pending → s'.pending = s.pending) :
    c.Matched { w with scheduler := s } { v with scheduler := s' } := by
  refine ⟨hl, h.lifetimes, h.skipped, h.devices, ?_, fun h' => htwin (h.twin h')⟩
  show c.Known v.devices s.queue s.nextSeq
  rw [hseq]
  exact c.known_of_sublist h.known hqueue hkeep

theorem unnumbered_eq (hall : ∀ p ∈ w.scheduler.queue, c.keep p = true) :
    w.unnumbered = ⟨v.scheduler.unnumbered, v.lifetimes, v.skipped, c.devices v.devices⟩ := by
  obtain ⟨hqueue, hkey⟩ := h.scheduler.pending_eq hall
  rw [World.unnumbered, Scheduler.unnumbered, Scheduler.unnumbered, hqueue, hkey,
    h.scheduler.time.currentTime, h.scheduler.time.owner, h.scheduler.time.dispatching,
    h.lifetimes, h.skipped, h.devices]

theorem silent : c.Paired ⟨.silent, w⟩ ⟨.silent, v⟩ := ⟨.same rfl fun _ hp => (by cases hp), h⟩

theorem asked (device : DeviceId) (demand : Demand) :
    c.Paired ⟨.asked device demand, w⟩ ⟨.asked device demand, v⟩ :=
  ⟨.same rfl fun _ hp => (by cases hp), h⟩

theorem onDevices {act : Run σ α} {act' : Run τ α} (hact : c.SameWork act act') :
    SameEnd c.Matched (World.onDevices act w) (World.onDevices act' v) := by
  have hends := hact.ends v.devices
  have hafter := hact.known h.known
  have hsame := fun hd => h.twin (hact.twin v.devices hd)
  rw [h.devices] at hends
  generalize hx : act w.devices = x, hx' : act' v.devices = x' at hends
  cases hends with
  | ok a hdevices =>
    rw [Run.after_of_ok hx'] at hafter hsame
    rw [World.onDevices_of_ok hx, World.onDevices_of_ok hx']
    exact .ok a ⟨h.scheduler, h.lifetimes, h.skipped, hdevices, hafter, hsame⟩
  | error halt hdevices =>
    rw [Run.after_of_error hx'] at hafter hsame
    rw [World.onDevices_of_error hx, World.onDevices_of_error hx']
    exact .error halt ⟨h.scheduler, h.lifetimes, h.skipped, hdevices, hafter, hsame⟩

theorem onScheduler {act : Run Scheduler α}
    (hact : SameEnd (Scheduler.Lacking c.keep) (act w.scheduler) (act v.scheduler))
    (hpending : ∀ s, Scheduler.SamePending s (act.after s)) :
    SameEnd c.Matched (World.onScheduler act w) (World.onScheduler act v) := by
  have hs := hpending w.scheduler
  have hs' := hpending v.scheduler
  have hafter := h.moved hact.after hs hs'
  generalize hx : act w.scheduler = x, hx' : act v.scheduler = x' at hact
  cases hact with
  | ok a _ =>
    rw [Run.after_of_ok hx, Run.after_of_ok hx'] at hafter
    rw [World.onScheduler_of_ok hx, World.onScheduler_of_ok hx']
    exact .ok a hafter
  | error halt _ =>
    rw [Run.after_of_error hx, Run.after_of_error hx'] at hafter
    rw [World.onScheduler_of_error hx, World.onScheduler_of_error hx']
    exact .error halt hafter

theorem takenAll
    (hkept : ∀ p ∈ w.scheduler.queue.filter fun p => p.device == device, c.keep p = true) :
    c.Matched { w with scheduler := (w.scheduler.cancelAll device).2 }
      { v with scheduler := (v.scheduler.cancelAll device).2 } := by
  refine h.taken (h.scheduler.cancelAll device) ?_ ?_ (Scheduler.nextSeq_cancelAll device _)
    (Scheduler.pending_cancelAll · device)
  · rw [Scheduler.queue_cancelAll]
    exact List.filter_sublist
  · intro p hp hout
    rw [Scheduler.queue_cancelAll, List.mem_filter]
    refine ⟨hp, ?_⟩
    cases hdevice : p.device == device with
    | false => rw [bne, hdevice]; rfl
    | true =>
      rw [hkept p (List.mem_filter.mpr ⟨hp, hdevice⟩)] at hout
      cases hout

theorem bury (hkeep : ∀ p ∈ w.burial device, c.keep p = true) :
    Queue.unnumbered (w.burial device) = Queue.unnumbered (v.burial device) ∧
      c.Matched (w.bury device) (v.bury device) := by
  have hsame : v.lifetimes[device]? = w.lifetimes[device]? := by rw [h.lifetimes]
  rw [World.burial] at hkeep
  rw [World.burial, World.burial, World.bury, World.bury, hsame]
  cases hl : w.lifetimes[device]? with
  | none => exact ⟨rfl, h⟩
  | some l =>
    simp only [hl] at hkeep
    cases hgone : (!l.isAlive && l.ownsSyncPoints) with
    | false =>
      simp only [hgone, Bool.false_eq_true, if_false]
      exact ⟨trivial, h⟩
    | true =>
      simp only [hgone, if_true] at hkeep ⊢
      exact ⟨h.scheduler.filter_kind (fun _ => rfl) hkeep, h.takenAll hkeep⟩

theorem takeDue {limit time : Instant} {r : SyncPoint}
    (hd : w.scheduler.takeDue limit = (some (r, time), s)) (hkeep : c.keep r = true) :
    ∃ r' s', v.scheduler.takeDue limit = (some (r', time), s') ∧ r.unnumbered = r'.unnumbered ∧
      c.Matched { w with scheduler := s } { v with scheduler := s' } := by
  obtain ⟨r', s', hd', hr, hl⟩ := h.scheduler.takeDue_some hd hkeep
  obtain ⟨-, -, -, -, hs⟩ := Scheduler.takeDue_eq_some.mp hd
  obtain ⟨-, -, -, -, hs'⟩ := Scheduler.takeDue_eq_some.mp hd'
  have hq := Scheduler.queue_takeDue hd
  refine ⟨r', s', hd', hr, h.taken hl ?_ ?_ (by rw [hs]; rfl) fun htwin => ?_⟩
  · rw [hq]
    exact List.sublist_cons_self r s.queue
  · intro p hp hout
    rw [hq] at hp
    rcases List.mem_cons.mp hp with rfl | hp
    · rw [hkeep] at hout
      cases hout
    · exact hp
  · rw [hs, hs']
    exact congrArg Pending.pop htwin

theorem loseHold (device : DeviceId) (change : Lifetime → Lifetime)
    (hspared : ∀ m ∈ w.loseHold device change, c.Spared m) :
    List.Forall₂ c.Paired (w.loseHold device change) (v.loseHold device change) ∧
      c.Matched
        (({ w with lifetimes := w.lifetimes.modify device change } : World σ).bury device)
        (({ v with lifetimes := v.lifetimes.modify device change } : World τ).bury device) := by
  have hmodify := h.modify device change
  have hburied := hspared _ (List.mem_cons_of_mem _ List.mem_cons_self)
  obtain ⟨hburial, hbury⟩ := hmodify.bury fun p hp => c.keep_of_buried hburied rfl hp
  have htold : c.Paired ⟨.buried _, _⟩ ⟨.buried _, _⟩ :=
    ⟨.same (congrArg Event.buried hburial) fun p hp => c.keep_of_buried hburied rfl hp, hbury⟩
  exact ⟨.cons hmodify.silent (.cons htold .nil), hbury⟩

end Matched

/-- The same devices are woken at the same instants for the same reasons. -/
theorem calls_eq_of_paired {ms : List (Moment σ)} {ms' : List (Moment τ)}
    (h : List.Forall₂ c.Paired ms ms') : calls ms = calls ms' := by
  induction h with
  | nil => rfl
  | @cons m m' ms ms' hm _ ih =>
    have hcons (m : Moment σ) (ms : List (Moment σ)) :
        calls (m :: ms) = m.event.calls ++ calls ms := rfl
    have hcons' (m : Moment τ) (ms : List (Moment τ)) :
        calls (m :: ms) = m.event.calls ++ calls ms := rfl
    rw [hcons, hcons', hm.told.calls_eq, ih]

/-- Programs of which the second goes side by side with the first. -/
def Mirrored (c : Comparison σ τ) (p : Program σ α) (p' : Program τ α) : Prop :=
  ∀ w v, c.Matched w v → (∀ m ∈ p.history w, c.Spared m) →
    List.Forall₂ c.Paired (p.history w) (p'.history v) ∧ SameEnd c.Matched (p.run w) (p'.run v)

namespace Mirrored

variable {p : Program σ α} {p' : Program τ α} {next : α → Program σ β} {next' : α → Program τ β}
  {q : Program σ Unit} {q' : Program τ Unit}

theorem done (a : α) : c.Mirrored (.done a) (.done a) := fun _ _ h _ => ⟨.nil, .ok a h⟩

theorem halt (cause : Halt) : c.Mirrored (α := α) (.halt cause) (.halt cause) :=
  fun _ _ h _ => ⟨.nil, .error cause h⟩

theorem andThen (h : c.Mirrored p p') (hnext : ∀ a, c.Mirrored (next a) (next' a)) :
    c.Mirrored (.andThen p next) (.andThen p' next') := by
  intro w v hw hspared
  rw [Program.history] at hspared ⊢
  have hfirst := h w v hw fun m hm => hspared m (List.mem_append_left _ hm)
  rw [Program.history, Program.run, Program.run]
  obtain ⟨hpaired, hend⟩ := hfirst
  generalize hx : p.run w = x, hx' : p'.run v = x' at hend
  cases hend with
  | @ok a u u' hu =>
    rw [hx] at hspared
    obtain ⟨hrest, hlast⟩ := hnext a u u' hu fun m hm => hspared m (List.mem_append_right _ hm)
    rw [Run.bind_of_ok hx, Run.bind_of_ok hx']
    exact ⟨List.rel_append hpaired hrest, hlast⟩
  | error cause hu =>
    rw [Run.bind_of_error hx, Run.bind_of_error hx']
    simp only [List.append_nil]
    exact ⟨hpaired, .error cause hu⟩

theorem attempt (h : c.Mirrored p p') : c.Mirrored (.attempt p) (.attempt p') := by
  intro w v hw hspared
  obtain ⟨hpaired, hend⟩ := h w v hw hspared
  refine ⟨hpaired, ?_⟩
  rw [Program.run, Program.run, Run.attempt, Run.attempt]
  generalize p.run w = x, p'.run v = x' at hend
  cases hend with
  | ok a hu => exact .ok _ hu
  | error cause hu =>
    cases cause with
    | fault cause => exact .ok _ hu
    | starved => exact .error _ hu

theorem look {f : World σ → α} {f' : World τ → α} (h : ∀ w v, c.Matched w v → f' v = f w) :
    c.Mirrored (.look f) (.look f') := by
  intro w v hw _
  refine ⟨.nil, ?_⟩
  show SameEnd c.Matched (.ok (f w) w) (.ok (f' v) v)
  rw [h w v hw]
  exact .ok _ hw

theorem work {act : Run σ α} {act' : Run τ α} (h : c.SameWork act act') :
    c.Mirrored (.work act) (.work act') := by
  intro w v hw _
  have hend := hw.onDevices h
  exact ⟨.cons hend.after.silent .nil, hend⟩

theorem ask {act : Run σ α} {act' : Run τ α} (device : DeviceId) (demand : Demand)
    (h : c.SameWork act act') : c.Mirrored (.ask device demand act) (.ask device demand act') := by
  intro w v hw _
  have hend := hw.onDevices h
  exact ⟨.cons (hend.after.asked device demand) .nil, hend⟩

theorem enroll (ownsSyncPoints : Bool) :
    c.Mirrored (.enroll ownsSyncPoints) (.enroll ownsSyncPoints) := by
  intro w v hw _
  have hlifetimes := hw.withLifetimes (w.lifetimes ++ [⟨true, 0, ownsSyncPoints⟩])
  have hend : SameEnd c.Matched (World.enroll ownsSyncPoints w)
      (World.enroll ownsSyncPoints v) := by
    show SameEnd c.Matched (.ok w.lifetimes.length _) (.ok v.lifetimes.length
      { v with lifetimes := v.lifetimes ++ [_] })
    rw [hw.lifetimes]
    exact .ok _ hlifetimes
  exact ⟨.cons hend.after.silent .nil, hend⟩

theorem drop (device : DeviceId) : c.Mirrored (.drop device) (.drop device) := by
  intro w v hw hspared
  rw [Program.history] at hspared ⊢
  rw [Program.history, Program.run, Program.run]
  cases ho : w.isOwned device with
  | true =>
    rw [if_pos ho] at hspared
    rw [if_pos rfl, if_pos ((hw.isOwned device).trans ho), World.drop_of_owned ho,
      World.drop_of_owned ((hw.isOwned device).trans ho)]
    obtain ⟨hpaired, hbury⟩ := hw.loseHold device _ hspared
    exact ⟨hpaired, .ok true hbury⟩
  | false =>
    rw [World.drop_of_not_owned ho, World.drop_of_not_owned ((hw.isOwned device).trans ho),
      hw.isOwned device, ho]
    exact ⟨.nil, .ok false hw⟩

theorem during (h : c.Mirrored q q') {w : World σ} {v : World τ} (hw : c.Matched w v)
    (hspared : ∀ m ∈ w.visitHistory device q.run q.history, c.Spared m) :
    List.Forall₂ c.Paired (w.visitHistory device q.run q.history)
        (v.visitHistory device q'.run q'.history) ∧
      SameEnd c.Matched (World.during device q.run w) (World.during device q'.run v) := by
  have hretain : c.Matched (w.retain device) (v.retain device) := hw.modify device _
  have hinner := h _ _ hretain fun m hm =>
    hspared m (List.mem_cons_of_mem _ (List.mem_append_left _ hm))
  obtain ⟨hpaired, hend⟩ := hinner
  have hlast := hend.after.loseHold device (fun l => { l with running := l.running - 1 })
    fun m hm => hspared m (List.mem_cons_of_mem _ (List.mem_append_right _ hm))
  refine ⟨.cons hretain.silent (List.rel_append hpaired hlast.1), ?_⟩
  have hrelease := hlast.2
  generalize hx : q.run (w.retain device) = x, hx' : q'.run (v.retain device) = x' at hend
  cases hend with
  | ok a _ =>
    rw [Run.after_of_ok hx, Run.after_of_ok hx'] at hrelease
    rw [World.during_of_ok hx, World.during_of_ok hx']
    exact .ok a hrelease
  | error halt _ =>
    rw [Run.after_of_error hx, Run.after_of_error hx'] at hrelease
    rw [World.during_of_error hx, World.during_of_error hx']
    exact .error halt hrelease

theorem visit (device : DeviceId) (h : c.Mirrored q q') :
    c.Mirrored (.visit device q) (.visit device q') := by
  intro w v hw hspared
  rw [Program.history] at hspared ⊢
  rw [Program.history]
  cases ha : w.isAlive device with
  | true =>
    have ha' := (hw.isAlive device).trans ha
    have hrun : (Program.visit device q).run w = World.during device q.run w := if_pos ha
    have hrun' : (Program.visit device q').run v = World.during device q'.run v := if_pos ha'
    rw [if_pos ha] at hspared
    rw [if_pos rfl, if_pos ha', hrun, hrun']
    exact h.during hw hspared
  | false =>
    have ha' := (hw.isAlive device).trans ha
    have hrun : (Program.visit device q).run w = .ok () w := if_neg (by simp [ha])
    have hrun' : (Program.visit device q').run v = .ok () v := if_neg (by simp [ha'])
    rw [if_neg Bool.false_ne_true, if_neg (by simp [ha']), hrun, hrun']
    exact ⟨.nil, .ok () hw⟩

theorem setCurrentTime (thread : ThreadId) (time : Instant) :
    c.Mirrored (.setCurrentTime thread time) (.setCurrentTime thread time) := by
  intro w v hw _
  have hend := hw.onScheduler hw.scheduler.setCurrentTime
    (Scheduler.samePending_setCurrentTime thread time)
  exact ⟨.cons ⟨.same rfl fun _ hp => (by cases hp), hend.after⟩ .nil, hend⟩

section

variable {react : Reaction σ} {react' : Reaction τ} {limit time : Instant} {r r' : SyncPoint}
  {w : World σ} {v : World τ} {steps : Nat} {thread : ThreadId}
  (h : ∀ device time tag, c.Mirrored (react device time tag) (react' device time tag))

include h

/-- The wake-up for a sync point comes out the same whatever its number is. -/
theorem deliver (hr : r.unnumbered = r'.unnumbered) (hw : c.Matched w v)
    (hspared : ∀ m ∈ World.deliverHistory react.wake
      (fun device time tag => (react device time tag).history) r time w, c.Spared m) :
    List.Forall₂ c.Paired
        (World.deliverHistory react.wake (fun device time tag => (react device time tag).history)
          r time w)
        (World.deliverHistory react'.wake (fun device time tag => (react' device time tag).history)
          r' time v) ∧
      SameEnd c.Matched (World.deliver react.wake r time w)
        (World.deliver react'.wake r' time v) := by
  obtain ⟨-, hdevice, htag⟩ := SyncPoint.unnumbered_eq_iff.mp hr
  have ha' : v.isAlive r'.device = w.isAlive r.device := by rw [← hdevice, hw.isAlive]
  rw [World.deliverHistory] at hspared ⊢
  rw [World.deliverHistory]
  cases ha : w.isAlive r.device with
  | true =>
    rw [ha] at ha'
    rw [if_pos ha] at hspared
    rw [if_pos rfl, if_pos ha', World.deliver_of_alive ha, World.deliver_of_alive ha', ← hdevice,
      ← htag]
    have hinner := (h r.device time r.tag).during hw fun m hm =>
      hspared m (List.mem_cons_of_mem _ hm)
    have hkept : ∀ p ∈ [r], c.keep p = true := fun p hp =>
      c.keep_of_taken (hspared _ List.mem_cons_self) (List.mem_append_left _ hp)
    have htold : c.Paired ⟨.woken r time, w⟩ ⟨.woken r' time, v⟩ :=
      ⟨.same (congrArg (Event.woken · time) hr) hkept, hw⟩
    exact ⟨.cons htold hinner.1, hinner.2⟩
  | false =>
    rw [ha] at ha'
    rw [if_neg (by simp [ha])] at hspared
    rw [if_neg Bool.false_ne_true, if_neg (by simp [ha']), World.deliver_of_gone ha,
      World.deliver_of_gone ha', ← htag]
    have hkept : ∀ p ∈ [r], c.keep p = true := fun p hp =>
      c.keep_of_taken (hspared _ (List.mem_singleton_self _)) (List.mem_append_right _ hp)
    have hskipped : c.Matched { w with skipped := w.skipped ++ [⟨r.tag, time⟩] }
        { v with skipped := v.skipped ++ [⟨r.tag, time⟩] } :=
      ⟨hw.scheduler, hw.lifetimes, congrArg (· ++ _) hw.skipped, hw.devices, hw.known, hw.twin⟩
    have htold : c.Paired ⟨.skipped r time, _⟩ ⟨.skipped r' time, _⟩ :=
      ⟨.same (congrArg (Event.skipped · time) hr) hkept, hskipped⟩
    exact ⟨.cons htold .nil, .ok () hskipped⟩

theorem dispatch (hw : c.Matched w v)
    (hspared : ∀ m ∈ World.dispatchHistory react.wake
      (fun device time tag => (react device time tag).history) limit steps w, c.Spared m) :
    List.Forall₂ c.Paired
        (World.dispatchHistory react.wake (fun device time tag => (react device time tag).history)
          limit steps w)
        (World.dispatchHistory react'.wake (fun device time tag => (react' device time tag).history)
          limit steps v) ∧
      SameEnd c.Matched (World.dispatch react.wake limit steps w)
        (World.dispatch react'.wake limit steps v) := by
  induction steps generalizing w v with
  | zero => exact ⟨.nil, .error .starved hw⟩
  | succ steps ih =>
    cases hd : w.scheduler.takeDue limit with
    | mk due s =>
      cases due with
      | none =>
        have hn : (w.scheduler.takeDue limit).1 = none := by rw [hd]
        have hn' := hw.scheduler.takeDue_none hn
        rw [World.dispatchHistory_of_none hn, World.dispatchHistory_of_none hn',
          World.dispatch_of_none hn, World.dispatch_of_none hn']
        exact ⟨.nil, .ok () hw⟩
      | some due =>
        obtain ⟨r, time⟩ := due
        have hdelivered : ∀ m ∈ World.deliverHistory react.wake
            (fun device time tag => (react device time tag).history) r time
              { w with scheduler := s }, c.Spared m := by
          intro m hm
          exact hspared m (World.mem_dispatchHistory hd hm)
        obtain ⟨m, hm, hr⟩ := World.exists_taken react.wake
          (fun device time tag => (react device time tag).history) r time { w with scheduler := s }
        obtain ⟨r', s', hd', hsame, hmatched⟩ :=
          hw.takeDue hd (c.keep_of_taken (hdelivered m hm) hr)
        obtain ⟨hpaired, hend⟩ := deliver h hsame hmatched hdelivered
        generalize hx : World.deliver react.wake r time { w with scheduler := s } = x,
          hx' : World.deliver react'.wake r' time { v with scheduler := s' } = x' at hend
        cases hend with
        | ok a hu =>
          rw [World.dispatchHistory_of_ok hd hx] at hspared ⊢
          rw [World.dispatchHistory_of_ok hd' hx', World.dispatch_of_ok hd hx,
            World.dispatch_of_ok hd' hx']
          have hrest := ih hu fun m hm => hspared m (List.mem_append_right _ hm)
          exact ⟨List.rel_append hpaired hrest.1, hrest.2⟩
        | error halt hu =>
          rw [World.dispatchHistory_of_error hd hx, World.dispatchHistory_of_error hd' hx',
            World.dispatch_of_error hd hx, World.dispatch_of_error hd' hx']
          exact ⟨hpaired, .error halt hu⟩

theorem scheduleDue (hw : c.Matched w v)
    (hspared : ∀ m ∈ World.scheduleDueHistory react.wake
      (fun device time tag => (react device time tag).history) steps thread limit w, c.Spared m) :
    List.Forall₂ c.Paired
        (World.scheduleDueHistory react.wake
          (fun device time tag => (react device time tag).history) steps thread limit w)
        (World.scheduleDueHistory react'.wake
          (fun device time tag => (react' device time tag).history) steps thread limit v) ∧
      SameEnd c.Matched (World.scheduleDue react.wake steps thread limit w)
        (World.scheduleDue react'.wake steps thread limit v) := by
  have henter := hw.onScheduler hw.scheduler.enter (Scheduler.samePending_enter thread limit)
  have hfirst := henter.after.silent
  rw [World.scheduleDueHistory] at hspared ⊢
  rw [World.scheduleDueHistory]
  generalize he : World.onScheduler (Scheduler.enter thread limit) w = x,
    he' : World.onScheduler (Scheduler.enter thread limit) v = x' at henter
  cases henter with
  | error halt hu =>
    rw [World.scheduleDue_of_refused he, World.scheduleDue_of_refused he']
    exact ⟨.cons hfirst .nil, .error halt hu⟩
  | @ok a u u' hu =>
    rw [he] at hspared
    obtain ⟨hpaired, hend⟩ := dispatch h hu fun m hm =>
      hspared m (List.mem_cons_of_mem _ (List.mem_append_left _ hm))
    have hleave {w : World σ} {v : World τ} (hw : c.Matched w v) :
        c.Matched { w with scheduler := w.scheduler.leave }
          { v with scheduler := v.scheduler.leave } :=
      hw.moved hw.scheduler.leave (Scheduler.samePending_leave _) (Scheduler.samePending_leave _)
    generalize hx : World.dispatch react.wake limit steps u = x,
      hx' : World.dispatch react'.wake limit steps u' = x' at hend
    simp only [hx, hx']
    cases hend with
    | error halt hz =>
      rw [World.scheduleDue_of_halted he hx, World.scheduleDue_of_halted he' hx']
      exact ⟨.cons hfirst (List.rel_append hpaired (.cons (hleave hz).silent .nil)),
        .error halt (hleave hz)⟩
    | ok _ hz =>
      have hreach := hz.moved (hz.scheduler.reach limit) (Scheduler.samePending_reach limit _)
        (Scheduler.samePending_reach limit _)
      rw [World.scheduleDue_of_ok he hx, World.scheduleDue_of_ok he' hx']
      exact ⟨.cons hfirst (List.rel_append hpaired
        (.cons hreach.silent (.cons (hleave hreach).silent .nil))), .ok () (hleave hreach)⟩

omit h in
theorem refused_of_due (hspared : ∀ m ∈ World.scheduleDueHistory react.wake
      (fun device time tag => (react device time tag).history) (steps + 1) thread limit w,
        c.Spared m)
    {rest : Queue} (hq : w.scheduler.queue = r :: rest) (hdue : r.time ≤ limit)
    (hkeep : c.keep r = false) :
    ∃ halt u, World.onScheduler (Scheduler.enter thread limit) w = .error halt u := by
  cases he : World.onScheduler (Scheduler.enter thread limit) w with
  | error halt u => exact ⟨halt, u, rfl⟩
  | ok _ u =>
    obtain ⟨s, henter, rfl⟩ := World.onScheduler_eq_ok.mp he
    obtain ⟨-, -, -, rfl⟩ := Scheduler.enter_eq_ok.mp henter
    have hd := Scheduler.takeDue_of_due (s := w.scheduler.enteredBy thread) hq hdue
    obtain ⟨m, hm, hr⟩ := World.exists_taken react.wake
      (fun device time tag => (react device time tag).history) r _ _
    have hfound : m ∈ World.dispatchHistory react.wake _ limit (steps + 1)
        { w with scheduler := w.scheduler.enteredBy thread } := World.mem_dispatchHistory hd hm
    rw [World.scheduleDueHistory, he] at hspared
    have hkept := c.keep_of_taken
      (hspared m (List.mem_cons_of_mem _ (List.mem_append_left _ hfound))) hr
    rw [hkeep] at hkept
    cases hkept

/-- Of two moves of time the second goes side by side with the first. It may be the quick way where
the first finds something that is not kept, and is turned away. -/
theorem schedule (hsteps : steps = 0 → ∀ r, c.keep r = true) :
    c.Mirrored (.schedule react steps thread limit) (.schedule react' steps thread limit) := by
  intro w v hw hspared
  show List.Forall₂ c.Paired
      (World.scheduleHistory react.wake (fun device time tag => (react device time tag).history)
        steps thread limit w)
      (World.scheduleHistory react'.wake (fun device time tag => (react' device time tag).history)
        steps thread limit v) ∧
    SameEnd c.Matched (World.schedule react.wake steps thread limit w)
      (World.schedule react'.wake steps thread limit v)
  replace hspared : ∀ m ∈ World.scheduleHistory react.wake
    (fun device time tag => (react device time tag).history) steps thread limit w, c.Spared m :=
      hspared
  rw [World.scheduleHistory] at hspared ⊢
  rw [World.scheduleHistory]
  cases hi : w.scheduler.isIdleUntil limit with
  | true =>
    have hi' := hw.scheduler.isIdleUntil hi
    have hend := hw.onScheduler hw.scheduler.idle (Scheduler.samePending_idle thread limit)
    rw [if_pos rfl, if_pos hi', World.schedule_of_idle hi, World.schedule_of_idle hi']
    exact ⟨.cons hend.after.silent .nil, hend⟩
  | false =>
    rw [if_neg (by simp [hi])] at hspared
    rw [if_neg Bool.false_ne_true, World.schedule_of_due hi]
    have hboth := scheduleDue h hw hspared
    cases hi' : v.scheduler.isIdleUntil limit with
    | false =>
      rw [if_neg Bool.false_ne_true, World.schedule_of_due hi']
      exact hboth
    | true =>
      obtain ⟨r, rest, hq, hdue, hkeep⟩ := hw.scheduler.due_of_isIdleUntil hi hi'
      cases steps with
      | zero =>
        rw [hsteps rfl r] at hkeep
        cases hkeep
      | succ steps =>
        have hlong : World.schedule react'.wake (steps + 1) thread limit v = _ :=
          World.schedule_eq_scheduleDue hw.scheduler.sound'
        obtain ⟨halt, u, he⟩ := refused_of_due hspared hq hdue hkeep
        have henter := hw.onScheduler hw.scheduler.enter (Scheduler.samePending_enter thread limit)
        generalize he' : World.onScheduler (Scheduler.enter thread limit) v = x' at henter
        rw [he] at henter
        cases henter with
        | @error _ _ u' _ =>
          have hquick : (World.onScheduler (Scheduler.idle thread limit)).after v =
              (World.onScheduler (Scheduler.enter thread limit)).after v := by
            rw [Run.after_congr ((World.schedule_of_idle hi').symm.trans hlong),
              Run.after_of_error (World.scheduleDue_of_refused he'), Run.after_of_error he']
          rw [World.scheduleDueHistory, World.scheduleDueHistory, he, he'] at hboth
          rw [if_pos rfl, hlong, hquick, World.scheduleDueHistory, he]
          exact hboth

end

end Mirrored

namespace Matched

variable {time : Instant} {tag : Tag} (h : c.Matched w v)

include h

theorem register
    (hkeep : time = .asap ∨ w.scheduler.currentTime ≤ time →
      c.keep ⟨time, device, tag, w.scheduler.nextSeq⟩ = true ∧
        c.Known v.devices (w.scheduler.queue.insert ⟨time, device, tag, w.scheduler.nextSeq⟩)
          (w.scheduler.nextSeq + 1)) :
    List.Forall₂ c.Paired ((Program.register time device tag).history w)
        ((Program.register time device tag).history v) ∧
      SameEnd c.Matched ((Program.register time device tag).run w)
        ((Program.register time device tag).run v) := by
  rw [Program.history, Program.history, Program.run, Program.run]
  rcases h.scheduler.register fun ht => (hkeep ht).1 with ⟨s, s', hs, hs', hl⟩ | ⟨cause, hs, hs'⟩
  · obtain ⟨hkept, hknown⟩ := hkeep (Scheduler.register_eq_ok.mp hs).1
    have hmatched : c.Matched { w with scheduler := s } { v with scheduler := s' } := by
      refine ⟨hl, h.lifetimes, h.skipped, h.devices, ?_, fun htwin => ?_⟩
      · show c.Known v.devices s.queue s.nextSeq
        rw [Scheduler.queue_register hs, Scheduler.nextSeq_register hs]
        exact hknown
      · obtain ⟨-, rfl⟩ := Scheduler.register_eq_ok.mp hs
        obtain ⟨-, rfl⟩ := Scheduler.register_eq_ok.mp hs'
        exact congrArg (Pending.push time device tag) (h.twin htwin)
    rw [World.register_of_ok hs, World.register_of_ok hs', hs, hs']
    have htold : (Event.registered ⟨time, device, tag, w.scheduler.nextSeq⟩).Told c.keep
        (.registered ⟨time, device, tag, v.scheduler.nextSeq⟩) :=
      .same rfl fun p hp => List.mem_singleton.mp hp ▸ hkept
    exact ⟨.cons ⟨htold, hmatched⟩ .nil, .ok () hmatched⟩
  · rw [World.register_of_error hs, World.register_of_error hs', hs, hs']
    exact ⟨.nil, .error (.fault cause) h⟩

/-- What is taken back is kept, or there is nothing to take back. -/
theorem cancel (hfound : ∀ p, w.scheduler.find? device tag = some p → c.keep p = true ∧
      (c.Twin v.devices ∨ w.scheduler.queue.filter (SyncPoint.isFor device tag) = [p])) :
    List.Forall₂ c.Paired ((Program.cancel device tag).history w)
        ((Program.cancel device tag).history v) ∧
      SameEnd c.Matched ((Program.cancel device tag).run w)
        ((Program.cancel device tag).run v) := by
  have hboth : ∀ p, w.scheduler.find? device tag = some p → c.keep p = true ∧
      (v.scheduler.pending = w.scheduler.pending ∨
        w.scheduler.queue.filter (SyncPoint.isFor device tag) = [p]) := fun p hp =>
    ⟨(hfound p hp).1, (hfound p hp).2.imp h.twin id⟩
  obtain ⟨hanswer, hl⟩ := h.scheduler.cancel hboth
  rw [Program.history, Program.history]
  show _ ∧ SameEnd c.Matched (World.cancel device tag w) (World.cancel device tag v)
  rw [World.cancel_apply, World.cancel_apply, hanswer]
  cases hf : w.scheduler.find? device tag with
  | none =>
    have hf' := h.scheduler.not_found hf
    rw [hf', Scheduler.cancel_of_none hf, Scheduler.cancel_of_none hf']
    exact ⟨.nil, .ok false h⟩
  | some p =>
    obtain ⟨hkeep, hone⟩ := hboth p hf
    obtain ⟨p', hf', hp, -⟩ := h.scheduler.found hf hkeep hone
    have hmatched : c.Matched { w with scheduler := (w.scheduler.cancel device tag).2 }
        { v with scheduler := (v.scheduler.cancel device tag).2 } := by
      refine h.taken hl (Scheduler.queue_cancel_sublist device tag _) ?_
        (Scheduler.nextSeq_cancel device tag _) (Scheduler.pending_cancel · device tag)
      intro q hq hout
      rcases List.mem_cons.mp ((Scheduler.perm_of_cancel hf).subset hq) with rfl | hrest
      · rw [hkeep] at hout
        cases hout
      · exact hrest
    rw [hf']
    have htold : (Event.cancelled [p]).Told c.keep (.cancelled [p']) :=
      .same (congrArg (fun q => Event.cancelled [q]) hp) fun q hq =>
        List.mem_singleton.mp hq ▸ hkeep
    exact ⟨.cons ⟨htold, hmatched⟩ .nil, .ok _ hmatched⟩

theorem cancelAll
    (hkept : ∀ p ∈ w.scheduler.queue.filter fun p => p.device == device, c.keep p = true) :
    List.Forall₂ c.Paired ((Program.cancelAll device).history w)
        ((Program.cancelAll device).history v) ∧
      SameEnd c.Matched ((Program.cancelAll device).run w)
        ((Program.cancelAll device).run v) := by
  have hfilter := h.scheduler.filter_kind (fun _ => rfl) hkept
  have hmatched := h.takenAll hkept
  have hcount : (v.scheduler.cancelAll device).1 = (w.scheduler.cancelAll device).1 := by
    have hlength := congrArg List.length hfilter
    rw [Queue.unnumbered, Queue.unnumbered, List.length_map, List.length_map] at hlength
    rw [Scheduler.cancelAll_count, Scheduler.cancelAll_count, hlength]
  rw [Program.history, Program.history]
  refine ⟨.cons ⟨.same (congrArg Event.cancelled hfilter) hkept, hmatched⟩ .nil, ?_⟩
  show SameEnd c.Matched (World.cancelAll device w) (World.cancelAll device v)
  rw [World.cancelAll_apply, World.cancelAll_apply, hcount]
  exact .ok _ hmatched

end Matched
end Comparison
end Timebase
