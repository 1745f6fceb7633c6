import Mathlib.Algebra.Order.BigOperators.Group.List
import Timebase.Proofs.Bench.Reached
import Timebase.Proofs.Workload

/-!
# Periodic devices are woken later and later

A frame timer, a serial line and a sampler that are woken when they asked for it ask to be woken
later, unless a batch has no length or an instant the count of the earliest opportunity. So up to a
limit there is only so much to deliver.
-/

namespace Timebase.Bench

variable {w v x : BenchWorld} {d d' : Device} {device : DeviceId} {p q : SyncPoint}
  {s : Scheduler} {r : Request} {limit t : Instant} {tag : Tag} {thread : ThreadId} {depth : Nat}
  {answer : Option Request} {wanted : List Request}

/-- The same devices with the same wake-ups, whoever holds on to them. -/
structure HeldOtherwise (w v : BenchWorld) : Prop where
  scheduler : v.scheduler = w.scheduler
  devices : v.devices = w.devices

/-- What becomes of a delivery: it is over as the wake-up is, after which less may be pending, or it
breaks off. -/
inductive Delivered (p : SyncPoint) (t : Instant) (w : BenchWorld) :
    EStateM.Result Halt BenchWorld Unit → Prop where
  | ended {u x v : BenchWorld} (held : HeldOtherwise w u)
      (executed : Executed p.device t p.tag u (.ok () x)) (spared : Spared x v)
      (time : v.scheduler.currentTime = x.scheduler.currentTime) : Delivered p t w (.ok () v)
  | broken (cause : Fault) (v : BenchWorld) : Delivered p t w (.error (.fault cause) v)

theorem InOrder.delivered (hw : InOrder w) :
    Delivered p t w (World.deliver (execute (depth + 1) thread) p t w) := by
  cases ha : w.isAlive p.device with
  | false =>
    rw [World.deliver_of_gone ha]
    exact .ended ⟨rfl, rfl⟩ .nobody ⟨.refl _, rfl, rfl⟩ rfl
  | true =>
    rw [World.deliver_of_alive ha]
    have hexecuted : Executed p.device t p.tag (w.retain p.device)
        (execute (depth + 1) thread p.device t p.tag (w.retain p.device)) :=
      ((Spared.retain p.device w).inOrder hw).executed
    cases hact : execute (depth + 1) thread p.device t p.tag (w.retain p.device) with
    | ok _ x =>
      rw [hact] at hexecuted
      rw [World.during_of_ok hact]
      have hheld : HeldOtherwise w (w.retain p.device) := ⟨rfl, rfl⟩
      exact .ended hheld hexecuted (.release p.device x)
        (World.release_sameTime p.device x).currentTime
    | error halt x =>
      rw [hact] at hexecuted
      rw [World.during_of_error hact]
      cases hexecuted with
      | broken cause _ _ => exact .broken cause _

/-- No delivery lacks steps. -/
theorem InOrder.deliver_ends (hw : InOrder w) :
    ¬ (World.deliver (execute (depth + 1) thread) p t).Starves w := by
  rintro ⟨v, h⟩
  have hdelivered : Delivered p t w (World.deliver (execute (depth + 1) thread) p t w) :=
    hw.delivered
  rw [h] at hdelivered
  cases hdelivered

/-- Whether a wake-up takes place when its device asked for it; a burst is started at the earliest
opportunity. -/
def OnTime (p : SyncPoint) (t : Instant) : Prop := p.time = t ∨ p.time = .asap ∧ p.tag = Uart.start

/-- Whether a device is a sampler whose batches have no length. -/
def Device.Stalls (d : Device) : Prop := ∃ g f, d = .audio g f ∧ f.batchPeriod.ticks = 0

/-- A device that is woken on time asks for a later wake-up, for one at the earliest opportunity, or
for the end of a batch without length. -/
theorem Device.Woken.ahead (h : d.Woken t p.tag d' (some r)) (hon : OnTime p t)
    (hentitled : Entitled (⟨p.time, p.tag⟩ :: wanted) (some d))
    (hkept : r.time = .asap ∨ t ≤ r.time) :
    t < r.time ∨ r.time = .asap ∨ r.time = t ∧ d.Stalls := by
  cases h with
  | frame hwoken =>
    rcases hwoken.ahead hentitled.1 hkept with hlt | hasap
    · exact Or.inl hlt
    · exact Or.inr (Or.inl hasap)
  | @uart g g' _ hwoken =>
    obtain ⟨hrate, hwaits⟩ := hentitled
    have hstands : p.tag = Uart.start ∨ g.value.clock.timeAfter 1 = .ok t := by
      obtain ⟨time, device, tag, seq⟩ := p
      cases hwaits with
      | starting => exact Or.inl rfl
      | sending _ htime =>
        rcases hon with rfl | ⟨-, htag⟩
        · exact Or.inr htime
        · cases htag
    rcases hwoken.ahead hrate hstands hkept with hlt | hasap
    · exact Or.inl hlt
    · exact Or.inr (Or.inl hasap)
  | @audio g g' f r hend =>
    by_cases hnone : f.batchPeriod.ticks = 0
    · exact Or.inr (Or.inr ⟨AudioFormat.same_of_endOfBatch hend hnone, g, f, rfl, hnone⟩)
    · rcases AudioFormat.ahead hend hkept hnone with hlt | hasap
      · exact Or.inl hlt
      · exact Or.inr (Or.inl hasap)

/-- What a pending wake-up may still bring about up to a limit. For a frame timer the earliest
opportunity is as good as the last, as it breaks off there. -/
def price (limit : Instant) : Option Device → Instant → Nat
  | some (.frame _), time => if time = .asap then 1 else limit.upTo time + 1
  | _, time => limit.upTo time + 1

theorem one_le_price (limit : Instant) (d : Option Device) (time : Instant) :
    1 ≤ price limit d time := by
  unfold price
  split
  · split <;> omega
  · omega

theorem price_le (limit : Instant) (d : Option Device) (time : Instant) :
    price limit d time ≤ limit.key + 2 := by
  have hle : limit.upTo time ≤ limit.key + 1 := Nat.sub_le _ _
  unfold price
  split
  · split <;> omega
  · omega

/-- The bits that a device may still send. -/
def Device.toSend : Device → Nat
  | .uart g => g.value.toSend
  | _ => 0

theorem Device.Alike.price_eq (h : d.Alike d') (time : Instant) :
    price limit (some d') time = price limit (some d) time := by
  cases h <;> rfl

theorem Device.Woken.toSend_le (h : d.Woken t tag d' none) : d'.toSend ≤ d.toSend := by
  cases h with
  | uart h => exact h.toSend_le
  | input => exact Nat.le_refl _

/-- A wake-up that has another one follow makes less of what may be brought about: the other one is
for later, or a bit is out. -/
theorem Device.Woken.cheaper (h : d.Woken t p.tag d' (some r))
    (hentitled : Entitled (⟨p.time, p.tag⟩ :: wanted) (some d)) (hdue : p.time ≤ limit)
    (hle : p.time ≤ t) (ht : t ≠ .asap) (hkept : r.time = .asap ∨ t ≤ r.time)
    (hmoves : ∀ g f, d = .audio g f → f.MovesOn t limit) :
    price limit (some d') r.time + (limit.key + 2) * d'.toSend <
      price limit (some d) p.time + (limit.key + 2) * d.toSend := by
  have hpos := Instant.upTo_pos hdue
  cases h with
  | @frame g g' _ hwoken =>
    have hsame : p.time = t := by
      obtain ⟨time, device, tag, seq⟩ := p
      cases hentitled.2 with
      | next htime => exact Except.ok.inj (htime.symm.trans hwoken.due)
    show (if r.time = .asap then 1 else limit.upTo r.time + 1) + 0 <
      (if p.time = .asap then 1 else limit.upTo p.time + 1) + 0
    rw [hsame, if_neg ht]
    rw [hsame] at hdue hpos
    rcases hwoken.ahead hentitled.1 hkept with hlt | hasap
    · have hless := Instant.upTo_lt hdue hlt
      split <;> omega
    · rw [if_pos hasap]
      omega
  | @uart g g' _ hwoken =>
    -- The next bit may end at any instant, so the bit that is out has to pay for its wait.
    have hless : g'.value.toSend + 1 ≤ g.value.toSend := hwoken.asks.less
    have hone := one_le_price limit (some (.uart g)) p.time
    have hmost := price_le limit (some (.uart g')) r.time
    have hbits := Nat.mul_le_mul_left (limit.key + 2) hless
    rw [Nat.mul_add, Nat.mul_one] at hbits
    show _ + (limit.key + 2) * g'.value.toSend < _ + (limit.key + 2) * g.value.toSend
    omega
  | @audio g g' f _ hend =>
    obtain ⟨hne, hasap⟩ := hmoves g f rfl (Or.inl rfl) hend
    have hlt : t < r.time := (Instant.lt_of_registered hkept hne).resolve_right hasap
    have hless := Instant.upTo_lt hdue (Instant.lt_of_le_of_lt hle hlt)
    show limit.upTo r.time + 1 + 0 < limit.upTo p.time + 1 + 0
    omega

/-- What all that is pending may still bring about up to a limit. -/
def load (limit : Instant) (w : BenchWorld) : Nat :=
  (w.scheduler.queue.map fun p => price limit w.devices.all[p.device]? p.time).sum +
    (limit.key + 2) * (w.devices.all.map Device.toSend).sum

theorem load_takeDue (h : w.scheduler.takeDue limit = (some (p, t), s)) :
    load limit w = price limit w.devices.all[p.device]? p.time +
      load limit { w with scheduler := s } := by
  rw [load, Scheduler.queue_takeDue h, List.map_cons, List.sum_cons, Nat.add_assoc, load]

theorem HeldOtherwise.load_eq (h : HeldOtherwise w v) : load limit v = load limit w := by
  rw [load, h.scheduler, h.devices, load]

theorem Spared.load_le (h : Spared w v) : load limit v ≤ load limit w := by
  rw [load, h.all, load]
  exact Nat.add_le_add_right
    ((h.scheduler.pending.map _).sum_le_sum fun _ _ => Nat.zero_le _) _

theorem load_register (limit : Instant) {time : Instant}
    (h : w.scheduler.register time device tag = .ok s) :
    load limit { w with scheduler := s } =
      price limit w.devices.all[device]? time + load limit w := by
  have hperm := (Scheduler.perm_of_register h).map fun p =>
    price limit w.devices.all[p.device]? p.time
  have hsum := hperm.sum_eq
  rw [List.map_cons, List.sum_cons] at hsum
  show _ + _ = _ + (_ + _)
  rw [← Nat.add_assoc, ← hsum]

private theorem sum_map_set {α : Type} (f : α → Nat) {l : List α} {i : Nat} {a : α} (b : α)
    (h : l[i]? = some a) : ((l.set i b).map f).sum + f a = (l.map f).sum + f b := by
  induction l generalizing i with
  | nil => cases h
  | cons c l ih =>
    cases i with
    | zero =>
      cases h
      simp only [List.set_cons_zero, List.map_cons, List.sum_cons]
      omega
    | succ i =>
      have hrest := ih h
      simp only [List.set_cons_succ, List.map_cons, List.sum_cons]
      omega

theorem load_put (limit : Instant) (hd : w.devices.all[device]? = some d) (halike : d.Alike d') :
    load limit (put device d' w) + (limit.key + 2) * d.toSend =
      load limit w + (limit.key + 2) * d'.toSend := by
  have hbits := sum_map_set Device.toSend d' hd
  have hprice (p : SyncPoint) : price limit (w.devices.all.set device d')[p.device]? p.time =
      price limit w.devices.all[p.device]? p.time := by
    by_cases heq : device = p.device
    · obtain ⟨hlt, -⟩ := List.getElem?_eq_some_iff.mp hd
      rw [← heq, List.getElem?_set_self hlt, hd, halike.price_eq]
    · rw [List.getElem?_set_ne heq]
  have hbits := congrArg ((limit.key + 2) * ·) hbits
  simp only [Nat.mul_add] at hbits
  show (w.scheduler.queue.map fun p =>
      price limit (w.devices.all.set device d')[p.device]? p.time).sum +
    (limit.key + 2) * ((w.devices.all.set device d').map Device.toSend).sum + _ = _
  rw [load]
  simp only [hprice]
  omega

namespace Executed

/-- A wake-up that was due makes less of what may be brought about. -/
theorem load_lt (h : Executed p.device t p.tag w (.ok () x))
    (hentitled : Entitled (⟨p.time, p.tag⟩ :: wanted) w.devices.all[p.device]?)
    (hnow : w.scheduler.currentTime = t) (ht : t ≠ .asap) (hdue : p.time ≤ limit) (hle : p.time ≤ t)
    (hmoves : ∀ g f, w.devices.all[p.device]? = some (.audio g f) → f.MovesOn t limit) :
    load limit x < price limit w.devices.all[p.device]? p.time + load limit w := by
  have hone := one_le_price limit w.devices.all[p.device]? p.time
  cases h with
  | nobody => omega
  | silent hd woken =>
    have hput := load_put limit hd woken.alike
    have hbits := Nat.mul_le_mul_left (limit.key + 2) woken.toSend_le
    omega
  | @asked d d' r s hd woken granted =>
    have hput := load_put limit hd woken.alike
    have hregister := load_register limit (w := put p.device d' w) granted
    obtain ⟨hkept, -⟩ := Scheduler.register_eq_ok.mp granted
    rw [hnow] at hkept
    rw [hd] at hentitled hmoves ⊢
    have hless := woken.cheaper hentitled hdue hle ht hkept fun g f h => hmoves g f (by rw [h])
    rw [getElem?_put hd] at hregister
    rw [hregister]
    omega

theorem currentTime_eq (h : Executed device t tag w (.ok () x)) :
    x.scheduler.currentTime = w.scheduler.currentTime := by
  cases h with
  | nobody | silent => rfl
  | asked _ _ granted => exact (Scheduler.sameTime_register granted).currentTime

theorem wanted_of_ne (h : Executed device t tag w (.ok () x)) {other : DeviceId}
    (hne : other ≠ device) : x.scheduler.wanted other = w.scheduler.wanted other := by
  cases h with
  | nobody | silent => rfl
  | asked _ _ granted => exact Scheduler.wanted_register_of_ne granted hne

theorem sampler (h : Executed device t tag w (.ok () x)) {other : DeviceId}
    {g : Guarded AudioSampler} {f : AudioFormat}
    (hx : x.devices.all[other]? = some (.audio g f)) :
    ∃ g₀, w.devices.all[other]? = some (.audio g₀ f) := by
  have hset {d d' : Device} (hd : w.devices.all[device]? = some d) (halike : d.Alike d')
      (hx : (w.devices.all.set device d')[other]? = some (.audio g f)) :
      ∃ g₀, w.devices.all[other]? = some (.audio g₀ f) := by
    by_cases heq : device = other
    · obtain ⟨hlt, -⟩ := List.getElem?_eq_some_iff.mp hd
      rw [← heq, List.getElem?_set_self hlt] at hx
      cases hx
      cases halike with
      | audio g₀ => exact ⟨g₀, heq ▸ hd⟩
    · rw [List.getElem?_set_ne heq] at hx
      exact ⟨g, hx⟩
  cases h with
  | nobody => exact ⟨g, hx⟩
  | silent hd woken => exact hset hd woken.alike hx
  | asked hd woken _ => exact hset hd woken.alike hx

end Executed

/-- A bench on which every sampler that waits for the end of a batch gets on up to a limit. -/
structure Moving (limit : Instant) (w : BenchWorld) : Prop where
  order : InOrder w
  moves : ∀ device g f, w.devices.all[device]? = some (.audio g f) →
    w.scheduler.wanted device ≠ [] → f.MovesOn w.scheduler.currentTime limit

theorem range_of_takeDue (h : w.scheduler.takeDue limit = (some (p, t), s)) :
    t = w.scheduler.currentTime ∨ w.scheduler.currentTime ≤ t ∧ t ≤ limit := by
  obtain ⟨rest, -, hdue, rfl, -⟩ := Scheduler.takeDue_eq_some.mp h
  by_cases hp : p.time = .asap
  · exact Or.inl (Scheduler.deliveryTime_of_asap hp)
  · obtain ⟨-, hle, hsame | hsame⟩ := Scheduler.deliveryTime_cases (s := w.scheduler) hp
    · exact Or.inr ⟨hle, hsame ▸ hdue⟩
    · exact Or.inl hsame

section

variable (hw : Moving limit w) (hd : w.scheduler.takeDue limit = (some (p, t), s))
  (h : Delivered p t { w with scheduler := s } (.ok () v))

include hw hd

/-- A sampler that waited gets on from the instant of a delivery. -/
theorem Moving.movesOn {g : Guarded AudioSampler} {f : AudioFormat}
    (hdevice : w.devices.all[device]? = some (.audio g f))
    (hpending : w.scheduler.wanted device ≠ []) : f.MovesOn t limit :=
  (hw.moves device g f hdevice hpending).later (range_of_takeDue hd)

theorem Moving.movesOn_self {g : Guarded AudioSampler} {f : AudioFormat}
    (hdevice : w.devices.all[p.device]? = some (.audio g f)) : f.MovesOn t limit := by
  refine hw.movesOn hd hdevice ?_
  rw [Scheduler.wanted_takeDue_self hd]
  exact List.cons_ne_nil _ _

include h

theorem Delivered.load_lt : load limit v < load limit w := by
  cases h with
  | @ended u x _ held executed spared time =>
    have hentitled : Entitled (⟨p.time, p.tag⟩ :: s.wanted p.device) u.devices.all[p.device]? := by
      rw [held.devices]
      exact hw.order.due hd
    have hmoves (g : Guarded AudioSampler) (f : AudioFormat)
        (hdevice : u.devices.all[p.device]? = some (.audio g f)) : f.MovesOn t limit := by
      rw [held.devices] at hdevice
      exact hw.movesOn_self hd hdevice
    obtain ⟨rest, -, hdue, rfl, hs⟩ := Scheduler.takeDue_eq_some.mp hd
    have hnow : u.scheduler.currentTime = w.scheduler.deliveryTime p := by rw [held.scheduler, hs]
    have hless := executed.load_lt hentitled hnow
      (Scheduler.deliveryTime_ne_asap hw.order.timed) hdue
      (Scheduler.time_le_deliveryTime p w.scheduler) hmoves
    calc load limit v ≤ load limit x := spared.load_le
      _ < price limit u.devices.all[p.device]? p.time + load limit u := hless
      _ = load limit w := by rw [held.devices, held.load_eq, ← load_takeDue hd]

theorem Delivered.moves {g : Guarded AudioSampler} {f : AudioFormat}
    (hdevice : v.devices.all[device]? = some (.audio g f))
    (hpending : v.scheduler.wanted device ≠ []) : f.MovesOn v.scheduler.currentTime limit := by
  cases h with
  | ended held executed spared time =>
    rw [spared.all] at hdevice
    obtain ⟨g₀, hdevice⟩ := executed.sampler hdevice
    rw [held.devices] at hdevice
    have hnow : v.scheduler.currentTime = t := by
      obtain ⟨rest, -, -, rfl, hs⟩ := Scheduler.takeDue_eq_some.mp hd
      rw [time, executed.currentTime_eq, held.scheduler, hs]
    rw [hnow]
    by_cases heq : device = p.device
    · subst heq
      exact hw.movesOn_self hd hdevice
    · refine hw.movesOn hd hdevice fun hnone => hpending ?_
      have hfewer := spared.scheduler.wanted device
      rw [executed.wanted_of_ne heq, held.scheduler] at hfewer
      have hempty := hfewer.trans ((Scheduler.NothingNew.takeDue hd).wanted device)
      rw [hnone] at hempty
      exact List.sublist_nil.mp hempty

end

/-- Each delivery leaves less to bring about. -/
theorem dwindles (thread : ThreadId) (depth : Nat) (limit : Instant) :
    World.Dwindles (execute (depth + 1) thread) limit (Moving limit) (load limit) := by
  intro w p t s hw hd
  have htaken := hw.order.taken hd
  refine ⟨htaken.deliver_ends, fun v hv => ?_⟩
  have horder : InOrder
      ((World.deliver (execute (depth + 1) thread) p t).after { w with scheduler := s }) :=
    hw.order.deliver hd
  rw [Run.after_of_ok hv] at horder
  have hdelivered : Delivered p t { w with scheduler := s }
      (World.deliver (execute (depth + 1) thread) p t { w with scheduler := s }) := htaken.delivered
  rw [hv] at hdelivered
  exact ⟨⟨horder, fun _ _ _ => hdelivered.moves hw hd⟩, hdelivered.load_lt hw hd⟩

theorem Executed.asked_of_mem (h : Executed device t tag w (.ok () x))
    (hq : q ∈ x.scheduler.queue) : q ∈ w.scheduler.queue ∨
      ∃ d d' r, w.devices.all[device]? = some d ∧ d.Woken t tag d' (some r) ∧
        q.device = device ∧ q.time = r.time ∧
          (r.time = .asap ∨ w.scheduler.currentTime ≤ r.time) := by
  cases h with
  | nobody | silent => exact Or.inl hq
  | @asked d d' r s hd woken granted =>
    obtain ⟨hkept, -⟩ := Scheduler.register_eq_ok.mp granted
    rcases (Scheduler.mem_queue_register granted).mp hq with rfl | hq
    · exact Or.inr ⟨d, d', r, hd, woken, rfl, rfl, hkept⟩
    · exact Or.inl hq

/-- What a wake-up on time adds to what is pending is a later wake-up of the same device, unless it
has the count of the earliest opportunity or a batch has no length. -/
theorem Delivered.later (hw : InOrder w) (hd : w.scheduler.takeDue limit = (some (p, t), s))
    (hon : OnTime p t) (h : Delivered p t { w with scheduler := s } (.ok () v))
    (hq : q ∈ v.scheduler.queue) : q ∈ s.queue ∨ q.device = p.device ∧
      (t < q.time ∨ q.time = .asap ∨
        q.time = t ∧ ∃ d, w.devices.all[p.device]? = some d ∧ d.Stalls) := by
  cases h with
  | ended held executed spared =>
    rcases executed.asked_of_mem (spared.scheduler.pending.subset hq) with
      hq | ⟨d, d', r, hdevice, woken, hsame, htime, hkept⟩
    · rw [held.scheduler] at hq
      exact Or.inl hq
    · have hentitled := hw.due hd
      rw [held.devices] at hdevice
      change w.devices.all[p.device]? = some d at hdevice
      rw [hdevice] at hentitled
      have hkept : r.time = .asap ∨ t ≤ r.time := by
        obtain ⟨rest, -, -, rfl, rfl⟩ := Scheduler.takeDue_eq_some.mp hd
        rwa [held.scheduler] at hkept
      rw [htime]
      refine Or.inr ⟨hsame, ?_⟩
      rcases woken.ahead hon hentitled hkept with hlt | hasap | ⟨hstill, hstalls⟩
      · exact Or.inl hlt
      · exact Or.inr (Or.inl hasap)
      · exact Or.inr (Or.inr ⟨hstill, d, hdevice, hstalls⟩)

/-- What periodic devices come to: a wake-up comes to its end or breaks off, and one that takes place
on time is followed by a later one; and a call to move time comes to its end or breaks off if the
samplers that wait for the end of a batch get on. -/
structure GetsOn (w : BenchWorld) : Prop where
  finishes : ∀ depth thread limit p t s, w.scheduler.takeDue limit = (some (p, t), s) →
    ¬ (World.deliver (execute (depth + 1) thread) p t).Starves { w with scheduler := s }
  later : ∀ depth thread limit p t s v, w.scheduler.takeDue limit = (some (p, t), s) →
    OnTime p t → World.deliver (execute (depth + 1) thread) p t { w with scheduler := s } = .ok () v →
    ∀ q ∈ v.scheduler.queue, q ∈ s.queue ∨ q.device = p.device ∧
      (t < q.time ∨ q.time = .asap ∨
        q.time = t ∧ ∃ d, w.devices.all[p.device]? = some d ∧ d.Stalls)
  ends : ∀ thread limit,
    (∀ device g f, w.devices.all[device]? = some (.audio g f) →
      w.scheduler.wanted device ≠ [] → f.MovesOn w.scheduler.currentTime limit) →
    ∃ most, ∀ depth steps, most < steps →
      ¬ (World.schedule (execute (depth + 1) thread) steps thread limit).Starves w

/-- Frame timers, lines and samplers that were accepted, whatever their rates and whenever they were
made, are woken later and later. -/
theorem periodic_devices_get_on (h : Reached w) : GetsOn w where
  finishes _ _ _ _ _ _ hd := (h.inOrder.taken hd).deliver_ends
  later depth thread limit p t s v hd hon hv q hq := by
    have hdelivered : Delivered p t { w with scheduler := s }
        (World.deliver (execute (depth + 1) thread) p t { w with scheduler := s }) :=
      (h.inOrder.taken hd).delivered
    rw [hv] at hdelivered
    exact hdelivered.later h.inOrder hd hon hq
  ends thread limit hmoves := by
    have hentered := Scheduler.NothingNew.of_samePending
      (Scheduler.samePending_enteredBy thread w.scheduler) id
    have hmoving : Moving limit { w with scheduler := w.scheduler.enteredBy thread } :=
      ⟨(Spared.of_scheduler hentered).inOrder h.inOrder, hmoves⟩
    exact ⟨load limit w, fun depth _ hsteps =>
      (dwindles thread depth limit).schedule_ends hmoving hsteps⟩

/-- A bench on which a frame timer, a line that has something to send and a sampler are waiting. -/
def desk : BenchWorld :=
  performed 1 [.new (.frame 60 1), .new (.uart 9600), .new (.audio 44100 512), .send 1 [72, 105]]
    (.ofScheduler .new .empty)

theorem reached_desk : Reached desk := by
  refine (Reached.started (Eq.refl (Session.start none))).performed 1 ?_
  simp [Action.Ordinary]

theorem batchTicks_desk {device : DeviceId} {g : Guarded AudioSampler} {f : AudioFormat}
    (h : desk.devices.all[device]? = some (.audio g f)) : f.batchPeriod.ticks = 39896064 := by
  match device, h with
  | 0, h => cases h
  | 1, h => cases h
  | 2, h =>
    cases h
    decide +kernel
  | n + 3, h => cases h

theorem periodic_devices_get_on_desk :
    GetsOn desk ∧ ∃ most, ∀ depth steps, most < steps →
      ¬ (World.schedule (execute (depth + 1) 0) steps 0 (.wrap 3436363200)).Starves desk := by
  have h := periodic_devices_get_on reached_desk
  refine ⟨h, h.ends 0 (.wrap 3436363200) fun device g f hdevice _ => ?_⟩
  have hticks := batchTicks_desk hdevice
  have hnow : (desk.scheduler.currentTime.ticks : Int) = 0 := by decide +kernel
  have hlimit : ((Instant.wrap 3436363200).ticks : Int) = 3436363200 := by decide +kernel
  have hsize : (UInt64.size : Int) = 18446744073709551616 := rfl
  apply AudioFormat.movesOn_of_early
  · omega
  · omega
  · omega
  · decide

/-- A bench with a sampler whose batches have no length, after so many of them. -/
def stalled (batches : Nat) : BenchWorld where
  scheduler :=
    { pending :=
        { heap := #[⟨.zero, 0, AudioFormat.batchEnd, batches⟩]
          nextSeq := batches + 1
          ordered := fun _ h h' => absurd h' (Nat.not_lt.mpr h)
          fresh := fun _ hp => List.mem_singleton.mp hp ▸ Nat.lt_succ_self batches
          distinct := List.pairwise_singleton _ _ }
      currentTime := .zero
      nextKey := 1
      owner := some 0
      dispatching := true }
  lifetimes := [⟨true, 0, true⟩]
  skipped := []
  devices :=
    { Devices.empty with all := [.audio (.new ⟨⟨mainFreq, 44100, 0⟩, .zero, 0⟩) ⟨44100, .wrap 0⟩] }

/-- A bench on which such a sampler has just been made. -/
def idler : BenchWorld := performed 1 [.new (.audio 44100 0)] (.ofScheduler .new .empty)

theorem dispatch_stalled (depth steps batches : Nat) :
    World.dispatch (execute (depth + 1) 0) .zero (steps + 1) (stalled batches) =
      World.dispatch (execute (depth + 1) 0) .zero steps (stalled (batches + 1)) := rfl

theorem starves_stalled (depth steps batches : Nat) :
    (World.dispatch (execute (depth + 1) 0) .zero steps).Starves (stalled batches) := by
  -- By induction on the steps: a delivery leaves the same bench, apart from the numbers drawn.
  induction steps generalizing batches with
  | zero => exact ⟨_, rfl⟩
  | succ steps ih =>
    obtain ⟨v, h⟩ := ih (batches + 1)
    exact ⟨v, (dispatch_stalled depth steps batches).trans h⟩

/-- A sampler is accepted whose batches have no length, and then moving time never comes to an end,
be it only to the instant at hand. -/
theorem sampler_never_gets_on : Reached idler ∧
    ∀ depth steps, (World.schedule (execute (depth + 1) 0) steps 0 .zero).Starves idler := by
  constructor
  · refine (Reached.started (Eq.refl (Session.start none))).performed 1 ?_
    simp [Action.Ordinary]
  · intro depth steps
    obtain ⟨v, h⟩ := starves_stalled depth steps 0
    have henter : World.onScheduler (Scheduler.enter 0 .zero) idler = .ok () (stalled 0) := rfl
    refine ⟨{ v with scheduler := v.scheduler.leave }, ?_⟩
    rw [World.schedule_of_due rfl]
    exact World.scheduleDue_of_halted henter h

/-- The last bit of a byte ends at the count of the earliest opportunity, and so it is out as soon as
the bit before. -/
example :
    let w := performed 20
      [.new (.uart 1718181600), .send 0 [85], .schedule (.at (.wrap 18446744073709551613))]
      (.ofScheduler (.start (.wrap 18446744073709551595)) .empty)
    w.scheduler.currentTime = .wrap 18446744073709551613 ∧ w.scheduler.queue = [] := by
  decide +kernel

end Timebase.Bench
