import Timebase.Proofs.Device.Conveyance
import Timebase.Proofs.Rates
import Timebase.Device.FrameTimer
import Timebase.Device.AudioSampler
import Timebase.Proofs.Time.Operators

/-!
# Devices that ask to be woken again

A frame timer and a serial line ask for the next tick of a clock that stands at their wake-up, and
that is another instant. A sampler adds the length of its batch. What a device asks for may still be
the count of a sentinel, and a batch may have no length.
-/

namespace Timebase

namespace Clock

variable {c c' : Clock} {t t' : Instant}

/-- A clock keeps its rate, whatever it counts and wherever it is anchored. -/
def SameRate (c c' : Clock) : Prop := c'.num = c.num ∧ c'.den = c.den

theorem SameRate.accepted (h : SameRate c c') (hrate : Accepted c.num c.den) :
    Accepted c'.num c'.den := by
  rw [h.1, h.2]
  exact hrate

/-- Ticks next to each other are less than 64 bits apart, so that they differ in their low 64 bits. -/
theorem Accepted.offset_succ_ne (h : Accepted c.num c.den) (n : Nat) :
    c.offset (n + 1) ≠ c.offset n := by
  have hpos : 0 < mainFreq * c.den / c.num := Nat.div_pos h.apart h.num_pos
  have hle : mainFreq * c.den / c.num ≤ mainFreq * c.den := Nat.div_le_self _ _
  have hden : c.den < 4294967296 := h.den_lt
  have hmain : mainFreq * c.den = 3436363200 * c.den := rfl
  show grid c.num c.den (n + 1) % 18446744073709551616 ≠ grid c.num c.den n % 18446744073709551616
  rcases grid_succ_cases h.num_pos c.den n with hnext | hnext
  all_goals omega

theorem ticks_of_instantOf_eq_ok {n : Nat} (h : c.instantOf n = .ok t) :
    t.ticks = c.anchor.ticks + c.offset n := by
  rw [instantOf] at h
  split at h
  · cases h
    rfl
  · cases h

theorem instantOf_of_timeAfter {n : Nat} (h : c.timeAfter n = .ok t) :
    c.instantOf (c.count + n) = .ok t := by
  obtain ⟨count, hcount, h⟩ := Attempt.bind_eq_ok.mp h
  rwa [Word.eq_of_add_eq_ok hcount] at h

theorem Accepted.timeAfter_ne (h : Accepted c.num c.den) (hnow : c.time = .ok t)
    (hnext : c.timeAfter 1 = .ok t') : t' ≠ t := by
  rintro rfl
  -- Counts may run over and offsets lose their upper bits, so that order says nothing here.
  have hsame := (ticks_of_instantOf_eq_ok (instantOf_of_timeAfter hnext)).symm.trans
    (ticks_of_instantOf_eq_ok hnow)
  exact h.offset_succ_ne c.count (Nat.add_left_cancel hsame)

end Clock

open Clock (Accepted SameRate)

/-- A wake-up that may be registered at the instant at hand, but is not for that instant, lies ahead
or is for the earliest opportunity. -/
theorem Instant.lt_of_registered {t next : Instant} (hkept : next = .asap ∨ t ≤ next)
    (hne : next ≠ t) : t < next ∨ next = .asap := by
  rcases hkept with hasap | hle
  · exact Or.inr hasap
  · refine Or.inl (Instant.not_le.mp fun hback => hne (Instant.le_antisymm hback hle))

namespace FrameTimer

variable {f f' : FrameTimer} {t : Instant} {r : Request}

/-- A timer that wants the end of its frame, or nothing any more. -/
inductive Waits (f : FrameTimer) : List Request → Prop where
  | idle : Waits f []
  | next {t : Instant} (time : f.clock.timeAfter 1 = .ok t) : Waits f [⟨t, frameEnd⟩]

/-- A timer is woken at the end of a frame and asks for the end of the next. -/
structure Woken (t : Instant) (f f' : FrameTimer) (r : Request) : Prop where
  rate : SameRate f.clock f'.clock
  due : f.clock.timeAfter 1 = .ok t
  now : f'.clock.time = .ok t
  next : f'.clock.timeAfter 1 = .ok r.time
  tag : r.tag = frameEnd

theorem woken_of_wake (h : FrameTimer.wake t f = .ok r f') : Woken t f f' r := by
  obtain ⟨_, f₁, hforward, hrest⟩ := Run.bind_eq_ok.mp h
  obtain ⟨c, hc, hf₁⟩ := Attempt.bind_eq_ok.mp (Run.update_eq_ok.mp hforward)
  cases hf₁
  cases Clock.eq_of_forward_eq_ok hc
  obtain ⟨now, f₂, hread, hrest⟩ := Run.bind_eq_ok.mp hrest
  obtain ⟨hnow, rfl⟩ := Run.read_eq_ok.mp hread
  obtain ⟨_, f₃, hdemand, hrest⟩ := Run.bind_eq_ok.mp hrest
  obtain ⟨hmatch, rfl⟩ := Run.demand_eq_ok.mp hdemand
  obtain ⟨_, f₄, hcount, hrest⟩ := Run.bind_eq_ok.mp hrest
  obtain ⟨n, -, hf₄⟩ := Attempt.bind_eq_ok.mp (Run.update_eq_ok.mp hcount)
  cases hf₄
  obtain ⟨next, f₅, hafter, hrest⟩ := Run.bind_eq_ok.mp hrest
  obtain ⟨hnext, rfl⟩ := Run.read_eq_ok.mp hafter
  cases hrest
  rw [beq_iff_eq.mp hmatch] at hnow
  have hdue : f.clock.timeAfter 1 = .ok t := by
    obtain ⟨count, hcount, -⟩ := Attempt.bind_eq_ok.mp hc
    refine Attempt.bind_eq_ok.mpr ⟨count, hcount, ?_⟩
    rw [Word.eq_of_add_eq_ok hcount]
    exact hnow
  exact ⟨⟨rfl, rfl⟩, hdue, hnow, hnext, rfl⟩

theorem waits_of_new {now : Instant} {num den : Nat} (h : FrameTimer.new now num den = .ok (f, r)) :
    Accepted f.clock.num f.clock.den ∧ Waits f [r] := by
  obtain ⟨c₁, -, h⟩ := Attempt.bind_eq_ok.mp h
  obtain ⟨c₂, hset, h⟩ := Attempt.bind_eq_ok.mp h
  obtain ⟨next, hnext, h⟩ := Attempt.bind_eq_ok.mp h
  cases h
  exact ⟨(Clock.regular_of_setRatio hset).rate, .next hnext⟩

theorem Woken.waits (h : Woken t f f' r) : Waits f' [r] := by
  obtain ⟨time, tag⟩ := r
  cases h.tag
  exact .next h.next

theorem Woken.ahead (h : Woken t f f' r) (hrate : Accepted f.clock.num f.clock.den)
    (hkept : r.time = .asap ∨ t ≤ r.time) : t < r.time ∨ r.time = .asap :=
  Instant.lt_of_registered hkept ((h.rate.accepted hrate).timeAfter_ne h.now h.next)

theorem wake_ends (t : Instant) : Run.Ends (FrameTimer.wake t) :=
  .bind (.update _) fun _ => .bind (.read _) fun _ => .bind (.lift _) fun _ =>
    .bind (.update _) fun _ => .bind (.read _) fun _ => .pure _

theorem wake_sameRate (t : Instant) (f₀ : FrameTimer) :
    Run.Preserves (fun f => SameRate f₀.clock f.clock) (FrameTimer.wake t) := by
  have hforward : Run.Preserves (fun f : FrameTimer => SameRate f₀.clock f.clock)
      (Run.update fun f => return { f with clock := (← f.clock.forward 1) }) := by
    refine .update fun f f' hf hsame => ?_
    obtain ⟨c, hc, hf⟩ := Attempt.bind_eq_ok.mp hf
    cases hf
    cases Clock.eq_of_forward_eq_ok hc
    exact hsame
  have hcount : Run.Preserves (fun f : FrameTimer => SameRate f₀.clock f.clock)
      (Run.update fun f => return { f with frames := (← Word.add f.frames 1) }) := by
    refine .update fun f f' hf hsame => ?_
    obtain ⟨n, -, hf⟩ := Attempt.bind_eq_ok.mp hf
    cases hf
    exact hsame
  exact .bind hforward fun _ => .bind (.read _) fun _ => .bind (.lift _) fun _ =>
    .bind hcount fun _ => .bind (.read _) fun _ => .pure _

end FrameTimer

namespace Uart

variable {u u' : Uart} {t : Instant} {tag : Tag} {answer : Option Request} {r : Request}

/-- A line that wants to be started or woken at the end of its bit, or wants nothing. -/
inductive Waits (u : Uart) : List Request → Prop where
  | idle : Waits u []
  | starting (busy : u.busy = true) : Waits u [⟨.asap, start⟩]
  | sending {t : Instant} (busy : u.busy = true) (time : u.clock.timeAfter 1 = .ok t) :
      Waits u [⟨t, bit⟩]

/-- No more bits than this go out, nor is a line woken more often, until it is handed more: a byte
that waits takes one step to be put on the line. -/
def toSend (u : Uart) : Nat := (bitsPerFrame + 1) * u.queue.length + u.bitsLeft

theorem accepted_clock_of_new {now : Instant} {baud : Nat} (h : Uart.new now baud = .ok u) :
    Accepted u.clock.num u.clock.den := by
  obtain ⟨c, hset, h⟩ := Attempt.bind_eq_ok.mp h
  cases h
  exact (Clock.regular_of_setRatio hset).rate

/-- What a wake-up does to a line: it starts a burst, is nobody's, or ends a bit. -/
inductive Woken (t : Instant) (u u' : Uart) (answer : Option Request) : Tag → Prop where
  | start (h : Loads { u with clock := u.clock.reset t } u' answer) : Woken t u u' answer start
  | void (left : u.bitsLeft = 0) (h : u' = u) (ha : answer = none) : Woken t u u' answer bit
  | lastBit (left : u.bitsLeft = 1)
      (h : Loads { u.bitOut with receiver := u.receiver.deliver u.current } u' answer) :
      Woken t u u' answer bit
  | bit {next : Instant} (left : 1 < u.bitsLeft) (h : u' = u.bitOut)
      (time : u.bitOut.clock.timeAfter 1 = .ok next) (ha : answer = some ⟨next, bit⟩) :
      Woken t u u' answer bit

theorem woken_of_wake (h : Uart.wake t tag u = .ok answer u') : Woken t u u' answer tag := by
  by_cases hstart : tag = start
  · subst hstart
    exact .start (loads_of_nextByte (u := { u with clock := u.clock.reset t }) h)
  · by_cases hbit : tag = bit
    · subst hbit
      by_cases hleft : u.bitsLeft = 0
      · have hget : (get : Run Uart Uart) u = .ok u u := rfl
        change (get >>= fun v => if v.bitsLeft = 0 then _ else _ : Run Uart (Option Request)) u = _
          at h
        rw [Run.bind_of_ok hget, if_pos hleft] at h
        cases h
        exact .void hleft rfl rfl
      · rcases wake_bit_eq_ok hleft h with ⟨hone, h⟩ | ⟨hmore, h⟩
        · exact .lastBit hone (loads_of_nextByte h)
        · obtain ⟨rfl, next, hnext, rfl⟩ := nextBit_cases h
          exact .bit hmore rfl hnext rfl
    · rw [Uart.wake, if_neg hstart, if_neg hbit] at h
      cases h

/-- A line that asks for something asks for the next tick of its clock, and has less to send. -/
structure Asks (u u' : Uart) (r : Request) : Prop where
  next : u'.clock.timeAfter 1 = .ok r.time
  tag : r.tag = Uart.bit
  busy : u'.busy = u.busy
  less : u'.toSend < u.toSend

theorem Loads.clock (h : Loads u u' answer) : u'.clock = u.clock := by
  cases h with
  | ended _ h => rw [h]
  | byte _ h _ => rw [h]

theorem Loads.asks (h : Loads u u' (some r)) : Asks u u' r := by
  cases h with
  | byte queue h time =>
    subst h
    refine ⟨time, rfl, rfl, ?_⟩
    simp only [toSend, queue, List.length_cons, bitsPerFrame]
    omega

theorem Loads.toSend_le (h : Loads u u' none) : u'.toSend ≤ u.toSend := by
  cases h with
  | ended queue h =>
    subst h
    exact Nat.le_refl _

theorem toSend_bitOut (left : u.bitsLeft ≠ 0) : u.bitOut.toSend + 1 = u.toSend := by
  show (bitsPerFrame + 1) * u.queue.length + (u.bitsLeft - 1) + 1 =
    (bitsPerFrame + 1) * u.queue.length + u.bitsLeft
  omega

namespace Woken

theorem rate (h : Woken t u u' answer tag) : SameRate u.clock u'.clock := by
  cases h with
  | start h | lastBit _ h =>
    rw [h.clock]
    exact ⟨rfl, rfl⟩
  | void _ h | bit _ h _ _ =>
    rw [h]
    exact ⟨rfl, rfl⟩

theorem asks (h : Woken t u u' (some r) tag) : Asks u u' r := by
  cases h with
  | start h =>
    obtain ⟨hnext, htag, hbusy, hless⟩ := h.asks
    exact ⟨hnext, htag, hbusy, hless⟩
  | void _ _ ha => cases ha
  | lastBit left h =>
    obtain ⟨hnext, htag, hbusy, hless⟩ := h.asks
    have hout := toSend_bitOut (u := u) (by omega)
    exact ⟨hnext, htag, hbusy, by change _ < u.bitOut.toSend at hless; omega⟩
  | bit left h time ha =>
    cases ha
    subst h
    have hout := toSend_bitOut (u := u) (by omega)
    exact ⟨time, rfl, rfl, by omega⟩

theorem toSend_le (h : Woken t u u' none tag) : u'.toSend ≤ u.toSend := by
  cases h with
  | start h => exact h.toSend_le
  | void _ h =>
    rw [h]
  | lastBit left h =>
    have hout := toSend_bitOut (u := u) (by omega)
    have hle : u'.toSend ≤ u.bitOut.toSend := h.toSend_le
    omega
  | bit _ _ _ ha => cases ha

theorem waits (h : Woken t u u' answer tag) (busy : u.busy = true) : Waits u' answer.toList := by
  cases answer with
  | none => exact .idle
  | some r =>
    obtain ⟨time, tag⟩ := r
    obtain ⟨hnext, htag, hbusy, -⟩ := h.asks
    cases htag
    exact .sending (hbusy.trans busy) hnext

theorem now (h : Woken t u u' answer tag) (hon : tag = Uart.start ∨ u.clock.timeAfter 1 = .ok t)
    (hsome : answer ≠ none) : u'.clock.time = .ok t := by
  have hcount (hne : tag = Uart.bit) : u.bitOut.clock.time = .ok t := by
    rcases hon with rfl | htime
    · cases hne
    · exact Clock.instantOf_of_timeAfter htime
  cases h with
  | start h =>
    rw [h.clock]
    exact Clock.time_reset u.clock t
  | void _ _ ha => exact absurd ha hsome
  | lastBit _ h =>
    rw [h.clock]
    exact hcount rfl
  | bit _ h _ _ =>
    rw [h]
    exact hcount rfl

theorem ahead (h : Woken t u u' (some r) tag) (hrate : Accepted u.clock.num u.clock.den)
    (hon : tag = Uart.start ∨ u.clock.timeAfter 1 = .ok t) (hkept : r.time = .asap ∨ t ≤ r.time) :
    t < r.time ∨ r.time = .asap :=
  Instant.lt_of_registered hkept
    ((h.rate.accepted hrate).timeAfter_ne (h.now hon (Option.some_ne_none r)) h.asks.next)

end Woken

theorem load_ends : Run.Ends load := by
  rintro u ⟨u', h⟩
  cases hq : u.queue with
  | nil =>
    rw [load_of_nil hq] at h
    cases h
  | cons byte rest =>
    rw [load_of_cons hq] at h
    cases h

theorem nextBit_ends : Run.Ends nextBit := .bind (.read _) fun _ => .pure _

theorem nextByte_ends : Run.Ends nextByte := by
  refine .bind load_ends fun more => ?_
  cases more with
  | true => exact nextBit_ends
  | false => exact .pure none

theorem countBit_ends : Run.Ends countBit :=
  .bind (.update _) fun _ => .bind (.update _) fun _ => .modify _

theorem wake_ends (t : Instant) (tag : Tag) : Run.Ends (Uart.wake t tag) := by
  rw [Uart.wake]
  split
  · exact .bind (.modify _) fun _ => nextByte_ends
  · split
    · refine .bind .get fun u => ?_
      split
      · exact .pure none
      · refine .bind countBit_ends fun _ => .bind .get fun v => ?_
        split
        · exact .bind (.modify _) fun _ => nextByte_ends
        · exact nextBit_ends
    · exact .lift _

section

variable (u₀ : Uart)

theorem load_sameRate : Run.Preserves (fun u => SameRate u₀.clock u.clock) load := by
  intro u hu
  cases hq : u.queue with
  | nil =>
    rw [Run.after_of_ok (load_of_nil hq)]
    exact hu
  | cons byte rest =>
    rw [Run.after_of_ok (load_of_cons hq)]
    exact hu

theorem nextBit_sameRate : Run.Preserves (fun u => SameRate u₀.clock u.clock) nextBit :=
  .bind (.read _) fun _ => .pure _

theorem nextByte_sameRate : Run.Preserves (fun u => SameRate u₀.clock u.clock) nextByte := by
  refine .bind (load_sameRate u₀) fun more => ?_
  cases more with
  | true => exact nextBit_sameRate u₀
  | false => exact .pure none

theorem countBit_sameRate : Run.Preserves (fun u => SameRate u₀.clock u.clock) countBit := by
  refine .bind (.update fun u u' hu hsame => ?_) fun _ =>
    .bind (.update fun u u' hu hsame => ?_) fun _ => .modify fun u hsame => hsame
  · obtain ⟨c, hc, hu⟩ := Attempt.bind_eq_ok.mp hu
    cases hu
    cases Clock.eq_of_forward_eq_ok hc
    exact hsame
  · obtain ⟨n, -, hu⟩ := Attempt.bind_eq_ok.mp hu
    cases hu
    exact hsame

theorem wake_sameRate (t : Instant) (tag : Tag) :
    Run.Preserves (fun u => SameRate u₀.clock u.clock) (Uart.wake t tag) := by
  rw [Uart.wake]
  split
  · exact .bind (.modify fun u hsame => hsame) fun _ => nextByte_sameRate u₀
  · split
    · refine .bind .get fun u => ?_
      split
      · exact .pure none
      · refine .bind (countBit_sameRate u₀) fun _ => .bind .get fun v => ?_
        split
        · exact .bind (.modify fun u hsame => hsame) fun _ => nextByte_sameRate u₀
        · exact nextBit_sameRate u₀
    · exact .lift _

end

end Uart

namespace AudioFormat

variable {f : AudioFormat} {t : Instant} {r : Request}

theorem ticks_of_endOfBatch (h : f.endOfBatch t = .ok r) :
    (r.time.ticks : Int) = t.ticks + f.batchPeriod.ticks := by
  obtain ⟨next, hnext, h⟩ := Attempt.bind_eq_ok.mp h
  cases h
  exact Instant.ticks_of_add_eq_ok hnext

theorem ahead (h : f.endOfBatch t = .ok r) (hkept : r.time = .asap ∨ t ≤ r.time)
    (hsome : f.batchPeriod.ticks ≠ 0) : t < r.time ∨ r.time = .asap := by
  have hticks := ticks_of_endOfBatch h
  refine Instant.lt_of_registered hkept fun hsame => hsome ?_
  rw [hsame] at hticks
  omega

/-- Without any length a batch ends when it begins. -/
theorem same_of_endOfBatch (h : f.endOfBatch t = .ok r) (hnone : f.batchPeriod.ticks = 0) :
    r.time = t := by
  have hticks := ticks_of_endOfBatch h
  exact Instant.ext (by omega)

/-- Every batch that begins at the instant at hand, or later up to a limit, ends at another instant,
which does not have the count of the earliest opportunity. -/
def MovesOn (f : AudioFormat) (now limit : Instant) : Prop :=
  ∀ ⦃t r⦄, t = now ∨ now ≤ t ∧ t ≤ limit → f.endOfBatch t = .ok r → r.time ≠ t ∧ r.time ≠ .asap

theorem MovesOn.later {now now' limit : Instant} (h : f.MovesOn now limit)
    (hlater : now' = now ∨ now ≤ now' ∧ now' ≤ limit) : f.MovesOn now' limit := by
  rintro t r ht hr
  refine h ?_ hr
  rcases hlater with rfl | ⟨hle, hle'⟩
  · exact ht
  · rcases ht with rfl | ⟨hfrom, hto⟩
    · exact Or.inr ⟨hle, hle'⟩
    · exact Or.inr ⟨Instant.le_trans hle hfrom, hto⟩

/-- A batch of some length moves on as long as no sum comes near the end of all counts. -/
theorem movesOn_of_early {now limit : Instant} (hsome : f.batchPeriod.ticks ≠ 0)
    (hnow : (now.ticks : Int) + f.batchPeriod.ticks < (UInt64.size : Int) - 1)
    (hlimit : (limit.ticks : Int) + f.batchPeriod.ticks < (UInt64.size : Int) - 1)
    (hasap : limit ≠ .asap) : f.MovesOn now limit := by
  rintro t r ht hr
  have hticks := ticks_of_endOfBatch hr
  have hsize : UInt64.size = 18446744073709551616 := rfl
  have hsentinel : Instant.asap.ticks = UInt64.size - 1 := rfl
  constructor
  all_goals
    intro hbad
    rw [hbad] at hticks
  · omega
  · by_cases hone : t = .asap
    · rw [hone] at hticks
      omega
    · rcases ht with rfl | ⟨-, hle⟩
      · omega
      · have hbound := Instant.ticks_le_of_le hasap hone hle
        omega

end AudioFormat

theorem AudioSampler.update_ends (t : Instant) : Run.Ends (AudioSampler.update t) := by
  rw [AudioSampler.update]
  refine .bind .get fun a => ?_
  change Run.Ends (if t ≤ a.last then _ else _)
  split
  · exact .pure ()
  · exact .bind (.lift _) fun _ => .bind (.read _) fun _ => .bind (.modify _) fun _ =>
      .bind (.update _) fun _ => .modify _

end Timebase
