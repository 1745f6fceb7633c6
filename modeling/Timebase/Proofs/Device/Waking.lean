import Timebase.Proofs.Device.AudioSampler
import Timebase.Proofs.Device.FrameTimer
import Timebase.Proofs.Device.LineTiming

/-!
# Devices answer when they are woken

A device in step with time that is woken when it has asked for it does not break off in the first
half of the count: there its clock tells the next tick exactly, and what it counts are no more than
the master ticks that have passed.
-/

namespace Timebase

variable {num den n baud rate : Nat} {t : Instant} {r : Request} {wanted : List Request}

namespace Clock.Steady

theorem le_grid (h : Steady num den) (n : Nat) : n ≤ grid num den n :=
  le_grid_of_apart h.pos h.apart n

variable (h : Steady num den) (ht : t.Early) (hn : grid num den n ≤ t.ticks)

include h ht hn

theorem add_ok : Word.add n 1 = .ok (n + 1) := by
  have hcount := h.le_grid n
  have hearly : t.ticks < 9223372036854775808 := ht
  have hword : UInt64.size = 18446744073709551616 := rfl
  exact if_pos (by omega)

theorem forward_ok : (fromPowerOn num den n).forward 1 = .ok (fromPowerOn num den (n + 1)) :=
  Attempt.bind_eq_ok.mpr ⟨n + 1, h.add_ok ht hn, rfl⟩

theorem timeAfter_ok : (fromPowerOn num den n).timeAfter 1 = .ok (.wrap (grid num den (n + 1))) :=
  Attempt.bind_eq_ok.mpr ⟨n + 1, h.add_ok ht hn, instantOf_fromPowerOn num den n (n + 1)⟩

end Clock.Steady

open Clock (grid fromPowerOn Steady)

namespace FrameTimer

variable {f : FrameTimer}

theorem InStep.wake_ok (hs : Steady num den) (h : InStep num den t f wanted) (ht : t.Early)
    (hr : r ∈ wanted) (htime : r.time = .asap ∨ r.time = t) :
    ∃ q f', FrameTimer.wake t f = .ok q f' := by
  rw [h.wanted, List.mem_singleton] at hr
  rw [hr] at htime
  have hexact := hs.next_exact ht h.passed
  have hnow : Instant.wrap (grid num den (f.frames + 1)) = t :=
    htime.resolve_left (Instant.wrap_ne_asap hexact)
  have hticks : grid num den (f.frames + 1) ≤ t.ticks := by
    rw [← hnow, Instant.wrap_ticks (by omega)]
  have hforward : f.clock.forward 1 = .ok (fromPowerOn num den (f.frames + 1)) := by
    rw [h.clock]
    exact hs.forward_ok ht h.passed
  have htell : (fromPowerOn num den (f.frames + 1)).time = .ok t := by
    rw [← hnow]
    exact Clock.time_fromPowerOn num den (f.frames + 1)
  exact ⟨_, _, wake_of_ok hforward htell (hs.add_ok ht h.passed) (hs.timeAfter_ok ht hticks)⟩

end FrameTimer

namespace Uart

variable {message out : List UInt8} {u : Uart}

theorem nextBit_ok (hs : Steady baud 1) (ht : t.Early) (hn : grid baud 1 n ≤ t.ticks)
    (hclock : u.clock = fromPowerOn baud 1 n) : ∃ answer u', nextBit u = .ok answer u' := by
  have hnext : u.clock.timeAfter 1 = .ok (.wrap (grid baud 1 (n + 1))) := by
    rw [hclock]
    exact hs.timeAfter_ok ht hn
  exact ⟨_, _, nextBit_of_next hnext⟩

/-- The next byte is put on the line, or the burst is over. -/
theorem nextByte_ok (hs : Steady baud 1) (ht : t.Early) (hn : grid baud 1 n ≤ t.ticks)
    (hclock : u.clock = fromPowerOn baud 1 n) : ∃ answer u', nextByte u = .ok answer u' := by
  cases hq : u.queue with
  | nil => exact ⟨_, _, Run.bind_of_ok (load_of_nil hq)⟩
  | cons byte rest =>
    have hload : nextByte u = nextBit _ := Run.bind_of_ok (load_of_cons hq)
    rw [hload]
    exact nextBit_ok hs ht hn hclock

theorem InStep.wake_ok (hs : Steady baud 1) (h : InStep baud message out t u wanted) (ht : t.Early)
    (hr : r ∈ wanted) (htime : r.time = .asap ∨ r.time = t) :
    ∃ answer u', Uart.wake t r.tag u = .ok answer u' := by
  cases h with
  | waiting clock queue busy sent start heard =>
    rw [List.mem_singleton.mp hr, wake_start]
    have hclock : u.clock.reset t = fromPowerOn baud 1 0 := by
      rw [clock, start]
      rfl
    refine nextByte_ok hs ht ?_ hclock
    rw [Clock.grid_zero]
    exact Nat.zero_le _
  | sending sent queue clock busy left count passed heard =>
    have hexact := hs.next_exact ht passed
    rw [List.mem_singleton.mp hr] at htime ⊢
    have hnow : Instant.wrap (grid baud 1 (u.bitsSent + 1)) = t :=
      htime.resolve_left (Instant.wrap_ne_asap hexact)
    have hticks : grid baud 1 (u.bitsSent + 1) ≤ t.ticks := by
      rw [← hnow, Instant.wrap_ticks (by omega)]
    have hforward : u.clock.forward 1 = .ok (u.clock.withCount (u.clock.count + 1)) := by
      rw [clock]
      exact hs.forward_ok ht passed
    have hclock : u.bitOut.clock = fromPowerOn baud 1 (u.bitsSent + 1) := by
      rw [bitOut, clock]
      rfl
    rw [wake_bit (by omega) (countBit_of_ok hforward (hs.add_ok ht passed))]
    split
    · exact nextByte_ok hs ht hticks hclock
    · exact nextBit_ok hs ht hticks hclock
  | done => cases hr

end Uart

namespace AudioSampler

variable {f : AudioFormat} {a : AudioSampler} {last : Instant}

theorem InStep.update_ok (h : InStep rate t f a wanted) (ht : t.Early) :
    ∃ a', AudioSampler.update t a = .ok () a' := by
  rw [h.accounted]
  exact ⟨_, update_accounted h.usable.slow ht h.last_le⟩

end AudioSampler

theorem AudioFormat.endOfBatch_ok {f : AudioFormat} (hpos : 0 < f.batchTicks) (ht : t.Early) :
    ∃ q, f.endOfBatch t = .ok q := by
  have hearly : t.ticks < 9223372036854775808 := ht
  have hbatch := f.batchTicks_lt
  have hword : UInt64.size = 18446744073709551616 := rfl
  have hspan : f.batchPeriod.ticks = f.batchTicks := by
    rw [batchTicks] at hpos ⊢
    omega
  have hsum : ((t.ticks : Int) + f.batchPeriod.ticks).toNat = t.ticks + f.batchTicks := by omega
  have hfits : t.ticks + f.batchTicks < UInt64.size := by omega
  have hkept : Attempt.demand (!t.isAsap) .asapInstant = .ok () := by
    rw [Instant.isAsap_of_ne ht.ne_asap]
    rfl
  have hadd : t.add f.batchPeriod = .ok ⟨t.ticks + f.batchTicks, hfits⟩ := by
    refine Attempt.bind_eq_ok.mpr ⟨(), hkept, ?_⟩
    show (if 0 ≤ (t.ticks : Int) + f.batchPeriod.ticks then _ else _ : Attempt Instant) = _
    rw [if_pos (by omega), hsum, Instant.ofTicks?, dif_pos hfits]
  exact ⟨_, Attempt.bind_eq_ok.mpr ⟨_, hadd, rfl⟩⟩

end Timebase
