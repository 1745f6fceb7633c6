import Timebase.Device.Uart
import Timebase.Proofs.Clock

/-!
# A serial line in step with time

A serial line that is given a message at power-on waits to start, sends the message bit by bit, and
is done. Each bit ends on a tick of its clock, so how many are out follows from the time alone.
-/

namespace Timebase

/-- All that was sent has been heard: some of it is fetched, the rest waits to be. -/
structure Receiver.Heard (fetched sent : List UInt8) (r : Receiver) : Prop where
  connected : r.connected = true
  arrived : fetched ++ r.arrived = sent

namespace Receiver.Heard

variable {fetched sent : List UInt8} {r : Receiver}

theorem deliver (h : Heard fetched sent r) (byte : UInt8) :
    Heard fetched (sent ++ [byte]) (r.deliver byte) := by
  rw [Receiver.deliver, if_pos h.connected]
  refine ⟨h.connected, ?_⟩
  rw [← h.arrived, List.append_assoc]

theorem fetched_all (h : Heard fetched sent r) :
    Heard (fetched ++ r.arrived) sent { r with arrived := [] } :=
  ⟨h.connected, by rw [List.append_nil, h.arrived]⟩

end Receiver.Heard

namespace Uart

open Clock (grid fromPowerOn Steady)

variable {baud : Nat} {message out : List UInt8} {now t : Instant} {u u' : Uart} {r : Request}
  {answer : Option Request} {wanted : List Request}

theorem load_of_nil (h : u.queue = []) : load u = .ok false { u with busy := false } := by
  cases u
  subst h
  rfl

theorem load_of_cons {byte : UInt8} {rest : List UInt8} (h : u.queue = byte :: rest) :
    load u = .ok true
      { u with queue := rest, current := byte, bitsLeft := bitsPerFrame } := by
  cases u
  subst h
  rfl

theorem nextBit_eq_ok {n : Nat} (h : nextBit u = .ok answer u')
    (hc : u.clock = fromPowerOn baud 1 n) :
    u' = u ∧ answer = some ⟨.wrap (grid baud 1 (n + 1)), bit⟩ := by
  obtain ⟨next, v, hread, hrest⟩ := Run.bind_eq_ok.mp h
  obtain ⟨hnext, rfl⟩ := Run.read_eq_ok.mp hread
  rw [hc] at hnext
  cases hrest
  exact ⟨rfl, by rw [Clock.timeAfter_fromPowerOn hnext]⟩

/-- The next byte is put on the line; without one the burst is over. -/
def nextByte : Run Uart (Option Request) := do if ← load then nextBit else return none

/-- A line on which one more bit is out. -/
def bitOut (u : Uart) : Uart :=
  { u with
    clock := { u.clock with count := u.clock.count + 1 }
    bitsSent := u.bitsSent + 1
    bitsLeft := u.bitsLeft - 1 }

theorem eq_of_countBit_eq_ok (h : countBit u = .ok () u') : u' = u.bitOut := by
  obtain ⟨_, u₁, hforward, hrest⟩ := Run.bind_eq_ok.mp h
  obtain ⟨c, hc, hu₁⟩ := Attempt.bind_eq_ok.mp (Run.update_eq_ok.mp hforward)
  cases hu₁
  cases Clock.eq_of_forward_eq_ok hc
  obtain ⟨_, u₂, hcount, hrest⟩ := Run.bind_eq_ok.mp hrest
  obtain ⟨n, hn, hu₂⟩ := Attempt.bind_eq_ok.mp (Run.update_eq_ok.mp hcount)
  cases hu₂
  cases Word.eq_of_add_eq_ok hn
  cases hrest
  rfl

theorem wake_bit_eq_ok (hleft : u.bitsLeft ≠ 0) (h : Uart.wake t bit u = .ok answer u') :
    u.bitsLeft = 1 ∧
        nextByte { u.bitOut with receiver := u.receiver.deliver u.current } = .ok answer u' ∨
      1 < u.bitsLeft ∧ nextBit u.bitOut = .ok answer u' := by
  have hget : ∀ v, (get : Run Uart Uart) v = .ok v v := fun v => rfl
  change (get >>= fun v => if v.bitsLeft = 0 then _ else _ : Run Uart (Option Request)) u = _ at h
  rw [Run.bind_of_ok (hget u), if_neg hleft] at h
  obtain ⟨_, u₁, hcount, hrest⟩ := Run.bind_eq_ok.mp h
  cases eq_of_countBit_eq_ok hcount
  rw [Run.bind_of_ok (hget u.bitOut)] at hrest
  by_cases hlast : u.bitOut.bitsLeft = 0
  · rw [if_pos hlast] at hrest
    have hone : u.bitsLeft - 1 = 0 := hlast
    exact Or.inl ⟨by omega, hrest⟩
  · rw [if_neg hlast] at hrest
    have hmore : u.bitsLeft - 1 ≠ 0 := hlast
    exact Or.inr ⟨by omega, hrest⟩

/-- Where a message stands that was handed over at power-on, and what the line wants for it. What
has arrived is in part fetched already. -/
inductive InStep (baud : Nat) (message out : List UInt8) (now : Instant) (u : Uart) :
    List Request → Prop
  | waiting (clock : u.clock = fromPowerOn baud 1 0) (queue : u.queue = message)
      (busy : u.busy = true) (sent : u.bitsSent = 0) (start : now = .zero)
      (heard : u.receiver.Heard out []) :
      InStep baud message out now u [⟨.asap, Uart.start⟩]
  | sending (sent : List UInt8) (queue : message = sent ++ u.current :: u.queue)
      (clock : u.clock = fromPowerOn baud 1 u.bitsSent) (busy : u.busy = true)
      (left : 0 < u.bitsLeft ∧ u.bitsLeft ≤ bitsPerFrame)
      (count : u.bitsSent + u.bitsLeft = bitsPerFrame * (sent.length + 1))
      (passed : grid baud 1 u.bitsSent ≤ now.ticks)
      (heard : u.receiver.Heard out sent) :
      InStep baud message out now u [⟨.wrap (grid baud 1 (u.bitsSent + 1)), bit⟩]
  | done (queue : u.queue = []) (busy : u.busy = false)
      (count : u.bitsSent = bitsPerFrame * message.length)
      (passed : grid baud 1 u.bitsSent ≤ now.ticks)
      (heard : u.receiver.Heard out message) :
      InStep baud message out now u []

theorem InStep.of_nextByte {sent : List UInt8} (hs : Steady baud 1) (ht : t.Early)
    (hclock : u.clock = fromPowerOn baud 1 u.bitsSent) (hbusy : u.busy = true)
    (hqueue : message = sent ++ u.queue) (hcount : u.bitsSent = bitsPerFrame * sent.length)
    (hpassed : t.ticks = grid baud 1 u.bitsSent) (hheard : u.receiver.Heard out sent)
    (h : nextByte u = .ok answer u') :
    InStep baud message out t u' answer.toList ∧ ∀ q ∈ answer, t < q.time := by
  have hle := Nat.le_of_eq hpassed.symm
  cases hq : u.queue with
  | nil =>
    rw [nextByte, Run.bind_of_ok (load_of_nil hq)] at h
    cases h
    rw [hq, List.append_nil] at hqueue
    subst hqueue
    exact ⟨.done hq rfl hcount hle hheard, fun q hq => (by cases hq)⟩
  | cons byte rest =>
    rw [nextByte, Run.bind_of_ok (load_of_cons hq), if_pos rfl] at h
    obtain ⟨rfl, rfl⟩ := nextBit_eq_ok h hclock
    rw [hq] at hqueue
    refine ⟨.sending sent hqueue hclock hbusy ⟨Nat.succ_pos 9, Nat.le_refl _⟩ ?_ hle hheard, ?_⟩
    · show u.bitsSent + bitsPerFrame = _
      rw [hcount, Nat.mul_succ]
    · intro q hq
      cases hq
      exact hs.lt_next ht hpassed

theorem inStep_of_new (h : Uart.new .zero baud = .ok u) (message : List UInt8) :
    InStep baud message [] .zero (u.send message).2 [⟨.asap, start⟩] ∧ Steady baud 1 ∧
      (u.send message).2.receiver.arrived = [] := by
  obtain ⟨c, hc, hu⟩ := Attempt.bind_eq_ok.mp h
  obtain ⟨rfl, hs⟩ := Clock.new_eq_ok hc
  cases hu
  exact ⟨.waiting rfl (List.nil_append message) rfl rfl rfl ⟨rfl, rfl⟩, hs, rfl⟩

namespace InStep

theorem length_le (h : InStep baud message out now u wanted) : wanted.length ≤ 1 := by
  cases h with
  | waiting => exact Nat.le_refl 1
  | sending => exact Nat.le_refl 1
  | done => exact Nat.zero_le 1

theorem later (h : InStep baud message out now u wanted) (hle : now.ticks ≤ t.ticks)
    (hstart : t = now ∨ ∀ q ∈ wanted, q.time ≠ .asap) : InStep baud message out t u wanted := by
  cases h with
  | waiting clock queue busy sent start heard =>
    rcases hstart with rfl | hstart
    · exact .waiting clock queue busy sent start heard
    · exact absurd rfl (hstart _ List.mem_cons_self)
  | sending sent queue clock busy left count passed heard =>
    exact .sending sent queue clock busy left count (Nat.le_trans passed hle) heard
  | done queue busy count passed heard =>
    exact .done queue busy count (Nat.le_trans passed hle) heard

theorem fetch (h : InStep baud message out now u wanted) :
    InStep baud message (out ++ u.receiver.arrived) now
      { u with receiver := { u.receiver with arrived := [] } } wanted := by
  cases h with
  | waiting clock queue busy sent start heard =>
    exact .waiting clock queue busy sent start heard.fetched_all
  | sending sent queue clock busy left count passed heard =>
    exact .sending sent queue clock busy left count passed heard.fetched_all
  | done queue busy count passed heard => exact .done queue busy count passed heard.fetched_all

theorem connected (h : InStep baud message out now u wanted) : u.receiver.connected = true := by
  cases h with
  | waiting _ _ _ _ _ heard => exact heard.connected
  | sending _ _ _ _ _ _ _ heard => exact heard.connected
  | done _ _ _ _ heard => exact heard.connected

/-- A wake-up starts the message or ends a bit, and asks for the end of the next bit. -/
theorem wake (hs : Steady baud 1) (h : InStep baud message out t u wanted) (ht : t.Early)
    (hr : r ∈ wanted) (htime : r.time = .asap ∨ r.time = t)
    (hw : Uart.wake t r.tag u = .ok answer u') :
    InStep baud message out t u' answer.toList ∧ ∀ q ∈ answer, t < q.time := by
  cases h with
  | waiting clock queue busy sent start heard =>
    rw [List.mem_singleton.mp hr] at hw
    have hclock : (u.clock.reset t) = fromPowerOn baud 1 u.bitsSent := by
      rw [clock, sent, start]
      rfl
    have hzero : t.ticks = grid baud 1 u.bitsSent := by
      rw [sent, Clock.grid_zero, start]
      rfl
    have hqueue : message = [] ++ u.queue := queue.symm
    exact of_nextByte hs ht (u := { u with clock := u.clock.reset t }) hclock busy hqueue sent
      hzero heard hw
  | sending sent queue clock busy left count passed heard =>
    have hexact := hs.next_exact ht passed
    have hr := List.mem_singleton.mp hr
    rw [hr] at hw htime
    have hnow : Instant.wrap (grid baud 1 (u.bitsSent + 1)) = t :=
      htime.resolve_left (Instant.wrap_ne_asap hexact)
    have hticks : t.ticks = grid baud 1 (u.bitsSent + 1) := by
      rw [← hnow, Instant.wrap_ticks (by omega)]
    have hclock : u.bitOut.clock = fromPowerOn baud 1 (u.bitsSent + 1) := by
      rw [bitOut, clock]
      rfl
    -- with its last bit the current byte is among those that were sent
    rcases wake_bit_eq_ok (by omega) hw with ⟨hone, hw⟩ | ⟨hmore, hw⟩
    · have hqueue : message = (sent ++ [u.current]) ++ u.queue := by
        rw [List.append_assoc]
        exact queue
      have hcount : u.bitsSent + 1 = bitsPerFrame * (sent ++ [u.current]).length := by
        rw [List.length_append, List.length_singleton, ← count, hone]
      exact of_nextByte hs ht (u := { u.bitOut with receiver := u.receiver.deliver u.current })
        hclock busy hqueue hcount hticks (heard.deliver u.current) hw
    · obtain ⟨rfl, rfl⟩ := nextBit_eq_ok hw hclock
      have hleft : 0 < u.bitsLeft - 1 ∧ u.bitsLeft - 1 ≤ bitsPerFrame := by omega
      have hcount : u.bitsSent + 1 + (u.bitsLeft - 1) = bitsPerFrame * (sent.length + 1) := by omega
      refine ⟨.sending sent queue hclock busy hleft hcount (Nat.le_of_eq hticks.symm) heard, ?_⟩
      intro q hq
      cases hq
      exact hs.lt_next ht hticks
  | done queue busy count passed heard => cases hr

/-- Every bit of the message is out that ends up to now. -/
theorem bitsSent_eq (hs : Steady baud 1) (h : InStep baud message out now u wanted)
    (hnow : now.Early) (hahead : ∀ q ∈ wanted, q.time ≠ .asap → now < q.time) :
    (u.bitsSent : ℕ∞) = min ((bitsPerFrame * message.length : Nat) : ℕ∞)
      {k | 1 ≤ k ∧ grid baud 1 k ≤ now.ticks}.encard := by
  cases h with
  | waiting clock queue busy sent start heard =>
    have hzero : now.ticks = grid baud 1 0 := by
      rw [start, Clock.grid_zero]
      rfl
    have hnone := Clock.encard_passed (Nat.le_of_eq hzero.symm) (hzero ▸ hs.grid_lt 0)
    rw [sent, hnone, Nat.cast_zero]
    exact (min_eq_right zero_le).symm
  | sending sent queue clock busy left count passed heard =>
    rw [hs.encard_passed hnow passed (hahead _ List.mem_cons_self)]
    have hlength : message.length = sent.length + (u.queue.length + 1) := by
      rw [queue, List.length_append, List.length_cons]
    have hle : u.bitsSent ≤ bitsPerFrame * message.length := by
      rw [hlength, Nat.mul_add, Nat.mul_add]
      rw [Nat.mul_add] at count
      omega
    exact (min_eq_right (Nat.cast_le.mpr hle)).symm
  | done queue busy count passed heard =>
    have hle := Clock.le_encard_passed passed
    rw [count] at hle ⊢
    exact (min_eq_left hle).symm

/-- Where all that has arrived is fetched it makes up the bytes that are out. -/
theorem fetched_eq (h : InStep baud message out now u wanted) (hall : u.receiver.arrived = []) :
    out = message.take (u.bitsSent / bitsPerFrame) := by
  cases h with
  | waiting clock queue busy sent start heard =>
    have hout := heard.arrived
    rw [hall, List.append_nil] at hout
    rw [hout, sent]
    rfl
  | sending sent queue clock busy left count passed heard =>
    have hout := heard.arrived
    rw [hall, List.append_nil] at hout
    have hbits : u.bitsSent / bitsPerFrame = sent.length := by
      have hten : bitsPerFrame = 10 := rfl
      rw [hten] at left count ⊢
      omega
    rw [hout, hbits, queue, List.take_left]
  | done queue busy count passed heard =>
    have hout := heard.arrived
    rw [hall, List.append_nil] at hout
    have hten : 0 < bitsPerFrame := Nat.succ_pos 9
    rw [hout, count, Nat.mul_div_cancel_left _ hten, List.take_length]

end InStep
end Uart
end Timebase
