import Timebase.Proofs.Device.Line

/-!
# What a line makes of its data

The state of a line and what it has pending fit together at every step. As long as nothing is given
up, every byte that was handed over is out, is on the line, or waits to go out, in this order.
-/

namespace Timebase.Uart

variable {device : DeviceId} {resets : Bool} {granted : Uart → Prop} {u u' u₁ : Uart}
  {s s' : Standing (Guarded Uart)} {d : Option Demand} {ks : List Call}
  {cs : List (Change (Guarded Uart))} {answer : Option Request} {q : Request} {t : Instant}
  {wanted : List Request}

/-- A line in order with what it has pending: nothing when it is idle, and else the one wake-up it is
waiting for. -/
inductive Orderly (u : Uart) : List Request → Prop
  | idle (busy : u.busy = false) (left : u.bitsLeft = 0) (queue : u.queue = []) : Orderly u []
  | starting (busy : u.busy = true) (left : u.bitsLeft = 0) : Orderly u [⟨.asap, start⟩]
  | sending (t : Instant) (busy : u.busy = true)
      (left : 0 < u.bitsLeft ∧ u.bitsLeft ≤ bitsPerFrame) : Orderly u [⟨t, bit⟩]

/-- The byte on the line and those that wait to go out. -/
def backlog (u : Uart) : List UInt8 := (if u.bitsLeft = 0 then [] else [u.current]) ++ u.queue

/-- What arrives in a change at the far end. -/
def received (c : Change (Guarded Uart)) : List UInt8 :=
  c.after.value.receiver.arrived.drop c.before.value.receiver.arrived.length

/-- What a line gives up in a change: when it is reset, all that is not out yet. -/
def lost (c : Change (Guarded Uart)) : List UInt8 :=
  match c.demand with
  | some .reset => c.before.value.backlog
  | _ => []

theorem received_tells : Change.Tells received := fun _ _ => List.drop_length

theorem lost_tells : Change.Tells lost := fun _ _ => rfl

theorem received_send (now : Instant) (bytes : List UInt8) (u : Uart) :
    received ⟨now, .new u, .new (u.send bytes).2, d⟩ = [] := List.drop_length

theorem received_hear (now : Instant) {r : Receiver} (h : r.arrived = [] ∨ r = u.receiver) :
    received ⟨now, .new u, .new { u with receiver := r }, d⟩ = [] := by
  show r.arrived.drop u.receiver.arrived.length = []
  rcases h with h | rfl
  · rw [h, List.drop_nil]
  · exact List.drop_length

theorem nextBit_cases (h : nextBit u = .ok answer u') :
    u' = u ∧ ∃ next, u.clock.timeAfter 1 = .ok next ∧ answer = some ⟨next, bit⟩ := by
  obtain ⟨next, v, hread, hrest⟩ := Run.bind_eq_ok.mp h
  obtain ⟨hnext, rfl⟩ := Run.read_eq_ok.mp hread
  cases hrest
  exact ⟨rfl, next, hnext, rfl⟩

/-- A burst is over, or it goes on with the next byte. -/
inductive Loads (u u' : Uart) : Option Request → Prop
  | ended (queue : u.queue = []) (h : u' = { u with busy := false }) : Loads u u' none
  | byte {byte : UInt8} {rest : List UInt8} {next : Instant} (queue : u.queue = byte :: rest)
      (h : u' = { u with queue := rest, current := byte, bitsLeft := bitsPerFrame })
      (time : u.clock.timeAfter 1 = .ok next) : Loads u u' (some ⟨next, bit⟩)

theorem loads_of_nextByte (h : nextByte u = .ok answer u') : Loads u u' answer := by
  cases hq : u.queue with
  | nil =>
    rw [nextByte, Run.bind_of_ok (load_of_nil hq)] at h
    cases h
    exact .ended hq rfl
  | cons byte rest =>
    rw [nextByte, Run.bind_of_ok (load_of_cons hq), if_pos rfl] at h
    obtain ⟨rfl, next, hnext, rfl⟩ := nextBit_cases h
    exact .byte hq rfl hnext

/-- What a wake-up does to a line in order. -/
inductive Wakes (t : Instant) (u u' : Uart) (answer : Option Request) : Tag → Prop
  | start (left : u.bitsLeft = 0) (h : Loads { u with clock := u.clock.reset t } u' answer) :
      Wakes t u u' answer start
  | lastBit (left : u.bitsLeft = 1)
      (h : Loads { u.bitOut with receiver := u.receiver.deliver u.current } u' answer) :
      Wakes t u u' answer bit
  | bit {next : Instant} (left : 1 < u.bitsLeft) (h : u' = u.bitOut)
      (time : u.bitOut.clock.timeAfter 1 = .ok next) (ha : answer = some ⟨next, bit⟩) :
      Wakes t u u' answer bit

theorem Orderly.wakes {rest : List Request} (hu : Orderly u (q :: rest))
    (h : Uart.wake t q.tag u = .ok answer u') :
    u.busy = true ∧ rest = [] ∧ Wakes t u u' answer q.tag := by
  cases hu with
  | starting busy left =>
    exact ⟨busy, rfl, .start left (loads_of_nextByte (u := { u with clock := u.clock.reset t }) h)⟩
  | sending next busy left =>
    refine ⟨busy, rfl, ?_⟩
    rcases wake_bit_eq_ok (Nat.pos_iff_ne_zero.mp left.1) h with ⟨hone, h⟩ | ⟨hmore, h⟩
    · exact .lastBit hone (loads_of_nextByte h)
    · obtain ⟨rfl, next, hnext, rfl⟩ := nextBit_cases h
      exact .bit hmore rfl hnext rfl

theorem Loads.orderly (h : Loads u u' answer) (busy : u.busy = true) (left : u.bitsLeft = 0) :
    Orderly u' answer.toList := by
  cases h with
  | ended queue h =>
    subst h
    exact .idle rfl left queue
  | byte queue h time =>
    subst h
    exact .sending _ busy ⟨Nat.succ_pos 9, Nat.le_refl _⟩

theorem Wakes.orderly {tag : Tag} (h : Wakes t u u' answer tag) (busy : u.busy = true)
    (left : u.bitsLeft ≤ bitsPerFrame) : Orderly u' answer.toList := by
  cases h with
  | start zero h => exact h.orderly busy zero
  | lastBit one h => exact h.orderly busy (by simp [bitOut, one])
  | bit more h time ha =>
    subst h ha
    refine .sending _ busy ⟨?_, ?_⟩
    · exact Nat.sub_pos_of_lt more
    · exact (Nat.sub_le _ _).trans left

theorem eq_of_perm_toList (h : wanted.Perm answer.toList) : wanted = answer.toList := by
  cases answer with
  | none => exact List.perm_nil.mp h
  | some r => exact List.perm_singleton.mp h

theorem Orderly.takenBack {between wanted' : List Request} (h : Orderly u wanted)
    (hstart : Request.TakenBack start wanted between)
    (hbit : Request.TakenBack Uart.bit between wanted') : wanted' = [] := by
  refine hstart.none_left hbit ?_ ?_
  · cases h <;> simp
  · cases h <;> simp

theorem Orderly.left_le (h : Orderly u wanted) : u.bitsLeft ≤ bitsPerFrame := by
  cases h with
  | idle _ left | starting _ left => simp [left]
  | sending _ _ left => exact left.2

theorem Orderly.of_idle (h : Orderly u wanted) (idle : u.busy = false) :
    u.bitsLeft = 0 ∧ u.queue = [] := by
  cases h with
  | idle _ left queue => exact ⟨left, queue⟩
  | starting busy _ | sending _ busy _ => exact absurd (busy.symm.trans idle) Bool.noConfusion

theorem Orderly.busy_of_left (h : Orderly u wanted) (left : u.bitsLeft ≠ 0) : u.busy = true := by
  cases h with
  | idle _ zero _ => exact absurd zero left
  | starting busy _ | sending _ busy _ => exact busy

/-- A line that is in order is so after every step. -/
theorem Step.orderly (h : Step device resets granted s d ks s')
    (hs : Orderly s.state.value s.wanted) : Orderly s'.state.value s'.wanted := by
  cases h with
  | pass h => exact hs
  | @send now u wanted wanted' bytes h =>
    change Orderly u wanted at hs
    cases hs with
    | idle busy left queue =>
      rw [busy] at h
      rw [List.perm_singleton.mp h]
      exact .starting rfl left
    | starting busy left =>
      rw [busy] at h
      rw [List.perm_singleton.mp h]
      exact .starting rfl left
    | sending t busy left =>
      rw [busy] at h
      rw [List.perm_singleton.mp h]
      exact .sending t rfl left
  | @reset now u wanted between wanted' _ hstart hbit =>
    change Orderly u wanted at hs
    rw [hs.takenBack hstart hbit]
    exact .idle rfl rfl rfl
  | @hear now u wanted wanted' r _ _ hw =>
    change Orderly u wanted at hs
    subst hw
    cases hs with
    | idle busy left queue => exact .idle busy left queue
    | starting busy left => exact .starting busy left
    | sending t busy left => exact .sending t busy left
  | @wake now t u u' q rest wanted answer _ _ _ h hw _ =>
    change Orderly u (q :: rest) at hs
    obtain ⟨busy, rfl, hwakes⟩ := hs.wakes h
    have horderly := hwakes.orderly busy hs.left_le
    rw [List.append_nil] at hw
    rw [eq_of_perm_toList hw]
    exact horderly

theorem orderly_of_trail (h : Trail (Step device resets granted) s cs ks s')
    (hs : Orderly s.state.value s.wanted) : Orderly s'.state.value s'.wanted := by
  induction h with
  | here => exact hs
  | on _ step ih => exact step.orderly ih

/-- Where a line stands with what it was handed since it was idle, if it has not given anything up:
which bytes are out, and what of them has arrived. Unless nobody listens none is missing. -/
structure Conveys (base : Nat) (handed received : List UInt8) (u : Uart) (sent : List UInt8) :
    Prop where
  order : handed = sent ++ u.backlog
  bits : u.bitsSent + u.bitsLeft =
    base + bitsPerFrame * (sent.length + if u.bitsLeft = 0 then 0 else 1)
  arrived : received <+: sent
  complete : u.receiver.connected = true → received = sent

section

variable {base : Nat} {handedOver arrived sent bytes : List UInt8} {c : Change (Guarded Uart)}

theorem backlog_of_none (h : u.bitsLeft = 0) : u.backlog = u.queue := by simp [backlog, h]

theorem backlog_of_some (h : u.bitsLeft ≠ 0) : u.backlog = u.current :: u.queue := by
  simp [backlog, h]

theorem backlog_send (bytes : List UInt8) (u : Uart) :
    (u.send bytes).2.backlog = u.backlog ++ bytes :=
  (List.append_assoc _ _ _).symm

namespace Loads

theorem receiver (h : Loads u u' answer) : u'.receiver = u.receiver := by
  cases h with
  | ended _ h | byte _ h _ => rw [h]

theorem bitsSent (h : Loads u u' answer) : u'.bitsSent = u.bitsSent := by
  cases h with
  | ended _ h | byte _ h _ => rw [h]

theorem backlog (h : Loads u u' answer) (left : u.bitsLeft = 0) : u'.backlog = u.backlog := by
  rw [backlog_of_none left]
  cases h with
  | ended queue h =>
    subst h
    exact backlog_of_none left
  | byte queue h time =>
    subst h
    rw [queue]
    exact backlog_of_some (Nat.succ_ne_zero 9)

theorem conveys (h : Loads u u' answer) (left : u.bitsLeft = 0)
    (hu : Conveys base handedOver arrived u sent) : Conveys base handedOver arrived u' sent := by
  have hbits := hu.bits
  rw [left] at hbits
  refine ⟨by rw [h.backlog left, ← hu.order], ?_, hu.arrived, by rw [h.receiver]; exact hu.complete⟩
  cases h with
  | ended queue h =>
    subst h
    simpa [left] using hbits
  | byte queue h time =>
    subst h
    simp only [Nat.add_zero, if_true] at hbits
    simp [hbits, bitsPerFrame, Nat.mul_add, Nat.add_assoc]

end Loads

theorem drop_deliver (byte : UInt8) (r : Receiver) :
    (r.deliver byte).arrived.drop r.arrived.length = if r.connected then [byte] else [] := by
  rw [Receiver.deliver]
  split <;> simp

theorem connected_deliver (byte : UInt8) (r : Receiver) :
    (r.deliver byte).connected = r.connected := by
  rw [Receiver.deliver]
  split <;> simp

namespace Conveys

theorem send (h : Conveys base handedOver arrived u sent) (bytes : List UInt8) :
    Conveys base (handedOver ++ bytes) arrived (u.send bytes).2 sent where
  order := by rw [backlog_send, h.order, List.append_assoc]
  bits := h.bits
  arrived := h.arrived
  complete := h.complete

theorem reset (h : Conveys base handedOver arrived u sent) (hnone : u.backlog = []) :
    Conveys base handedOver arrived u.reset sent := by
  have left : u.bitsLeft = 0 := by
    by_contra hne
    rw [backlog_of_some hne] at hnone
    cases hnone
  have hbits := h.bits
  have horder := h.order
  rw [left] at hbits
  rw [hnone] at horder
  exact ⟨horder, hbits, h.arrived, h.complete⟩

theorem hear {r : Receiver} (h : Conveys base handedOver arrived u sent)
    (hr : r.connected = true → u.receiver.connected = true) :
    Conveys base handedOver arrived { u with receiver := r } sent :=
  ⟨h.order, h.bits, h.arrived, fun hc => h.complete (hr hc)⟩

theorem bit (h : Conveys base handedOver arrived u sent) (more : 1 < u.bitsLeft) :
    Conveys base handedOver arrived u.bitOut sent := by
  have hleft : u.bitsLeft ≠ 0 := by omega
  have hless : u.bitOut.bitsLeft ≠ 0 := Nat.sub_ne_zero_of_lt more
  have hbits := h.bits
  rw [if_neg hleft] at hbits
  refine ⟨?_, ?_, h.arrived, h.complete⟩
  · rw [h.order, backlog_of_some hleft, backlog_of_some hless]
    rfl
  · rw [if_neg hless]
    show u.bitsSent + 1 + (u.bitsLeft - 1) = _
    omega

theorem lastBit (h : Conveys base handedOver arrived u sent) (last : u.bitsLeft = 1) :
    Conveys base handedOver
      (arrived ++ (u.receiver.deliver u.current).arrived.drop u.receiver.arrived.length)
      { u.bitOut with receiver := u.receiver.deliver u.current } (sent ++ [u.current]) := by
  have hleft : u.bitsLeft ≠ 0 := by omega
  have hzero : u.bitOut.bitsLeft = 0 := by simp [bitOut, last]
  have hbits := h.bits
  rw [if_neg hleft] at hbits
  rw [drop_deliver]
  refine ⟨?_, ?_, ?_, ?_⟩
  · rw [h.order, backlog_of_some hleft, backlog_of_none (by exact hzero), List.append_assoc]
    rfl
  · rw [if_pos hzero, List.length_append, List.length_singleton, Nat.add_zero, ← hbits]
    show u.bitsSent + 1 + (u.bitsLeft - 1) = _
    omega
  · split
    · rename_i hc
      rw [h.complete hc]
    · rw [List.append_nil]
      exact h.arrived.trans (List.prefix_append _ _)
  · intro hc
    rw [show _ = _ from connected_deliver u.current u.receiver] at hc
    rw [if_pos hc, h.complete hc]

theorem of_idle (h : Conveys base handedOver arrived u sent) (hu : Orderly u wanted)
    (idle : u.busy = false) :
    handedOver = sent ∧ u.bitsSent = base + bitsPerFrame * sent.length := by
  obtain ⟨left, queue⟩ := hu.of_idle idle
  have horder := h.order
  have hbits := h.bits
  rw [backlog_of_none left, queue, List.append_nil] at horder
  rw [left] at hbits
  exact ⟨horder, hbits⟩

theorem step (h : Conveys base handedOver arrived s.state.value sent)
    (hs : Orderly s.state.value s.wanted) (hstep : Step device resets granted s d ks s')
    (hlost : lost ⟨s'.now, s.state, s'.state, d⟩ = []) :
    ∃ sent', Conveys base (handedOver ++ Demand.data d)
      (arrived ++ received ⟨s'.now, s.state, s'.state, d⟩) s'.state.value sent' := by
  cases hstep with
  | pass _ => exact ⟨sent, by simpa [received] using h⟩
  | @send now u wanted wanted' bytes _ =>
    rw [received_send, List.append_nil]
    exact ⟨sent, h.send bytes⟩
  | @reset now u wanted between wanted' _ _ _ =>
    have hnone : u.backlog = [] := hlost
    have hr : received ⟨now, .new u, .new u.reset, some .reset⟩ = [] := List.drop_length
    rw [hr, Demand.data_reset, List.append_nil, List.append_nil]
    exact ⟨sent, h.reset hnone⟩
  | @hear now u wanted wanted' r hc hr _ =>
    rw [received_hear now hr, Demand.data_none, List.append_nil, List.append_nil]
    exact ⟨sent, h.hear hc⟩
  | @wake now t u u' q rest wanted answer _ _ _ hwake _ _ =>
    change Orderly u (q :: rest) at hs
    change Conveys base handedOver arrived u sent at h
    show ∃ sent', Conveys base (_ ++ [])
      (_ ++ u'.receiver.arrived.drop u.receiver.arrived.length) u' sent'
    rw [List.append_nil]
    obtain ⟨-, -, hwakes⟩ := hs.wakes hwake
    generalize q.tag = tag at hwakes
    cases hwakes with
    | start left hloads =>
      rw [hloads.receiver, List.drop_length, List.append_nil]
      exact ⟨sent, hloads.conveys left ⟨h.order, h.bits, h.arrived, h.complete⟩⟩
    | lastBit last hloads =>
      have hzero : u.bitOut.bitsLeft = 0 := by simp [bitOut, last]
      rw [hloads.receiver]
      exact ⟨_, hloads.conveys hzero (h.lastBit last)⟩
    | bit more h' _ _ =>
      subst h'
      have hr : u.bitOut.receiver.arrived.drop u.receiver.arrived.length = [] := List.drop_length
      rw [hr, List.append_nil]
      exact ⟨sent, h.bit more⟩

end Conveys

/-- What an idle line was handed since is out, on the line or waiting, unless some was given up. -/
theorem conveys_of_trail (h : Trail (Step device resets granted) s cs ks s')
    (hs : Orderly s.state.value s.wanted) (hidle : s.state.value.busy = false)
    (hlost : cs.flatMap lost = []) :
    ∃ sent, Conveys s.state.value.bitsSent (cs.flatMap Change.input) (cs.flatMap received)
      s'.state.value sent := by
  induction h with
  | here =>
    obtain ⟨left, queue⟩ := hs.of_idle hidle
    exact ⟨[], by simp [backlog, left, queue], by simp [left], List.prefix_refl _, fun _ => rfl⟩
  | on h step ih =>
    rw [List.flatMap_append, List.append_eq_nil_iff, List.flatMap_singleton] at hlost
    obtain ⟨sent, hsent⟩ := ih hlost.1
    simp only [List.flatMap_append, List.flatMap_singleton]
    exact hsent.step (orderly_of_trail h hs) step hlost.2

/-- A line that has nothing to send. -/
structure Silent (base : Nat) (u : Uart) : Prop where
  left : u.bitsLeft = 0
  queue : u.queue = []
  bits : u.bitsSent = base

theorem Silent.step (h : Silent base s.state.value) (hs : Orderly s.state.value s.wanted)
    (hstep : Step device resets granted s d ks s') (hnone : Demand.data d = []) :
    Silent base s'.state.value ∧ received ⟨s'.now, s.state, s'.state, d⟩ = [] := by
  cases hstep with
  | pass _ => exact ⟨h, received_tells _ _⟩
  | @send now u wanted wanted' bytes _ =>
    obtain rfl : bytes = [] := hnone
    exact ⟨⟨h.left, (List.append_nil _).trans h.queue, h.bits⟩, received_send now [] u⟩
  | reset _ _ _ => exact ⟨⟨rfl, rfl, h.bits⟩, List.drop_length⟩
  | @hear now u wanted wanted' r _ hr _ =>
    exact ⟨⟨h.left, h.queue, h.bits⟩, received_hear now hr⟩
  | @wake now t u u' q rest wanted answer _ _ _ hwake _ _ =>
    change Orderly u (q :: rest) at hs
    change Silent base u at h
    show Silent base u' ∧ u'.receiver.arrived.drop u.receiver.arrived.length = []
    obtain ⟨-, -, hwakes⟩ := hs.wakes hwake
    generalize q.tag = tag at hwakes
    cases hwakes with
    | start left hloads =>
      rw [hloads.receiver]
      cases hloads with
      | ended _ h' =>
        subst h'
        exact ⟨⟨h.left, h.queue, h.bits⟩, List.drop_length⟩
      | byte queue _ _ =>
        have hq : u.queue = _ := queue
        rw [h.queue] at hq
        cases hq
    | lastBit last _ => exact absurd (h.left.symm.trans last) Nat.zero_ne_one
    | bit more _ _ _ => exact absurd (h.left ▸ more) (Nat.not_lt_zero 1)

/-- Nothing comes of nothing. -/
theorem silent_of_trail (h : Trail (Step device resets granted) s cs ks s')
    (hs : Orderly s.state.value s.wanted) (hidle : s.state.value.busy = false)
    (hnone : cs.flatMap Change.input = []) :
    Silent s.state.value.bitsSent s'.state.value ∧ cs.flatMap received = [] := by
  induction h with
  | here =>
    obtain ⟨left, queue⟩ := hs.of_idle hidle
    exact ⟨⟨left, queue, rfl⟩, rfl⟩
  | on h step ih =>
    rw [List.flatMap_append, List.append_eq_nil_iff, List.flatMap_singleton] at hnone
    obtain ⟨hsilent, hreceived⟩ := ih hnone.1
    obtain ⟨hnext, hnew⟩ := hsilent.step (orderly_of_trail h hs) step hnone.2
    exact ⟨hnext, by simp [hreceived, hnew]⟩

end

end Timebase.Uart
