import Timebase.Proofs.Device.LineTiming

/-!
# Bursts

A line sends its data in bursts. The bits of a burst end on the ticks of a clock that begins when the
burst is started, and data that is handed over while the burst lasts goes out with it.
-/

namespace Timebase.Uart

variable {device : DeviceId} {granted : Uart → Prop} {u u' u₁ : Uart} {baud : Nat}
  {s s' : Standing (Guarded Uart)} {d : Option Demand} {ks : List Call}
  {cs : List (Change (Guarded Uart))}
  {answer : Option Request} {q : Request} {now t : Instant} {wanted : List Request}

/-- What goes out without a gap from a start on, and how many bits of it are out. -/
structure Burst where
  start : Instant
  bytes : List UInt8
  bits : Nat

namespace Burst

/-- The end of a bit of the burst. -/
def bitEnd (baud : Nat) (b : Burst) (k : Nat) : Instant :=
  .wrap (b.start.ticks + Clock.grid baud 1 k)

/-- The ends of the bits that are out. -/
def bitEnds (baud : Nat) (b : Burst) : List Instant :=
  (List.range b.bits).map fun k => b.bitEnd baud (k + 1)

/-- The wake-ups so far: one to start the burst, and one at the end of each bit. -/
def calls (device : DeviceId) (baud : Nat) (b : Burst) : List Call :=
  ⟨device, b.start, Uart.start⟩ :: (b.bitEnds baud).map fun t => ⟨device, t, bit⟩

/-- The bytes that are out. -/
def out (b : Burst) : List UInt8 := b.bytes.take (b.bits / bitsPerFrame)

/-- The bytes that are out, each with the end of its last bit. -/
def arrivals (baud : Nat) (b : Burst) : List (Instant × UInt8) :=
  b.out.mapIdx fun j byte => (b.bitEnd baud (bitsPerFrame * (j + 1)), byte)

/-- All of the burst is out. -/
def Whole (b : Burst) : Prop := b.bits = bitsPerFrame * b.bytes.length

/-- A byte of the burst is on the line, after others that are out. -/
structure Runs (baud : Nat) (b : Burst) (u : Uart) (sent : List UInt8) : Prop where
  clock : u.clock = ⟨b.start, b.bits, baud, 1⟩
  left : 0 < u.bitsLeft ∧ u.bitsLeft ≤ bitsPerFrame
  bytes : b.bytes = sent ++ u.current :: u.queue
  bits : b.bits + u.bitsLeft = bitsPerFrame * (sent.length + 1)

theorem Whole.out_eq {b : Burst} (h : b.Whole) : b.out = b.bytes := by
  have hten : 0 < bitsPerFrame := Nat.succ_pos 9
  rw [out, h, Nat.mul_div_cancel_left _ hten, List.take_length]

theorem Runs.out_eq {b : Burst} {sent : List UInt8} (h : b.Runs baud u sent) : b.out = sent := by
  have hbits := h.bits
  have hleft := h.left
  have hten : bitsPerFrame = 10 := rfl
  rw [hten] at hbits hleft
  have hdiv : b.bits / bitsPerFrame = sent.length := by
    rw [hten]
    omega
  rw [out, hdiv, h.bytes, List.take_left]

theorem bitEnds_succ (b : Burst) :
    ({ b with bits := b.bits + 1 } : Burst).bitEnds baud =
      b.bitEnds baud ++ [b.bitEnd baud (b.bits + 1)] := by
  simp [bitEnds, List.range_succ, bitEnd]

theorem calls_succ (b : Burst) :
    ({ b with bits := b.bits + 1 } : Burst).calls device baud =
      b.calls device baud ++ [⟨device, b.bitEnd baud (b.bits + 1), bit⟩] := by
  simp [calls, bitEnds_succ]

end Burst

/-- When a bit goes out. -/
def counted (c : Change (Guarded Uart)) : List Instant :=
  if c.after.value.bitsSent = c.before.value.bitsSent then [] else [c.time]

/-- What arrives at the far end, and when. -/
def deliveries (c : Change (Guarded Uart)) : List (Instant × UInt8) :=
  (received c).map fun byte => (c.time, byte)

theorem counted_tells : Change.Tells counted := fun _ _ => if_pos rfl

theorem deliveries_tells : Change.Tells deliveries := by
  intro t g
  rw [deliveries, received_tells]
  rfl

/-- Every burst is over, or the last one is not. -/
inductive Stage (baud : Nat) (u : Uart) : List Burst → Prop
  | resting {bursts : List Burst} (left : u.bitsLeft = 0) (whole : ∀ b ∈ bursts, b.Whole) :
      Stage baud u bursts
  | running {bursts : List Burst} {b : Burst} {sent : List UInt8} (whole : ∀ b ∈ bursts, b.Whole)
      (runs : b.Runs baud u sent) : Stage baud u (bursts ++ [b])

theorem Stage.of_left {bursts : List Burst} (h : Stage baud u bursts) (left : u.bitsLeft ≠ 0) :
    ∃ done b sent, bursts = done ++ [b] ∧ (∀ b ∈ done, b.Whole) ∧ b.Runs baud u sent := by
  cases h with
  | resting zero _ => exact absurd zero left
  | running whole runs => exact ⟨_, _, _, rfl, whole, runs⟩

/-- A burst as it goes on: its start stands, and bytes and bits only come in addition. -/
structure Burst.Grows (b b' : Burst) : Prop where
  start : b'.start = b.start
  bytes : b.bytes <+: b'.bytes
  bits : b.bits ≤ b'.bits

theorem Burst.Grows.refl (b : Burst) : b.Grows b := ⟨rfl, List.prefix_refl _, Nat.le_refl _⟩

theorem Burst.grows_bit (b : Burst) : b.Grows { b with bits := b.bits + 1 } :=
  ⟨rfl, List.prefix_refl _, Nat.le_succ _⟩

theorem Burst.Grows.trans {a b c : Burst} (h : a.Grows b) (h' : b.Grows c) : a.Grows c :=
  ⟨h'.start.trans h.start, h.bytes.trans h'.bytes, h.bits.trans h'.bits⟩

/-- What waited for a burst waits still, or is the first to go out with the next one. -/
def Awaits (queue : List UInt8) (u : Uart) : List Burst → Prop
  | [] => u.bitsLeft = 0 ∧ queue <+: u.queue
  | b :: _ => queue <+: b.bytes

/-- The bursts of a line as it goes on: what it has been handed stays with the burst that was under
way then, or that was started next. -/
def Prolongs (u : Uart) (bursts : List Burst) (u' : Uart) (bursts' : List Burst) : Prop :=
  ∃ old more, bursts' = old ++ more ∧ List.Forall₂ Burst.Grows bursts old ∧
    (u.bitsLeft = 0 → Awaits u.queue u' more)

namespace Prolongs

variable {bs bs₁ bs₂ done : List Burst} {b b' : Burst}

theorem grows_refl (bs : List Burst) : List.Forall₂ Burst.Grows bs bs :=
  List.forall₂_same.mpr fun b _ => .refl b

theorem stay (bs : List Burst) (left : u'.bitsLeft = u.bitsLeft) (queue : u.queue <+: u'.queue) :
    Prolongs u bs u' bs :=
  ⟨bs, [], (List.append_nil _).symm, grows_refl bs, fun hzero => ⟨left.trans hzero, queue⟩⟩

theorem last (left : u.bitsLeft ≠ 0) (h : b.Grows b') : Prolongs u (done ++ [b]) u' (done ++ [b']) :=
  ⟨done ++ [b'], [], (List.append_nil _).symm,
    List.rel_append (grows_refl done) (.cons h .nil), fun hzero => absurd hzero left⟩

theorem next (bs : List Burst) (t : Instant) : Prolongs u bs u' (bs ++ [⟨t, u.queue, 0⟩]) :=
  ⟨bs, _, rfl, grows_refl bs, fun _ => List.prefix_refl _⟩

theorem grows_trans (h : List.Forall₂ Burst.Grows bs bs₁) (h' : List.Forall₂ Burst.Grows bs₁ bs₂) :
    List.Forall₂ Burst.Grows bs bs₂ := by
  induction h generalizing bs₂ with
  | nil => exact h'
  | cons hb _ ih =>
    cases h' with
    | cons hb' hrest => exact .cons (hb.trans hb') (ih hrest)

theorem trans (h : Prolongs u bs u₁ bs₁) (h' : Prolongs u₁ bs₁ u' bs₂) : Prolongs u bs u' bs₂ := by
  obtain ⟨old, more, rfl, hold, hwaits⟩ := h
  obtain ⟨both, later, rfl, hboth, hwaits'⟩ := h'
  have hfirst := List.forall₂_take old.length hboth
  have hrest := List.forall₂_drop old.length hboth
  rw [List.take_left] at hfirst
  rw [List.drop_left] at hrest
  refine ⟨both.take old.length, both.drop old.length ++ later, ?_, grows_trans hold hfirst, ?_⟩
  · rw [← List.append_assoc, List.take_append_drop]
  · intro left
    have hqueue := hwaits left
    generalize both.drop old.length = grown at hrest
    cases hrest with
    | nil =>
      obtain ⟨left₁, hle⟩ := hqueue
      have hnext := hwaits' left₁
      cases later with
      | nil => exact ⟨hnext.1, hle.trans hnext.2⟩
      | cons b later => exact hle.trans hnext
    | cons hb _ => exact hqueue.trans hb.bytes

end Prolongs

/-- What a line was handed goes out in bursts, and each bit of theirs at its time. -/
structure Sends (baud : Nat) (cs : List (Change (Guarded Uart))) (u : Uart) (bursts : List Burst) :
    Prop where
  stage : Stage baud u bursts
  bits : u.bitsSent = (bursts.map Burst.bits).sum
  handed : cs.flatMap Change.input =
    bursts.flatMap Burst.bytes ++ if u.bitsLeft = 0 then u.queue else []
  counted : cs.flatMap counted = bursts.flatMap (Burst.bitEnds baud)
  received : cs.flatMap received <+: bursts.flatMap Burst.out
  deliveries : u.receiver.connected = true →
    cs.flatMap deliveries = bursts.flatMap (Burst.arrivals baud)
  inRange : ∀ b ∈ bursts, b.bits ≠ 0 →
    b.start.ticks + Clock.grid baud 1 b.bits < UInt64.size - 1

namespace Sends

variable {bursts : List Burst} {c : Change (Guarded Uart)}

theorem of_alike {cs' : List (Change (Guarded Uart))} (h : Sends baud cs u bursts)
    (hcs : Change.Alike cs' cs) : Sends baud cs' u bursts where
  stage := h.stage
  bits := h.bits
  handed := (hcs _ _ Change.input_tells).trans h.handed
  counted := (hcs _ _ counted_tells).trans h.counted
  received := hcs _ _ received_tells ▸ h.received
  deliveries hc := (hcs _ _ deliveries_tells).trans (h.deliveries hc)
  inRange := h.inRange

theorem out_of_whole {bs : List Burst} (h : ∀ b ∈ bs, b.Whole) :
    bs.flatMap Burst.out = bs.flatMap Burst.bytes :=
  List.flatMap_congr fun b hb => (h b hb).out_eq

theorem bits_of_whole {bs : List Burst} (h : ∀ b ∈ bs, b.Whole) :
    (bs.map Burst.bits).sum = bitsPerFrame * (bs.flatMap Burst.out).length := by
  rw [out_of_whole h]
  induction bs with
  | nil => rfl
  | cons b bs ih =>
    obtain ⟨hb, hbs⟩ := List.forall_mem_cons.mp h
    have hb : b.bits = bitsPerFrame * b.bytes.length := hb
    simp [ih hbs, hb, Nat.mul_add]

theorem out_prefix (h : Sends baud cs u bursts) :
    bursts.flatMap Burst.out <+: cs.flatMap Change.input := by
  rw [h.handed]
  cases h.stage with
  | resting left whole =>
    rw [out_of_whole whole]
    exact List.prefix_append _ _
  | running whole runs => simp [out_of_whole whole, runs.out_eq, runs.bytes]

theorem length_out (h : Sends baud cs u bursts) :
    (bursts.flatMap Burst.out).length = u.bitsSent / bitsPerFrame := by
  have hten : bitsPerFrame = 10 := rfl
  rw [h.bits]
  cases h.stage with
  | resting left whole =>
    rw [bits_of_whole whole, hten, Nat.mul_div_cancel_left _ (Nat.succ_pos 9)]
  | running whole runs =>
    have hbits := runs.bits
    have hleft := runs.left
    simp only [List.map_append, List.map_singleton, List.sum_append, List.sum_singleton,
      bits_of_whole whole, List.flatMap_append, List.flatMap_singleton, List.length_append,
      runs.out_eq]
    rw [hten] at hbits hleft ⊢
    omega

theorem of_idle (h : Sends baud cs u bursts) (hu : Orderly u wanted) (idle : u.busy = false) :
    bursts.flatMap Burst.out = cs.flatMap Change.input := by
  obtain ⟨left, queue⟩ := hu.of_idle idle
  rw [h.handed, left, queue]
  cases h.stage with
  | resting _ whole => simp [out_of_whole whole]
  | running _ runs => exact absurd left (Nat.pos_iff_ne_zero.mp runs.left.1)

theorem snd_deliveries (cs : List (Change (Guarded Uart))) :
    (cs.flatMap Uart.deliveries).map Prod.snd = cs.flatMap Uart.received := by
  induction cs with
  | nil => rfl
  | cons c cs ih => simp [ih, Uart.deliveries, Function.comp_def]

theorem received_eq (h : Sends baud cs u bursts) (hc : u.receiver.connected = true) :
    cs.flatMap Uart.received = bursts.flatMap Burst.out := by
  rw [← snd_deliveries, h.deliveries hc, List.map_flatMap]
  apply List.flatMap_congr
  intro b _
  rw [Burst.arrivals]
  apply List.ext_getElem <;> simp

theorem idly (h : Sends baud cs u bursts) (hh : c.input = []) (hc : Uart.counted c = [])
    (hr : Uart.received c = []) (r : Receiver)
    (hconnected : r.connected = true → u.receiver.connected = true) :
    Sends baud (cs ++ [c]) { u with receiver := r } bursts where
  stage := by
    cases h.stage with
    | resting left whole => exact .resting left whole
    | running whole runs => exact .running whole ⟨runs.clock, runs.left, runs.bytes, runs.bits⟩
  bits := h.bits
  handed := by simpa [hh] using h.handed
  counted := by simpa [hc] using h.counted
  received := by simpa [hr] using h.received
  deliveries hc := by simpa [Uart.deliveries, hr] using h.deliveries (hconnected hc)
  inRange := h.inRange

theorem send (h : Sends baud cs u bursts) (device : DeviceId) (bytes : List UInt8)
    (hh : c.input = bytes) (hc : Uart.counted c = []) (hr : Uart.received c = []) :
    ∃ bursts', Sends baud (cs ++ [c]) (u.send bytes).2 bursts' ∧
      bursts'.flatMap (Burst.calls device baud) = bursts.flatMap (Burst.calls device baud) ∧
      Prolongs u bursts (u.send bytes).2 bursts' := by
  have hhanded := h.handed
  have hcounted := h.counted
  have hreceived := h.received
  have hdeliveries := h.deliveries
  have hbits := h.bits
  have hrange := h.inRange
  cases h.stage with
  | resting left whole =>
    refine ⟨bursts, ⟨.resting left whole, hbits, ?_, ?_, ?_, ?_, hrange⟩, rfl,
      .stay bursts rfl (List.prefix_append _ _)⟩
    · simp [hh, hhanded, left, Uart.send]
    · simpa [hc] using hcounted
    · simpa [hr] using hreceived
    · intro hconnected
      simpa [Uart.deliveries, hr] using hdeliveries hconnected
  | @running done b sent whole runs =>
    let b' : Burst := { b with bytes := b.bytes ++ bytes }
    have hne : u.bitsLeft ≠ 0 := Nat.pos_iff_ne_zero.mp runs.left.1
    have hruns : b'.Runs baud (u.send bytes).2 sent :=
      ⟨runs.clock, runs.left, by simp [b', runs.bytes, Uart.send], runs.bits⟩
    have hout : b'.out = b.out := hruns.out_eq.trans runs.out_eq.symm
    have harrivals : b'.arrivals baud = b.arrivals baud := by
      rw [Burst.arrivals, hout]
      rfl
    have hgrows : b.Grows b' := ⟨rfl, List.prefix_append _ _, Nat.le_refl _⟩
    refine ⟨done ++ [b'], ⟨.running whole hruns, ?_, ?_, ?_, ?_, ?_, ?_⟩, ?_, .last hne hgrows⟩
    · show u.bitsSent = _
      simpa [b'] using hbits
    · have hsame : (u.send bytes).2.bitsLeft ≠ 0 := hne
      simp [hh, hhanded, hne, hsame, b']
    · have hends : b'.bitEnds baud = b.bitEnds baud := rfl
      simpa [hc, hends] using hcounted
    · simpa [hr, hout] using hreceived
    · intro hconnected
      simpa [Uart.deliveries, hr, harrivals] using hdeliveries hconnected
    · obtain ⟨hdone, hb⟩ := List.forall_mem_append.mp hrange
      exact List.forall_mem_append.mpr ⟨hdone, List.forall_mem_singleton.mpr
        (List.forall_mem_singleton.mp hb)⟩
    · have hcalls : b'.calls device baud = b.calls device baud := rfl
      simp [hcalls]

/-- A burst is over, or the next byte is put on the line. -/
theorem loads {b : Burst} {done : List Burst} {sent : List UInt8} (h : Loads u u' answer)
    (left : u.bitsLeft = 0) (whole : ∀ b ∈ done, b.Whole)
    (hclock : u.clock = ⟨b.start, b.bits, baud, 1⟩) (hbytes : b.bytes = sent ++ u.queue)
    (hbits : b.bits = bitsPerFrame * sent.length) :
    Stage baud u' (done ++ [b]) ∧ (u'.bitsLeft = 0 → u'.queue = []) := by
  cases h with
  | ended queue h =>
    subst h
    have hb : b.Whole := by
      rw [queue, List.append_nil] at hbytes
      rw [Burst.Whole, hbytes, hbits]
    refine ⟨.resting left ?_, fun _ => queue⟩
    exact List.forall_mem_append.mpr ⟨whole, List.forall_mem_singleton.mpr hb⟩
  | byte queue h time =>
    subst h
    rw [queue] at hbytes
    refine ⟨.running whole ⟨hclock, ⟨Nat.succ_pos 9, Nat.le_refl _⟩, hbytes, ?_⟩,
      fun hzero => absurd hzero (Nat.succ_ne_zero 9)⟩
    rw [hbits, Nat.mul_succ]

theorem start (h : Sends baud cs u bursts) (hrate : u.clock.num = baud ∧ u.clock.den = 1)
    (left : u.bitsLeft = 0) (hloads : Loads { u with clock := u.clock.reset t } u' answer)
    (hh : c.input = []) (hc : Uart.counted c = []) (hr : Uart.received c = []) :
    Sends baud (cs ++ [c]) u' (bursts ++ [⟨t, u.queue, 0⟩]) := by
  have whole : ∀ b ∈ bursts, b.Whole := by
    cases h.stage with
    | resting _ whole => exact whole
    | running _ runs => exact absurd left (Nat.pos_iff_ne_zero.mp runs.left.1)
  have hclock : u.clock.reset t = ⟨t, 0, baud, 1⟩ := by rw [Clock.reset, hrate.1, hrate.2]
  obtain ⟨stage, hqueue⟩ := loads (b := ⟨t, u.queue, 0⟩) hloads left whole hclock
    (List.nil_append u.queue).symm rfl
  have hrest : (if u'.bitsLeft = 0 then u'.queue else []) = [] := by
    split
    · exact hqueue ‹_›
    · rfl
  refine ⟨stage, ?_, ?_, ?_, ?_, ?_, ?_⟩
  · simpa [hloads.bitsSent] using h.bits
  · simp [hh, h.handed, left, hrest]
  · simpa [hc, Burst.bitEnds] using h.counted
  · simpa [hr, Burst.out] using h.received
  · intro hconnected
    rw [hloads.receiver] at hconnected
    simpa [Uart.deliveries, hr, Burst.arrivals, Burst.out] using h.deliveries hconnected
  · exact List.forall_mem_append.mpr ⟨h.inRange, List.forall_mem_singleton.mpr fun hne =>
      absurd rfl hne⟩

theorem bitOut {done : List Burst} {b : Burst} {fresh : List UInt8}
    (h : Sends baud cs u (done ++ [b])) (left : u.bitsLeft ≠ 0)
    (stage : Stage baud u' (done ++ [{ b with bits := b.bits + 1 }]))
    (hqueue : u'.bitsLeft = 0 → u'.queue = []) (hsent : u'.bitsSent = u.bitsSent + 1)
    (hconnected : u'.receiver.connected = u.receiver.connected)
    (hout : ({ b with bits := b.bits + 1 } : Burst).out = b.out ++ fresh)
    (harrivals : ({ b with bits := b.bits + 1 } : Burst).arrivals baud =
      b.arrivals baud ++ fresh.map fun byte => (b.bitEnd baud (b.bits + 1), byte))
    (hh : c.input = []) (hc : Uart.counted c = [b.bitEnd baud (b.bits + 1)])
    (hr : Uart.received c = if u.receiver.connected then fresh else [])
    (htime : c.time = b.bitEnd baud (b.bits + 1))
    (hrange : b.start.ticks + Clock.grid baud 1 (b.bits + 1) < UInt64.size - 1) :
    Sends baud (cs ++ [c]) u' (done ++ [{ b with bits := b.bits + 1 }]) := by
  have hrest : (if u'.bitsLeft = 0 then u'.queue else []) = [] := by
    split
    · exact hqueue ‹_›
    · rfl
  refine ⟨stage, ?_, ?_, ?_, ?_, ?_, ?_⟩
  · have hbits := h.bits
    simp only [List.map_append, List.map_singleton, List.sum_append, List.sum_singleton] at hbits ⊢
    omega
  · simpa [hh, left, hrest] using h.handed
  · simp [hc, h.counted, Burst.bitEnds_succ]
  · cases hlistens : u.receiver.connected with
    | true =>
      have hall := h.received_eq hlistens
      simp [hr, hlistens, hall, hout]
    | false =>
      have hold := h.received
      simp only [List.flatMap_append, List.flatMap_singleton, hr, hlistens, hout] at hold ⊢
      rw [← List.append_assoc]
      simpa using hold.trans (List.prefix_append _ _)
  · intro hlistens
    rw [hconnected] at hlistens
    simp [h.deliveries hlistens, Uart.deliveries, hr, hlistens, htime, harrivals]
  · obtain ⟨hdone, -⟩ := List.forall_mem_append.mp h.inRange
    exact List.forall_mem_append.mpr ⟨hdone, List.forall_mem_singleton.mpr fun _ => hrange⟩

theorem lastBit {done : List Burst} {b : Burst} {sent : List UInt8}
    (h : Sends baud cs u (done ++ [b])) (whole : ∀ b ∈ done, b.Whole) (runs : b.Runs baud u sent)
    (last : u.bitsLeft = 1) (hlt : u.bitEnd < UInt64.size - 1)
    (hloads : Loads { u.bitOut with receiver := u.receiver.deliver u.current } u' answer) :
    Sends baud (cs ++ [⟨.wrap u.bitEnd, .new u, .new u', none⟩]) u'
      (done ++ [{ b with bits := b.bits + 1 }]) := by
  have hbits : b.bits + 1 = bitsPerFrame * (sent.length + 1) := last ▸ runs.bits
  have hend : (.wrap u.bitEnd : Instant) = b.bitEnd baud (b.bits + 1) := by
    rw [Uart.bitEnd, runs.clock]
    rfl
  have hrange : b.start.ticks + Clock.grid baud 1 (b.bits + 1) < UInt64.size - 1 := by
    rw [Uart.bitEnd, runs.clock] at hlt
    exact hlt
  have hzero : u.bitOut.bitsLeft = 0 := by simp [Uart.bitOut, last]
  have hbytes : b.bytes = (sent ++ [u.current]) ++ u.queue := by simp [runs.bytes]
  have hclock : u.bitOut.clock = ⟨b.start, b.bits + 1, baud, 1⟩ := by rw [Uart.bitOut, runs.clock]
  obtain ⟨stage, hqueue⟩ := loads (b := { b with bits := b.bits + 1 }) hloads hzero whole hclock
    hbytes (by simpa using hbits)
  have hout : ({ b with bits := b.bits + 1 } : Burst).out = b.out ++ [u.current] := by
    rw [runs.out_eq, Burst.out]
    show b.bytes.take ((b.bits + 1) / bitsPerFrame) = _
    have hten : 0 < bitsPerFrame := Nat.succ_pos 9
    rw [hbits, Nat.mul_div_cancel_left _ hten, hbytes, List.take_left' (by simp)]
  have hne : u.bitsLeft ≠ 0 := by omega
  have hreceived : Uart.received ⟨.wrap u.bitEnd, .new u, .new u', none⟩ =
      if u.receiver.connected then [u.current] else [] := by
    show u'.receiver.arrived.drop u.receiver.arrived.length = _
    rw [hloads.receiver]
    exact drop_deliver _ _
  have hcounted : Uart.counted ⟨.wrap u.bitEnd, .new u, .new u', none⟩ = [.wrap u.bitEnd] := by
    refine if_neg fun hsame => ?_
    have hsame : u'.bitsSent = u.bitsSent := hsame
    rw [hloads.bitsSent] at hsame
    exact Nat.succ_ne_self _ hsame
  refine h.bitOut hne stage hqueue hloads.bitsSent ?_ hout ?_ rfl
    (hend ▸ hcounted) hreceived hend hrange
  · rw [hloads.receiver]
    exact connected_deliver _ _
  · rw [Burst.arrivals, hout, List.mapIdx_concat, runs.out_eq]
    simp only [List.map_singleton, ← hbits]
    rw [Burst.arrivals, runs.out_eq]
    rfl

theorem innerBit {done : List Burst} {b : Burst} {sent : List UInt8}
    (h : Sends baud cs u (done ++ [b])) (whole : ∀ b ∈ done, b.Whole) (runs : b.Runs baud u sent)
    (more : 1 < u.bitsLeft) (hlt : u.bitEnd < UInt64.size - 1) :
    Sends baud (cs ++ [⟨.wrap u.bitEnd, .new u, .new u.bitOut, none⟩]) u.bitOut
      (done ++ [{ b with bits := b.bits + 1 }]) := by
  have hend : (.wrap u.bitEnd : Instant) = b.bitEnd baud (b.bits + 1) := by
    rw [Uart.bitEnd, runs.clock]
    rfl
  have hrange : b.start.ticks + Clock.grid baud 1 (b.bits + 1) < UInt64.size - 1 := by
    rw [Uart.bitEnd, runs.clock] at hlt
    exact hlt
  have hleft := runs.left
  have hruns : ({ b with bits := b.bits + 1 } : Burst).Runs baud u.bitOut sent := by
    refine ⟨by rw [Uart.bitOut, runs.clock], ?_, runs.bytes, ?_⟩
    · show 0 < u.bitsLeft - 1 ∧ u.bitsLeft - 1 ≤ bitsPerFrame
      omega
    · have hbits := runs.bits
      show b.bits + 1 + (u.bitsLeft - 1) = _
      omega
  have hout : ({ b with bits := b.bits + 1 } : Burst).out = b.out ++ [] := by
    rw [List.append_nil, hruns.out_eq, runs.out_eq]
  have hcounted : Uart.counted ⟨.wrap u.bitEnd, .new u, .new u.bitOut, none⟩ = [.wrap u.bitEnd] :=
    if_neg (Nat.succ_ne_self u.bitsSent)
  have hreceived : Uart.received ⟨.wrap u.bitEnd, .new u, .new u.bitOut, none⟩ = [] :=
    List.drop_length
  have hmore : u.bitOut.bitsLeft ≠ 0 := Nat.sub_ne_zero_of_lt more
  refine h.bitOut (by omega) (.running whole hruns) (fun hzero => absurd hzero hmore)
    rfl rfl hout ?_ rfl (hend ▸ hcounted) (by simpa using hreceived)
    hend hrange
  rw [Burst.arrivals, hout]
  simp [Burst.arrivals, Burst.bitEnd]

/-- Each step of a line takes its bursts on, and wakes it where they tell. -/
theorem step (h : Sends baud cs s.state.value bursts)
    (hs : Orderly s.state.value s.wanted) (ht : OnTime baud s.now s.state.value s.wanted)
    (hstep : Step device false InRange s d ks s') :
    ∃ bursts', Sends baud (cs ++ [⟨s'.now, s.state, s'.state, d⟩]) s'.state.value bursts' ∧
      bursts'.flatMap (Burst.calls device baud) =
        bursts.flatMap (Burst.calls device baud) ++ ks ∧
      Prolongs s.state.value bursts s'.state.value bursts' := by
  cases hstep with
  | @pass now t g wanted _ =>
    exact ⟨bursts, h.idly rfl (counted_tells _ _) (received_tells _ _)
      g.value.receiver id, (List.append_nil _).symm, .stay bursts rfl (List.prefix_refl _)⟩
  | @send now u wanted wanted' bytes _ =>
    have hsame : Uart.counted ⟨now, .new u, .new (u.send bytes).2, some (.take bytes)⟩ = [] :=
      if_pos rfl
    obtain ⟨bursts', hsends, hcalls, hgrow⟩ := h.send device bytes
      rfl hsame (received_send now bytes u)
    exact ⟨bursts', hsends, by rw [hcalls, List.append_nil], hgrow⟩
  | reset hr _ _ => cases hr
  | @hear now u wanted wanted' r hc hr _ =>
    have hsame : Uart.counted ⟨now, .new u, .new { u with receiver := r }, none⟩ = [] := if_pos rfl
    exact ⟨bursts, h.idly rfl hsame (received_hear now hr) r hc,
      (List.append_nil _).symm, .stay bursts rfl (List.prefix_refl _)⟩
  | @wake now t u u' q rest wanted answer _ asap timed hwake _ _ =>
    change Sends baud cs u bursts at h
    change Orderly u (q :: rest) at hs
    change OnTime baud now u (q :: rest) at ht
    have htime := ht.time hs asap timed
    obtain ⟨-, -, hwakes⟩ := hs.wakes hwake
    show ∃ bursts', Sends baud (cs ++ [⟨t, .new u, .new u', none⟩]) u' bursts' ∧
      bursts'.flatMap (Burst.calls device baud) =
        bursts.flatMap (Burst.calls device baud) ++ [⟨device, t, q.tag⟩] ∧
      Prolongs u bursts u' bursts'
    generalize q.tag = tag at htime hwakes
    cases hwakes with
    | start left hloads =>
      have hsame : Uart.counted ⟨t, .new u, .new u', none⟩ = [] := if_pos hloads.bitsSent
      have hnone : Uart.received ⟨t, .new u, .new u', none⟩ = [] := by
        show u'.receiver.arrived.drop u.receiver.arrived.length = []
        rw [hloads.receiver]
        exact List.drop_length
      refine ⟨_, h.start ht.rate left hloads rfl hsame hnone, ?_, .next bursts t⟩
      simp [Burst.calls, Burst.bitEnds]
    | lastBit last hloads =>
      rcases htime with ⟨hzero, -⟩ | ⟨hne, -, rfl, hlt⟩
      · omega
      · obtain ⟨done, b, sent, rfl, whole, runs⟩ := h.stage.of_left hne
        refine ⟨_, h.lastBit whole runs last hlt hloads, ?_, .last hne b.grows_bit⟩
        rw [Uart.bitEnd, runs.clock]
        simp [Burst.calls_succ, Burst.bitEnd, Clock.exactTicks]
    | bit more h' _ _ =>
      subst h'
      rcases htime with ⟨hzero, -⟩ | ⟨hne, -, rfl, hlt⟩
      · omega
      · obtain ⟨done, b, sent, rfl, whole, runs⟩ := h.stage.of_left hne
        refine ⟨_, h.innerBit whole runs more hlt, ?_, .last hne b.grows_bit⟩
        rw [Uart.bitEnd, runs.clock]
        simp [Burst.calls_succ, Burst.bitEnd, Clock.exactTicks]

end Sends

/-- A trail takes the bursts on that there are at its beginning. -/
theorem sends_of_trail (haccepted : Clock.Accepted baud 1)
    (h : Trail (Step device false InRange) s cs ks s') (hs : Orderly s.state.value s.wanted)
    (ht : OnTime baud s.now s.state.value s.wanted) {past : List (Change (Guarded Uart))}
    {bursts : List Burst} (hfirst : Sends baud past s.state.value bursts) :
    ∃ bursts', Sends baud (past ++ cs) s'.state.value bursts' ∧
      bursts'.flatMap (Burst.calls device baud) =
        bursts.flatMap (Burst.calls device baud) ++ ks ∧
      Prolongs s.state.value bursts s'.state.value bursts' := by
  induction h with
  | here =>
    exact ⟨bursts, (List.append_nil past).symm ▸ hfirst, (List.append_nil _).symm,
      .stay bursts rfl (List.prefix_refl _)⟩
  | on h step ih =>
    obtain ⟨bursts₁, hsends, hcalls, hgrow⟩ := ih
    obtain ⟨bursts', hsends', hcalls', hgrow'⟩ := hsends.step (orderly_of_trail h hs)
      (onTime_of_trail haccepted h hs ht) step
    rw [List.append_assoc] at hsends'
    rw [hcalls, List.append_assoc] at hcalls'
    exact ⟨bursts', hsends', hcalls', hgrow.trans hgrow'⟩

theorem sends_of_new (h : Uart.new now baud = .ok u) : Sends baud [] u [] := by
  obtain ⟨c, -, hu⟩ := Attempt.bind_eq_ok.mp h
  cases hu
  exact ⟨.resting rfl (List.forall_mem_nil _), rfl, rfl, rfl, List.nil_prefix, fun _ => rfl,
    List.forall_mem_nil _⟩

end Timebase.Uart
