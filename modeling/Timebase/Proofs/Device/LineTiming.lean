import Timebase.Proofs.Device.Conveyance
import Timebase.Proofs.Drift

/-!
# A line keeps time

While time moves only to where something is due, a line is woken exactly at the end of each bit, which
its clock tells without drift. As long as these instants can be told, no wake-up breaks off.
-/

namespace Timebase.Uart

variable {device : DeviceId} {resets : Bool} {granted : Uart → Prop} {u u' : Uart} {baud : Nat}
  {s s' : Standing (Guarded Uart)} {d : Option Demand} {ks : List Call}
  {cs : List (Change (Guarded Uart))}
  {answer : Option Request} {q : Request} {now t next : Instant} {wanted rest : List Request}

/-- The end of the bit on the line, in master ticks. -/
def bitEnd (u : Uart) : Nat := u.clock.exactTicks (u.clock.count + 1)

/-- The end of the bit on the line, if there is one, can be told. -/
def InRange (u : Uart) : Prop := u.bitsLeft ≠ 0 → u.bitEnd < UInt64.size - 1

/-- A line that has counted its bits as time went by, and wants to be woken at the end of the one that
is on the line. -/
structure OnTime (baud : Nat) (now : Instant) (u : Uart) (wanted : List Request) : Prop where
  rate : u.clock.num = baud ∧ u.clock.den = 1
  started : now ≠ .asap
  passed : u.bitsSent ≤ now.ticks
  earlier : u.bitsLeft ≠ 0 → u.bitsSent ≤ u.clock.anchor.ticks + u.clock.count
  pending : u.bitsLeft ≠ 0 → wanted = [⟨.wrap u.bitEnd, bit⟩] ∧ u.bitEnd < UInt64.size - 1 ∧
    now ≤ .wrap u.bitEnd

theorem accepted_of_new (h : Uart.new now baud = .ok u) : Clock.Accepted baud 1 := by
  obtain ⟨c, hc, -⟩ := Attempt.bind_eq_ok.mp h
  exact (Clock.setRatio_eq_ok.mp hc).1

theorem onTime_of_new (h : Uart.new now baud = .ok u) (ht : t ≠ .asap) : OnTime baud t u [] := by
  obtain ⟨c, hc, hu⟩ := Attempt.bind_eq_ok.mp h
  obtain ⟨-, _, -, rfl⟩ := Clock.setRatio_eq_ok.mp hc
  cases hu
  exact ⟨⟨rfl, rfl⟩, ht, Nat.zero_le _, fun hne => absurd rfl hne, fun hne => absurd rfl hne⟩

namespace OnTime

theorem time (h : OnTime baud now u (q :: rest)) (hu : Orderly u (q :: rest))
    (asap : q.time = .asap → t = now) (timed : q.time ≠ .asap → now ≤ q.time → t = q.time) :
    u.bitsLeft = 0 ∧ q.tag = start ∧ t = now ∨
      u.bitsLeft ≠ 0 ∧ q.tag = bit ∧ t = .wrap u.bitEnd ∧ u.bitEnd < UInt64.size - 1 := by
  cases hu with
  | starting busy left => exact Or.inl ⟨left, rfl, asap rfl⟩
  | sending time busy left =>
    have hne : u.bitsLeft ≠ 0 := Nat.pos_iff_ne_zero.mp left.1
    obtain ⟨hwanted, hlt, hle⟩ := h.pending hne
    cases hwanted
    exact Or.inr ⟨hne, rfl, timed (Instant.wrap_ne_asap hlt) hle, hlt⟩

section

variable (haccepted : Clock.Accepted baud 1)

include haccepted

theorem next_tick (hrate : u.clock.num = baud ∧ u.clock.den = 1) (ht : t ≠ .asap)
    (hticks : t.ticks = u.clock.exactTicks u.clock.count) (hrange : u.bitEnd < UInt64.size - 1) :
    u.clock.timeAfter 1 = .ok (.wrap u.bitEnd) ∧ t ≤ .wrap u.bitEnd := by
  have hclock : Clock.Accepted u.clock.num u.clock.den := by rwa [hrate.1, hrate.2]
  have hsize : u.bitEnd < UInt64.size := Nat.lt_of_lt_of_le hrange (Nat.sub_le _ _)
  refine ⟨Clock.timeAfter_of_lt hclock hsize, ?_⟩
  apply Instant.le_of_lt
  rw [Instant.lt_iff_ticks ht (Instant.wrap_ne_asap hrange), Instant.wrap_ticks hsize, hticks]
  exact Nat.add_lt_add_left (hclock.grid_lt _) _

/-- Where a byte is put on the line at a tick of its clock the line is on time. -/
theorem loads (h : Loads u u' answer) (hrate : u.clock.num = baud ∧ u.clock.den = 1) (ht : t ≠ .asap)
    (hticks : t.ticks = u.clock.exactTicks u.clock.count) (left : u.bitsLeft = 0)
    (passed : u.bitsSent ≤ t.ticks) (earlier : u.bitsSent ≤ u.clock.anchor.ticks + u.clock.count)
    (hrange : InRange u') : OnTime baud t u' answer.toList := by
  cases h with
  | ended queue h =>
    subst h
    exact ⟨hrate, ht, passed, fun hne => absurd left hne, fun hne => absurd left hne⟩
  | byte queue h time =>
    subst h
    have hlt := hrange (Nat.succ_ne_zero 9)
    obtain ⟨htime, hle⟩ := next_tick haccepted hrate ht hticks hlt
    have hsame := time.symm.trans htime
    refine ⟨hrate, ht, passed, fun _ => earlier, fun _ => ⟨?_, hlt, hle⟩⟩
    cases hsame
    rfl

theorem bitOut (h : OnTime baud now u wanted) (left : u.bitsLeft ≠ 0)
    (hlt : u.bitEnd < UInt64.size - 1) :
    (Instant.wrap u.bitEnd).ticks = u.bitOut.clock.exactTicks u.bitOut.clock.count ∧
      u.bitOut.bitsSent ≤ (Instant.wrap u.bitEnd).ticks ∧
      u.bitOut.bitsSent ≤ u.bitOut.clock.anchor.ticks + u.bitOut.clock.count := by
  have hearlier := h.earlier left
  have hclock : Clock.Accepted u.clock.num u.clock.den := by rwa [h.rate.1, h.rate.2]
  have hgrid := hclock.le_grid (u.clock.count + 1)
  rw [Instant.wrap_ticks (Nat.lt_of_lt_of_le hlt (Nat.sub_le _ _))]
  refine ⟨rfl, ?_, ?_⟩
  · show u.bitsSent + 1 ≤ u.clock.anchor.ticks + Clock.grid _ _ (u.clock.count + 1)
    omega
  · show u.bitsSent + 1 ≤ u.clock.anchor.ticks + (u.clock.count + 1)
    omega

theorem wake (h : OnTime baud now u (q :: rest)) (hu : Orderly u (q :: rest))
    (asap : q.time = .asap → t = now) (timed : q.time ≠ .asap → now ≤ q.time → t = q.time)
    (hwake : Uart.wake t q.tag u = .ok answer u') (hrange : InRange u') :
    OnTime baud t u' answer.toList := by
  have htime := h.time hu asap timed
  obtain ⟨-, -, hwakes⟩ := hu.wakes hwake
  generalize q.tag = tag at htime hwakes
  cases hwakes with
  | start left hloads =>
    rcases htime with ⟨-, -, rfl⟩ | ⟨hne, -⟩
    · refine loads haccepted hloads h.rate h.started ?_ left h.passed
        (Nat.le_add_right_of_le h.passed) hrange
      show t.ticks = t.ticks + Clock.grid _ _ 0
      rw [Clock.grid_zero, Nat.add_zero]
    · exact absurd left hne
  | lastBit last hloads =>
    rcases htime with ⟨hzero, -⟩ | ⟨hne, -, rfl, hlt⟩
    · omega
    · obtain ⟨hticks, hpassed, hearlier⟩ := h.bitOut haccepted hne hlt
      have hzero : u.bitOut.bitsLeft = 0 := by simp [Uart.bitOut, last]
      exact loads haccepted hloads h.rate (Instant.wrap_ne_asap hlt) hticks hzero hpassed hearlier
        hrange
  | bit more h' time ha =>
    subst h' ha
    rcases htime with ⟨hzero, -⟩ | ⟨hne, -, rfl, hlt⟩
    · omega
    · obtain ⟨hticks, hpassed, hearlier⟩ := h.bitOut haccepted hne hlt
      have hmore : u.bitOut.bitsLeft ≠ 0 := Nat.sub_ne_zero_of_lt more
      have hstarted := Instant.wrap_ne_asap hlt
      obtain ⟨htime, hle⟩ := next_tick (u := u.bitOut) haccepted h.rate hstarted hticks
        (hrange hmore)
      have hsame := time.symm.trans htime
      refine ⟨h.rate, hstarted, hpassed, fun _ => hearlier, fun _ => ⟨?_, hrange hmore, hle⟩⟩
      cases hsame
      rfl

theorem step (h : OnTime baud s.now s.state.value s.wanted) (hs : Orderly s.state.value s.wanted)
    (hstep : Step device false InRange s d ks s') : OnTime baud s'.now s'.state.value s'.wanted := by
  cases hstep with
  | @pass now t g wanted hpass =>
    change OnTime baud now g.value wanted at h
    show OnTime baud t g.value wanted
    rcases hpass with rfl | ⟨hle, hahead⟩
    · exact h
    · have hstarted : t ≠ .asap := Instant.ne_asap_of_lt
        (Instant.lt_of_lt_of_le (Instant.asap_lt h.started) hle)
      refine ⟨h.rate, hstarted, ?_, h.earlier, fun hne => ?_⟩
      · exact h.passed.trans (Instant.ticks_le_of_le hstarted h.started hle)
      · obtain ⟨hwanted, hlt, -⟩ := h.pending hne
        exact ⟨hwanted, hlt, (hahead _ (hwanted ▸ List.mem_cons_self)).2⟩
  | @send now u wanted wanted' bytes hw =>
    refine ⟨h.rate, h.started, h.passed, h.earlier, fun hne => ?_⟩
    have hne : u.bitsLeft ≠ 0 := hne
    have hbusy : u.busy = true := hs.busy_of_left hne
    obtain ⟨hwanted, hrest⟩ := h.pending hne
    have hwanted : wanted = _ := hwanted
    rw [if_pos hbusy, hwanted] at hw
    exact ⟨List.perm_singleton.mp hw, hrest⟩
  | reset hr _ _ => cases hr
  | @hear now u wanted wanted' r _ _ hw =>
    subst hw
    exact ⟨h.rate, h.started, h.passed, h.earlier, h.pending⟩
  | @wake now t u u' q rest wanted answer _ asap timed hwake hw hg =>
    obtain ⟨-, rfl, -⟩ := Orderly.wakes hs hwake
    have hu' := h.wake haccepted hs asap timed hwake hg
    rw [List.append_nil] at hw
    rw [eq_of_perm_toList hw]
    exact hu'

end

end OnTime

theorem nextBit_of_next (h : u.clock.timeAfter 1 = .ok next) :
    nextBit u = .ok (some ⟨next, bit⟩) u :=
  Run.bind_of_ok (Run.read_eq_ok.mpr ⟨h, rfl⟩)

theorem nextBit_after (u : Uart) : Run.after nextBit u = u := by
  cases h : u.clock.timeAfter 1 with
  | ok next => exact Run.after_of_ok (nextBit_of_next h)
  | error cause => exact Run.after_of_error (Run.bind_of_error (Run.read_of_error h))

theorem wake_start (t : Instant) (u : Uart) :
    Uart.wake t start u = nextByte { u with clock := u.clock.reset t } := rfl

theorem wake_bit (left : u.bitsLeft ≠ 0) (h : countBit u = .ok () u.bitOut) (t : Instant) :
    Uart.wake t bit u =
      if u.bitOut.bitsLeft = 0 then
        nextByte { u.bitOut with receiver := u.receiver.deliver u.current }
      else nextBit u.bitOut := by
  have hget : ∀ v, (get : Run Uart Uart) v = .ok v v := fun v => rfl
  show (get >>= fun v => if v.bitsLeft = 0 then _ else _ : Run Uart (Option Request)) u = _
  rw [Run.bind_of_ok (hget u), if_neg left, Run.bind_of_ok h, Run.bind_of_ok (hget u.bitOut)]
  split <;> rfl

theorem countBit_of_ok (hforward : u.clock.forward 1 = .ok (u.clock.withCount (u.clock.count + 1)))
    (hadd : Word.add u.bitsSent 1 = .ok (u.bitsSent + 1)) : countBit u = .ok () u.bitOut := by
  let v : Uart := { u with clock := u.clock.withCount (u.clock.count + 1) }
  have hfirst : Run.update (fun u : Uart => return { u with clock := (← u.clock.forward 1) }) u =
      .ok () v := Run.update_eq_ok.mpr (Attempt.bind_eq_ok.mpr ⟨_, hforward, rfl⟩)
  have hsecond : Run.update (fun u : Uart => return { u with bitsSent := (← Word.add u.bitsSent 1) })
      v = .ok () { v with bitsSent := v.bitsSent + 1 } :=
    Run.update_eq_ok.mpr (Attempt.bind_eq_ok.mpr ⟨_, hadd, rfl⟩)
  rw [countBit, Run.bind_of_ok hfirst, Run.bind_of_ok hsecond]
  rfl

namespace OnTime

section

variable (haccepted : Clock.Accepted baud 1)

include haccepted

theorem nextByte_ok (hrate : u.clock.num = baud ∧ u.clock.den = 1) (ht : t ≠ .asap)
    (hticks : t.ticks = u.clock.exactTicks u.clock.count) (hrange : InRange (nextByte.after u)) :
    ∃ answer u', nextByte u = .ok answer u' := by
  cases hq : u.queue with
  | nil => exact ⟨_, _, Run.bind_of_ok (load_of_nil hq)⟩
  | cons byte rest =>
    have hload : nextByte u = nextBit _ := Run.bind_of_ok (load_of_cons hq)
    rw [Run.after_congr hload, nextBit_after] at hrange
    rw [hload]
    have hnext := next_tick (u := { u with queue := rest, current := byte, bitsLeft := bitsPerFrame })
      haccepted hrate ht hticks (hrange (Nat.succ_ne_zero 9))
    exact ⟨_, _, nextBit_of_next hnext.1⟩

theorem countBit_ok (h : OnTime baud now u wanted) (left : u.bitsLeft ≠ 0)
    (hlt : u.bitEnd < UInt64.size - 1) : countBit u = .ok () u.bitOut := by
  have hclock : Clock.Accepted u.clock.num u.clock.den := by rwa [h.rate.1, h.rate.2]
  have hforward := Clock.forward_of_lt hclock (Nat.lt_of_lt_of_le hlt (Nat.sub_le _ _))
  have hpassed := (h.bitOut haccepted left hlt).2.1
  rw [Instant.wrap_ticks (Nat.lt_of_lt_of_le hlt (Nat.sub_le _ _))] at hpassed
  have hsum : u.bitsSent + 1 < UInt64.size := by
    have hsent : u.bitsSent + 1 ≤ u.bitEnd := hpassed
    omega
  have hadd : Word.add u.bitsSent 1 = .ok (u.bitsSent + 1) := if_pos hsum
  exact countBit_of_ok hforward hadd

/-- No wake-up of a line breaks off as long as it can tell the end of its bits. -/
theorem wake_ok (h : OnTime baud now u (q :: rest)) (hu : Orderly u (q :: rest))
    (asap : q.time = .asap → t = now) (timed : q.time ≠ .asap → now ≤ q.time → t = q.time)
    (hrange : InRange ((Uart.wake t q.tag).after u)) :
    ∃ answer u', Uart.wake t q.tag u = .ok answer u' := by
  rcases h.time hu asap timed with ⟨left, htag, rfl⟩ | ⟨hne, htag, rfl, hlt⟩
  · rw [htag, wake_start]
    rw [htag, Run.after_congr (wake_start t u)] at hrange
    refine nextByte_ok haccepted h.rate h.started ?_ hrange
    show t.ticks = t.ticks + Clock.grid _ _ 0
    rw [Clock.grid_zero, Nat.add_zero]
  · have hstarted := Instant.wrap_ne_asap hlt
    have hticks := (h.bitOut haccepted hne hlt).1
    have hwake := wake_bit hne (h.countBit_ok haccepted hne hlt) (.wrap u.bitEnd)
    rw [htag, hwake]
    rw [htag, Run.after, hwake] at hrange
    split
    · rename_i hlast
      rw [if_pos hlast, ← Run.after] at hrange
      exact nextByte_ok haccepted h.rate hstarted hticks hrange
    · rename_i hmore
      rw [if_neg hmore, ← Run.after, nextBit_after] at hrange
      have hnext := next_tick (u := u.bitOut) haccepted h.rate hstarted hticks (hrange hmore)
      exact ⟨_, _, nextBit_of_next hnext.1⟩

end

end OnTime

theorem onTime_of_trail (haccepted : Clock.Accepted baud 1)
    (h : Trail (Step device false InRange) s cs ks s')
    (hs : Orderly s.state.value s.wanted) (hs' : OnTime baud s.now s.state.value s.wanted) :
    OnTime baud s'.now s'.state.value s'.wanted := by
  induction h with
  | here => exact hs'
  | on h step ih => exact ih.step haccepted (orderly_of_trail h hs) step

end Timebase.Uart
