import Timebase.Proofs.Blindness
import Timebase.Proofs.Device.Bursts
import Timebase.Proofs.Device.LineReset

/-!
# Serial lines lose nothing and do not drift

Data may be handed to a line in any portions and at any time. It goes out in order, each bit at its
instant, and whether anybody listens makes no difference to that.
-/

namespace Timebase

theorem Guarded.value_after_access {τ α : Type} (act : Run τ α) (x : τ) :
    ((Guarded.access act).after (.new x)).value = act.after x := by
  cases h : act x <;> simp [Run.after, Guarded.access, Guarded.new, h]

namespace Uart

variable {σ α β : Type} {place : Place σ (Guarded Uart)} {device : DeviceId} {baud : Nat}
  {w w₀ v : World σ} {u u₀ : Uart} {past : List (Moment σ)} {t : Instant} {tag : Tag}
  {q : Request} {rest : List Request}

/-- All a line ever comes to while it is woken shows at a moment. -/
theorem waking_moment (hstate : place.get? w.devices = some (.new u)) :
    ∃ m ∈ (waking place device t tag).history w, ∃ g, place.get? m.world.devices = some g ∧
      g.value = (Uart.wake t tag).after u := by
  let act := Guarded.access (Uart.wake t tag)
  refine ⟨⟨.silent, (World.onDevices (place.on act)).after w⟩, ?_, act.after (.new u), ?_,
    Guarded.value_after_access _ u⟩
  · rw [waking, Place.deed, Program.history]
    exact List.mem_append_left _ (List.mem_singleton.mpr rfl)
  · rw [World.after_onDevices, Place.after_on hstate]
    exact place.get_put _ hstate

theorem waking_ok (haccepted : Clock.Accepted baud 1)
    (hstate : place.get? w.devices = some (.new u)) (hnow : w.scheduler.currentTime = t)
    {now : Instant} (hu : Orderly u (q :: rest)) (htime : OnTime baud now u (q :: rest))
    (asap : q.time = .asap → t = now) (timed : q.time ≠ .asap → now ≤ q.time → t = q.time)
    (hrange : ∀ m ∈ (waking place device t q.tag).history w, ∀ g,
      place.get? m.world.devices = some g → InRange g.value) :
    ∃ v, (waking place device t q.tag).run w = .ok () v := by
  have hmoment : ∃ m ∈ (waking place device t q.tag).history w, ∃ g,
      place.get? m.world.devices = some g ∧ g.value = (Uart.wake t q.tag).after u :=
    waking_moment hstate
  obtain ⟨m, hm, g, hg, hvalue⟩ := hmoment
  have hafter := hrange m hm g hg
  rw [hvalue] at hafter
  obtain ⟨answer, u', hwake⟩ := htime.wake_ok haccepted hu asap timed hafter
  rw [Run.after_of_ok hwake] at hafter
  obtain ⟨busy, -, hwakes⟩ := hu.wakes hwake
  have hu' := hwakes.orderly busy hu.left_le
  have htime' := htime.wake haccepted hu asap timed hwake hafter
  have hrun : (waking place device t q.tag).run w = _ :=
    Resident.deed_run (r := resident place device false) hstate (Run.access_of_ok hwake)
  rw [hrun]
  cases answer with
  | none => exact ⟨_, rfl⟩
  | some r =>
    have hallowed : r.time = .asap ∨ w.scheduler.currentTime ≤ r.time := by
      rw [hnow]
      generalize hr : (some r).toList = wanted at hu' htime'
      cases hu' with
      | idle => cases hr
      | starting => cases hr; exact Or.inl rfl
      | sending time busy left =>
        obtain ⟨hwanted, -, hle⟩ := htime'.pending (Nat.pos_iff_ne_zero.mp left.1)
        cases hr
        cases hwanted
        exact Or.inr hle
    have hregister : ∃ s', w.scheduler.register r.time device r.tag = .ok s' :=
      ⟨_, Scheduler.register_eq_ok.mpr ⟨hallowed, rfl⟩⟩
    obtain ⟨s', hs'⟩ := hregister
    exact ⟨_, World.register_of_ok hs'⟩

/-- Every end of a bit on the line can be told, at each moment of a history. -/
def AllInRange (place : Place σ (Guarded Uart)) (past : List (Moment σ)) : Prop :=
  ∀ m ∈ past, ∀ g, place.get? m.world.devices = some g → InRange g.value

theorem leaves_of_inRange {t : Instant} (ht : t ≠ .asap) (h₀ : w₀.scheduler = .start t)
    {q : Program σ β} (hw : w ∈ q.worlds w₀) (hfresh : Fresh place device baud u₀ w)
    {p : Program σ α} (hp : p.Beside (resident place device false)) {past : List (Moment σ)}
    (hpast : p.Looks w past ∨ past = p.history w) (hrange : AllInRange place past) :
    (resident place device false).Leaves (Step device false InRange) w
      ⟨w.scheduler.currentTime, .new u₀, []⟩ past := by
  let line := resident place device false
  obtain ⟨now, hnew⟩ := hfresh.made
  have haccepted := accepted_of_new hnew
  have hlives : line.Lives w := .of_worlds ht h₀ hw hfresh.owned
  have hfirst := (orderly_of_new hnew).1
  have htime := onTime_of_new hnew hlives.timed
  have hkeeps : line.Keeps (Carries w (fun m => AllInRange place [m])
      (line.Leaves (Step device false InRange) w ⟨w.scheduler.currentTime, .new u₀, []⟩)) := by
    refine keeps_leaves ⟨u₀, rfl⟩
      (fun m u hm hu => hm m List.mem_cons_self _ hu) ?_
    intro v limit t p s past hv hdue hd hpast h x hall
    obtain ⟨st, cs, hst, htrail, -⟩ := h.trail
    obtain ⟨u, hu⟩ := intact_of_trail htrail ⟨u₀, rfl⟩
    have horderly := orderly_of_trail htrail hfirst
    have honTime := onTime_of_trail haccepted htrail hfirst htime
    have hstate := hst.state
    have hwanted := hst.wanted
    have hnow := hst.now
    rw [hpast, hu] at hstate
    rw [hpast] at hnow hwanted
    have hwanted : v.scheduler.wanted device = st.wanted := hwanted
    rw [Scheduler.wanted_takeDue hdue, hd, Function.update_self] at hwanted
    rw [hu, ← hwanted] at horderly honTime
    obtain ⟨_, -, -, ht, hs⟩ := Scheduler.takeDue_eq_some.mp hdue
    rw [← hnow] at honTime
    have hx : x.scheduler.currentTime = t := by
      rw [ht]
      exact congrArg Scheduler.currentTime hs
    refine waking_ok (q := ⟨p.time, p.tag⟩) haccepted hstate hx horderly honTime
      (fun hasap => ht ▸ Scheduler.deliveryTime_of_asap hasap)
      (fun hne hle => ht ▸ Scheduler.deliveryTime_of_le hne hle) ?_
    intro m hm
    exact hall m (List.mem_cons_of_mem _ (List.mem_cons_of_mem _ hm)) m List.mem_cons_self
  exact (hp.leaves hkeeps hlives (hfresh.stands false) hpast fun m hm n hn =>
    hrange n (List.mem_singleton.mp hn ▸ hm)).2

/-- A line at a moment of a history, and the bursts it has sent up to then. -/
structure Transmits (place : Place σ (Guarded Uart)) (device : DeviceId) (baud : Nat) (w : World σ)
    (past : List (Moment σ)) (u : Uart) (bursts : List Burst) : Prop where
  state : place.get? (w.upTo past).devices = some (.new u)
  sends : Sends baud (place.changes device w past) u bursts
  order : bursts.flatMap Burst.out <+: input device past
  length : (bursts.flatMap Burst.out).length = u.bitsSent / bitsPerFrame
  complete : u.busy = false → bursts.flatMap Burst.out = input device past
  heard : u.receiver.connected = true →
    (place.changes device w past).flatMap received = bursts.flatMap Burst.out

/-- What a busy line waits for: the end of the bit on it, or to start its next burst. -/
structure Awake (device : DeviceId) (baud : Nat) (w : World σ) (u : Uart) (bursts : List Burst) :
    Prop where
  starting : u.bitsLeft = 0 → u.busy = true → w.scheduler.wanted device = [⟨.asap, start⟩]
  sending : u.bitsLeft ≠ 0 → ∃ done b, bursts = done ++ [b] ∧
    w.scheduler.wanted device = [⟨b.bitEnd baud (b.bits + 1), bit⟩] ∧
      w.scheduler.currentTime ≤ b.bitEnd baud (b.bits + 1)

theorem transmits_of_sends {bursts : List Burst} {cs : List (Change (Guarded Uart))}
    {wanted : List Request} (hstate : place.get? (w.upTo past).devices = some (.new u))
    (hcs : Change.Alike (place.changes device w past) cs)
    (hinput : (place.changes device w past).flatMap Change.input = input device past)
    (h : Sends baud cs u bursts) (hu : Orderly u wanted) :
    Transmits place device baud w past u bursts := by
  have hsends := h.of_alike hcs
  exact ⟨hstate, hsends, hinput ▸ hsends.out_prefix, hsends.length_out, hinput ▸ hsends.of_idle hu,
    hsends.received_eq⟩

theorem awake_of_onTime {bursts : List Burst} {cs : List (Change (Guarded Uart))} {now : Instant}
    (h : Sends baud cs u bursts) (hu : Orderly u (w.scheduler.wanted device))
    (htime : OnTime baud now u (w.scheduler.wanted device))
    (hnow : w.scheduler.currentTime = now) : Awake device baud w u bursts := by
  refine ⟨fun left busy => ?_, fun left => ?_⟩
  · generalize w.scheduler.wanted device = wanted at hu
    cases hu with
    | idle idle => exact absurd (busy.symm.trans idle) Bool.noConfusion
    | starting => rfl
    | sending time _ some => exact absurd left (Nat.pos_iff_ne_zero.mp some.1)
  · obtain ⟨done, b, sent, hbursts, -, runs⟩ := h.stage.of_left left
    have hend : (.wrap u.bitEnd : Instant) = b.bitEnd baud (b.bits + 1) := by
      rw [Uart.bitEnd, runs.clock]
      rfl
    obtain ⟨hwanted, -, hle⟩ := htime.pending left
    exact ⟨done, b, hbursts, hend ▸ hwanted, hend ▸ hnow ▸ hle⟩

/-- A line at whose far end nobody listens. -/
def unheard (u : Uart) : Uart := { u with receiver := ⟨false, []⟩ }

open Run (Commutes)

theorem load_unheard : Commutes unheard load := by
  refine .get_bind (fun u => ?_) fun _ => rfl
  split <;> exact fun _ => rfl

theorem nextBit_unheard : Commutes unheard nextBit :=
  .bind (.read fun _ => rfl) fun _ => .pure _

theorem countBit_unheard : Commutes unheard countBit := by
  refine .bind (.update fun u => ?_) fun _ => .bind (.update fun u => ?_) fun _ => fun _ => rfl
  · show ({ unheard u with clock := · }) <$> u.clock.forward 1 = _
    cases u.clock.forward 1 <;> rfl
  · show ({ unheard u with bitsSent := · }) <$> Word.add u.bitsSent 1 = _
    cases Word.add u.bitsSent 1 <;> rfl

theorem nextByte_unheard : Commutes unheard nextByte := by
  refine .bind load_unheard fun more => ?_
  cases more with
  | true => exact nextBit_unheard
  | false => exact .pure _

theorem wake_unheard (t : Instant) (tag : Tag) : Commutes unheard (Uart.wake t tag) := by
  rw [Uart.wake]
  split
  · exact .bind (fun _ => rfl) fun _ => nextByte_unheard
  split
  · refine .get_bind (fun u => ?_) fun _ => rfl
    split
    · exact .pure none
    refine .bind countBit_unheard fun _ => .get_bind (fun u => ?_) fun _ => rfl
    split
    · exact .bind (fun _ => rfl) fun _ => nextByte_unheard
    · exact nextBit_unheard
  · exact fun _ => rfl

theorem deed_blind {f : Uart → Uart} {asked : Option (DeviceId × Demand)} {act : Run Uart α}
    {next : Option α → Program σ β} (h : Commutes f act)
    (hnext : ∀ a, (next a).Blind (place.map (Guarded.map f))) :
    (place.deed (Guarded.access act) next asked).Blind (place.map (Guarded.map f)) := by
  cases asked with
  | none | some asked => exact ⟨Place.on_commutes (Guarded.access_commutes h), hnext⟩

theorem waking_blind (t : Instant) (tag : Tag) :
    (waking place device t tag).Blind (place.map (Guarded.map unheard)) := by
  refine deed_blind (wake_unheard t tag) fun asked => ?_
  cases asked.join <;> trivial

theorem sending_blind (bytes : List UInt8) :
    (sending place device bytes).Blind (place.map (Guarded.map unheard)) := by
  refine deed_blind (.modifyGet fun _ => rfl) fun idle => ?_
  cases idle.getD false <;> trivial

theorem resetting_blind :
    (resetting place device).Blind (place.map (Guarded.map unheard)) := by
  refine deed_blind (fun _ => rfl) fun done => ?_
  cases done with
  | none => trivial
  | some _ => exact ⟨trivial, fun _ => ⟨trivial, fun _ => trivial⟩⟩

/-- Whether anybody listens makes no difference to what becomes of a world with a line. -/
theorem history_unheard {resets : Bool} {p : Program σ α}
    (hp : p.Beside (resident place device resets))
    (others : p.BlindBut (place.map (Guarded.map unheard)) (· = device)) :
    HistoryCommutes (place.map (Guarded.map unheard)) p.history := by
  refine Program.Blind.history (hp.blind others (fun t tag => waking_blind t tag) ?_)
  intro β q hq h
  cases hq with
  | send bytes => exact sending_blind bytes
  | reset _ => exact resetting_blind
  | fetch | hangUp => exact h

/-- What a line has sent at a moment of a history and at its end, to which the line has got by going
on with the bursts it was at. -/
structure Transmission (place : Place σ (Guarded Uart)) (device : DeviceId) (baud : Nat)
    (w : World σ) (before after : List (Moment σ)) (u₁ : Uart) (bursts₁ : List Burst) (u : Uart)
    (bursts : List Burst) : Prop where
  first : Transmits place device baud w before u₁ bursts₁
  begun : bursts₁.flatMap (Burst.calls device baud) <+:
    (resident place device false).calls before
  last : Transmits place device baud w (before ++ after) u bursts
  calls : bursts.flatMap (Burst.calls device baud) =
    (resident place device false).calls (before ++ after)
  awake : Awake device baud (w.upTo (before ++ after)) u bursts
  prolongs : Prolongs u₁ bursts₁ u bursts

/-- Data handed to a line goes out whole, in order, and each bit of it at its instant. -/
theorem lines_lose_nothing_and_keep_time {t : Instant} (ht : t ≠ .asap)
    (h₀ : w₀.scheduler = .start t) {q : Program σ β} (hw : w ∈ q.worlds w₀)
    (hfresh : Fresh place device baud u₀ w) {p : Program σ α}
    (hp : p.Beside (resident place device false)) {past : List (Moment σ)}
    (hpast : p.Looks w past ∨ past = p.history w) (hrange : AllInRange place past) :
    (∀ before after, past = before ++ after → ∃ u₁ bursts₁ u bursts,
      Transmission place device baud w before after u₁ bursts₁ u bursts) ∧
    (p.BlindBut (place.map (Guarded.map unheard)) (· = device) →
      HistoryCommutes (place.map (Guarded.map unheard)) p.history) := by
  refine ⟨?_, history_unheard hp⟩
  obtain ⟨now, hnew⟩ := hfresh.made
  have haccepted := accepted_of_new hnew
  have hfirst := (orderly_of_new hnew).1
  have hlives : (resident place device false).Lives w := .of_worlds ht h₀ hw hfresh.owned
  have htime := onTime_of_new hnew hlives.timed
  have hleaves := leaves_of_inRange ht h₀ hw hfresh hp hpast hrange
  have ⟨s, hs, hcuts⟩ := hleaves
  rintro before after rfl
  obtain ⟨s₁, cs, cs', ks, ks', hcut⟩ := hcuts before after rfl
  have hinput₁ := (hleaves.input_eq rfl).1
  have hinput := (hleaves.input_eq (List.append_nil _).symm).1
  -- the bursts at the moment, and what the second trail makes of them
  have horderly₁ := orderly_of_trail hcut.first hfirst
  have htime₁ := onTime_of_trail haccepted hcut.first hfirst htime
  obtain ⟨bursts₁, hsends₁, hcalls₁, -⟩ :=
    sends_of_trail haccepted hcut.first hfirst htime (sends_of_new hnew)
  obtain ⟨bursts, hsends, hcalls, hprolongs⟩ :=
    sends_of_trail haccepted hcut.second horderly₁ htime₁ hsends₁
  have horderly := orderly_of_trail hcut.second horderly₁
  have htime := onTime_of_trail haccepted hcut.second horderly₁ htime₁
  obtain ⟨u₁, hu₁⟩ := intact_of_trail hcut.first ⟨u₀, rfl⟩
  obtain ⟨u, hu⟩ := intact_of_trail hcut.second ⟨u₁, hu₁⟩
  have hstate₁ := hcut.state
  have hstate := hs.state
  have hall : Change.Alike (place.changes device w (before ++ after)) (cs ++ cs') := by
    rw [Place.changes_append]
    exact hcut.past.append hcut.future
  rw [← hs.wanted] at horderly htime
  rw [hu₁] at hstate₁ hsends₁ horderly₁ hprolongs
  rw [hu] at hstate hsends horderly htime hprolongs
  rw [List.nil_append] at hsends₁ hsends
  rw [hcalls₁, List.flatMap_nil, List.nil_append, hcut.calls] at hcalls
  exact ⟨u₁, bursts₁, u, bursts,
    transmits_of_sends hstate₁ hcut.past hinput₁ hsends₁ horderly₁, hcalls₁ ▸ hcut.called,
    transmits_of_sends hstate hall hinput hsends horderly, hcalls,
    awake_of_onTime hsends horderly htime hs.now, hprolongs⟩

/-- Whether the end of the bit on the line can be told at a moment. -/
def tellsEnd (place : Place σ (Guarded Uart)) (m : Moment σ) : Bool :=
  match place.get? m.world.devices with
  | some g => g.value.bitsLeft == 0 || decide (g.value.bitEnd < UInt64.size - 1)
  | none => true

theorem allInRange_of_all (h : past.all (tellsEnd place) = true) : AllInRange place past := by
  intro m hm g hg left
  have htells := List.all_eq_true.mp h m hm
  simpa [tellsEnd, hg, left] using htells

/-- A burst that more data is added to while it lasts, and after a pause another one. -/
def twoBursts : Program (Guarded Uart) Unit :=
  .andThen (sending onlyLine 0 [72, 73]) fun _ =>
    .andThen (.schedule lineAlone 40 0 (.wrap 35)) fun _ =>
      .andThen (sending onlyLine 0 [74]) fun _ =>
        .andThen (.schedule lineAlone 40 0 (.wrap 400)) fun _ =>
          .andThen (sending onlyLine 0 [75]) fun _ =>
            .schedule lineAlone 40 0 (.wrap 600)

theorem lines_lose_nothing_and_keep_time_two_bursts :
    let w := (Program.enroll true).after (.ofScheduler .new (.new quickLine))
    (∃ u₁ bursts₁ u bursts,
      Transmission onlyLine 0 343636320 w (twoBursts.history w) [] u₁ bursts₁ u bursts ∧
        u.bitsSent = 40 ∧ u.receiver.arrived = [72, 73, 74, 75]) ∧
    input 0 (twoBursts.history w) = [72, 73, 74, 75] ∧
    HistoryCommutes (onlyLine.map (Guarded.map unheard)) twoBursts.history := by
  intro w
  have hfresh : Fresh onlyLine 0 343636320 quickLine w := ⟨⟨.zero, rfl⟩, rfl, rfl, by decide⟩
  have hw : w ∈ (Program.enroll true).worlds (.ofScheduler .new (.new quickLine)) :=
    Program.after_mem_worlds _ _
  have hp : twoBursts.Beside (resident onlyLine 0 false) :=
    Or.inr ⟨Or.inl (.send _), fun _ => Or.inr ⟨lineAlone_beside .., fun _ =>
      Or.inr ⟨Or.inl (.send _), fun _ => Or.inr ⟨lineAlone_beside .., fun _ =>
        Or.inr ⟨Or.inl (.send _), fun _ => lineAlone_beside ..⟩⟩⟩⟩⟩
  have hrange : AllInRange onlyLine (twoBursts.history w) := allInRange_of_all (by decide +kernel)
  obtain ⟨hall, hblind⟩ := lines_lose_nothing_and_keep_time (by decide) rfl hw hfresh hp
    (Or.inr rfl) hrange
  obtain ⟨u₁, bursts₁, u, bursts, h⟩ := hall (twoBursts.history w) [] (List.append_nil _).symm
  have hstate := h.last.state
  rw [List.append_nil] at hstate
  have hend : (w.upTo (twoBursts.history w)).devices.value.bitsSent = 40 ∧
      (w.upTo (twoBursts.history w)).devices.value.receiver.arrived = [72, 73, 74, 75] := by
    decide +kernel
  rw [Option.some.inj hstate] at hend
  have hsending (bytes : List UInt8) : (sending onlyLine 0 bytes).BlindBut
      (onlyLine.map (Guarded.map unheard)) (· = 0) := (sending_blind bytes).but _
  have halone (device : DeviceId) (time : Instant) (tag : Tag) (hd : device ≠ 0) :
      (lineAlone device time tag).BlindBut (onlyLine.map (Guarded.map unheard)) (· = 0) := by
    rw [lineAlone, if_neg hd]
    trivial
  refine ⟨⟨u₁, bursts₁, u, bursts, h, hend⟩, by decide +kernel, hblind ?_⟩
  exact ⟨hsending _, fun _ => ⟨halone, fun _ => ⟨hsending _, fun _ => ⟨halone, fun _ =>
    ⟨hsending _, fun _ => halone⟩⟩⟩⟩⟩

end Uart
end Timebase
