import Mathlib.Data.List.Forall2
import Timebase.Device.InputPort
import Timebase.Proofs.Deeds

/-!
# An input port among other devices

Bytes are handed to an input port at any time, and for each of them it is woken once, as soon as
wake-ups are delivered. What it has latched and what waits to be latched is all that it was handed,
in order.
-/

namespace Timebase.InputPort

variable {σ α : Type}

section

variable (place : Place σ InputPort) (device : DeviceId)

/-- A byte is put where it waits, and the port is to be woken for it at once. -/
def injecting (byte : UInt8) : Program σ Unit :=
  place.deed (modify (InputPort.inject byte))
    (fun done => if done.isSome then .register .asap device arrival else .done ())
    (some (device, .take [byte]))

/-- The port is woken. -/
def waking (time : Instant) : Program σ Unit :=
  place.deed (modify (InputPort.wake time)) fun _ => .done ()

/-- What a port may be asked for, if it may, and what else it puts up with: it makes no difference
to it how time is moved. -/
inductive Serves (injects : Bool) : {α : Type} → Program σ α → Prop
  | inject (h : injects = true) (byte : UInt8) : Serves injects (injecting place device byte)
  | setTime (thread : ThreadId) (time : Instant) : Serves injects (.setCurrentTime thread time)

/-- A port, into which others may inject or not. -/
def resident (injects : Bool) : Resident σ InputPort where
  place := place
  device := device
  wake time _ := waking place time
  Serves := Serves place device injects
  wake_neverLooks _ _ := ⟨Program.neverLooks_workFor, fun _ => trivial⟩
  serves_neverLooks h := by
    cases h with
    | inject _ byte =>
      exact ⟨Program.neverLooks_workFor, fun done => by dsimp only; split <;> trivial⟩
    | setTime => trivial

end

/-- What it is to a port that time goes by, that a byte comes in, and that it is woken. -/
inductive Step (device : DeviceId) (injects : Bool) : Stepping InputPort
  | pass {now t : Instant} {x : InputPort} {wanted : List Request} (le : now ≤ t) :
      Step device injects ⟨now, x, wanted⟩ none [] ⟨t, x, wanted⟩
  | inject {now : Instant} {x : InputPort} {wanted wanted' : List Request} (h : injects = true)
      (byte : UInt8) (hw : wanted'.Perm (⟨.asap, arrival⟩ :: wanted)) :
      Step device injects ⟨now, x, wanted⟩ (some (.take [byte])) []
        ⟨now, x.inject byte, wanted'⟩
  | wake {now t : Instant} {x : InputPort} {q : Request} {rest : List Request} (le : now ≤ t) :
      Step device injects ⟨now, x, q :: rest⟩ none [⟨device, t, q.tag⟩] ⟨t, x.wake t, rest⟩

variable {place : Place σ InputPort} {device : DeviceId} {injects : Bool} {w w₀ v : World σ}
  {x : InputPort} {s s' s₀ : Standing InputPort} {d : Option Demand}
  {cs : List (Change InputPort)} {ks : List Call}

theorem injecting_books (device : DeviceId) (done : Bool) :
    (if done then .register .asap device arrival else .done () : Program σ Unit).Books := by
  cases done with
  | true => exact .register .asap device arrival
  | false => exact .done ()

theorem wanted_injecting (byte : UInt8) (hstate : place.get? w.devices = some x) :
    (((injecting place device byte).after w).scheduler.wanted device).Perm
      (⟨.asap, arrival⟩ :: w.scheduler.wanted device) := by
  have hact : (modify (InputPort.inject byte) : Run InputPort Unit) x = .ok () (x.inject byte) := rfl
  have hafter : (injecting place device byte).after w = _ :=
    Resident.deed_after (r := resident place device true) hstate hact
  rw [hafter]
  exact Program.wanted_register .asap arrival (w.scheduler.register_asap device arrival)

theorem injecting_makes (byte : UInt8) (h : injects = true) :
    (resident place device injects).Makes (Step device injects) w
      ((injecting place device byte).history w) := by
  refine Resident.makes_deed (if_pos rfl) fun s hs => ?_
  obtain ⟨now, x, wanted⟩ := s
  have hwanted : w.scheduler.wanted device = wanted := hs.wanted
  refine ⟨_, _, rfl, injecting_books device true, .inject h byte ?_⟩
  rw [← hwanted]
  exact wanted_injecting byte hs.state

theorem injecting_stands {now : Instant} {wanted : List Request} (byte : UInt8)
    (hs : (resident place device injects).Stands w ⟨now, x, wanted⟩) :
    ∃ wanted', wanted'.Perm (⟨.asap, arrival⟩ :: wanted) ∧ (resident place device injects).Stands
      ((injecting place device byte).after w) ⟨now, x.inject byte, wanted'⟩ := by
  have hact : (modify (InputPort.inject byte) : Run InputPort Unit) x = .ok () (x.inject byte) := rfl
  have hdone : place.get? ((injecting place device byte).after w).devices = some (x.inject byte) ∧
      ((injecting place device byte).after w).scheduler.currentTime = w.scheduler.currentTime :=
    Resident.deed_state (r := resident place device injects) hs.state hact
      (injecting_books device true)
  have hwanted : w.scheduler.wanted device = wanted := hs.wanted
  refine ⟨_, ?_, ⟨hdone.1, hdone.2.trans hs.now, rfl⟩⟩
  rw [← hwanted]
  exact wanted_injecting byte hs.state

/-- Time may be set even past what the port waits for. -/
theorem setTime_makes (thread : ThreadId) (time : Instant) :
    (resident place device injects).Makes (Step device injects) w
      ((Program.setCurrentTime thread time).history w) := by
  intro s hs
  let v := (World.onScheduler (Scheduler.setCurrentTime thread time)).after w
  have hv : v = { w with scheduler := (Scheduler.setCurrentTime thread time).after w.scheduler } :=
    World.after_onScheduler _ w
  have hstate : place.get? v.devices = some s.state := by
    rw [hv]
    exact hs.state
  have hwanted : v.scheduler.wanted device = s.wanted := by
    rw [hv]
    have hsame := Scheduler.samePending_setCurrentTime thread time w.scheduler
    exact (congrFun hsame.wanted device).trans hs.wanted
  have hle : s.now ≤ v.scheduler.currentTime := by
    rw [hv, ← hs.now]
    exact Scheduler.le_setCurrentTime thread time w.scheduler
  refine ⟨none, { s with now := v.scheduler.currentTime }, .pass hle, ⟨hstate, rfl, hwanted⟩, ?_⟩
  exact .at_once hs.state ⟨hstate, rfl, rfl, rfl⟩ (List.forall_mem_nil _)

theorem waking_makes {limit t : Instant} {p : SyncPoint} {after : Scheduler}
    (hdue : w.scheduler.takeDue limit = (some (p, t), after)) (hd : p.device = device) :
    (resident place device injects).Makes (Step device injects) w
      (⟨.woken p t, { w with scheduler := after }⟩ ::
        ⟨.silent, ({ w with scheduler := after } : World σ).retain p.device⟩ ::
          (waking place t).history (({ w with scheduler := after } : World σ).retain p.device)) := by
  refine Resident.makes_woken hdue hd fun s hs => ?_
  obtain ⟨now, x, wanted⟩ := s
  let world := ({ w with scheduler := after } : World σ).retain p.device
  have hact : (modify (InputPort.wake t) : Run InputPort Unit) x = .ok () (x.wake t) := rfl
  have hstate : (resident place device injects).place.get? world.devices = some x := hs.state
  refine ⟨_, _, hact, .done (), ?_⟩
  have hwanted : w.scheduler.wanted device = wanted := hs.wanted
  have hnow : w.scheduler.currentTime = now := hs.now
  rw [Scheduler.wanted_takeDue hdue, hd, Function.update_self] at hwanted
  obtain ⟨-, -, -, ht, -⟩ := Scheduler.takeDue_eq_some.mp hdue
  subst hwanted hnow ht
  rw [Resident.deed_after hstate hact]
  exact .wake (Scheduler.le_deliveryTime p _)

/-- Every history leaves a trail to a port. -/
theorem keeps_leaves : (resident place device injects).Keeps (Carries w₀ (fun _ => True)
    ((resident place device injects).Leaves (Step device injects) w₀ s₀)) := by
  refine Resident.keeps_leaves ?_ ?_ ?_
  · intro w v e _ hv _
    refine hv.makes fun s _ h => .pass ?_
    rcases h with h | ⟨h, -⟩
    · exact h ▸ Instant.le_refl _
    · exact h
  · intro α p w hp hw
    cases hp with
    | inject h byte =>
      refine ⟨Resident.isOwned_deed _ (fun _ => injecting_books device _) hw.owned, ?_⟩
      exact fun _ _ _ _ => injecting_makes byte h
    | setTime thread time =>
      refine ⟨?_, fun _ _ _ _ => setTime_makes thread time⟩
      rw [Program.after, Program.run, World.after_onScheduler]
      exact hw.owned
  · intro w limit t p s hw hdue hd
    exact ⟨Resident.isOwned_deed _ (fun _ => .done ()) (hw.owned_woken s p.device),
      fun _ _ _ _ => waking_makes hdue hd⟩

@[simp] theorem inject_waiting (byte : UInt8) (x : InputPort) :
    (x.inject byte).waiting = x.waiting ++ [byte] := rfl

@[simp] theorem inject_latched (byte : UInt8) (x : InputPort) :
    (x.inject byte).latched = x.latched := rfl

/-- What a port latches in a change, with the time that it is then. -/
def latching (c : Change InputPort) : List (Instant × UInt8) :=
  (c.after.latched.drop c.before.latched.length).map fun entry => (c.time, entry.2)

theorem latching_tells : Change.Tells latching := by
  intro t x
  rw [latching, List.drop_length]
  rfl

/-- What has become of the bytes that a port was handed: the first ones are latched, in order and not
before they came in, and the others wait. -/
structure Ledger (handed : List (Instant × UInt8)) (cs : List (Change InputPort)) (x : InputPort) :
    Prop where
  order : x.latched.map Prod.snd ++ x.waiting = handed.map Prod.snd
  latched : x.latched = cs.flatMap latching
  sorted : (x.latched.map Prod.fst).Pairwise (· ≤ ·)
  later : List.Forall₂ (fun handed entry => handed.1 ≤ entry.1 ∧ handed.2 = entry.2)
    (handed.take x.latched.length) x.latched

/-- A port that has one wake-up pending for each byte that waits, and has had one for each that is
latched. -/
structure Kept (device : DeviceId) (cs : List (Change InputPort)) (ks : List Call)
    (s : Standing InputPort) : Prop where
  ledger : Ledger (cs.flatMap Change.inputs) cs s.state
  wanted : s.wanted = List.replicate s.state.waiting.length ⟨.asap, arrival⟩
  called : ks = s.state.latched.map fun entry => ⟨device, entry.1, arrival⟩
  handed : ∀ handed ∈ cs.flatMap Change.inputs, handed.1 ≤ s.now
  reached : ∀ entry ∈ s.state.latched, entry.1 ≤ s.now

theorem Ledger.of_alike {cs' : List (Change InputPort)} (h : Ledger (cs.flatMap Change.inputs) cs x)
    (hcs : Change.Alike cs' cs) : Ledger (cs'.flatMap Change.inputs) cs' x := by
  have hi := hcs _ _ Change.inputs_tells
  have hl := hcs _ _ latching_tells
  exact ⟨hi ▸ h.order, hl ▸ h.latched, h.sorted, hi ▸ h.later⟩

theorem Ledger.later_next {byte : UInt8} {waiting : List UInt8}
    {handed latched : List (Instant × UInt8)} {t : Instant}
    (h : Ledger handed cs ⟨byte :: waiting, latched⟩) (reached : ∀ entry ∈ handed, entry.1 ≤ t) :
    List.Forall₂ (fun handed entry => handed.1 ≤ entry.1 ∧ handed.2 = entry.2)
      (handed.take (latched.length + 1)) (latched ++ [(t, byte)]) := by
  have horder : latched.map Prod.snd ++ byte :: waiting = handed.map Prod.snd := h.order
  have hlength := congrArg List.length horder
  simp only [List.length_append, List.length_map, List.length_cons] at hlength
  have hlt : latched.length < handed.length := by omega
  have hbyte : handed[latched.length].2 = byte := by
    have hget : (handed.map Prod.snd)[latched.length]? = some byte := by
      rw [← horder, List.getElem?_append_right (by simp)]
      simp
    rw [List.getElem?_map, List.getElem?_eq_getElem hlt] at hget
    exact Option.some.inj hget
  have hnew : List.Forall₂ (fun handed entry => handed.1 ≤ entry.1 ∧ handed.2 = entry.2)
      [handed[latched.length]] [(t, byte)] := .cons ⟨reached _ (List.getElem_mem hlt), hbyte⟩ .nil
  rw [List.take_succ_eq_append_getElem hlt]
  exact List.rel_append h.later hnew

namespace Kept

theorem pass {now t : Instant} {wanted : List Request} (h : Kept device cs ks ⟨now, x, wanted⟩)
    (le : now ≤ t) : Kept device (cs ++ [⟨t, x, x, none⟩]) ks ⟨t, x, wanted⟩ := by
  have hcs : Change.Alike (cs ++ [⟨t, x, x, none⟩]) cs := by
    intro β f hf
    have hsame : f ⟨t, x, x, none⟩ = [] := hf t x
    simp [hsame]
  refine ⟨h.ledger.of_alike hcs, h.wanted, h.called, ?_, ?_⟩
  · rw [hcs _ _ Change.inputs_tells]
    exact fun handed hh => Instant.le_trans (h.handed handed hh) le
  · exact fun entry he => Instant.le_trans (h.reached entry he) le

theorem inject {now : Instant} {wanted wanted' : List Request}
    (h : Kept device cs ks ⟨now, x, wanted⟩) (byte : UInt8)
    (hw : wanted'.Perm (⟨.asap, arrival⟩ :: wanted)) :
    Kept device (cs ++ [⟨now, x, x.inject byte, some (.take [byte])⟩]) ks
      ⟨now, x.inject byte, wanted'⟩ := by
  let c : Change InputPort := ⟨now, x, x.inject byte, some (.take [byte])⟩
  have hi : c.inputs = [(now, byte)] := rfl
  have hl : latching c = [] := latching_tells now x
  have horder := h.ledger.order
  have hlength := congrArg List.length horder
  simp only [List.length_append, List.length_map] at hlength
  show Kept device (cs ++ [c]) ks ⟨now, x.inject byte, wanted'⟩
  refine ⟨⟨?_, ?_, h.ledger.sorted, ?_⟩, ?_, h.called, ?_, h.reached⟩
  · simp [hi, ← horder]
  · simpa [hl] using h.ledger.latched
  · have hle : x.latched.length ≤ (cs.flatMap Change.inputs).length := by omega
    simp only [List.flatMap_append, List.flatMap_singleton, hi, inject_latched]
    rw [List.take_append_of_le_length hle]
    exact h.ledger.later
  · have hwanted : wanted = _ := h.wanted
    rw [hwanted, ← List.replicate_succ] at hw
    simpa using List.perm_replicate.mp hw
  · simp only [List.flatMap_append, List.flatMap_singleton, hi]
    exact List.forall_mem_append.mpr ⟨h.handed,
      List.forall_mem_singleton.mpr (Instant.le_refl now)⟩

theorem wake {now t : Instant} {q : Request} {rest : List Request}
    (h : Kept device cs ks ⟨now, x, q :: rest⟩) (le : now ≤ t) :
    Kept device (cs ++ [⟨t, x, x.wake t, none⟩]) (ks ++ [⟨device, t, q.tag⟩])
      ⟨t, x.wake t, rest⟩ := by
  obtain ⟨waiting, latched⟩ := x
  have hwanted := h.wanted
  cases waiting with
  | nil => cases hwanted
  | cons byte waiting =>
    obtain ⟨rfl, rfl⟩ := List.cons.inj hwanted
    let c : Change InputPort :=
      ⟨t, ⟨byte :: waiting, latched⟩, ⟨waiting, latched ++ [(t, byte)]⟩, none⟩
    have hi : c.inputs = [] := rfl
    have hl : latching c = [(t, byte)] := by
      simp [c, latching]
    have horder : latched.map Prod.snd ++ byte :: waiting =
        (cs.flatMap Change.inputs).map Prod.snd := h.ledger.order
    have hreached : ∀ entry ∈ latched, entry.1 ≤ t := fun entry he =>
      Instant.le_trans (h.reached entry he) le
    show Kept device (cs ++ [c]) (ks ++ [⟨device, t, arrival⟩])
      ⟨t, ⟨waiting, latched ++ [(t, byte)]⟩, _⟩
    refine ⟨⟨?_, ?_, ?_, ?_⟩, rfl, ?_, ?_, ?_⟩
    · simp [hi, ← horder]
    · have hlatched : latched = _ := h.ledger.latched
      simp [hl, ← hlatched]
    · have hsorted : (latched.map Prod.fst).Pairwise (· ≤ ·) := h.ledger.sorted
      simpa [List.pairwise_append, hsorted] using fun time byte he => hreached (time, byte) he
    · simp only [List.flatMap_append, List.flatMap_singleton, hi, List.append_nil,
        List.length_append, List.length_singleton]
      exact h.ledger.later_next fun handed hh => Instant.le_trans (h.handed handed hh) le
    · have hcalled : ks = latched.map _ := h.called
      rw [hcalled, List.map_append]
      rfl
    · simp only [List.flatMap_append, List.flatMap_singleton, hi, List.append_nil]
      exact fun handed hh => Instant.le_trans (h.handed handed hh) le
    · exact List.forall_mem_append.mpr ⟨hreached,
        List.forall_mem_singleton.mpr (Instant.le_refl t)⟩

theorem step (h : Kept device cs ks s) {k : List Call} (hstep : Step device injects s d k s') :
    Kept device (cs ++ [⟨s'.now, s.state, s'.state, d⟩]) (ks ++ k) s' := by
  cases hstep with
  | pass le =>
    rw [List.append_nil]
    exact h.pass le
  | inject _ byte hw =>
    rw [List.append_nil]
    exact h.inject byte hw
  | wake le => exact h.wake le

end Kept

theorem kept_new (device : DeviceId) (now : Instant) : Kept device [] [] ⟨now, .new, []⟩ :=
  ⟨⟨rfl, rfl, .nil, .nil⟩, rfl, rfl, List.forall_mem_nil _, List.forall_mem_nil _⟩

theorem kept_of_trail (h : Trail (Step device injects) s cs ks s') {past : List (Change InputPort)}
    {called : List Call} (hs : Kept device past called s) :
    Kept device (past ++ cs) (called ++ ks) s' := by
  induction h with
  | here => simpa using hs
  | on _ step ih =>
    rw [← List.append_assoc, ← List.append_assoc]
    exact ih.step step

theorem inputs_of_trail (h : Trail (Step device false) s cs ks s') :
    cs.flatMap Change.inputs = [] ∧ s'.state.waiting.length ≤ s.state.waiting.length := by
  induction h with
  | here => exact ⟨rfl, Nat.le_refl _⟩
  | @on s₁ s₂ d cs ks k _ step ih =>
    obtain ⟨hnone, hle⟩ := ih
    suffices h : Change.inputs ⟨s₂.now, s₁.state, s₂.state, d⟩ = [] ∧
        s₂.state.waiting.length ≤ s₁.state.waiting.length by
      exact ⟨by simp [hnone, h.1], Nat.le_trans h.2 hle⟩
    cases step with
    | pass _ => exact ⟨Change.inputs_tells _ _, Nat.le_refl _⟩
    | inject h _ _ => cases h
    | @wake now t x q rest le =>
      rcases x with ⟨_ | ⟨byte, waiting⟩, latched⟩
      · exact ⟨rfl, Nat.le_refl _⟩
      · exact ⟨rfl, Nat.le_succ _⟩

/-- When wake-ups have been delivered up to a limit no byte waits any more. -/
theorem waiting_eq_nil {react : Reaction σ} {steps : Nat} {thread : ThreadId} {limit : Instant}
    (hw : w.scheduler.Sound) (h : World.schedule react.wake steps thread limit w = .ok () v)
    (hwanted : v.scheduler.wanted device = List.replicate x.waiting.length ⟨.asap, arrival⟩) :
    x.waiting = [] := by
  obtain ⟨-, hahead⟩ := World.lt_of_schedule_ok hw h
  by_contra hsome
  have hpos := List.length_pos_iff.mpr hsome
  have hfirst : ⟨.asap, arrival⟩ ∈ v.scheduler.wanted device := by
    rw [hwanted]
    exact List.mem_replicate.mpr ⟨Nat.pos_iff_ne_zero.mp hpos, rfl⟩
  obtain ⟨p, hp, -, htime, -⟩ := Scheduler.exists_of_mem_wanted hfirst
  exact Instant.ne_asap_of_lt (hahead p hp) htime

theorem leaves {p : Program σ α} (hp : p.Beside (resident place device injects))
    {past : List (Moment σ)} (hpast : p.Looks w past ∨ past = p.history w)
    (hw : (resident place device injects).Lives w)
    (hs : (resident place device injects).Stands w s) :
    (resident place device injects).Lives (w.upTo past) ∧
      (resident place device injects).Leaves (Step device injects) w s past :=
  hp.leaves keeps_leaves hw hs hpast fun _ _ => trivial

/-- A port that its owner keeps and that has not been handed anything yet. -/
structure Fresh (place : Place σ InputPort) (device : DeviceId) (w : World σ) : Prop where
  state : place.get? w.devices = some .new
  wanted : w.scheduler.wanted device = []
  owned : w.isOwned device = true

/-- A port at a moment of a history, with what it was handed up to then. -/
structure Latches (place : Place σ InputPort) (device : DeviceId) (w : World σ)
    (past : List (Moment σ)) (x : InputPort) : Prop where
  state : place.get? (w.upTo past).devices = some x
  ledger : Ledger (inputs device past) (place.changes device w past) x

/-- A port that does not owe anything: it was woken once for each byte that is latched, will be woken
once for each that waits, and nothing waits when wake-ups have been delivered. -/
structure Settles (place : Place σ InputPort) (device : DeviceId) (w : World σ)
    (past : List (Moment σ)) (x : InputPort) : Prop where
  now : Latches place device w past x
  before : ∀ front back, past = front ++ back → ∃ y, Latches place device w front y
  wanted : (w.upTo past).scheduler.wanted device =
    List.replicate x.waiting.length ⟨.asap, arrival⟩
  calls : (resident place device true).calls past =
    x.latched.map fun entry => ⟨device, entry.1, arrival⟩
  delivered : ∀ react steps thread limit v,
    (Program.schedule react steps thread limit).Beside (resident place device true) →
    (Program.schedule react steps thread limit).run (w.upTo past) = .ok () v →
      ∃ y, place.get? v.devices = some y ∧ y.waiting = []

theorem settles {p : Program σ α} (hp : p.Beside (resident place device true))
    {past : List (Moment σ)} (hpast : p.Looks w past ∨ past = p.history w)
    (hw : (resident place device true).Lives w) (hfresh : Fresh place device w) :
    ∃ x, Settles place device w past x := by
  have hs : (resident place device true).Stands w ⟨w.scheduler.currentTime, .new, []⟩ :=
    ⟨hfresh.state, rfl, hfresh.wanted⟩
  obtain ⟨hlives, hleaves⟩ := leaves hp hpast hw hs
  obtain ⟨s, cs, hs', htrail, halike⟩ := hleaves.trail
  have hnew := kept_new device w.scheduler.currentTime
  have hkept := kept_of_trail htrail hnew
  have hlatches {front back : List (Moment σ)} (hsplit : past = front ++ back) {y : InputPort}
      {cs : List (Change InputPort)} (hy : place.get? (w.upTo front).devices = some y)
      (hcs : Change.Alike (place.changes device w front) cs)
      (hledger : Ledger (cs.flatMap Change.inputs) cs y) : Latches place device w front y := by
    have hinputs : (place.changes device w front).flatMap Change.inputs = inputs device front :=
      (hleaves.inputs_eq hsplit).1
    have hledger := hledger.of_alike hcs
    rw [hinputs] at hledger
    exact ⟨hy, hledger⟩
  have hend := hlatches (List.append_nil _).symm hs'.state halike hkept.ledger
  refine ⟨s.state, hend, ?_, hs'.wanted.trans hkept.wanted, hkept.called, ?_⟩
  · intro front back hsplit
    obtain ⟨t, -, hcuts⟩ := hleaves
    obtain ⟨s₁, cs, cs', ks, ks', hcut⟩ := hcuts front back hsplit
    exact ⟨s₁.state, hlatches hsplit hcut.state hcut.past
      (kept_of_trail hcut.first hnew).ledger⟩
  · intro react steps thread limit v hbeside hrun
    obtain ⟨-, hafter⟩ := leaves hbeside (Or.inr rfl) hlives hs'
    obtain ⟨s'', _, hs'', htrail', -⟩ := hafter.trail
    have hend : (w.upTo past).upTo ((Program.schedule react steps thread limit).history
        (w.upTo past)) = v := by
      rw [(Program.path _ _).upTo_eq, Program.after, Run.after_of_ok hrun]
    rw [hend] at hs''
    have hwanted := hs''.wanted.trans (kept_of_trail htrail' hkept).wanted
    exact ⟨s''.state, hs''.state, waiting_eq_nil hlives.sound hrun hwanted⟩

end Timebase.InputPort
