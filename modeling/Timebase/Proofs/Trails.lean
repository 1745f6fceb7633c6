import Timebase.Proofs.Recording
import Timebase.Proofs.Residents

/-!
# Trails of a device

A history tells of every change in the world. To a device most of it is nothing, and what it does
itself takes several changes, of which one is that of its state. Its trail is the history as the
device sees it, one step after the other; wherever a history is cut, the trail can be cut as well.
-/

namespace Timebase

variable {σ τ α β : Type}

/-- A change of a state, the instant after it, and what was asked for to bring it about. -/
structure Change (τ : Type) where
  time : Instant
  before : τ
  after : τ
  demand : Option Demand

/-- The bytes that come in with a change. -/
def Change.input (c : Change τ) : List UInt8 := Demand.data c.demand

/-- The bytes that come in with a change, each with the time that it is then. -/
def Change.inputs (c : Change τ) : List (Instant × UInt8) := c.input.map fun byte => (c.time, byte)

/-- What is told of changes, and nothing where nothing has come about or been asked for. -/
def Change.Tells (f : Change τ → List β) : Prop := ∀ t x, f ⟨t, x, x, none⟩ = []

theorem Change.input_tells : Change.Tells (Change.input : Change τ → List UInt8) := fun _ _ => rfl

theorem Change.inputs_tells : Change.Tells (Change.inputs : Change τ → List (Instant × UInt8)) :=
  fun _ _ => rfl

/-- Changes that amount to the same. -/
def Change.Alike (cs cs' : List (Change τ)) : Prop :=
  ∀ (β : Type) (f : Change τ → List β), Change.Tells f → cs.flatMap f = cs'.flatMap f

theorem Change.Alike.refl (cs : List (Change τ)) : Change.Alike cs cs := fun _ _ _ => rfl

theorem Change.Alike.append {as as' bs bs' : List (Change τ)} (ha : Change.Alike as as')
    (hb : Change.Alike bs bs') : Change.Alike (as ++ bs) (as' ++ bs') := by
  intro β f hf
  rw [List.flatMap_append, List.flatMap_append, ha β f hf, hb β f hf]

theorem World.upTo_of_ne_nil {w : World σ} {ms : List (Moment σ)} (h : ms ≠ []) :
    ∃ m ∈ ms, w.upTo ms = m.world := by
  induction ms generalizing w with
  | nil => exact absurd rfl h
  | cons m ms ih =>
    rcases eq_or_ne ms [] with rfl | hms
    · exact ⟨m, List.mem_cons_self, rfl⟩
    · obtain ⟨n, hn, hlast⟩ := ih (w := m.world) hms
      exact ⟨n, List.mem_cons_of_mem m hn, hlast⟩

namespace Place

variable {place : Place σ τ} {device : DeviceId} {w : World σ} {x : τ} {ms ns : List (Moment σ)}

/-- From each moment of a history to the next, what becomes of the state in the place of a device. -/
def changes (place : Place σ τ) (device : DeviceId) (w : World σ) :
    List (Moment σ) → List (Change τ)
  | [] => []
  | m :: ms =>
    (match place.get? w.devices, place.get? m.world.devices with
      | some x, some y => [⟨m.world.scheduler.currentTime, x, y, m.event.demand device⟩]
      | _, _ => []) ++ place.changes device m.world ms

theorem changes_append (place : Place σ τ) (device : DeviceId) (w : World σ)
    (ms ns : List (Moment σ)) : place.changes device w (ms ++ ns) =
      place.changes device w ms ++ place.changes device (w.upTo ms) ns := by
  induction ms generalizing w with
  | nil => rfl
  | cons m ms ih => simp [changes, ih, World.upTo]

/-- A state that is there all along misses nothing that its device is handed. -/
theorem flatMap_changes {f : Instant → Option Demand → List β}
    (h : ∀ front back, ms = front ++ back → ∃ x, place.get? (w.upTo front).devices = some x) :
    (place.changes device w ms).flatMap (fun c => f c.time c.demand) =
      ms.flatMap fun m => f m.world.scheduler.currentTime (m.event.demand device) := by
  induction ms generalizing w with
  | nil => rfl
  | cons m ms ih =>
    obtain ⟨x, hx⟩ := h [] (m :: ms) rfl
    obtain ⟨y, hy⟩ := h [m] ms rfl
    have hx : place.get? w.devices = some x := hx
    have hy : place.get? m.world.devices = some y := hy
    have hrest := ih (w := m.world) fun front back hms => h (m :: front) back (by rw [hms]; rfl)
    simp [changes, hx, hy, hrest]

/-- A state stays as it is all through a history, and its device is not asked for anything. -/
structure Stays (place : Place σ τ) (device : DeviceId) (w : World σ) (x : τ)
    (ms : List (Moment σ)) : Prop where
  first : place.get? w.devices = some x
  rest : ∀ m ∈ ms, place.get? m.world.devices = some x ∧ m.event.demand device = none

namespace Stays

theorem upTo (h : place.Stays device w x ms) : place.get? (w.upTo ms).devices = some x := by
  rcases eq_or_ne ms [] with rfl | hms
  · exact h.first
  · obtain ⟨m, hm, hlast⟩ := World.upTo_of_ne_nil (w := w) hms
    rw [hlast]
    exact (h.rest m hm).1

theorem alike (h : place.Stays device w x ms) :
    Change.Alike (place.changes device w ms) [] := by
  intro β f hf
  induction ms generalizing w with
  | nil => rfl
  | cons m ms ih =>
    obtain ⟨⟨hm, hquiet⟩, hms⟩ := List.forall_mem_cons.mp h.rest
    have hrest := ih ⟨hm, hms⟩
    have hsame : f ⟨m.world.scheduler.currentTime, x, x, none⟩ = [] := hf _ x
    simp [changes, h.first, hm, hquiet, hrest, hsame]

end Stays
end Place

namespace Resident

variable {r : Resident σ τ} {w w₀ : World σ} {x y : τ} {c : Change τ}
  {ms ns rest past : List (Moment σ)}

/-- The wake-ups of a device in a history. -/
def calls (r : Resident σ τ) (ms : List (Moment σ)) : List Call :=
  (Timebase.calls ms).filter fun k => k.device == r.device

theorem calls_append (r : Resident σ τ) (ms ns : List (Moment σ)) :
    r.calls (ms ++ ns) = r.calls ms ++ r.calls ns := by
  rw [calls, Timebase.calls_append, List.filter_append]
  rfl

theorem calls_of_none (h : ∀ m ∈ ms, r.calls [m] = []) : r.calls ms = [] := by
  induction ms with
  | nil => rfl
  | cons m ms ih =>
    obtain ⟨hm, hms⟩ := List.forall_mem_cons.mp h
    rw [← List.singleton_append, calls_append, hm, ih hms, List.nil_append]

theorem calls_woken {p : SyncPoint} {t : Instant} (hd : p.device = r.device) (v u : World σ)
    (ms : List (Moment σ)) :
    r.calls (⟨.woken p t, v⟩ :: ⟨.silent, u⟩ :: ms) = ⟨r.device, t, p.tag⟩ :: r.calls ms := by
  have hone : r.calls [⟨.woken p t, v⟩, ⟨.silent, u⟩] = [⟨r.device, t, p.tag⟩] := by
    simp [calls, Timebase.calls, gather, Event.calls, hd]
  have hall := r.calls_append [⟨.woken p t, v⟩, ⟨.silent, u⟩] ms
  rwa [hone] at hall

theorem Passing.calls_eq {e : Event} {v : World σ} (h : r.Passing w e v) :
    r.calls [⟨e, v⟩] = [] := by
  cases e with
  | woken p t =>
    have hp := h.other p t rfl
    simp [calls, Timebase.calls, gather, Event.calls, hp]
  | _ => rfl

/-- A state has changed at a moment, which is no wake-up. -/
structure Reaches (r : Resident σ τ) (c : Change τ) (demand : Option Demand) (m : Moment σ) :
    Prop where
  state : r.place.get? m.world.devices = some c.after
  time : m.world.scheduler.currentTime = c.time
  calls : r.calls [m] = []
  demand : m.event.demand r.device = demand

/-- A state changes once in a history, which is no wake-up from there on. What is asked for is asked
for at the change. -/
structure Undergoes (r : Resident σ τ) (w : World σ) (c : Change τ) (ms : List (Moment σ)) :
    Prop where
  first : r.place.get? w.devices = some c.before
  parts : ∃ front m back, ms = front ++ m :: back ∧ r.place.Stays r.device w c.before front ∧
    r.Reaches c c.demand m ∧ ∀ n ∈ back, r.Reaches c none n

namespace Undergoes

theorem at_once {m : Moment σ} (first : r.place.get? w.devices = some c.before)
    (hm : r.Reaches c c.demand m) (h : ∀ n ∈ ms, r.Reaches c none n) :
    r.Undergoes w c (m :: ms) :=
  ⟨first, [], m, ms, rfl, ⟨first, List.forall_mem_nil _⟩, hm, h⟩

theorem after_stays (hms : r.place.Stays r.device w c.before ms)
    (hns : r.Undergoes (w.upTo ms) c ns) : r.Undergoes w c (ms ++ ns) := by
  obtain ⟨front, m, back, rfl, hfront, hm, hback⟩ := hns.parts
  refine ⟨hms.first, ms ++ front, m, back, (List.append_assoc _ _ _).symm, ⟨hms.first, ?_⟩, hm,
    hback⟩
  exact List.forall_mem_append.mpr ⟨hms.rest, hfront.rest⟩

theorem stays_of_reaches {m : Moment σ} (hm : r.Reaches c c.demand m)
    (h : ∀ n ∈ ms, r.Reaches c none n) : r.place.Stays r.device m.world c.after ms :=
  ⟨hm.state, fun n hn => ⟨(h n hn).state, (h n hn).demand⟩⟩

theorem alike (h : r.Undergoes w c ms) :
    Change.Alike (r.place.changes r.device w ms) [c] := by
  intro β f hf
  obtain ⟨front, m, back, rfl, hfront, hm, hback⟩ := h.parts
  have hrest := stays_of_reaches hm hback
  rw [Place.changes_append, List.flatMap_append, hfront.alike β f hf, Place.changes]
  simp [hfront.upTo, hm.state, hm.time, hm.demand, hrest.alike β f hf]

/-- Wherever the history is cut, the change has come about before or is still to come. -/
theorem split (h : r.Undergoes w c (ns ++ rest)) :
    r.place.Stays r.device w c.before ns ∧ r.Undergoes (w.upTo ns) c rest ∨
      r.Undergoes w c ns ∧ r.place.Stays r.device (w.upTo ns) c.after rest ∧
        r.calls rest = [] := by
  obtain ⟨front, m, back, hms, hfront, hm, hback⟩ := h.parts
  rcases List.append_eq_append_iff.mp hms with ⟨more, rfl, rfl⟩ | ⟨more, rfl, hmore⟩
  · -- the cut is in the front
    obtain ⟨hns, hmore⟩ := List.forall_mem_append.mp hfront.rest
    have hstays : r.place.Stays r.device w c.before ns := ⟨h.first, hns⟩
    exact Or.inl ⟨hstays, hstays.upTo, more, m, back, rfl, ⟨hstays.upTo, hmore⟩, hm, hback⟩
  · cases more with
    | nil =>
      obtain rfl : m :: back = rest := hmore
      rw [List.append_nil]
      exact Or.inl ⟨hfront, hfront.upTo, [], m, back, rfl, ⟨hfront.upTo, List.forall_mem_nil _⟩,
        hm, hback⟩
    | cons n more =>
      obtain ⟨rfl, rfl⟩ := List.cons.inj hmore
      obtain ⟨hbefore, hafter⟩ := List.forall_mem_append.mp hback
      refine Or.inr ⟨⟨h.first, front, m, more, rfl, hfront, hm, hbefore⟩, ⟨?_, ?_⟩, ?_⟩
      · rw [World.upTo_append]
        exact (stays_of_reaches hm hbefore).upTo
      · exact fun n hn => ⟨(hafter n hn).state, (hafter n hn).demand⟩
      · exact calls_of_none fun n hn => (hafter n hn).calls

end Undergoes

end Resident

/-- How a device stands: the time, its state, and what it wants. -/
structure Standing (τ : Type) where
  now : Instant
  state : τ
  wanted : List Request

/-- Steps of a device: what is asked for in each, and the wake-ups in it. -/
abbrev Stepping (τ : Type) := Standing τ → Option Demand → List Call → Standing τ → Prop

variable {Step : Stepping τ} {s s' s₀ s₁ : Standing τ}

/-- Steps one after the other, with the changes and the wake-ups among them. -/
inductive Trail (Step : Stepping τ) :
    Standing τ → List (Change τ) → List Call → Standing τ → Prop
  | here (s : Standing τ) : Trail Step s [] [] s
  | on {s s₁ s₂ : Standing τ} {d : Option Demand} {cs : List (Change τ)} {ks k : List Call}
      (h : Trail Step s cs ks s₁) (step : Step s₁ d k s₂) :
      Trail Step s (cs ++ [⟨s₂.now, s₁.state, s₂.state, d⟩]) (ks ++ k) s₂

theorem Trail.trans {cs cs' : List (Change τ)} {ks ks' : List Call}
    (h : Trail Step s₀ cs ks s₁) (h' : Trail Step s₁ cs' ks' s) :
    Trail Step s₀ (cs ++ cs') (ks ++ ks') s := by
  induction h' with
  | here => simpa using h
  | on _ step ih =>
    rw [← List.append_assoc, ← List.append_assoc]
    exact .on ih step

/-- What goes over from every past to one that is longer by some moments, if these are granted. -/
def Carries (w₀ : World σ) (granted : Moment σ → Prop) (I : List (Moment σ) → Prop) (w : World σ)
    (ms : List (Moment σ)) : Prop :=
  ∀ past, w₀.upTo past = w → (∀ m ∈ ms, granted m) → I past → I (past ++ ms)

theorem Carries.cumulative (w₀ : World σ) (granted : Moment σ → Prop)
    (I : List (Moment σ) → Prop) : Cumulative (Carries w₀ granted I) where
  nil w past _ _ h := by rwa [List.append_nil]
  append {w ms ns} hms hns past hpast hgranted h := by
    obtain ⟨hfirst, hsecond⟩ := List.forall_mem_append.mp hgranted
    rw [← List.append_assoc]
    refine hns _ ?_ hsecond (hms past hpast hfirst h)
    rw [World.upTo_append, hpast]

namespace Resident

variable {r : Resident σ τ} {w w₀ v : World σ} {e : Event} {ms past : List (Moment σ)}
  {granted : Moment σ → Prop}

/-- How a device stands in a world. -/
structure Stands (r : Resident σ τ) (w : World σ) (s : Standing τ) : Prop where
  state : r.place.get? w.devices = some s.state
  now : w.scheduler.currentTime = s.now
  wanted : w.scheduler.wanted r.device = s.wanted

/-- A piece of a history is one step to a device. -/
def Makes (r : Resident σ τ) (Step : Stepping τ) (w : World σ) (ms : List (Moment σ)) : Prop :=
  ∀ s, r.Stands w s → ∃ d s', Step s d (r.calls ms) s' ∧ r.Stands (w.upTo ms) s' ∧
    r.Undergoes w ⟨s'.now, s.state, s'.state, d⟩ ms

/-- Where a history is cut, a trail can be cut. A wake-up may be under way there. -/
structure Cut (r : Resident σ τ) (Step : Stepping τ) (w₀ : World σ) (s₀ : Standing τ)
    (before after : List (Moment σ)) (s₁ s : Standing τ) (cs cs' : List (Change τ))
    (ks ks' : List Call) : Prop where
  state : r.place.get? (w₀.upTo before).devices = some s₁.state
  first : Trail Step s₀ cs ks s₁
  second : Trail Step s₁ cs' ks' s
  past : Change.Alike (r.place.changes r.device w₀ before) cs
  future : Change.Alike (r.place.changes r.device (w₀.upTo before) after) cs'
  called : ks <+: r.calls before
  calls : ks ++ ks' = r.calls (before ++ after)

/-- A history has left a trail, wherever it is cut. -/
def Leaves (r : Resident σ τ) (Step : Stepping τ) (w₀ : World σ) (s₀ : Standing τ)
    (past : List (Moment σ)) : Prop :=
  ∃ s, r.Stands (w₀.upTo past) s ∧ ∀ before after, past = before ++ after →
    ∃ s₁ cs cs' ks ks', r.Cut Step w₀ s₀ before after s₁ s cs cs' ks ks'

namespace Leaves

theorem here (h : r.Stands w₀ s₀) : r.Leaves Step w₀ s₀ [] := by
  refine ⟨s₀, h, fun before after hnil => ?_⟩
  obtain ⟨rfl, rfl⟩ := List.append_eq_nil_iff.mp hnil.symm
  exact ⟨s₀, [], [], [], [], h.state, .here s₀, .here s₀, .refl _, .refl _, List.nil_prefix, rfl⟩

/-- One trail leads all the way. -/
theorem trail (h : r.Leaves Step w₀ s₀ past) :
    ∃ s cs, r.Stands (w₀.upTo past) s ∧ Trail Step s₀ cs (r.calls past) s ∧
      Change.Alike (r.place.changes r.device w₀ past) cs := by
  obtain ⟨s, hs, hcuts⟩ := h
  obtain ⟨s₁, cs, cs', ks, ks', hcut⟩ := hcuts past [] (List.append_nil _).symm
  have htrail := hcut.first.trans hcut.second
  have halike := hcut.past.append hcut.future
  rw [hcut.calls, List.append_nil] at htrail
  rw [Place.changes, List.append_nil] at halike
  exact ⟨s, cs ++ cs', hs, htrail, halike⟩

theorem exists_state (h : r.Leaves Step w₀ s₀ past) (before after : List (Moment σ))
    (hsplit : past = before ++ after) :
    ∃ x, r.place.get? (w₀.upTo before).devices = some x := by
  obtain ⟨s, -, hcuts⟩ := h
  obtain ⟨s₁, cs, cs', ks, ks', hcut⟩ := hcuts before after hsplit
  exact ⟨s₁.state, hcut.state⟩

/-- What is handed to a device comes in with the changes of its state. -/
theorem flatMap_changes (h : r.Leaves Step w₀ s₀ past) (f : Instant → Option Demand → List β)
    {before after : List (Moment σ)} (hsplit : past = before ++ after) :
    (r.place.changes r.device w₀ before).flatMap (fun c => f c.time c.demand) =
        before.flatMap (fun m => f m.world.scheduler.currentTime (m.event.demand r.device)) ∧
      (r.place.changes r.device (w₀.upTo before) after).flatMap (fun c => f c.time c.demand) =
        after.flatMap fun m => f m.world.scheduler.currentTime (m.event.demand r.device) := by
  refine ⟨Place.flatMap_changes fun front back hfront => ?_,
    Place.flatMap_changes fun front back hfront => ?_⟩
  · exact h.exists_state front (back ++ after) (by rw [hsplit, hfront, List.append_assoc])
  · rw [← World.upTo_append]
    exact h.exists_state (before ++ front) back (by rw [hsplit, hfront, List.append_assoc])

theorem input_eq (h : r.Leaves Step w₀ s₀ past) {before after : List (Moment σ)}
    (hsplit : past = before ++ after) :
    (r.place.changes r.device w₀ before).flatMap Change.input = input r.device before ∧
      (r.place.changes r.device (w₀.upTo before) after).flatMap Change.input =
        input r.device after :=
  h.flatMap_changes (fun _ demand => Demand.data demand) hsplit

theorem inputs_eq (h : r.Leaves Step w₀ s₀ past) {before after : List (Moment σ)}
    (hsplit : past = before ++ after) :
    (r.place.changes r.device w₀ before).flatMap Change.inputs = inputs r.device before ∧
      (r.place.changes r.device (w₀.upTo before) after).flatMap Change.inputs =
        inputs r.device after :=
  h.flatMap_changes (fun t demand => (Demand.data demand).map fun byte => (t, byte)) hsplit

theorem append (h : r.Leaves Step w₀ s₀ past) (hms : r.Makes Step (w₀.upTo past) ms) :
    r.Leaves Step w₀ s₀ (past ++ ms) := by
  obtain ⟨s, cs, hs, htrail, halike⟩ := h.trail
  obtain ⟨d, s', hstep, hs', hchange⟩ := hms s hs
  rw [← World.upTo_append] at hs'
  refine ⟨s', hs', fun before after hsplit => ?_⟩
  rcases List.append_eq_append_iff.mp hsplit with ⟨ns, rfl, rfl⟩ | ⟨between, rfl, rfl⟩
  · have hworld : w₀.upTo (past ++ ns) = (w₀.upTo past).upTo ns := World.upTo_append w₀ past ns
    have hpast {cs' : List (Change τ)}
        (hns : Change.Alike (r.place.changes r.device (w₀.upTo past) ns) cs') :
        Change.Alike (r.place.changes r.device w₀ (past ++ ns)) (cs ++ cs') := by
      rw [Place.changes_append]
      exact halike.append hns
    rcases hchange.split with ⟨hns, hafter⟩ | ⟨hns, hafter, hnone⟩
    · refine ⟨s, cs ++ [], _, r.calls past, _, hworld ▸ hns.upTo, ?_, .on (.here s) hstep,
        hpast hns.alike, hworld ▸ hafter.alike, ?_, ?_⟩
      · rwa [List.append_nil]
      · simp [calls_append]
      · simp [calls_append]
    · refine ⟨s', _, [], _, [], hworld ▸ hafter.first, .on htrail hstep, .here s',
        hpast hns.alike, hworld ▸ hafter.alike, ?_, ?_⟩
      · simp [calls_append, hnone]
      · simp [calls_append]
  · obtain ⟨t, hst, hcuts⟩ := h
    have : t = s := by
      cases t
      cases s
      have hstate := hst.state.symm.trans hs.state
      have hnow := hst.now.symm.trans hs.now
      have hwanted := hst.wanted.symm.trans hs.wanted
      simp_all
    subst this
    obtain ⟨s₁, cs, cs', ks, ks', hcut⟩ := hcuts before between rfl
    refine ⟨s₁, cs, _, ks, _, hcut.state, hcut.first, .on hcut.second hstep, hcut.past, ?_,
      hcut.called, ?_⟩
    · rw [Place.changes_append, ← World.upTo_append]
      exact hcut.future.append hchange.alike
    · rw [← List.append_assoc, hcut.calls, ← List.append_assoc, ← calls_append]

end Leaves

theorem Passing.makes (h : r.Passing w e v)
    (hstep : ∀ s : Standing τ, r.Stands w s →
      (v.scheduler.currentTime = s.now ∨ s.now ≤ v.scheduler.currentTime ∧
        ∀ q ∈ s.wanted, q.time ≠ .asap ∧ v.scheduler.currentTime ≤ q.time) →
      Step s none [] { s with now := v.scheduler.currentTime }) :
    r.Makes Step w [⟨e, v⟩] := by
  intro s hs
  have hcalls := h.calls_eq
  have htime := h.time
  rw [hs.now, hs.wanted] at htime
  have hv := h.state.trans hs.state
  refine ⟨none, { s with now := v.scheduler.currentTime }, hcalls ▸ hstep s hs htime,
    ⟨hv, rfl, h.wanted.trans hs.wanted⟩, ?_⟩
  exact .at_once hs.state ⟨hv, rfl, hcalls, h.quiet⟩ (List.forall_mem_nil _)

/-- If each change that passes it by, each service and each wake-up is one step to a device, then
every history leaves a trail. -/
theorem keeps_leaves
    (passing : ∀ {w v : World σ} {e : Event}, r.Lives w → r.Passing w e v → granted ⟨e, v⟩ →
      r.Makes Step w [⟨e, v⟩])
    (serves : ∀ {α : Type} {p : Program σ α} {w : World σ}, r.Serves p → r.Lives w →
      (p.after w).isOwned r.device = true ∧
        ((∀ m ∈ p.history w, granted m) → ∀ {past}, w₀.upTo past = w → r.Leaves Step w₀ s₀ past →
          r.Makes Step w (p.history w)))
    (wakes : ∀ {w : World σ} {limit t : Instant} {p : SyncPoint} {s : Scheduler}, r.Lives w →
      w.scheduler.takeDue limit = (some (p, t), s) → p.device = r.device →
        let u := ({ w with scheduler := s } : World σ).retain p.device
        let ms := ⟨.woken p t, { w with scheduler := s }⟩ :: ⟨.silent, u⟩ ::
          (r.wake t p.tag).history u
        ((r.wake t p.tag).after u).isOwned r.device = true ∧
          ((∀ m ∈ ms, granted m) → ∀ {past}, w₀.upTo past = w → r.Leaves Step w₀ s₀ past →
            r.Makes Step w ms)) :
    r.Keeps (Carries w₀ granted (r.Leaves Step w₀ s₀)) where
  cumulative := Carries.cumulative w₀ granted _
  passing hw hv past hpast hgranted h := by
    subst hpast
    exact h.append (passing hw hv (hgranted _ List.mem_cons_self))
  serves hp hw := by
    obtain ⟨howned, hmakes⟩ := serves hp hw
    refine ⟨howned, fun past hpast hgranted h => ?_⟩
    have hms := hmakes hgranted hpast h
    subst hpast
    exact h.append hms
  wakes hw hdue hd := by
    obtain ⟨howned, hmakes⟩ := wakes hw hdue hd
    refine ⟨howned, fun past hpast hgranted h => ?_⟩
    have hms := hmakes hgranted hpast h
    subst hpast
    exact h.append hms

end Resident

/-- What happens beside a device leaves a trail to it from where it stands. -/
theorem Program.Beside.leaves {r : Resident σ τ} {p : Program σ α} {w : World σ}
    {past : List (Moment σ)} {granted : Moment σ → Prop} (hp : p.Beside r)
    (hr : r.Keeps (Carries w granted (r.Leaves Step w s₀))) (hw : r.Lives w)
    (hs : r.Stands w s₀) (hpast : p.Looks w past ∨ past = p.history w)
    (hgranted : ∀ m ∈ past, granted m) : r.Lives (w.upTo past) ∧ r.Leaves Step w s₀ past := by
  obtain ⟨hlives, hcarries⟩ := hp.keeps hr hw hpast
  exact ⟨hlives, hcarries [] rfl hgranted (.here hs)⟩

end Timebase
