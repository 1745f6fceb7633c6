import Timebase.Proofs.Deeds
import Timebase.Proofs.Device.AudioSampler
import Timebase.Proofs.TickCounts

/-!
# Sound does not drift

A sampler accounts for time whenever it is woken and whenever it is asked to, for instants in any
order. What it has counted depends on the latest of them alone: it is the exact number of samples
since the sampler was made, cut off to a whole one, whatever there was in between. So neither the
length of the batches nor that of their truncated periods matters.
-/

namespace Timebase.AudioSampler

variable {σ τ α : Type}

/-- The latest of some instants. -/
def latest (since : Instant) (ts : List Instant) : Instant := ts.foldl Instant.later since

/-- No instant is half of the count or more ahead of all those before it. -/
def Near (since : Instant) : List Instant → Prop
  | [] => True
  | t :: ts => t.ticks - since.ticks < 9223372036854775808 ∧ Near (since.later t) ts

/-- A sampler beside its format. -/
def part : Part (Guarded AudioSampler × AudioFormat) (Guarded AudioSampler) :=
  ⟨Prod.fst, fun sampler p => (sampler, p.2)⟩

/-- Accounts for the time at the end of a batch, where the next one begins. -/
def wake (time : Instant) : Run (Guarded AudioSampler × AudioFormat) (Attempt Request) := do
  Run.on part (Guarded.access (update time))
  return (← get).2.endOfBatch time

section

variable (place : Place σ (Guarded AudioSampler × AudioFormat)) (device : DeviceId)

/-- The sampler is asked to account for the time up to an instant. -/
def updating (time : Instant) : Program σ (Option Unit) :=
  place.deed (Run.on part (Guarded.access (update time))) .done

def asking : Option (Attempt Request) → Program σ Unit
  | some (.ok r) => .register r.time device r.tag
  | some (.error cause) => .halt (.fault cause)
  | none => .done ()

/-- The sampler is woken, and asks for the end of the next batch. -/
def waking (time : Instant) : Program σ Unit := place.deed (wake time) (asking device)

/-- How many samples there have been. -/
def counting : Program σ (Option Nat) :=
  place.deed (Run.on part (Guarded.access get)) fun a => .done (a.map samples)

/-- What may be asked of a sampler. Time may be set by anybody. -/
inductive Serves : {α : Type} → Program σ α → Prop
  | update (time : Instant) (h : time ≠ .asap) : Serves (updating place time)
  | setTime (thread : ThreadId) (time : Instant) : Serves (.setCurrentTime thread time)

/-- A sampler among other devices. -/
def resident : Resident σ (Guarded AudioSampler × AudioFormat) where
  place := place
  device := device
  wake time _ := waking place device time
  Serves := Serves place
  wake_neverLooks _ _ := ⟨trivial, fun asked => by
    cases asked with
    | none => trivial
    | some asked => cases asked <;> trivial⟩
  serves_neverLooks h := by
    cases h with
    | update time => exact ⟨trivial, fun _ => trivial⟩
    | setTime thread time => trivial

/-- What has been done with a sampler in a history, by the instants up to which it was to account
for the time: it has been asked to or it has been woken, and whatever else has happened has passed
it by. -/
inductive Career (w : World σ) : List (Moment σ) → List Instant → Prop
  | begun : Career w [] []
  | beside {ms : List (Moment σ)} {ts : List Instant} {m : Moment σ} (h : Career w ms ts)
      (same : place.get? m.world.devices = place.get? (w.upTo ms).devices)
      (other : ∀ p t, m.event = .woken p t → p.device ≠ device) : Career w (ms ++ [m]) ts
  | updated {ms : List (Moment σ)} {ts : List Instant} {t : Instant} (h : Career w ms ts)
      (ht : t ≠ .asap) : Career w (ms ++ (updating place t).history (w.upTo ms)) (ts ++ [t])
  | woken {ms : List (Moment σ)} {ts : List Instant} {limit t : Instant} {p : SyncPoint}
      {s : Scheduler} (h : Career w ms ts) (ht : t ≠ .asap)
      (due : (w.upTo ms).scheduler.takeDue limit = (some (p, t), s)) (own : p.device = device) :
      Career w (ms ++ ⟨.woken p t, { w.upTo ms with scheduler := s }⟩ ::
        ⟨.silent, ({ w.upTo ms with scheduler := s } : World σ).retain p.device⟩ ::
          (waking place device t).history
            (({ w.upTo ms with scheduler := s } : World σ).retain p.device)) (ts ++ [t])

/-- A sampler tells how many samples there have been. -/
def Tells (w : World σ) (n : Nat) : Prop := ∃ v, (counting place).run w = .ok (some n) v

/-- A sampler that has just been made, and its format. -/
structure Made (since : Instant) (rate batch : Nat) (w : World σ) : Prop where
  proper : since ≠ .asap
  state : ∃ a f, AudioSampler.new since rate = .ok a ∧ AudioFormat.new rate batch = .ok f ∧
    place.get? w.devices = some (.new a, f)

/-- What a sampler tells after it was to account for the time up to some instants: the exact number
of samples up to the latest of them. So two samplers of one rate, whatever their batches, tell the
same when both have been asked last. -/
structure NeverDrifts (since : Instant) (rate : Nat) (w : World σ) (ts : List Instant) : Prop where
  told : Tells place w (((latest since ts).ticks - since.ticks) * rate / mainFreq)
  from_power_on : since = .zero → Tells place w ((latest since ts).periods rate)
  alike : ∀ {τ : Type} {place' : Place τ (Guarded AudioSampler × AudioFormat)} {device' : DeviceId}
    {batch' : Nat} {w' : World τ} {ms' : List (Moment τ)} {ts' : List Instant} {m : Instant},
    Made place' since rate batch' w' → Career place' device' w' ms' ts' →
    m ≠ .asap → (∀ t ∈ since :: ts, t ≤ m) → (∀ t ∈ since :: ts', t ≤ m) →
    Near since (ts ++ [m]) → Near since (ts' ++ [m]) →
      ∃ n, Tells place ((updating place m).after w) n ∧
        Tells place' ((updating place' m).after (w'.upTo ms')) n

end

variable {place : Place σ (Guarded AudioSampler × AudioFormat)} {device : DeviceId}
  {since t m : Instant} {rate batch : Nat} {ts ts' : List Instant} {f : AudioFormat} {w : World σ}
  {ms ns : List (Moment σ)}

theorem latest_append (since : Instant) (ts ts' : List Instant) :
    latest since (ts ++ ts') = latest (latest since ts) ts' := List.foldl_append

theorem near_append :
    Near since (ts ++ ts') ↔ Near since ts ∧ Near (latest since ts) ts' := by
  induction ts generalizing since with
  | nil => exact (iff_of_eq (true_and _)).symm
  | cons t ts ih => exact (and_congr_right fun _ => ih).trans and_assoc.symm

theorem latest_ne_asap (hs : since ≠ .asap) (hts : ∀ t ∈ ts, t ≠ .asap) :
    latest since ts ≠ .asap := by
  induction ts generalizing since with
  | nil => exact hs
  | cons t ts ih =>
    obtain ⟨ht, hts⟩ := List.forall_mem_cons.mp hts
    exact ih (Instant.later_ne_asap hs ht) hts

theorem ticks_le_latest (since : Instant) (ts : List Instant) :
    since.ticks ≤ (latest since ts).ticks := by
  induction ts generalizing since with
  | nil => exact Nat.le_refl _
  | cons t ts ih =>
    refine Nat.le_trans ?_ (ih (since.later t))
    rw [Instant.later]
    split <;> omega

theorem latest_of_le (hs : since ≠ .asap) (hts : ∀ t ∈ ts, t ≠ .asap) (hm : m ≠ .asap)
    (hle : ∀ t ∈ since :: ts, t ≤ m) : latest since (ts ++ [m]) = m := by
  have hlatest : latest since ts ≤ m := by
    induction ts generalizing since with
    | nil => exact hle since List.mem_cons_self
    | cons t ts ih =>
      obtain ⟨ht, hts⟩ := List.forall_mem_cons.mp hts
      obtain ⟨hsince, hle⟩ := List.forall_mem_cons.mp hle
      obtain ⟨htm, hle⟩ := List.forall_mem_cons.mp hle
      refine ih (Instant.later_ne_asap hs ht) hts (List.forall_mem_cons.mpr ⟨?_, hle⟩)
      rw [Instant.later]
      split
      · exact htm
      · exact hsince
  rw [latest_append]
  exact Instant.later_of_le hm (latest_ne_asap hs hts) hlatest

section

variable {sampler sampler' : Guarded AudioSampler} {halt : Halt}

theorem wake_of_ok (h : Guarded.access (update t) sampler = .ok () sampler') :
    wake t (sampler, f) = .ok (f.endOfBatch t) (sampler', f) :=
  Run.bind_of_ok (Run.on_of_ok h)

theorem wake_of_error (h : Guarded.access (update t) sampler = .error halt sampler') :
    wake t (sampler, f) = .error halt (sampler', f) :=
  Run.bind_of_error (Run.on_of_error h)

end

theorem asking_books (asked : Option (Attempt Request)) :
    (asking device asked : Program σ Unit).Books := by
  rcases asked with _ | _ | r
  · exact .done ()
  · exact fun _ _ hm => by cases hm
  · exact .register r.time device r.tag

theorem Career.ne_asap (h : Career place device w ms ts) : ∀ t ∈ ts, t ≠ .asap := by
  induction h with
  | begun => exact List.forall_mem_nil _
  | beside _ _ _ ih => exact ih
  | updated _ ht ih | woken _ ht _ _ ih =>
    exact List.forall_mem_append.mpr ⟨ih, List.forall_mem_singleton.mpr ht⟩

theorem Career.append (h : Career place device w ms ts)
    (h' : Career place device (w.upTo ms) ns ts') : Career place device w (ms ++ ns) (ts ++ ts') := by
  induction h' with
  | begun => simpa using h
  | beside _ same other ih =>
    rw [← List.append_assoc]
    rw [← World.upTo_append] at same
    exact .beside ih same other
  | updated _ ht ih =>
    rw [← List.append_assoc, ← List.append_assoc, ← World.upTo_append]
    exact .updated ih ht
  | woken _ ht due own ih =>
    rw [← World.upTo_append] at due ⊢
    rw [← List.append_assoc, ← List.append_assoc]
    exact .woken ih ht due own

theorem Career.single {m : Moment σ}
    (same : place.get? m.world.devices = place.get? w.devices)
    (other : ∀ p t, m.event = .woken p t → p.device ≠ device) : Career place device w [m] [] :=
  .beside .begun same other

/-- Every run beside a sampler is a career of it. -/
theorem keeps_career :
    (resident place device).Keeps fun w ms => ∃ ts, Career place device w ms ts where
  cumulative :=
    { nil := fun w => ⟨[], .begun⟩
      append := fun ⟨_, h⟩ ⟨_, h'⟩ => ⟨_, h.append h'⟩ }
  passing _ hv := ⟨[], .single hv.state hv.other⟩
  serves h hw := by
    cases h with
    | update time ht =>
      exact ⟨Resident.isOwned_deed _ (fun _ => .done _) hw.owned, _, .updated .begun ht⟩
    | setTime thread time =>
      refine ⟨?_, [], .single ?_ fun _ _ h => by cases h⟩
      · rw [Program.after, Program.run, World.after_onScheduler]
        exact hw.owned
      · rw [World.after_onScheduler]
  wakes {w limit t p s} hw hdue hd := by
    have ht : t ≠ .asap := by
      obtain ⟨_, -, -, rfl, -⟩ := Scheduler.takeDue_eq_some.mp hdue
      exact Scheduler.deliveryTime_ne_asap hw.timed
    exact ⟨Resident.isOwned_deed _ asking_books (hw.owned_woken s p.device), _,
      .woken .begun ht hdue hd⟩

section

variable (hslow : rate ≤ mainFreq) (hm : m ≠ .asap) (ht : t ≠ .asap)
  (hsince : since.ticks ≤ m.ticks) (hnear : t.ticks - m.ticks < 9223372036854775808)

include hslow hm ht hsince hnear

theorem access_sampled : Guarded.access (update t) (.new (sampled since rate m)) =
    .ok () (.new (sampled since rate (m.later t))) :=
  Run.access_of_ok (update_sampled hslow hm ht hsince hnear)

variable (hw : place.get? w.devices = some (.new (sampled since rate m), f))

include hw

theorem updating_state : place.get? ((updating place t).after w).devices =
    some (.new (sampled since rate (m.later t)), f) :=
  (Resident.deed_state (r := resident place 0) hw (Run.on_of_ok (access_sampled hslow hm ht hsince hnear))
    (.done _)).1

theorem waking_state : place.get? ((waking place device t).after w).devices =
    some (.new (sampled since rate (m.later t)), f) :=
  (Resident.deed_state (r := resident place device) hw 
    (wake_of_ok (access_sampled hslow hm ht hsince hnear)) (asking_books _)).1

end

/-- Wherever its career leads, a sampler has accounted for the time up to the latest instant. -/
theorem Career.state (h : Career place device w ms ts) (hslow : rate ≤ mainFreq)
    (hs : since ≠ .asap) (hw : place.get? w.devices = some (.new (sampled since rate since), f))
    (hnear : Near since ts) : place.get? (w.upTo ms).devices =
      some (.new (sampled since rate (latest since ts)), f) := by
  induction h with
  | begun => exact hw
  | beside _ same _ ih =>
    rw [World.upTo_append]
    exact same.trans (ih hnear)
  | updated h ht ih =>
    obtain ⟨hpast, hnext, -⟩ := near_append.mp hnear
    rw [World.upTo_append, ((updating place _).path _).upTo_eq, latest_append]
    exact updating_state hslow (latest_ne_asap hs h.ne_asap) ht (ticks_le_latest _ _) hnext
      (ih hpast)
  | @woken ms ts limit t p s h ht due _ ih =>
    obtain ⟨hpast, hnext, -⟩ := near_append.mp hnear
    rw [World.upTo_append, latest_append]
    let u := ({ w.upTo ms with scheduler := s } : World σ).retain p.device
    have hend : (w.upTo ms).upTo (⟨.woken p t, { w.upTo ms with scheduler := s }⟩ ::
        ⟨.silent, u⟩ :: (waking place device t).history u) = (waking place device t).after u :=
      ((waking place device t).path u).upTo_eq
    rw [hend]
    exact waking_state hslow (latest_ne_asap hs h.ne_asap) ht (ticks_le_latest _ _) hnext (ih hpast)

theorem tells_of_state {a : AudioSampler} (h : place.get? w.devices = some (.new a, f)) :
    Tells place w a.samples := by
  have hread : Run.on part (Guarded.access get) (.new a, f) = .ok a (.new a, f) :=
    Run.on_of_ok (Run.access_of_ok rfl)
  exact ⟨_, Resident.deed_run (r := resident place 0) h hread⟩

theorem counting_beside : (counting place).Beside (resident place device) := by
  refine Or.inr ⟨Or.inr (Place.get?_after_on fun x => ?_), fun _ => trivial⟩
  rw [Run.after_on, Run.after_access_get]
  rfl

theorem Made.slow (h : Made place since rate batch w) : rate ≤ mainFreq := by
  obtain ⟨_, _, -, hf, -⟩ := h.state
  obtain ⟨_, hperiod, -⟩ := Attempt.bind_eq_ok.mp hf
  exact (Span.periodChecked_eq_ok hperiod).1

theorem Career.tells (h : Career place device w ms ts) (hmade : Made place since rate batch w)
    (hnear : Near since ts) :
    Tells place (w.upTo ms) (((latest since ts).ticks - since.ticks) * rate / mainFreq) := by
  obtain ⟨a, f, ha, -, hw⟩ := hmade.state
  rw [eq_of_new_eq_ok ha] at hw
  exact tells_of_state (h.state hmade.slow hmade.proper hw hnear)

/-- A sampler that is asked for an instant no earlier than all before tells the samples up to it. -/
theorem Career.tells_last (h : Career place device w ms ts) (hmade : Made place since rate batch w)
    (hm : m ≠ .asap) (hle : ∀ t ∈ since :: ts, t ≤ m) (hnear : Near since (ts ++ [m])) :
    Tells place ((updating place m).after (w.upTo ms))
      ((m.ticks - since.ticks) * rate / mainFreq) := by
  have htells := (h.updated hm).tells hmade hnear
  rwa [World.upTo_append, ((updating place m).path _).upTo_eq,
    latest_of_le hmade.proper h.ne_asap hm hle] at htells

theorem samples_never_drift (hmade : Made place since rate batch w) :
    (∀ ms ts, Career place device w ms ts → Near since ts →
      NeverDrifts place since rate (w.upTo ms) ts) ∧
    ∀ {α : Type} (p : Program σ α) ms, p.Beside (resident place device) →
      (resident place device).Lives w → p.Looks w ms ∨ ms = p.history w →
        ∃ ts, Career place device w ms ts := by
  refine ⟨fun ms ts h hnear => ⟨h.tells hmade hnear, ?_, ?_⟩, ?_⟩
  · rintro rfl
    rw [Instant.periods_eq hmade.slow]
    exact h.tells hmade hnear
  · intro τ place' device' batch' w' ms' ts' m hmade' h' hm hle hle' hlast hlast'
    exact ⟨_, h.tells_last hmade hm hle hlast, h'.tells_last hmade' hm hle' hlast'⟩
  · intro α p ms hp hw hms
    exact (hp.keeps keeps_career hw hms).2

/-- Two samples at 1 kHz in each batch, the first of which is to end at 6872826. -/
def twoByTwo : World (Guarded AudioSampler × AudioFormat) :=
  (Program.andThen (.enroll true) fun device => .register (.wrap 6872826) device 0).after
    (.ofScheduler (.start (.wrap 100))
      (.new (sampled (.wrap 100) 1000 (.wrap 100)), ⟨1000, .wrap 6872726⟩))

def samplerAlone : Reaction (Guarded AudioSampler × AudioFormat) := fun device time _ =>
  if device = 0 then waking (.whole _) 0 time else .done ()

/-- Two batches have ended when the sampler is asked for an instant that has passed. -/
def twoBatches : Program (Guarded AudioSampler × AudioFormat) (Option Nat) :=
  .andThen (.schedule samplerAlone 20 0 (.wrap 20000000)) fun _ =>
    .andThen (updating (.whole _) (.wrap 5000000)) fun _ => counting (.whole _)

theorem twoBatches_beside : twoBatches.Beside (resident (.whole _) 0) := by
  refine Or.inr ⟨⟨fun _ _ => rfl, fun device time tag hd => ?_⟩, fun _ =>
    Or.inr ⟨Or.inl (.update _ (by decide)), fun _ => counting_beside⟩⟩
  have hne : device ≠ 0 := hd
  simp only [samplerAlone, if_neg hne]
  trivial

/-- Asked for an instant ahead of time, then woken, then asked for an instant that has passed. -/
theorem samples_never_drift_out_of_order :
    Made (.whole _) (.wrap 100) 1000 2 twoByTwo ∧
      (∃ ms ts, Career (.whole _) 0 twoByTwo ms ts ∧
        ts = [.wrap 20000000, .wrap 6872826, .wrap 5000000] ∧ Near (.wrap 100) ts ∧
        NeverDrifts (.whole _) (.wrap 100) 1000 (twoByTwo.upTo ms) ts ∧
        Tells (.whole _) (twoByTwo.upTo ms) 5) ∧
      ∃ ts, Career (.whole _) 0 twoByTwo (twoBatches.history twoByTwo) ts := by
  have hmade : Made (.whole _) (.wrap 100) 1000 2 twoByTwo := ⟨by decide, _, _, rfl, rfl, rfl⟩
  let ahead := (updating (.whole _) (.wrap 20000000)).history twoByTwo
  have hahead : Career (.whole _) 0 twoByTwo ahead [.wrap 20000000] :=
    .updated (t := .wrap 20000000) .begun (by decide)
  have hdue : (twoByTwo.upTo ahead).scheduler.takeDue (.wrap 7000000) =
      (some (⟨.wrap 6872826, 0, 0, 0⟩, .wrap 6872826), _) := rfl
  have hwoken := hahead.woken (by decide) hdue rfl
  have hback := hwoken.updated (t := .wrap 5000000) (by decide)
  have hnear : Near (.wrap 100) [.wrap 20000000, .wrap 6872826, .wrap 5000000] :=
    ⟨by decide, by decide, by decide, trivial⟩
  have hlives : (resident (.whole _) 0).Lives twoByTwo :=
    .of_worlds (by decide) rfl (Program.after_mem_worlds _ _) rfl
  obtain ⟨hnever, hcareers⟩ := samples_never_drift hmade
  have htold := hnever _ _ hback hnear
  exact ⟨hmade, ⟨_, _, hback, rfl, hnear, htold, htold.told⟩,
    hcareers twoBatches _ twoBatches_beside hlives (Or.inr rfl)⟩

end Timebase.AudioSampler
