import Timebase.Proofs.BreakingOff

/-!
# The end of devices

A device ends when it loses the last of its holds: outside of any delivery, at the end of its own
wake-up or within that of another device. Whichever it is, its burial is the very next thing to
happen, and no device comes back from its end.
-/

namespace Timebase

variable {σ α : Type} {w v u : World σ} {device : DeviceId} {ms ns : List (Moment σ)} {m : Moment σ}

namespace World

/-- Whether a device was there once and is no longer. -/
def hasEnded (w : World σ) (device : DeviceId) : Bool :=
  match w.lifetimes[device]? with
  | some l => !l.isAlive
  | none => false

theorem hasEnded_iff : w.hasEnded device = true ↔
    ∃ l, w.lifetimes[device]? = some l ∧ l.isAlive = false := by
  rw [hasEnded]
  cases w.lifetimes[device]? with
  | none => simp
  | some l => simp

theorem isAlive_of_hasEnded (h : w.hasEnded device = true) : w.isAlive device = false := by
  obtain ⟨l, hl, hgone⟩ := hasEnded_iff.mp h
  rw [isAlive, hl]
  exact hgone

theorem hasEnded_congr (h : v.lifetimes = w.lifetimes) (device : DeviceId) :
    v.hasEnded device = w.hasEnded device := by
  rw [hasEnded, hasEnded, h]

theorem isAlive_congr (h : v.lifetimes = w.lifetimes) (device : DeviceId) :
    v.isAlive device = w.isAlive device := by
  rw [isAlive, isAlive, h]

end World

/-- What one moment does to the devices, given the moments after it. -/
structure Passing (w : World σ) (m : Moment σ) (ms : List (Moment σ)) : Prop where
  for_good : ∀ device, w.hasEnded device = true → m.world.hasEnded device = true
  buried : ∀ device, w.isAlive device = true → m.world.isAlive device = false →
    m.world.hasEnded device = true ∧ m.world.scheduler = w.scheduler ∧
      ∃ rest, ms = ⟨.buried (m.world.burial device), m.world.bury device⟩ :: rest

theorem Passing.of_lifetimes_eq (h : m.world.lifetimes = w.lifetimes) : Passing w m ms where
  for_good := by
    intro device hd
    rw [World.hasEnded_congr h]
    exact hd
  buried := by
    intro device halive hgone
    rw [World.isAlive_congr h, halive] at hgone
    cases hgone

theorem Passing.append (h : Passing w m ms) (ns : List (Moment σ)) : Passing w m (ms ++ ns) where
  for_good := h.for_good
  buried := by
    intro device halive hgone
    obtain ⟨hended, hs, rest, rfl⟩ := h.buried device halive hgone
    exact ⟨hended, hs, rest ++ ns, rfl⟩

/-- A history in which devices end for good and are buried at once. -/
def Mortal : World σ → List (Moment σ) → Prop
  | _, [] => True
  | w, m :: ms => Passing w m ms ∧ Mortal m.world ms

namespace Mortal

theorem nil (w : World σ) : Mortal w [] := trivial

theorem cons_of_lifetimes_eq (h : m.world.lifetimes = w.lifetimes) (rest : Mortal m.world ms) :
    Mortal w (m :: ms) := ⟨.of_lifetimes_eq h, rest⟩

theorem single {e : Event} (h : v.lifetimes = w.lifetimes) : Mortal w [⟨e, v⟩] :=
  cons_of_lifetimes_eq h (nil _)

theorem append (hms : Mortal w ms) (hns : Mortal (w.upTo ms) ns) : Mortal w (ms ++ ns) := by
  induction ms generalizing w with
  | nil => exact hns
  | cons m ms ih => exact ⟨hms.1.append ns, ih hms.2 hns⟩

theorem cumulative : Cumulative (Mortal (σ := σ)) := ⟨nil, append⟩

end Mortal

namespace World

variable {act : Run (World σ) α} {inner : World σ → List (Moment σ)} {wake : Wake σ}
  {history : DeviceId → Instant → Tag → World σ → List (Moment σ)} {p : SyncPoint}
  {scheduler : Scheduler} {time : Instant} {change : Lifetime → Lifetime}

theorem loseHold_mortal (device : DeviceId)
    (hchange : ∀ l, l.isAlive = false → (change l).isAlive = false) (w : World σ) :
    Mortal w (w.loseHold device change) := by
  refine ⟨⟨?_, ?_⟩, .single (bury_lifetimes device _)⟩
  · intro other h
    obtain ⟨l, hl, hgone⟩ := hasEnded_iff.mp h
    apply hasEnded_iff.mpr
    by_cases hd : other = device
    · subst hd
      exact ⟨change l, by simp [List.getElem?_modify_eq, hl], hchange l hgone⟩
    · exact ⟨l, (lifetime_modify_ne hd change w).trans hl, hgone⟩
  · intro other halive hgone
    by_cases hd : other = device
    · subst hd
      obtain ⟨l, hl, -⟩ := isAlive_iff.mp halive
      have hchanged : (w.lifetimes.modify other change)[other]? = some (change l) := by
        simp [List.getElem?_modify_eq, hl]
      simp only [isAlive, hchanged] at hgone
      exact ⟨hasEnded_iff.mpr ⟨change l, hchanged, hgone⟩, rfl, [], rfl⟩
    · have hsame := lifetime_modify_ne hd change w
      simp only [isAlive, hsame] at halive hgone
      rw [halive] at hgone
      cases hgone

theorem enroll_mortal (ownsSyncPoints : Bool) (w : World σ) :
    Mortal w [⟨.silent, (enroll ownsSyncPoints).after w⟩] := by
  have hkept : ∀ {device : DeviceId} {l : Lifetime}, w.lifetimes[device]? = some l →
      ((enroll ownsSyncPoints).after w).lifetimes[device]? = some l := by
    intro device l hl
    obtain ⟨hlt, -⟩ := List.getElem?_eq_some_iff.mp hl
    show (w.lifetimes ++ [⟨true, 0, ownsSyncPoints⟩])[device]? = some l
    rw [List.getElem?_append_left hlt, hl]
  refine ⟨⟨?_, ?_⟩, .nil _⟩
  · intro device h
    obtain ⟨l, hl, hgone⟩ := hasEnded_iff.mp h
    exact hasEnded_iff.mpr ⟨l, hkept hl, hgone⟩
  · intro device h hgone
    obtain ⟨l, hl, hlive⟩ := isAlive_iff.mp h
    rw [isAlive_iff.mpr ⟨l, hkept hl, hlive⟩] at hgone
    cases hgone

theorem retain_passing (halive : w.isAlive device = true) :
    Passing w ⟨.silent, w.retain device⟩ ms where
  for_good := by
    intro other h
    obtain ⟨l, hl, hgone⟩ := hasEnded_iff.mp h
    have hd : other ≠ device := by
      rintro rfl
      rw [isAlive_of_hasEnded h] at halive
      cases halive
    exact hasEnded_iff.mpr ⟨l, (lifetime_modify_ne hd _ w).trans hl, hgone⟩
  buried := by
    intro other h hgone
    obtain ⟨l, hl, hlive⟩ := isAlive_iff.mp h
    exfalso
    by_cases hd : other = device
    · subst hd
      simp [retain, isAlive, List.getElem?_modify_eq, hl, Lifetime.isAlive] at hgone
    · have hsame := lifetime_modify_ne hd (fun l => { l with running := l.running + 1 }) w
      simp only [retain, isAlive, hsame, hl] at hgone
      rw [hlive] at hgone
      cases hgone

theorem visitHistory_mortal (halive : w.isAlive device = true)
    (h : Mortal (w.retain device) (inner (w.retain device)))
    (path : Path (w.retain device) (inner (w.retain device)) (act.after (w.retain device))) :
    Mortal w (w.visitHistory device act inner) := by
  refine Mortal.cumulative.visitHistory device ⟨retain_passing halive, trivial⟩ h path ?_
  refine fun v => loseHold_mortal device ?_ v
  intro l hl
  simp only [Lifetime.isAlive, Bool.or_eq_false_iff, decide_eq_false_iff_not] at hl ⊢
  exact ⟨hl.1, by omega⟩

theorem deliverHistory_mortal
    (hpath : ∀ device time tag w,
      Path w (history device time tag w) ((wake device time tag).after w))
    (h : ∀ device time tag w, Mortal w (history device time tag w)) (w : World σ) :
    Mortal w (deliverHistory wake history p time { w with scheduler }) := by
  rw [deliverHistory]
  split
  · rename_i halive
    have hvisit : Mortal { w with scheduler }
        (visitHistory p.device (wake p.device time p.tag) (history p.device time p.tag)
          { w with scheduler }) :=
      visitHistory_mortal halive (h _ _ _ _) (hpath _ _ _ _)
    exact .cons_of_lifetimes_eq rfl hvisit
  · exact .single rfl

end World

/-- Whatever a program does, devices end for good and are buried at once. -/
theorem Program.mortal (p : Program σ α) (w : World σ) : Mortal w (p.history w) := by
  induction p generalizing w with
  | done a | halt cause | look f => exact .nil w
  | andThen p next ihp ihnext => exact Mortal.cumulative.andThen (ihp w) ihnext
  | attempt p ih => exact ih w
  | work act | ask _ _ act => exact .single (by rw [World.after_onDevices])
  | enroll ownsSyncPoints => exact World.enroll_mortal ownsSyncPoints w
  | drop device =>
    rw [history]
    split
    · refine World.loseHold_mortal device ?_ w
      intro l hl
      simp only [Lifetime.isAlive, Bool.or_eq_false_iff, true_and] at hl ⊢
      exact hl.2
    · exact .nil w
  | visit device p ih =>
    rw [history]
    split
    · rename_i halive
      exact World.visitHistory_mortal halive (ih _) (p.path _)
    · exact .nil w
  | register time device tag =>
    rw [history]
    split
    · exact .single rfl
    · exact .nil w
  | cancel device tag =>
    rw [history]
    split
    · exact .single rfl
    · exact .nil w
  | cancelAll device => exact .single rfl
  | setCurrentTime thread time => exact .single (by rw [World.after_onScheduler])
  | schedule wake steps thread limit ih =>
    have hpath := fun device time tag => (wake device time tag).path
    refine Mortal.cumulative.scheduleHistory hpath
      (fun _ => World.deliverHistory_mortal hpath ih _) (fun _ => .single ?_) (.single ?_)
      (fun _ _ _ => .single rfl) fun _ => .single rfl
    · rw [World.after_onScheduler]
    · rw [World.after_onScheduler]

theorem Mortal.hasEnded (h : Mortal w ms) (hd : w.hasEnded device = true) :
    ∀ m ∈ ms, m.world.hasEnded device = true := by
  induction ms generalizing w with
  | nil => exact List.forall_mem_nil _
  | cons m ms ih =>
    have hm := h.1.for_good device hd
    exact List.forall_mem_cons.mpr ⟨hm, ih h.2 hm⟩

theorem Mortal.upTo {past : List (Moment σ)} (h : Mortal w (past ++ ms)) :
    Mortal (w.upTo past) ms := by
  induction past generalizing w with
  | nil => exact h
  | cons n past ih => exact ih h.2

end Timebase
