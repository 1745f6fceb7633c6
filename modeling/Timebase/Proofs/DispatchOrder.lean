import Timebase.Proofs.Conservation

/-!
# The order of delivery

Whatever is registered and taken back on the way, two sync points that are pending together are
taken in the order of their instants, and in the order of their registration where these are equal.
-/

namespace Timebase

variable {σ α : Type} {w w₀ v : World σ} {e : Event} {ms : List (Moment σ)} {x y : SyncPoint}
  {f : Event → List SyncPoint} {i j k : Nat}

/-- The change with an index tells of a sync point. -/
def Tells (f : Event → List SyncPoint) (ms : List (Moment σ)) (k : Nat) (x : SyncPoint) : Prop :=
  ∃ m, ms[k]? = some m ∧ x ∈ f m.event

instance (f : Event → List SyncPoint) (ms : List (Moment σ)) (k : Nat) (x : SyncPoint) :
    Decidable (Tells f ms k x) :=
  decidable_of_iff (x ∈ gather f ms[k]?.toList) (by simp [Tells, gather])

namespace Tells

theorem zero_iff {m : Moment σ} : Tells f (m :: ms) 0 x ↔ x ∈ f m.event := by
  simp [Tells]

theorem succ_iff {m : Moment σ} : Tells f (m :: ms) (k + 1) x ↔ Tells f ms k x := by
  simp [Tells]

theorem not_nil (h : Tells f ([] : List (Moment σ)) k x) : False := by
  obtain ⟨m, hm, -⟩ := h
  cases hm

theorem mem_gather (h : Tells f ms k x) : x ∈ gather f ms := by
  obtain ⟨m, hm, hx⟩ := h
  exact List.mem_flatMap.mpr ⟨m, List.mem_of_getElem? hm, hx⟩

theorem of_mem_gather (h : x ∈ gather f ms) : ∃ k, Tells f ms k x := by
  obtain ⟨m, hm, hx⟩ := List.mem_flatMap.mp h
  obtain ⟨k, hk⟩ := List.mem_iff_getElem?.mp hm
  exact ⟨k, m, hk, hx⟩

/-- Where a change tells of one sync point at most, an index stands for one. -/
theorem unique (hf : ∀ e, ∀ x ∈ f e, ∀ y ∈ f e, x = y) (hx : Tells f ms k x)
    (hy : Tells f ms k y) : x = y := by
  obtain ⟨m, hm, hx⟩ := hx
  obtain ⟨n, hn, hy⟩ := hy
  rw [hm] at hn
  cases hn
  exact hf m.event x hx y hy

end Tells

namespace Event

theorem taken_unique (e : Event) : ∀ x ∈ e.taken, ∀ y ∈ e.taken, x = y := by
  intro x hx y hy
  cases e <;> simp_all [taken, delivered, passedOver]

theorem entered_unique (e : Event) : ∀ x ∈ e.entered, ∀ y ∈ e.entered, x = y := by
  intro x hx y hy
  cases e <;> simp_all [entered]

end Event

theorem Step.taken_head (h : Step w e v) (hx : x ∈ e.taken) :
    w.scheduler.queue = x :: v.scheduler.queue := by
  cases h with
  | wake h _ | skip h _ =>
    rw [List.mem_singleton.mp hx]
    exact Scheduler.queue_takeDue h
  | _ => cases hx

theorem Step.mem_queue (h : Step w e v) (hx : x ∈ v.scheduler.queue) :
    x ∈ w.scheduler.queue ∨ x ∈ e.entered := by
  have hbalance := h.balance x
  have hpos := List.count_pos_iff.mpr hx
  by_cases hw : x ∈ w.scheduler.queue
  · exact Or.inl hw
  · have hzero := List.count_eq_zero.mpr hw
    exact Or.inr (List.count_pos_iff.mp (by omega))

theorem Step.entered_seq (h : Step w e v) (hx : x ∈ e.entered) :
    w.scheduler.nextSeq ≤ x.seq ∧ x.seq < v.scheduler.nextSeq := by
  obtain ⟨hnext, hseq⟩ := h.numbered
  have hmem : x.seq ∈ e.entered.map SyncPoint.seq := List.mem_map_of_mem hx
  rw [hseq, List.mem_range'_1] at hmem
  rw [hnext]
  exact hmem

namespace Path

/-- What was registered before and is taken later is pending in between. -/
theorem mem_queue_of_taken (path : Path w ms v) (hseq : x.seq < w.scheduler.nextSeq)
    (hx : Tells Event.taken ms k x) : x ∈ w.scheduler.queue := by
  induction path generalizing k with
  | nil => exact hx.not_nil.elim
  | @cons w v m ms step _ ih =>
    cases k with
    | zero =>
      rw [step.taken_head (Tells.zero_iff.mp hx)]
      exact List.mem_cons_self
    | succ k =>
      have hnext := step.numbered.1
      have hlater := ih (by omega) (Tells.succ_iff.mp hx)
      rcases step.mem_queue hlater with hw | he
      · exact hw
      · exact absurd (step.entered_seq he).1 (Nat.not_le.mpr hseq)

/-- Of two pending sync points the one that is taken first comes before the other. -/
theorem before_of_taken (path : Path w ms v)
    (hx : x ∈ w.scheduler.queue) (hy : y ∈ w.scheduler.queue) (hj : Tells Event.taken ms j x)
    (hk : Tells Event.taken ms k y) (h : j < k) : x.Before y := by
  induction path generalizing j k with
  | nil => exact hj.not_nil.elim
  | @cons w v m ms step rest ih =>
    obtain ⟨k, rfl⟩ : ∃ k', k = k' + 1 := ⟨k - 1, by omega⟩
    have hnext := step.numbered.1
    have hk := Tells.succ_iff.mp hk
    have hyfresh := w.scheduler.seq_lt_nextSeq hy
    have hy' : y ∈ m.world.scheduler.queue := rest.mem_queue_of_taken (by omega) hk
    cases j with
    | zero =>
      have hsorted := w.scheduler.sorted_queue
      rw [step.taken_head (Tells.zero_iff.mp hj)] at hsorted
      exact (List.pairwise_cons.mp hsorted).1 y hy'
    | succ j =>
      have hj := Tells.succ_iff.mp hj
      have hxfresh := w.scheduler.seq_lt_nextSeq hx
      have hx' : x ∈ m.world.scheduler.queue := rest.mem_queue_of_taken (by omega) hj
      exact ih hx' hy' hj hk (by omega)

theorem entered_seq (path : Path w ms v) (hx : Tells Event.entered ms k x) :
    w.scheduler.nextSeq ≤ x.seq := by
  have hmem : x.seq ∈ (gather Event.entered ms).map SyncPoint.seq :=
    List.mem_map_of_mem hx.mem_gather
  rw [path.numbered.2, List.mem_range'_1] at hmem
  exact hmem.1

theorem seq_lt_of_entered (path : Path w ms v) (hi : Tells Event.entered ms i x)
    (hj : Tells Event.entered ms j y) (h : i < j) : x.seq < y.seq := by
  induction path generalizing i j with
  | nil => exact hi.not_nil.elim
  | @cons w v m ms step rest ih =>
    obtain ⟨j, rfl⟩ : ∃ j', j = j' + 1 := ⟨j - 1, by omega⟩
    have hj := Tells.succ_iff.mp hj
    cases i with
    | zero =>
      have hx := (step.entered_seq (Tells.zero_iff.mp hi)).2
      have hy := rest.entered_seq hj
      omega
    | succ i => exact ih (Tells.succ_iff.mp hi) hj (by omega)

theorem entered_lt_iff (path : Path w ms v) (hi : Tells Event.entered ms i x)
    (hj : Tells Event.entered ms j y) : i < j ↔ x.seq < y.seq := by
  constructor
  · exact path.seq_lt_of_entered hi hj
  · intro h
    rcases Nat.lt_trichotomy i j with hlt | rfl | hlt
    · exact hlt
    · rw [hi.unique Event.entered_unique hj] at h
      exact absurd h (Nat.lt_irrefl _)
    · have hyx := path.seq_lt_of_entered hj hi hlt
      omega

theorem taken_lt_iff (path : Path w ms v) (hx : x ∈ w.scheduler.queue)
    (hy : y ∈ w.scheduler.queue) (hj : Tells Event.taken ms j x) (hk : Tells Event.taken ms k y) :
    j < k ↔ x.Before y := by
  constructor
  · exact path.before_of_taken hx hy hj hk
  · intro h
    rcases Nat.lt_trichotomy j k with hlt | rfl | hlt
    · exact hlt
    · exact absurd (hj.unique Event.taken_unique hk) h.ne
    · exact absurd (path.before_of_taken hy hx hk hj hlt) h.asymm

end Path

/-- Two sync points that are pending together are taken by instant and then by registration, the
earliest opportunity before every finite instant. -/
theorem taken_in_order {t : Instant} (h₀ : w₀.scheduler = Scheduler.start t) (p : Program σ α)
    {past future : List (Moment σ)} (h : p.history w₀ = past ++ future)
    (hx : x ∈ (w₀.upTo past).scheduler.queue) (hy : y ∈ (w₀.upTo past).scheduler.queue)
    (hj : Tells Event.taken future j x) (hk : Tells Event.taken future k y) :
    (∃ a b, Tells Event.entered past a x ∧ Tells Event.entered past b y) ∧
    (∀ a b, Tells Event.entered past a x → Tells Event.entered past b y →
      (j < k ↔ x.time < y.time ∨ x.time = y.time ∧ a < b)) ∧
    (x.time = .asap → y.time ≠ .asap → j < k) := by
  obtain ⟨first, second⟩ := p.path_upTo h
  have hqueue : w₀.scheduler.queue = [] := by rw [h₀]; rfl
  have hregistered : ∀ z ∈ (w₀.upTo past).scheduler.queue, ∃ a, Tells Event.entered past a z := by
    intro z hz
    apply Tells.of_mem_gather
    have hone := first.one_place hqueue z
    have hpos := List.count_pos_iff.mpr hz
    split at hone
    · assumption
    · omega
  have hlt := second.taken_lt_iff hx hy hj hk
  refine ⟨?_, ?_, ?_⟩
  · obtain ⟨a, ha⟩ := hregistered x hx
    obtain ⟨b, hb⟩ := hregistered y hy
    exact ⟨a, b, ha, hb⟩
  · intro a b ha hb
    rw [hlt, first.entered_lt_iff ha hb]
    exact Iff.rfl
  · intro hxa hya
    apply hlt.mpr
    apply Or.inl
    rw [hxa]
    exact Instant.asap_lt hya

/-- Three wake-ups of one device, two at one instant and the last at the earliest opportunity. -/
def threeWakeUps : Program Unit Unit :=
  .andThen (.enroll true) fun device =>
    .andThen (.register (.wrap 5) device 0) fun _ =>
      .andThen (.register (.wrap 5) device 1) fun _ =>
        .andThen (.register .asap device 2) fun _ =>
          .schedule (fun _ _ _ => .done ()) 4 0 (.wrap 9)

theorem taken_in_order_tie :
    ∃ j k, j < k ∧
      Tells Event.taken ((threeWakeUps.history (.ofScheduler .new ())).drop 4) j
        ⟨.wrap 5, 0, 0, 0⟩ ∧
      Tells Event.taken ((threeWakeUps.history (.ofScheduler .new ())).drop 4) k
        ⟨.wrap 5, 0, 1, 1⟩ := by
  have h₀ : (World.ofScheduler .new () : World Unit).scheduler = .start .zero := rfl
  have hj : Tells Event.taken ((threeWakeUps.history (.ofScheduler .new ())).drop 4) 5
      ⟨.wrap 5, 0, 0, 0⟩ := by decide
  have hk : Tells Event.taken ((threeWakeUps.history (.ofScheduler .new ())).drop 4) 9
      ⟨.wrap 5, 0, 1, 1⟩ := by decide
  have h := taken_in_order h₀ threeWakeUps (List.take_append_drop 4 _).symm (by decide) (by decide)
    hj hk
  exact ⟨5, 9, (h.2.1 1 2 (by decide) (by decide)).mpr (by decide), hj, hk⟩

end Timebase
