import Timebase.Scheduler.Heap
import Timebase.Proofs.Queue

/-!
# The order of heaps

In a heap every place but the first is in order if what stands there does not come due before what
stands at its parent. A sync point that rises leaves one place out of order at a time, and one that
sinks the places of its children; what is around it is in order with what it changes places with.
-/

namespace Timebase
namespace Heap

variable {a b : Array SyncPoint} {p q : SyncPoint} {i j k n start : Nat}

theorem firstChild_cases (a : Array SyncPoint) (i : Nat) :
    firstChild a i = 2 * i + 1 ∨ firstChild a i = 2 * i + 2 := by
  unfold firstChild
  split
  · exact Or.inr rfl
  · exact Or.inl rfl

theorem parent_firstChild (a : Array SyncPoint) (i : Nat) : parent (firstChild a i) = i := by
  unfold parent
  rcases firstChild_cases a i with h | h <;> omega

theorem eq_child (h : parent j = i) (hj : 0 < j) : j = 2 * i + 1 ∨ j = 2 * i + 2 := by
  unfold parent at h
  omega

theorem firstChild_first (hj : 0 < j) (hsize : j < a.size) (h : parent j = i) :
    firstChild a i < a.size ∧ ¬ a[j]!.Before a[firstChild a i]! := by
  rw [firstChild]
  split
  · rename_i hright
    refine ⟨hright.1, ?_⟩
    rcases eq_child h hj with rfl | rfl
    · exact hright.2.asymm
    · exact SyncPoint.not_before_self _
  · rename_i hright
    rcases eq_child h hj with rfl | rfl
    · exact ⟨hsize, SyncPoint.not_before_self _⟩
    · exact ⟨by omega, fun hb => hright ⟨hsize, hb⟩⟩

theorem getElem!_swap (hi : i < a.size) (hj : j < a.size) (k : Nat) :
    (a.swapIfInBounds i j)[k]! = if k = i then a[j]! else if k = j then a[i]! else a[k]! := by
  rw [Array.swapIfInBounds_def, dif_pos hi, dif_pos hj]
  simp only [Array.getElem!_eq_getD, Array.getD_eq_getD_getElem?, Array.getElem?_swap,
    eq_comm (a := k)]
  by_cases hki : i = k
  · subst hki
    by_cases hji : j = i <;> simp [hji, hi, hj]
  · by_cases hkj : j = k <;> simp [hki, hkj, hi]

theorem getElem!_push (hj : j < a.size) : (a.push p)[j]! = a[j]! := by
  simp only [Array.getElem!_eq_getD, Array.getD_eq_getD_getElem?, Array.getElem?_push,
    Nat.ne_of_lt hj, if_false]

theorem getElem!_pop (hj : j < a.size - 1) : a.pop[j]! = a[j]! := by
  simp only [Array.getElem!_eq_getD, Array.getD_eq_getD_getElem?, Array.getElem?_pop, hj, if_true]

/-- What was in front is behind all the others before it is taken out. -/
theorem push_pop_swap (p : SyncPoint) (ps : List SyncPoint) :
    ((⟨p :: ps⟩ : Array SyncPoint).swapIfInBounds 0 ps.length).pop.push p =
      (⟨p :: ps⟩ : Array SyncPoint).swapIfInBounds 0 ps.length := by
  have hback : ((⟨p :: ps⟩ : Array SyncPoint).swapIfInBounds 0 ps.length).back! = p := by
    rw [Array.back!, Array.size_swapIfInBounds, getElem!_swap (by simp) (by simp)]
    cases ps <;> simp
  have hne : ((⟨p :: ps⟩ : Array SyncPoint).swapIfInBounds 0 ps.length).size ≠ 0 := by simp
  have h := Array.eq_push_pop_back!_of_size_ne_zero hne
  rw [hback] at h
  exact h.symm

theorem swap_perm (a : Array SyncPoint) (i j : Nat) : (a.swapIfInBounds i j).Perm a := by
  rw [Array.swapIfInBounds_def]
  split
  · split
    · exact Array.swap_perm _ _
    · exact .refl a
  · exact .refl a

/-- What stands at a place does not come due before what stands at its parent. -/
def InOrder (a : Array SyncPoint) (i : Nat) : Prop := ¬ a[i]!.Before a[parent i]!

/-- All places are in order up to some place. -/
def OrderedBelow (n : Nat) (a : Array SyncPoint) : Prop := ∀ i, 0 < i → i < n → InOrder a i

abbrev Ordered (a : Array SyncPoint) : Prop := OrderedBelow a.size a

theorem OrderedBelow.not_before_front (h : OrderedBelow n a) (hi : i < n) :
    ¬ a[i]!.Before a[0]! := by
  induction i using Nat.strongRecOn with
  | ind i ih =>
    by_cases hpos : 0 < i
    · have hparent := parent_lt hpos
      exact SyncPoint.not_before_trans (ih (parent i) hparent (by omega)) (h i hpos hi)
    · obtain rfl : i = 0 := by omega
      exact SyncPoint.not_before_self _

theorem Ordered.not_before_front (h : Ordered a) (hp : p ∈ a) : ¬ p.Before a[0]! := by
  obtain ⟨i, hi, rfl⟩ := Array.mem_iff_getElem.mp hp
  rw [← getElem!_pos a i hi]
  exact OrderedBelow.not_before_front h hi

section Rising

/-- All is in order but perhaps one place, and its children are in order with its parent. -/
structure Rising (n i : Nat) (a : Array SyncPoint) : Prop where
  size : n ≤ a.size
  other : ∀ j, 0 < j → j < n → j ≠ i → InOrder a j
  children : 0 < i → ∀ j, 0 < j → j < n → parent j = i → ¬ a[j]!.Before a[parent i]!

theorem Rising.swap (h : Rising n i a) (hi : 0 < i) (hn : i < n)
    (hb : a[i]!.Before a[parent i]!) :
    Rising n (parent i) (a.swapIfInBounds i (parent i)) := by
  have hparent := parent_lt hi
  have hsize := h.size
  have hget := getElem!_swap (a := a) (i := i) (j := parent i) (by omega) (by omega)
  refine ⟨by rwa [Array.size_swapIfInBounds], ?_, ?_⟩
  · intro j hj hjn hne
    have hjparent := parent_lt hj
    rw [InOrder, hget, hget]
    by_cases hji : j = i
    · subst hji
      rw [if_pos rfl, if_neg (by omega), if_pos rfl]
      exact hb.asymm
    · rw [if_neg hji, if_neg hne]
      by_cases hchild : parent j = i
      · rw [if_pos hchild]
        exact h.children hi j hj hjn hchild
      · rw [if_neg hchild]
        split
        -- a sibling of the place comes due after its parent, and so after what rises
        · rename_i hsibling
          have hj := h.other j hj hjn hji
          rw [InOrder, hsibling] at hj
          exact fun hbefore => hj (hbefore.trans hb)
        · exact h.other j hj hjn hji
  · intro hpos j hj hjn hchild
    have hgrand := parent_lt hpos
    have hup := h.other (parent i) hpos (by omega) (by omega)
    rw [hget, hget (parent (parent i)), if_neg (by omega : parent (parent i) ≠ i),
      if_neg (by omega : parent (parent i) ≠ parent i)]
    have hjparent := parent_lt hj
    by_cases hji : j = i
    · rw [if_pos hji]
      exact hup
    · rw [if_neg hji, if_neg (by omega)]
      have hj := h.other j hj hjn hji
      rw [InOrder, hchild] at hj
      exact SyncPoint.not_before_trans hup hj

theorem Rising.done (h : Rising n i a) (hi : 0 < i → InOrder a i) : OrderedBelow n a := by
  intro j hj hjn
  by_cases hji : j = i
  · exact hji ▸ hi (hji ▸ hj)
  · exact h.other j hj hjn hji

theorem siftUp_spec (h : Rising n i a) (hn : i < n) :
    OrderedBelow n (siftUp a i) ∧ (siftUp a i).Perm a := by
  fun_induction siftUp a i with
  | case1 a i hrises _ ih =>
    obtain ⟨hordered, hperm⟩ := ih (h.swap hrises.1 hn hrises.2) (by omega)
    exact ⟨hordered, hperm.trans (swap_perm a i (parent i))⟩
  | case2 a i hrises => exact ⟨h.done fun hi hb => hrises ⟨hi, hb⟩, .refl a⟩

end Rising

section Sinking

/-- All is in order whose parent does not stand before a place, but perhaps the children of another
one, and they are in order with its parent. -/
structure Sinking (k i : Nat) (a : Array SyncPoint) : Prop where
  place : k ≤ i
  other : ∀ j, 0 < j → j < a.size → k ≤ parent j → parent j ≠ i → InOrder a j
  children : 0 < i → k ≤ parent i → ∀ j, 0 < j → j < a.size → parent j = i →
    ¬ a[j]!.Before a[parent i]!

/-- All is in order whose parent does not stand before a place. -/
def OrderedFrom (k : Nat) (a : Array SyncPoint) : Prop :=
  ∀ j, 0 < j → j < a.size → k ≤ parent j → InOrder a j

theorem OrderedFrom.ordered (h : OrderedFrom 0 a) : Ordered a :=
  fun j hj hsize => h j hj hsize (Nat.zero_le _)

theorem OrderedFrom.sinking (h : OrderedFrom (k + 1) a) : Sinking k k a := by
  refine ⟨Nat.le_refl k, fun j hj hsize hk hne => h j hj hsize (by omega), fun hpos hk => ?_⟩
  have hparent := parent_lt hpos
  omega

theorem Sinking.swap (h : Sinking k i a) (hsize : firstChild a i < a.size)
    (hb : a[firstChild a i]!.Before a[i]!) :
    Sinking k (firstChild a i) (a.swapIfInBounds i (firstChild a i)) := by
  have hplace := h.place
  have hlt := lt_firstChild a i
  have hget := getElem!_swap (a := a) (i := i) (j := firstChild a i) (by omega) hsize
  refine ⟨by omega, ?_, ?_⟩
  · intro j hj hjsize hk hne
    rw [Array.size_swapIfInBounds] at hjsize
    have hjparent := parent_lt hj
    rw [InOrder, hget, hget]
    by_cases hji : j = i
    · subst hji
      rw [if_pos rfl, if_neg (by omega), if_neg (by omega)]
      exact h.children hj hk (firstChild a j) (by omega) hsize (parent_firstChild a j)
    · rw [if_neg hji]
      by_cases hchild : parent j = i
      · rw [if_pos hchild]
        split
        · exact hb.asymm
        · exact (firstChild_first hj hjsize hchild).2
      · rw [if_neg hchild, if_neg hne]
        have hjc : j ≠ firstChild a i := fun hjc => hchild (hjc ▸ parent_firstChild a i)
        rw [if_neg hjc]
        exact h.other j hj hjsize hk hchild
  · intro hpos hk j hj hjsize hchild
    rw [Array.size_swapIfInBounds] at hjsize
    have hjparent := parent_lt hj
    rw [parent_firstChild, hget, hget i, if_pos rfl, if_neg (by omega), if_neg (by omega)]
    have hj := h.other j hj hjsize (by omega) (by omega)
    rwa [InOrder, hchild] at hj

theorem Sinking.done (h : Sinking k i a)
    (hi : firstChild a i < a.size → ¬ a[firstChild a i]!.Before a[i]!) : OrderedFrom k a := by
  intro j hj hsize hk
  by_cases hchild : parent j = i
  · obtain ⟨hfirst, hle⟩ := firstChild_first hj hsize hchild
    rw [InOrder, hchild]
    exact SyncPoint.not_before_trans (hi hfirst) hle
  · exact h.other j hj hsize hk hchild

theorem siftDown_spec (h : Sinking k i a) :
    OrderedFrom k (siftDown a i) ∧ (siftDown a i).Perm a := by
  fun_induction siftDown a i with
  | case1 a i hsinks _ ih =>
    obtain ⟨hordered, hperm⟩ := ih (h.swap hsinks.1 hsinks.2)
    exact ⟨hordered, hperm.trans (swap_perm a i (firstChild a i))⟩
  | case2 a i hsinks => exact ⟨h.done fun hsize hb => hsinks ⟨hsize, hb⟩, .refl a⟩

theorem rebuildBelow_spec (h : OrderedFrom n a) :
    Ordered (rebuildBelow n a) ∧ (rebuildBelow n a).Perm a := by
  induction n generalizing a with
  | zero => exact ⟨h.ordered, .refl a⟩
  | succ n ih =>
    obtain ⟨hfrom, hperm⟩ := siftDown_spec h.sinking
    obtain ⟨hordered, hperm'⟩ := ih hfrom
    exact ⟨hordered, hperm'.trans hperm⟩

end Sinking

/-- One place after the other is put in order. -/
theorem foldl_siftUp_spec (h : OrderedBelow start a) (hsize : start + n = a.size) :
    Ordered ((List.range' start n).foldl siftUp a) ∧
      ((List.range' start n).foldl siftUp a).Perm a := by
  induction n generalizing start a with
  | zero =>
    obtain rfl : start = a.size := hsize
    exact ⟨h, .refl a⟩
  | succ n ih =>
    have hrising : Rising (start + 1) start a := by
      refine ⟨by omega, fun j hj hjn hne => h j hj (by omega), fun hpos j hj hjn hchild => ?_⟩
      have hparent := parent_lt hj
      omega
    obtain ⟨hordered, hperm⟩ := siftUp_spec hrising (Nat.lt_succ_self start)
    have hsame := hperm.size_eq
    obtain ⟨hordered', hperm'⟩ := ih hordered (by omega)
    exact ⟨hordered', hperm'.trans hperm⟩

theorem repair_spec (h : OrderedBelow start a) (hsize : start ≤ a.size) :
    Ordered (repair a start) ∧ (repair a start).Perm a := by
  rw [repair]
  split
  · apply rebuildBelow_spec
    intro j hj hjsize hk
    unfold parent at hk
    omega
  · exact foldl_siftUp_spec h (by omega)

theorem push_spec (h : Ordered a) (p : SyncPoint) :
    Ordered (push a p) ∧ (push a p).toList.Perm (p :: a.toList) := by
  have hrising : Rising (a.push p).size a.size (a.push p) := by
    rw [Array.size_push]
    refine ⟨Nat.le_of_eq (Array.size_push p).symm, fun j hj hjn hne => ?_,
      fun hpos j hj hjn hchild => ?_⟩
    · have hparent := parent_lt hj
      rw [InOrder, getElem!_push (by omega), getElem!_push (by omega)]
      exact h j hj (by omega)
    · have hparent := parent_lt hj
      omega
  obtain ⟨hordered, hperm⟩ := siftUp_spec hrising (by rw [Array.size_push]; omega)
  have hsize := hperm.size_eq
  have hlist := hperm.toList
  rw [Array.toList_push] at hlist
  refine ⟨?_, hlist.trans (List.perm_append_singleton p a.toList)⟩
  rw [push, Ordered, hsize]
  exact hordered

theorem pop_spec (h : Ordered a) :
    Ordered (pop a) ∧ (pop a).toList.Perm a.toList.tail := by
  have hfrom : OrderedFrom (0 + 1) (a.swapIfInBounds 0 (a.size - 1)).pop := by
    intro j hj hjsize hk
    have hparent := parent_lt hj
    rw [Array.size_pop, Array.size_swapIfInBounds] at hjsize
    have hsize : (a.swapIfInBounds 0 (a.size - 1)).size = a.size := Array.size_swapIfInBounds
    have hget := getElem!_swap (a := a) (i := 0) (j := a.size - 1) (by omega) (by omega)
    rw [InOrder, getElem!_pop (by omega), getElem!_pop (by omega), hget, hget,
      if_neg (by omega), if_neg (by omega), if_neg (by omega), if_neg (by omega)]
    exact h j hj (by omega)
  obtain ⟨hordered, hperm⟩ := siftDown_spec hfrom.sinking
  refine ⟨hordered.ordered, hperm.toList.trans ?_⟩
  match a with
  | ⟨[]⟩ => exact .refl _
  | ⟨p :: ps⟩ =>
    have hall := (swap_perm ⟨p :: ps⟩ 0 ps.length).toList
    rw [← push_pop_swap, Array.toList_push] at hall
    exact ((List.perm_append_singleton _ _).symm.trans hall).cons_inv

theorem OrderedBelow.of_take (h : OrderedBelow n a)
    (htake : b.toList.take n = a.toList.take n) : OrderedBelow n b := by
  have hget {j : Nat} (hj : j < n) : b[j]! = a[j]! := by
    have hj := congrArg (fun ps => ps[j]?.getD default) htake
    simp only [List.getElem?_take_of_lt ‹j < n›, Array.getElem?_toList] at hj
    rwa [getElem!_def, getElem!_def]
  intro j hj hjn
  have hparent := parent_lt hj
  rw [InOrder, hget hjn, hget (by omega)]
  exact h j hj hjn

theorem take_eraseP (kind : SyncPoint → Bool) (ps : List SyncPoint) :
    (ps.eraseP kind).take (ps.findIdx kind) = ps.take (ps.findIdx kind) := by
  induction ps with
  | nil => rfl
  | cons p ps ih =>
    by_cases hp : kind p = true
    · simp [List.findIdx_cons, hp]
    · simp [List.findIdx_cons, hp, ih]

theorem take_filter (kind : SyncPoint → Bool) (ps : List SyncPoint) :
    (ps.filter fun p => !kind p).take (ps.findIdx kind) = ps.take (ps.findIdx kind) := by
  induction ps with
  | nil => rfl
  | cons p ps ih =>
    by_cases hp : kind p = true
    · simp [List.findIdx_cons, hp]
    · simp [List.findIdx_cons, hp, ih]

/-- What is left keeps its place up to the first that is taken out. -/
theorem repair_of_take {ps : List SyncPoint} (h : Ordered a) (hstart : start ≤ a.size)
    (htake : ps.take start = a.toList.take start) :
    Ordered (repair ps.toArray start) ∧ (repair ps.toArray start).toList.Perm ps := by
  have hbelow : OrderedBelow start ps.toArray :=
    OrderedBelow.of_take (a := a) (fun j hj hjn => h j hj (by omega)) htake
  have hsize : start ≤ ps.toArray.size := by
    have hlength := congrArg List.length htake
    have hlist : a.toList.length = a.size := rfl
    rw [List.length_take, List.length_take] at hlength
    show start ≤ ps.length
    omega
  obtain ⟨hordered, hperm⟩ := repair_spec hbelow hsize
  exact ⟨hordered, hperm.toList⟩

theorem removeOne_spec (h : Ordered a) (kind : SyncPoint → Bool) :
    Ordered (removeOne kind a) ∧ (removeOne kind a).toList.Perm (a.toList.eraseP kind) :=
  repair_of_take h List.findIdx_le_length (take_eraseP kind a.toList)

theorem removeAll_spec (h : Ordered a) (kind : SyncPoint → Bool) :
    Ordered (removeAll kind a) ∧
      (removeAll kind a).toList.Perm (a.toList.filter fun p => !kind p) :=
  repair_of_take h List.findIdx_le_length (take_filter kind a.toList)

end Heap
end Timebase
