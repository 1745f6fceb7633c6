import Mathlib.Data.List.TakeWhile
import Timebase.Property

/-!
# The flat list of a property tree

The outermost level is told apart by its empty prefix, so empty names in front are dropped and those
further inside are kept. Apart from that the flat list is the depth-first walk over the tree: each
property that is not a group is told once, where it stands in the order of addresses.
-/

namespace Timebase.Property

variable {i j : Nat} {a address : List Nat} {names : List String} {name outer : String}
  {p q : Property} {ps qs members : List Property}

def isGroup : Property → Bool
  | .group _ _ => true
  | _ => false

/-- Where an address leads, index by index, and the names on the way. -/
inductive Leads : List Property → List Nat → List String → Property → Prop where
  | here {ps : List Property} {i : Nat} {p : Property} (h : ps[i]? = some p) :
      Leads ps [i] [p.name] p
  | inside {ps members : List Property} {i : Nat} {name : String} {address : List Nat}
      {names : List String} {p : Property} (h : ps[i]? = some (.group name members))
      (h' : Leads members address names p) : Leads ps (i :: address) (name :: names) p

/-- The names on the way to a property as one name. -/
def title (names : List String) : String := " / ".intercalate (names.dropWhile String.isEmpty)

/-- A property that is told, and where it stands. -/
structure Visit where
  address : List Nat
  names : List String
  property : Property

namespace Visit

def entry (v : Visit) : String × String := (title v.names, v.property.text)

/-- What stands inside a group, seen from outside. -/
def within (i : Nat) (name : String) (v : Visit) : Visit :=
  ⟨i :: v.address, name :: v.names, v.property⟩

end Visit

theorem title_of_ne (h : name ≠ "") :
    title (name :: names) = " / ".intercalate (name :: names) := by
  rw [title, List.dropWhile_cons_of_neg]
  exact fun hempty => h (String.isEmpty_iff.mp hempty)

theorem title_singleton (name : String) : title [name] = name := by
  by_cases h : name = ""
  · rw [h]
    rfl
  · rw [title_of_ne h, String.intercalate_singleton]

theorem intercalate_ne_empty (sep : String) (h : name ≠ "") (names : List String) :
    sep.intercalate (name :: names) ≠ "" := by
  cases names with
  | nil => rwa [String.intercalate_singleton]
  | cons second rest =>
    rw [String.intercalate_cons_cons, String.append_assoc]
    exact fun hempty => h (String.append_eq_empty_iff.mp hempty).1

theorem title_eq_empty_iff : title names = "" ↔ ∀ name ∈ names, name.isEmpty := by
  induction names with
  | nil => exact ⟨fun _ _ hname => absurd hname List.not_mem_nil, fun _ => rfl⟩
  | cons first rest ih =>
    rw [List.forall_mem_cons, ← ih]
    by_cases hfirst : first = ""
    · rw [hfirst]
      exact ⟨fun h => ⟨rfl, h⟩, fun h => h.2⟩
    · rw [title_of_ne hfirst]
      exact ⟨fun h => absurd h (intercalate_ne_empty _ hfirst rest),
        fun h => absurd (String.isEmpty_iff.mp h.1) hfirst⟩

theorem path_title (outer : List String) (name : String) :
    path (title outer) name = title (outer ++ [name]) := by
  rw [path]
  by_cases h : ∀ name ∈ outer, name.isEmpty
  · have hempty : (title outer).isEmpty = true := String.isEmpty_iff.mpr (title_eq_empty_iff.mpr h)
    rw [if_pos hempty, title, List.dropWhile_append_of_pos h, ← title, title_singleton]
  · have hnamed : outer.dropWhile String.isEmpty ≠ [] := fun hnil =>
      h (List.dropWhile_eq_nil_iff.mp hnil)
    have hshown : ¬ (title outer).isEmpty = true := fun hempty =>
      h (title_eq_empty_iff.mp (String.isEmpty_iff.mp hempty))
    rw [if_neg hshown, title, title, List.dropWhile_append,
      if_neg (fun hnil => hnamed (List.isEmpty_iff.mp hnil)),
      String.intercalate_append_of_ne_nil hnamed (List.cons_ne_nil _ _),
      String.intercalate_singleton]

mutual

/-- The walk over the property with an index. -/
def visits (i : Nat) : Property → List Visit
  | .group name members => (visitsFrom 0 members).map (Visit.within i name)
  | .flag name value => [⟨[i], [name], .flag name value⟩]
  | .count name value => [⟨[i], [name], .count name value⟩]
  | .time name value => [⟨[i], [name], .time name value⟩]

/-- The walk over properties with successive indices. -/
def visitsFrom (i : Nat) : List Property → List Visit
  | [] => []
  | p :: rest => visits i p ++ visitsFrom (i + 1) rest

end

theorem visits_of_not_isGroup (h : p.isGroup = false) (i : Nat) :
    visits i p = [⟨[i], [p.name], p⟩] := by
  cases p with
  | group name members => cases h
  | flag name value => rw [visits, Property.name]
  | count name value => rw [visits, Property.name]
  | time name value => rw [visits, Property.name]

mutual

theorem entries_title (outer : List String) (i : Nat) : ∀ p : Property,
    entries (title outer) p =
      (visits i p).map fun v => (title (outer ++ v.names), v.property.text)
  | .group name members => by
    rw [entries, path_title, entriesOf_title _ 0 members, visits, List.map_map]
    refine List.map_congr_left fun v _ => ?_
    show (title (outer ++ [name] ++ v.names), _) = (title (outer ++ (name :: v.names)), _)
    rw [List.append_assoc, List.singleton_append]
    rfl
  | .flag name value => by
    rw [entries, path_title, visits]
    rfl
  | .count name value => by
    rw [entries, path_title, visits]
    rfl
  | .time name value => by
    rw [entries, path_title, visits]
    rfl

theorem entriesOf_title (outer : List String) (i : Nat) : ∀ ps : List Property,
    entriesOf (title outer) ps =
      (visitsFrom i ps).map fun v => (title (outer ++ v.names), v.property.text)
  | [] => by rw [entriesOf, visitsFrom, List.map_nil]
  | p :: rest => by
    rw [entriesOf, entries_title outer i p, entriesOf_title outer (i + 1) rest, visitsFrom,
      List.map_append]

end

theorem address_of_mem_visits {v : Visit} (h : v ∈ visits i p) : ∃ a, v.address = i :: a := by
  cases hp : p.isGroup with
  | false =>
    rw [visits_of_not_isGroup hp, List.mem_singleton] at h
    exact ⟨[], by rw [h]⟩
  | true =>
    cases p with
    | group name members =>
      rw [visits, List.mem_map] at h
      obtain ⟨w, -, rfl⟩ := h
      exact ⟨w.address, rfl⟩
    | flag | count | time => cases hp

theorem address_of_mem_visitsFrom {v : Visit} (h : v ∈ visitsFrom i ps) :
    ∃ j a, i ≤ j ∧ v.address = j :: a := by
  induction ps generalizing i with
  | nil =>
    rw [visitsFrom] at h
    exact absurd h List.not_mem_nil
  | cons p rest ih =>
    rw [visitsFrom, List.mem_append] at h
    rcases h with h | h
    · obtain ⟨a, ha⟩ := address_of_mem_visits h
      exact ⟨i, a, Nat.le_refl i, ha⟩
    · obtain ⟨j, a, hj, ha⟩ := ih h
      exact ⟨j, a, by omega, ha⟩

/-- Visits in the order of their addresses. -/
def Ascending (vs : List Visit) : Prop := vs.Pairwise fun v w => v.address < w.address

mutual

theorem ascending_visits (i : Nat) : ∀ p : Property, Ascending (visits i p)
  | .group name members => by
    rw [visits, Ascending, List.pairwise_map]
    exact (ascending_visitsFrom 0 members).imp fun h => List.cons_lt_cons_iff.mpr (Or.inr ⟨rfl, h⟩)
  | .flag _ _ => List.pairwise_singleton _ _
  | .count _ _ => List.pairwise_singleton _ _
  | .time _ _ => List.pairwise_singleton _ _

theorem ascending_visitsFrom (i : Nat) : ∀ ps : List Property, Ascending (visitsFrom i ps)
  | [] => List.Pairwise.nil
  | p :: rest => by
    rw [visitsFrom, Ascending, List.pairwise_append]
    refine ⟨ascending_visits i p, ascending_visitsFrom (i + 1) rest, ?_⟩
    intro v hv w hw
    obtain ⟨a, hfirst⟩ := address_of_mem_visits hv
    obtain ⟨j, b, hj, hlater⟩ := address_of_mem_visitsFrom hw
    rw [hfirst, hlater]
    exact List.cons_lt_cons_iff.mpr (Or.inl hj)

end

mutual

theorem leads_of_mem_visits {i : Nat} {ps : List Property} {v : Visit} : ∀ p : Property,
    ps[i]? = some p → v ∈ visits i p →
      Leads ps v.address v.names v.property ∧ v.property.isGroup = false
  | .group name members, hp, hv => by
    rw [visits, List.mem_map] at hv
    obtain ⟨w, hw, rfl⟩ := hv
    have hled : Leads members _ _ _ ∧ _ := leads_of_mem_visitsFrom members
      (fun j q hq => (Nat.zero_add j).symm ▸ hq) hw
    exact ⟨.inside hp hled.1, hled.2⟩
  | .flag name value, hp, hv => by
    rw [visits, List.mem_singleton] at hv
    rw [hv]
    exact ⟨.here hp, rfl⟩
  | .count name value, hp, hv => by
    rw [visits, List.mem_singleton] at hv
    rw [hv]
    exact ⟨.here hp, rfl⟩
  | .time name value, hp, hv => by
    rw [visits, List.mem_singleton] at hv
    rw [hv]
    exact ⟨.here hp, rfl⟩

theorem leads_of_mem_visitsFrom {i : Nat} {ps : List Property} {v : Visit} :
    ∀ rest : List Property, (∀ j q, rest[j]? = some q → ps[i + j]? = some q) →
      v ∈ visitsFrom i rest →
        Leads ps v.address v.names v.property ∧ v.property.isGroup = false
  | [], _, hv => by
    rw [visitsFrom] at hv
    exact absurd hv List.not_mem_nil
  | p :: rest, hps, hv => by
    rw [visitsFrom, List.mem_append] at hv
    rcases hv with hv | hv
    · exact leads_of_mem_visits p (hps 0 p rfl) hv
    · refine leads_of_mem_visitsFrom rest (fun j q hq => ?_) hv
      rw [Nat.add_right_comm]
      exact hps (j + 1) q hq

end

theorem visits_subset (h : ps[j]? = some p) : visits (i + j) p ⊆ visitsFrom i ps := by
  induction ps generalizing i j with
  | nil => cases h
  | cons first rest ih =>
    rw [visitsFrom]
    cases j with
    | zero =>
      cases h
      exact List.subset_append_left _ _
    | succ j =>
      rw [Nat.add_succ, ← Nat.succ_add]
      exact List.subset_append_of_subset_right _ (ih h)

theorem Leads.mem_visitsFrom (h : Leads ps address names p) (hp : p.isGroup = false) :
    ⟨address, names, p⟩ ∈ visitsFrom 0 ps := by
  induction h with
  | @here ps i p hfound =>
    have hsub := visits_subset (i := 0) hfound
    rw [Nat.zero_add, visits_of_not_isGroup hp] at hsub
    exact hsub (List.mem_singleton_self _)
  | @inside ps members i name address names p hfound _ ih =>
    have hsub := visits_subset (i := 0) hfound
    rw [Nat.zero_add, visits] at hsub
    exact hsub (List.mem_map_of_mem (ih hp))

theorem entriesOf_append (outer : String) (ps qs : List Property) :
    entriesOf outer (ps ++ qs) = entriesOf outer ps ++ entriesOf outer qs := by
  induction ps with
  | nil => rw [List.nil_append, entriesOf, List.nil_append]
  | cons p rest ih => rw [List.cons_append, entriesOf, ih, entriesOf, List.append_assoc]

theorem flatten_append (ps qs : List Property) :
    flatten (ps ++ qs) = flatten ps ++ flatten qs := entriesOf_append "" ps qs

mutual

/-- A property without the groups in it that have nothing to tell. -/
def pruned : Property → List Property
  | .group name members =>
    match prunedOf members with
    | [] => []
    | first :: rest => [.group name (first :: rest)]
  | .flag name value => [.flag name value]
  | .count name value => [.count name value]
  | .time name value => [.time name value]

def prunedOf : List Property → List Property
  | [] => []
  | p :: rest => pruned p ++ prunedOf rest

end

mutual

theorem entriesOf_pruned (outer : String) : ∀ p : Property,
    entriesOf outer (pruned p) = entries outer p
  | .group name members => by
    rw [entries, ← entriesOf_prunedOf (path outer name) members, pruned]
    cases prunedOf members with
    | nil => rw [entriesOf, entriesOf]
    | cons first rest => rw [entriesOf, entriesOf, entries, List.append_nil]
  | .flag name value => by rw [pruned, entriesOf, entriesOf, List.append_nil]
  | .count name value => by rw [pruned, entriesOf, entriesOf, List.append_nil]
  | .time name value => by rw [pruned, entriesOf, entriesOf, List.append_nil]

theorem entriesOf_prunedOf (outer : String) : ∀ ps : List Property,
    entriesOf outer (prunedOf ps) = entriesOf outer ps
  | [] => by rw [prunedOf]
  | p :: rest => by
    rw [prunedOf, entriesOf_append, entriesOf_pruned outer p, entriesOf_prunedOf outer rest,
      entriesOf]

end

/-- The flat list tells each property that is not a group once, depth first. -/
structure Flattened (ps : List Property) : Prop where
  walk : ∃ vs : List Visit, Ascending vs ∧
    (∀ v, v ∈ vs ↔ Leads ps v.address v.names v.property ∧ v.property.isGroup = false) ∧
    flatten ps = vs.map Visit.entry
  /-- Names in front are dropped only where the outermost one is empty. -/
  named : ∀ address names p, Leads ps address names p → names.head? ≠ some "" →
    title names = " / ".intercalate names
  joined : ∀ qs, flatten (ps ++ qs) = flatten ps ++ flatten qs
  hollow : ∀ name qs, flatten (ps ++ .group name [] :: qs) = flatten (ps ++ qs)
  pruned : flatten (prunedOf ps) = flatten ps

theorem flat_list_is_depth_first (ps : List Property) : Flattened ps where
  walk := by
    refine ⟨visitsFrom 0 ps, ascending_visitsFrom 0 ps, fun v => ⟨fun hv => ?_, ?_⟩, ?_⟩
    · exact leads_of_mem_visitsFrom ps (fun j q hq => (Nat.zero_add j).symm ▸ hq) hv
    · rintro ⟨hled, hp⟩
      exact hled.mem_visitsFrom hp
    · exact entriesOf_title [] 0 ps
  named := by
    rintro address names p - hfirst
    cases names with
    | nil => rfl
    | cons first rest => exact title_of_ne fun h => hfirst (congrArg some h)
  joined := flatten_append ps
  hollow := by
    intro name qs
    have hnone : flatten (.group name [] :: qs) = flatten qs := by
      rw [flatten, entriesOf, entries, entriesOf, List.nil_append]
      rfl
    rw [flatten_append, hnone, ← flatten_append]
  pruned := entriesOf_prunedOf "" ps

example : flatten [.group "" [.flag "" true, .group "a" [.group "" [.count "b" 1]]],
      .group "c" [.group "d" [], .flag "" false]] =
    [("", "yes"), ("a /  / b", "1"), ("c / ", "no")] := by
  decide +kernel

end Timebase.Property
