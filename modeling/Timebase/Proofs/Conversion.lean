import Mathlib.Algebra.BigOperators.Group.List.Basic
import Mathlib.Algebra.Order.Ring.Nat
import Timebase.Clock.Converter
import Timebase.Proofs.Outcome

/-!
# Conversions add up

A conversion carries over just what it has cut off. So the results of any number of conversions add
up to that of their whole count, and what a converter does from then on depends on that count alone.
-/

namespace Timebase.RateConverter

variable {source target count : Nat} {counts counts' : List Nat} {c c' : RateConverter}

/-- The results of conversions one after the other, and the converter that they leave. -/
def convertAll (c : RateConverter) : List Nat → List Nat × RateConverter
  | [] => ([], c)
  | count :: rest =>
    let (result, c) := c.convert count
    let (results, c) := c.convertAll rest
    (result :: results, c)

/-- The converters that calls may make of two rates. -/
inductive Reached (source target : Nat) : RateConverter → Prop
  | made {c : RateConverter} (h : new source target = .ok c) : Reached source target c
  | converted {c : RateConverter} (count : Nat) (h : Reached source target c) :
      Reached source target (c.convert count).2
  | spanConverted {c c' : RateConverter} {d : Span} {result : Nat} (h : Reached source target c)
      (converts : c.convertSpan d = .ok (result, c')) : Reached source target c'
  | reset {c : RateConverter} (h : Reached source target c) : Reached source target c.reset

/-- A converter that has just been made or reset. -/
inductive Anew (source target : Nat) : RateConverter → Prop
  | made {c : RateConverter} (h : new source target = .ok c) : Anew source target c
  | reset {c : RateConverter} (h : Reached source target c) : Anew source target c.reset

/-- A number of 128 bits, or a violation of the operation that was asked for. -/
def wide (operation : Operation) (n : Nat) : Attempt Nat :=
  if n < 2 ^ 128 then .ok n else Attempt.violate (.overflow operation)

/-- The conversion in numbers of 128 bits, with its answers cut to 64 bits. -/
def convertWide (c : RateConverter) (count : Nat) : Attempt (Nat × RateConverter) := do
  let product ← wide .multiply (count * c.target)
  let total ← wide .add (product + c.remainder)
  return (total / c.source % UInt64.size, { c with remainder := total % c.source % UInt64.size })

theorem new_eq_ok : new source target = .ok c ↔
    (1 ≤ source ∧ 1 ≤ target) ∧ c = ⟨source, target, 0⟩ := by
  rw [new]
  split
  · rename_i hzero
    exact iff_of_false (fun h => (by cases h)) fun h => (by omega)
  · rename_i hpos
    refine ⟨fun h => ⟨by omega, (Except.ok.inj h).symm⟩, ?_⟩
    rintro ⟨-, rfl⟩
    rfl

theorem Reached.rates (h : Reached source target c) :
    c.source = source ∧ c.target = target ∧ c.remainder < source := by
  induction h with
  | made h =>
    obtain ⟨⟨hpos, -⟩, rfl⟩ := new_eq_ok.mp h
    exact ⟨rfl, rfl, hpos⟩
  | @converted c count _ ih =>
    obtain ⟨hsource, htarget, hlt⟩ := ih
    refine ⟨hsource, htarget, ?_⟩
    rw [← hsource]
    exact Nat.mod_lt _ (by omega)
  | @spanConverted c c' d result _ hconverts ih =>
    obtain ⟨_, -, hc'⟩ := Attempt.bind_eq_ok.mp hconverts
    cases hc'
    obtain ⟨hsource, htarget, hlt⟩ := ih
    refine ⟨hsource, htarget, ?_⟩
    rw [← hsource]
    exact Nat.mod_lt _ (by omega)
  | reset _ ih =>
    obtain ⟨hsource, htarget, hlt⟩ := ih
    exact ⟨hsource, htarget, Nat.zero_lt_of_lt hlt⟩

theorem Anew.eq (h : Anew source target c) : c = ⟨source, target, 0⟩ ∧ 1 ≤ source := by
  cases h with
  | made h =>
    obtain ⟨⟨hpos, -⟩, rfl⟩ := new_eq_ok.mp h
    exact ⟨rfl, hpos⟩
  | @reset c h =>
    obtain ⟨hsource, htarget, hlt⟩ := h.rates
    refine ⟨?_, Nat.zero_lt_of_lt hlt⟩
    rw [RateConverter.reset, hsource, htarget]

/-- What is left over from the first of two counts is part of the second conversion. -/
theorem convert_carries (hpos : 0 < source) (n m target r : Nat) :
    ((n + m) * target + r) / source =
        (n * target + r) / source + (m * target + (n * target + r) % source) / source ∧
      ((n + m) * target + r) % source = (m * target + (n * target + r) % source) % source := by
  have hsplit : (n + m) * target + r =
      m * target + (n * target + r) % source + source * ((n * target + r) / source) := by
    have hdivide := Nat.mod_add_div (n * target + r) source
    rw [Nat.add_mul]
    omega
  rw [hsplit, Nat.add_mul_div_left _ _ hpos, Nat.add_mul_mod_self_left, Nat.add_comm]
  exact ⟨rfl, rfl⟩

/-- As long as the whole result fits into 64 bits, none of its parts is cut off. -/
theorem convertAll_exact (hlt : c.remainder < c.source)
    (hfits : (counts.sum * c.target + c.remainder) / c.source < UInt64.size) :
    (c.convertAll counts).1.sum = (counts.sum * c.target + c.remainder) / c.source ∧
      (c.convertAll counts).2 =
        { c with remainder := (counts.sum * c.target + c.remainder) % c.source } := by
  have hpos : 0 < c.source := Nat.zero_lt_of_lt hlt
  induction counts generalizing c with
  | nil =>
    rw [List.sum_nil, Nat.zero_mul, Nat.zero_add, Nat.div_eq_of_lt hlt, Nat.mod_eq_of_lt hlt]
    exact ⟨rfl, rfl⟩
  | cons count rest ih =>
    obtain ⟨hdiv, hmod⟩ := convert_carries hpos count rest.sum c.target c.remainder
    rw [List.sum_cons, hdiv] at hfits ⊢
    rw [hmod]
    obtain ⟨hsum, hend⟩ := ih (c := (c.convert count).2) (Nat.mod_lt _ hpos)
      (Nat.lt_of_le_of_lt (Nat.le_add_left _ _) hfits) hpos
    have hfirst : (c.convert count).1 = (count * c.target + c.remainder) / c.source :=
      Nat.mod_eq_of_lt (Nat.lt_of_le_of_lt (Nat.le_add_right _ _) hfits)
    refine ⟨?_, hend⟩
    show ((c.convert count).1 :: ((c.convert count).2.convertAll rest).1).sum = _
    rw [List.sum_cons, hsum, hfirst]
    rfl

theorem wide_of_lt {operation : Operation} {n : Nat} (h : n < 2 ^ 128) :
    wide operation n = .ok n := if_pos h

/-- Products of 64-bit numbers leave room in 128 bits for what was left over. -/
theorem Reached.convertWide_eq (h : Reached source target c) (hsource : source < 2 ^ 64)
    (htarget : target < 2 ^ 64) (hcount : count < 2 ^ 64) :
    c.convertWide count = .ok (c.convert count) := by
  obtain ⟨rfl, rfl, hlt⟩ := h.rates
  have hproduct : count * c.target ≤ (2 ^ 64 - 1) * (2 ^ 64 - 1) :=
    Nat.mul_le_mul (by omega) (by omega)
  have hmod : (count * c.target + c.remainder) % c.source < UInt64.size :=
    Nat.lt_trans (Nat.mod_lt _ (Nat.zero_lt_of_lt hlt)) hsource
  rw [convertWide, wide_of_lt (by omega)]
  show (do let total ← wide .add (count * c.target + c.remainder); _) = _
  rw [wide_of_lt (by omega)]
  show Except.ok (_, { c with
    remainder := (count * c.target + c.remainder) % c.source % UInt64.size }) = _
  rw [Nat.mod_eq_of_lt hmod]
  rfl

/-- What conversions come to since a converter was made or reset: their results add up to the exact
total, so that it makes no difference how a count is split up. -/
structure Telescopes (source target : Nat) (c : RateConverter) (counts : List Nat) : Prop where
  total : (c.convertAll counts).1.sum = counts.sum * target / source
  left : (c.convertAll counts).2.remainder = counts.sum * target % source
  left_lt : (c.convertAll counts).2.remainder < source
  alike : ∀ c' counts', Anew source target c' → counts'.sum = counts.sum →
    (c'.convertAll counts').1.sum = (c.convertAll counts).1.sum ∧
      (c'.convertAll counts').2 = (c.convertAll counts).2

theorem Anew.convertAll_eq (h : Anew source target c)
    (hfits : counts.sum * target / source < UInt64.size) :
    (c.convertAll counts).1.sum = counts.sum * target / source ∧
      (c.convertAll counts).2 = ⟨source, target, counts.sum * target % source⟩ := by
  obtain ⟨rfl, hpos⟩ := h.eq
  exact convertAll_exact (c := ⟨source, target, 0⟩) hpos hfits

theorem conversions_telescope (hsource : 1 ≤ source ∧ source < 2 ^ 64)
    (htarget : 1 ≤ target ∧ target < 2 ^ 64) :
    (∃ c, new source target = .ok c) ∧
      (∀ c counts, Anew source target c → counts.sum * target / source < 2 ^ 64 →
        Telescopes source target c counts) ∧
      ∀ c, Reached source target c → c.remainder < source ∧
        ∀ count < 2 ^ 64, c.convertWide count = .ok (c.convert count) := by
  refine ⟨⟨_, new_eq_ok.mpr ⟨⟨hsource.1, htarget.1⟩, rfl⟩⟩, ?_, ?_⟩
  · intro c counts hc hfits
    obtain ⟨htotal, hend⟩ := hc.convertAll_eq hfits
    refine ⟨htotal, congrArg remainder hend, ?_, ?_⟩
    · rw [hend]
      exact Nat.mod_lt _ hsource.1
    · intro c' counts' hc' hsum
      rw [← hsum] at hfits
      obtain ⟨htotal', hend'⟩ := hc'.convertAll_eq hfits
      rw [htotal', hend', htotal, hend, hsum]
      exact ⟨rfl, rfl⟩
  · intro c hc
    exact ⟨hc.rates.2.2, fun count hcount => hc.convertWide_eq hsource.2 htarget.2 hcount⟩

/-- Sound at 96 kHz for a clock of 3.5 MHz, after a reset, in parts that are not whole samples. -/
theorem conversions_telescope_after_reset :
    ∃ c, Anew 3500000 96000 c ∧ Telescopes 3500000 96000 c [1000, 36, 0, 998964, 1] ∧
      (c.convertAll [1000, 36, 0, 998964, 1]).1 = [27, 1, 0, 27400, 0] := by
  obtain ⟨⟨c, hc⟩, htelescopes, -⟩ :=
    conversions_telescope (by decide : 1 ≤ 3500000 ∧ 3500000 < 2 ^ 64)
      (by decide : 1 ≤ 96000 ∧ 96000 < 2 ^ 64)
  have hanew : Anew 3500000 96000 (c.convert 77).2.reset := .reset (.converted 77 (.made hc))
  refine ⟨_, hanew, htelescopes _ _ hanew (by decide), ?_⟩
  rw [hanew.eq.1]
  decide

end Timebase.RateConverter
