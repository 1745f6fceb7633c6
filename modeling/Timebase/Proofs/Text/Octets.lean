import Mathlib.Data.String.Basic
import Timebase.Text.Octets

/-!
# The order of octets

The first octet of a character tells how many follow it, and those that follow carry six bits of
the code point each, the upper ones first. So two characters differ in an octet before either of
them ends, and there the later one has the greater octet: texts are in the order of their octets.
-/

namespace Timebase.Text

variable {k m n v w : Nat} {c d : Char} {cs ds : List Char} {l l' : List UInt8} {s t : String}

/-- How many octets follow the first one. -/
def following (v : Nat) : Nat :=
  if v ≤ 0x7F then 0 else if v ≤ 0x7FF then 1 else if v ≤ 0xFFFF then 2 else 3

/-- The bits of the first octet that tell how many follow it. -/
def marker : Nat → Nat
  | 0 => 0
  | 1 => 0xC0
  | 2 => 0xE0
  | _ => 0xF0

/-- The first octet, which has the upper bits. -/
def leading (v : Nat) : Nat := v / 64 ^ following v + marker (following v)

/-- The octets that carry the lower bits. -/
def continued : Nat → Nat → List UInt8
  | 0, _ => []
  | k + 1, v => UInt8.ofNat (v / 64 ^ k % 64 + 0x80) :: continued k v

theorem toNat_lt (c : Char) : c.toNat < 0x110000 := by
  rcases c.valid with h | ⟨-, h⟩
  · exact h.trans (by decide)
  · exact h

theorem following_cases (v : Nat) :
    (following v = 0 ∧ v ≤ 0x7F) ∨ (following v = 1 ∧ 0x7F < v ∧ v ≤ 0x7FF) ∨
      (following v = 2 ∧ 0x7FF < v ∧ v ≤ 0xFFFF) ∨ (following v = 3 ∧ 0xFFFF < v) := by
  rw [following]
  split_ifs <;> omega

theorem utf8EncodeChar_eq (c : Char) :
    String.utf8EncodeChar c =
      UInt8.ofNat (leading c.toNat) :: continued (following c.toNat) c.toNat := by
  have hrange := toNat_lt c
  rw [String.utf8EncodeChar, Char.toNat_val, leading, following]
  generalize c.toNat = v at hrange ⊢
  by_cases hone : v ≤ 0x7F
  · simp [hone, marker, continued]
  by_cases htwo : v ≤ 0x7FF
  · have hupper : v / 64 < 32 := by omega
    simp [hone, htwo, marker, continued, Nat.mod_eq_of_lt hupper]
  by_cases hthree : v ≤ 0xFFFF
  · have hupper : v / 4096 < 16 := by omega
    simp [hone, htwo, hthree, marker, continued, Nat.mod_eq_of_lt hupper]
  · have hupper : v / 262144 < 8 := by omega
    simp [hone, htwo, hthree, marker, continued, Nat.mod_eq_of_lt hupper]

theorem leading_lt_size (h : v < 0x110000) : leading v < UInt8.size := by
  rw [leading, UInt8.size]
  rcases following_cases v with ⟨hk, hv⟩ | ⟨hk, -, hv⟩ | ⟨hk, -, hv⟩ | ⟨hk, -⟩ <;>
    rw [hk, marker] <;> omega

theorem following_mono (h : v ≤ w) : following v ≤ following w := by
  have hv := following_cases v
  have hw := following_cases w
  omega

theorem leading_lt_marker (h : following v < following w) : leading v < marker (following w) := by
  rw [leading]
  rcases following_cases w with ⟨hw, -⟩ | ⟨hw, -⟩ | ⟨hw, -⟩ | ⟨hw, -⟩ <;>
    rcases following_cases v with ⟨hv, hlast⟩ | ⟨hv, -, hlast⟩ | ⟨hv, -, hlast⟩ | ⟨hv, -⟩ <;>
      simp only [hv, hw, marker, Nat.pow_zero, Nat.div_one] at h ⊢ <;> omega

theorem ofNat_cons_lt (hn : n < UInt8.size) (h : m < n) :
    UInt8.ofNat m :: l < UInt8.ofNat n :: l' :=
  List.cons_lt_cons_iff.mpr (.inl ((UInt8.ofNat_lt_iff_lt (h.trans hn) hn).mpr h))

theorem continued_lt (h : v < w) (hupper : v / 64 ^ k = w / 64 ^ k) :
    continued k v ++ l < continued k w ++ l' := by
  induction k with
  | zero =>
    rw [Nat.pow_zero, Nat.div_one, Nat.div_one] at hupper
    exact absurd hupper (Nat.ne_of_lt h)
  | succ k ih =>
    rw [Nat.pow_succ, ← Nat.div_div_eq_div_mul, ← Nat.div_div_eq_div_mul] at hupper
    have hle : v / 64 ^ k ≤ w / 64 ^ k := Nat.div_le_div_right (Nat.le_of_lt h)
    rw [continued, continued, List.cons_append, List.cons_append]
    -- of the bits above the next octets, only the lowest six are not known to agree
    rcases Nat.lt_or_eq_of_le hle with hlt | heq
    · have hshare : v / 64 ^ k % 64 < w / 64 ^ k % 64 := by omega
      have hsize : w / 64 ^ k % 64 + 0x80 < UInt8.size := by
        rw [UInt8.size]
        omega
      exact ofNat_cons_lt hsize (Nat.add_lt_add_right hshare 0x80)
    · rw [heq]
      exact List.cons_lt_cons_iff.mpr (.inr ⟨rfl, ih heq⟩)

/-- The octets of two characters tell them apart, whatever comes after. -/
theorem utf8EncodeChar_lt (h : c < d) (l l' : List UInt8) :
    String.utf8EncodeChar c ++ l < String.utf8EncodeChar d ++ l' := by
  have hlt : c.toNat < d.toNat := h
  have hsize := leading_lt_size (toNat_lt d)
  rw [utf8EncodeChar_eq, utf8EncodeChar_eq, List.cons_append, List.cons_append]
  rcases Nat.lt_or_eq_of_le (following_mono (Nat.le_of_lt hlt)) with hfewer | hcount
  · have hmarker : marker (following d.toNat) ≤ leading d.toNat := Nat.le_add_left _ _
    exact ofNat_cons_lt hsize (Nat.lt_of_lt_of_le (leading_lt_marker hfewer) hmarker)
  · rw [leading, leading, hcount] at *
    rcases Nat.lt_or_eq_of_le (Nat.div_le_div_right (Nat.le_of_lt hlt)) with hfirst | hupper
    · exact ofNat_cons_lt hsize (Nat.add_lt_add_right hfirst _)
    · rw [hupper]
      exact List.cons_lt_cons_iff.mpr (.inr ⟨rfl, continued_lt hlt hupper⟩)

theorem flatMap_utf8EncodeChar_lt (h : cs < ds) :
    cs.flatMap String.utf8EncodeChar < ds.flatMap String.utf8EncodeChar := by
  induction cs generalizing ds with
  | nil =>
    cases ds with
    | nil => exact absurd h (List.lt_irrefl [])
    | cons d ds =>
      rw [List.flatMap_cons, utf8EncodeChar_eq]
      exact List.nil_lt_cons _ _
  | cons c cs ih =>
    cases ds with
    | nil => exact absurd h (List.not_lt_nil _)
    | cons d ds =>
      rw [List.flatMap_cons, List.flatMap_cons]
      rcases List.cons_lt_cons_iff.mp h with hfirst | ⟨rfl, hrest⟩
      · exact utf8EncodeChar_lt hfirst _ _
      · exact List.append_left_lt (ih hrest)

/-- The octets collected so far stand in front of those not yet read. -/
theorem toList_loop (b : ByteArray) (i : Nat) (r : List UInt8) :
    ByteArray.toList.loop b i r = r.reverse ++ b.data.toList.drop i := by
  induction i, r using ByteArray.toList.loop.induct b with
  | case1 i r hi ih =>
    have hget : b.get! i = b.data.toList.get ⟨i, hi⟩ := getElem!_pos b.data i hi
    rw [ByteArray.toList.loop, if_pos hi, ih, List.reverse_cons, List.append_assoc, hget,
      List.singleton_append, List.get_eq_getElem, List.getElem_cons_drop]
  | case2 i r hi =>
    rw [ByteArray.toList.loop, if_neg hi, List.drop_of_length_le (Nat.le_of_not_lt hi),
      List.append_nil]

theorem toOctets_eq (s : String) : toOctets s = s.toList.flatMap String.utf8EncodeChar := by
  have hdata : s.toByteArray.data.toList = s.toList.flatMap String.utf8EncodeChar := by
    conv_lhs => rw [← String.ofList_toList (s := s)]
    rw [String.toByteArray_ofList, List.utf8Encode, List.toList_data_toByteArray]
  rw [toOctets, String.toUTF8_eq_toByteArray, ByteArray.toList, toList_loop, List.drop_zero,
    hdata, List.reverse_nil, List.nil_append]

theorem toOctets_lt (h : s < t) : toOctets s < toOctets t := by
  rw [toOctets_eq, toOctets_eq]
  exact flatMap_utf8EncodeChar_lt (String.lt_iff_toList_lt.mp h)

example : toOctets "\uFFFD" < toOctets "𝄞" := toOctets_lt (by decide)

end Timebase.Text
