import Timebase.Json.Decoder
import Timebase.Json.Render
import Mathlib.Data.List.Forall2

/-!
# JSON text reads back

What is rendered as JSON text is read as what it was rendered from: a string whatever characters it
holds, a natural number as long as it fits into 64 bits, and a record member by member.
-/

namespace Timebase.Json

variable {α β σ : Type} {input rest rest' : Input}

theorem scan_bind_of_ok {x : Scan α} {next : α → Scan β} {a : α} (h : x input = .ok (a, rest)) :
    (x >>= next) input = next a rest := by
  show (x input >>= fun read => next read.1 read.2) = _
  rw [h]
  rfl

theorem scan_map_of_ok {x : Scan α} {f : α → β} {a : α} (h : x input = .ok (a, rest)) :
    (f <$> x) input = .ok (f a, rest) := by
  show (x input >>= fun read => pure (f read.1, read.2)) = _
  rw [h]
  rfl

theorem skipBlank_cons {c : Char} (h : isBlank c = false) : skipBlank (c :: rest) = c :: rest := by
  simp [skipBlank, h]

theorem blank_of_head {c : Char} (h : isBlank c = false) :
    blank (c :: rest) = .ok ((), c :: rest) := by
  rw [blank, skipBlank_cons h]

theorem mark_of_head {c : Char} (h : isBlank c = false) : mark c (c :: rest) = .ok ((), rest) := by
  have haccept : accept (· == c) (c :: rest) = .ok (true, rest) := by simp [accept]
  rw [mark, scan_bind_of_ok (blank_of_head h), scan_bind_of_ok haccept]
  rfl

/-- A piece of a string and the character it stands for. -/
inductive Piece.StandsFor : Piece → Char → Prop where
  | char (c : Char) : StandsFor (.char c) c
  | unit {c : Char} (h : c.toNat < 32) : StandsFor (.unit c.toNat) c

theorem hexUnit?_digitChar :
    ∀ n < 32, hexUnit? '0' '0' (Nat.digitChar (n / 16)) (Nat.digitChar (n % 16)) = some n := by
  decide

theorem renderChar_cases (c : Char) :
    (∃ e, e ≠ 'u' ∧ escaped? e = some c ∧ renderChar c = ['\\', e]) ∨
      (c.toNat < 32 ∧ renderChar c =
        ['\\', 'u', '0', '0', Nat.digitChar (c.toNat / 16), Nat.digitChar (c.toNat % 16)]) ∨
      (c ≠ '"' ∧ c ≠ '\\' ∧ 32 ≤ c.toNat ∧ renderChar c = [c]) := by
  by_cases hletter : ∃ e, e ≠ 'u' ∧ escaped? e = some c ∧ renderChar c = ['\\', e]
  · exact Or.inl hletter
  · refine Or.inr ?_
    -- a character with a letter of its own would have been found above
    have hnot : ∀ e, e ≠ 'u' → ∀ d, escaped? e = some d → renderChar d = ['\\', e] → c ≠ d := by
      rintro e he d hd hr rfl
      exact hletter ⟨e, he, hd, hr⟩
    have hquote := hnot '"' (by decide) '"' rfl rfl
    have hslash := hnot '\\' (by decide) '\\' rfl rfl
    have hback := hnot 'b' (by decide) '\x08' rfl rfl
    have hfeed := hnot 'f' (by decide) '\x0c' rfl rfl
    have hline := hnot 'n' (by decide) '\n' rfl rfl
    have hreturn := hnot 'r' (by decide) '\r' rfl rfl
    have htab := hnot 't' (by decide) '\t' rfl rfl
    rw [renderChar, if_neg (by simp [hquote, hslash]), if_neg hback, if_neg hfeed, if_neg hline,
      if_neg hreturn, if_neg htab]
    by_cases h : c.toNat < 32
    · rw [if_pos h]
      exact Or.inl ⟨h, rfl⟩
    · rw [if_neg h]
      exact Or.inr ⟨hquote, hslash, by omega, rfl⟩

theorem pieces_renderChar (c : Char) :
    ∃ p : Piece, p.StandsFor c ∧ ∀ ps, pieces rest = .ok (ps, rest') →
      pieces (renderChar c ++ rest) = .ok (p :: ps, rest') := by
  rcases renderChar_cases c with ⟨e, he, hc, hr⟩ | ⟨h, hr⟩ | ⟨hquote, hslash, h, hr⟩
  all_goals rw [hr]
  · refine ⟨.char c, .char c, ?_⟩
    intro ps hrest
    show pieces ('\\' :: e :: rest) = _
    rw [pieces.eq_4 e rest fun _ _ _ _ _ h _ => he h, hc, hrest]
    rfl
  · refine ⟨.unit c.toNat, .unit h, ?_⟩
    intro ps hrest
    show pieces ('\\' :: 'u' :: '0' :: '0' :: _ :: _ :: rest) = _
    rw [pieces, hexUnit?_digitChar _ h, hrest]
    rfl
  · refine ⟨.char c, .char c, ?_⟩
    intro ps hrest
    show pieces (c :: rest) = _
    rw [pieces.eq_5 c rest hquote (fun _ _ _ _ _ h _ => hslash h) (fun _ _ h _ => hslash h),
      if_neg (by simp [hslash]; omega), hrest]
    rfl

theorem pieces_render (cs : List Char) (rest : Input) :
    ∃ ps, List.Forall₂ Piece.StandsFor ps cs ∧
      pieces (cs.flatMap renderChar ++ '"' :: rest) = .ok (ps, rest) := by
  induction cs with
  | nil => exact ⟨[], .nil, rfl⟩
  | cons c cs ih =>
    obtain ⟨ps, hps, hread⟩ := ih
    obtain ⟨p, hp, hfirst⟩ := pieces_renderChar c
    refine ⟨p :: ps, .cons hp hps, ?_⟩
    rw [List.flatMap_cons, List.append_assoc]
    exact hfirst ps hread

theorem not_isHigh_or_isLow {n : Nat} (h : n < 32) : isHigh n = false ∧ isLow n = false := by
  have hhigh : ¬ 0xD800 ≤ n := by omega
  have hlow : ¬ 0xDC00 ≤ n := by omega
  simp [isHigh, isLow, hhigh, hlow]

theorem assemble_pieces {ps : List Piece} {cs : List Char}
    (h : List.Forall₂ Piece.StandsFor ps cs) : assemble ps = some cs := by
  induction h with
  | nil => rfl
  | @cons p c ps cs hp _ ih =>
    cases hp with
    | char => rw [assemble, ih]; rfl
    | unit hc =>
      obtain ⟨hhigh, hlow⟩ := not_isHigh_or_isLow hc
      have hself : Char.ofNat c.toNat = c := Char.ofNat_toNat c
      -- halves of characters are joined by twos, so the next piece decides which equation applies
      rcases ps with _ | ⟨⟨d⟩ | ⟨low⟩, ps⟩
      · simp [assemble.eq_4, hhigh, hlow, ih, hself]
      · simp [assemble.eq_4, hhigh, hlow, ih, hself]
      · simp [assemble.eq_3, hhigh, hlow, ih, hself]

/-- A string reads back behind its opening quote. -/
theorem string_render (s : String) (rest : Input) :
    string (s.toList.flatMap renderChar ++ '"' :: rest) = .ok (s, rest) := by
  obtain ⟨ps, hps, hread⟩ := pieces_render s.toList rest
  rw [string, scan_bind_of_ok hread, assemble_pieces hps]
  show Except.ok (String.ofList s.toList, rest) = _
  rw [String.ofList_toList]

theorem nextName_renderText (name : String) (rest : Input) :
    nextName true ((renderText name).toList ++ rest) = .ok (some name, rest) := by
  have htext : (renderText name).toList ++ rest =
      '"' :: (name.toList.flatMap renderChar ++ '"' :: rest) := by
    simp [renderText]
  rw [htext, nextName, scan_bind_of_ok (blank_of_head (by decide))]
  exact scan_map_of_ok (string_render name rest)

theorem nextName_of_end (first : Bool) (rest : Input) :
    nextName first ('\x7d' :: rest) = .ok (none, '\x7d' :: rest) := by
  rw [nextName, scan_bind_of_ok (blank_of_head (by decide))]
  rfl

/-- A number is over where another character than those of numbers stands. -/
def EndsNumber (rest : Input) : Prop :=
  ∀ c ∈ rest.head?, c.isDigit = false ∧ c ≠ '.' ∧ isExponentMark c = false

/-- The digits of a number. -/
def decimal (n : Nat) : List Nat := (Nat.toDigits 10 n).map fun c => c.toNat - '0'.toNat

theorem decimal_eq (n : Nat) : decimal n = if n < 10 then [n] else decimal (n / 10) ++ [n % 10] := by
  have hdigit : ∀ d < 10, (Nat.digitChar d).toNat - '0'.toNat = d := fun d hd =>
    Nat.toNat_digitChar_sub_48_of_lt_ten hd
  rw [decimal, Nat.toDigits_eq_if (by decide)]
  by_cases h : n < 10
  · rw [if_pos h, if_pos h, List.map_singleton, hdigit n h]
  · rw [if_neg h, if_neg h, List.map_append, List.map_singleton,
      hdigit _ (Nat.mod_lt n (by decide)), decimal]

theorem ofDigits_decimal (n : Nat) : ofDigits (decimal n) = n := by
  induction n using Nat.strongRecOn with
  | ind n ih =>
    rw [decimal_eq]
    by_cases h : n < 10
    · simp [h, ofDigits]
    · have hfront := ih (n / 10) (by omega)
      rw [ofDigits] at hfront
      rw [if_neg h, ofDigits, List.foldl_append, hfront]
      simp only [List.foldl_cons, List.foldl_nil]
      omega

theorem decimal_ne_zero_cons (n d : Nat) (ds : List Nat) : decimal n ≠ 0 :: d :: ds := by
  induction n using Nat.strongRecOn generalizing d ds with
  | ind n ih =>
    rw [decimal_eq]
    by_cases h : n < 10
    · simp [h]
    · rw [if_neg h]
      intro heq
      cases hfront : decimal (n / 10) with
      | nil => simp [hfront] at heq
      | cons e es =>
        rw [hfront] at heq
        cases es with
        | nil =>
          -- a front of the digit zero alone makes a number below ten
          have hzero := ofDigits_decimal (n / 10)
          simp only [hfront, ofDigits] at hzero
          simp at heq hzero
          omega
        | cons e' es =>
          simp only [List.cons_append, List.cons.injEq] at heq
          exact ih (n / 10) (by omega) e' es (by rw [hfront, heq.1])

theorem isDigit_of_mem_decimal (n : Nat) : ∀ c ∈ Nat.toDigits 10 n, c.isDigit = true := fun _ hc =>
  Nat.isDigit_of_mem_toDigits (by decide) (by decide) hc

theorem spanDigits_decimal (n : Nat) (h : EndsNumber rest) :
    spanDigits (Nat.toDigits 10 n ++ rest) = (decimal n, rest) := by
  have hdigits := isDigit_of_mem_decimal n
  rw [spanDigits, List.takeWhile_append_of_pos hdigits, List.dropWhile_append_of_pos hdigits]
  cases rest with
  | nil => simp [decimal]
  | cons c rest =>
    obtain ⟨hc, -, -⟩ := h c rfl
    simp [decimal, hc]

theorem whole_decimal (n : Nat) (h : EndsNumber rest) :
    whole (Nat.toDigits 10 n ++ rest) = .ok (decimal n, rest) := by
  have hne : decimal n ≠ [] := by simp [decimal]
  have hdigits : digits (Nat.toDigits 10 n ++ rest) = .ok (decimal n, rest) := by
    rw [digits, spanDigits_decimal n h]
    cases hd : decimal n with
    | nil => exact absurd hd hne
    | cons d ds => rfl
  rw [whole, scan_bind_of_ok hdigits]
  cases hd : decimal n with
  | nil => rfl
  | cons d ds =>
    rcases d with _ | d
    · cases ds with
      | nil => rfl
      | cons e es => exact absurd hd (decimal_ne_zero_cons n e es)
    · rfl

theorem le_foldl_digits (n : Nat) (ds : List Nat) : n ≤ ds.foldl (fun n d => 10 * n + d) n := by
  induction ds generalizing n with
  | nil => exact Nat.le_refl n
  | cons d ds ih =>
    have h := ih (10 * n + d)
    rw [List.foldl_cons]
    omega

theorem absorb_of_lt {n : Nat} {ds : List Nat}
    (h : ds.foldl (fun n d => 10 * n + d) n < UInt64.size) :
    absorb n ds = (ds.foldl (fun n d => 10 * n + d) n, []) := by
  induction ds generalizing n with
  | nil => rfl
  | cons d ds ih =>
    rw [List.foldl_cons] at h ⊢
    have hle := le_foldl_digits (10 * n + d) ds
    rw [absorb, if_pos (by omega), ih h]

theorem accept_of_not {p : Char → Bool} (h : ∀ c ∈ input.head?, p c = false) :
    accept p input = .ok (false, input) := by
  cases input with
  | nil => rfl
  | cons c rest => simp [accept, h c rfl]

theorem number_decimal {n : Nat} (hn : n < UInt64.size) (h : EndsNumber rest) :
    number false (Nat.toDigits 10 n ++ rest) = .ok (.natural n, rest) := by
  have habsorb : absorb 0 (decimal n) = (n, []) := by
    have hvalue := ofDigits_decimal n
    rw [ofDigits] at hvalue
    rw [absorb_of_lt (by rw [hvalue]; exact hn), hvalue]
  have hpoint : accept (· == '.') rest = .ok (false, rest) :=
    accept_of_not fun c hc => beq_eq_false_iff_ne.mpr (h c hc).2.1
  have hexponent : accept isExponentMark rest = .ok (false, rest) :=
    accept_of_not fun c hc => (h c hc).2.2
  rw [number, scan_bind_of_ok (whole_decimal n h), habsorb]
  show ((accept (· == '.')) >>= _ : Scan Number) rest = _
  rw [scan_bind_of_ok hpoint]
  show (accept isExponentMark >>= _ : Scan Number) rest = _
  rw [scan_bind_of_ok hexponent]
  rfl

theorem found_decimal {n : Nat} (hn : n < UInt64.size) (h : EndsNumber rest) :
    found (Nat.toDigits 10 n ++ rest) = .ok (.number (.natural n), rest) := by
  have hread := scan_map_of_ok (f := Found.number) (number_decimal hn h)
  have hdigits := isDigit_of_mem_decimal n
  cases hd : Nat.toDigits 10 n with
  | nil => exact absurd hd Nat.toDigits_ne_nil
  | cons c cs =>
    rw [hd] at hread hdigits
    have hc := hdigits c List.mem_cons_self
    rw [List.cons_append] at hread ⊢
    rw [found.eq_8]
    · exact hread
    all_goals
      intro _ heq
      cases heq
      exact absurd hc (by decide)

namespace Decoder

theorem map_scan_of_ok {d : Decoder α} {f : α → β} {a : α} (h : d.scan input = .ok (a, rest)) :
    (d.map f).scan input = .ok (f a, rest) := scan_map_of_ok h

theorem scalar_scan {visit : Found → Fit α} {what : Found} {a : α} (hblank : skipBlank input = input)
    (hfound : found input = .ok (what, rest)) (hvisit : visit what = .ok a) :
    (scalar visit).scan input = .ok (a, rest) := by
  have hb : blank input = .ok ((), input) := by rw [blank, hblank]
  show (blank >>= fun _ => found >>= fun what => judge (visit what)) input = _
  rw [scan_bind_of_ok hb, scan_bind_of_ok hfound, hvisit]
  rfl

theorem skipBlank_decimal (n : Nat) (rest : Input) :
    skipBlank (Nat.toDigits 10 n ++ rest) = Nat.toDigits 10 n ++ rest := by
  cases hd : Nat.toDigits 10 n with
  | nil => exact absurd hd Nat.toDigits_ne_nil
  | cons c cs =>
    have hc := isDigit_of_mem_decimal n c (by rw [hd]; exact List.mem_cons_self)
    refine skipBlank_cons ?_
    by_contra hblank
    simp only [isBlank, Bool.not_eq_false, Bool.or_eq_true, beq_iff_eq] at hblank
    rcases hblank with ((rfl | rfl) | rfl) | rfl
    all_goals exact absurd hc (by decide)

/-- A natural number below the bound of its decoder reads back. -/
theorem natural_scan {bound n : Nat} (expected : String) (hb : n < bound) (hn : n < UInt64.size)
    (h : EndsNumber rest) :
    (natural bound expected).scan (Nat.toDigits 10 n ++ rest) = .ok (n, rest) := by
  have hbounds : (0 : Int) ≤ n ∧ (n : Int) ≤ bound - 1 := by omega
  show ((integer 0 (bound - 1) expected).map Int.toNat).scan _ = .ok (Int.toNat (n : Int), rest)
  refine map_scan_of_ok (scalar_scan (skipBlank_decimal n rest) (found_decimal hn h) ?_)
  exact if_pos hbounds

namespace Record

variable {r : Record σ} {f : Field σ} {steps : Nat} {seen : List String} {built : σ}

theorem scanMembers_first {name : String} {put : σ → σ}
    (hfield : r.fields.find? (·.name == name) = some f)
    (hput : f.store.scan input = .ok (put, rest)) :
    r.scanMembers (steps + 1) [] built true ((renderText name).toList ++ ':' :: input) =
      r.scanMembers steps [name] (put built) false rest := by
  rw [scanMembers, scan_bind_of_ok (nextName_renderText name _)]
  simp only [hfield, List.contains_nil, Bool.false_eq_true, if_false]
  have hcolon : mark ':' (':' :: input) = .ok ((), input) := mark_of_head (by decide)
  rw [scan_bind_of_ok hcolon, scan_bind_of_ok hput]

theorem scanMembers_last {whole : σ} (hcomplete : r.complete seen built = .ok whole) :
    r.scanMembers (steps + 1) seen built false ('\x7d' :: rest) = .ok (whole, rest) := by
  have hbrace : mark '\x7d' ('\x7d' :: rest) = .ok ((), rest) := mark_of_head (by decide)
  rw [scanMembers, scan_bind_of_ok (nextName_of_end false rest)]
  show ((mark '\x7d') >>= fun _ => judge (r.complete seen built) : Scan σ) _ = _
  rw [scan_bind_of_ok hbrace, hcomplete]
  rfl

/-- An object with one member is read by the record that has just its field. -/
theorem scan_single {name : String} {put : σ → σ}
    (hfield : r.fields.find? (·.name == name) = some f)
    (hput : f.store.scan input = .ok (put, '\x7d' :: rest))
    (hcomplete : r.complete [name] (put r.blank) = .ok built) :
    (record r).scan ('\x7b' :: ((renderText name).toList ++ ':' :: input)) =
      .ok (built, rest) := by
  have hopen : ∀ input, (record r).scan ('\x7b' :: input) =
      r.scanMembers (input.length + 1) [] r.blank true input := by
    intro input
    have hblank : Json.blank ('\x7b' :: input) = .ok ((), '\x7b' :: input) :=
      blank_of_head (by decide)
    exact scan_bind_of_ok hblank
  have hlength : ((renderText name).toList ++ ':' :: input).length =
      (renderText name).toList.length + input.length + 1 := by
    rw [List.length_append, List.length_cons, Nat.add_assoc]
  rw [hopen, hlength, scanMembers_first hfield hput, scanMembers_last hcomplete]

end Record
end Decoder
end Timebase.Json
