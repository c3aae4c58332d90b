import Sequencer.Json.Numeral
import Sequencer.Proofs.Advancing
import Sequencer.Proofs.Numerals

/-!
# Numbers are read back as numbers

The scan of a numeral keeps digits as long as they fit 64 bits. What it passes over after a point can
only make the number greater, so the significand and the exponent of a scanned text never say more
than the text does.

Whether a numeral is in range is decided on rounded values: of its significand, of its power of ten
and of their product. Each of the first two may come out too great by one part in `2 ^ 53`. Below a
bound that is just short of the greatest value, this is not enough to leave the range. The two values
above that bound are few enough to be read one by one. Hence every number, as it is written, is read
as a number, however close to the end of the range it is.

## Main definitions

* `Json.Numeral.Next`: a character belongs to a numeral.
* `Binary64.certainBound`: up to this bound, rounding does not lead out of range.
* `signed`: a text with a sign or without.

## Main results

* `Json.Numeral.advances_whole`: a whole number that fits is scanned to its value.
* `Json.Numeral.exists_scan_le`: a text that has the parts of a number is scanned to its end, and the
  numeral says no more than the text.
* `Binary64.roundNat_le`: how much rounding may add.
* `Json.readsAsNumber_parts`: a text that says no more than the bound is read as a number.
* `Number.readsAsNumber_text`: every number is read back as a number.
-/

namespace Sequencer

/-- Digits after a number shift it, and add to it. -/
theorem shift_le_ofDigitChars (digits : List Char) (start : Nat) :
    10 ^ digits.length * start ≤ Nat.ofDigitChars 10 digits start := by
  rw [Nat.ofDigitChars_eq_ofDigitChars_zero]
  exact Nat.le_add_right _ _

theorem le_ofDigitChars (digits : List Char) (start : Nat) :
    start ≤ Nat.ofDigitChars 10 digits start :=
  (Nat.le_mul_of_pos_left start (Nat.pow_pos (by decide))).trans (shift_le_ofDigitChars digits start)

namespace Json.Numeral

variable {n : Numeral} {c : Char} {digits rest : List Char}

/-! ### Digits -/

/-- A character belongs to a numeral. -/
def Next (n : Numeral) (c : Char) (next : Numeral) : Prop :=
  n.step c = .next next

theorem scan_cons_of_next {next : Numeral} (goesOn : n.step c = .next next) :
    n.scan (c :: rest) = next.scan rest := by
  rw [scan, goesOn]

theorem scan_append {text : List Char} {next : Numeral} (way : Advances Next n text next) :
    n.scan (text ++ rest) = next.scan rest := by
  induction way with
  | nil => rfl
  | cons first _ ih => rw [List.cons_append, scan_cons_of_next first, ih]

theorem keep?_of_lt (fits : 10 * n.significand + digitValue c < UInt64.size) :
    n.keep? c = some (10 * n.significand + digitValue c) := by
  unfold keep?
  rw [Nat.mul_comm, if_pos fits]

theorem keep?_of_le (full : UInt64.size ≤ 10 * n.significand + digitValue c) :
    n.keep? c = none := by
  unfold keep?
  rw [Nat.mul_comm, if_neg (Nat.not_lt.mpr full)]

theorem pushInteger_of_lt (room : n.filled = false)
    (fits : 10 * n.significand + digitValue c < UInt64.size) :
    n.pushInteger c =
      { n with part := .integer, significand := 10 * n.significand + digitValue c } := by
  unfold pushInteger
  simp [room, keep?_of_lt fits]

theorem pushFraction_of_lt (room : n.filled = false)
    (fits : 10 * n.significand + digitValue c < UInt64.size) :
    n.pushFraction c =
      { n with
        part := .fraction
        significand := 10 * n.significand + digitValue c
        scale := n.scale - 1 } := by
  unfold pushFraction
  simp [room, keep?_of_lt fits]

theorem pushFraction_of_full
    (full : n.filled = true ∨ UInt64.size ≤ 10 * n.significand + digitValue c) :
    n.pushFraction c = { n with part := .fraction, filled := true } := by
  unfold pushFraction
  rcases full with filled | full
  · simp [filled]
  · simp [keep?_of_le full]

/-- The digits of a whole number that fits are all kept. -/
theorem advances_integer (all : ∀ c ∈ digits, c.isDigit = true) (part : n.part = .integer)
    (room : n.filled = false) (fits : Nat.ofDigitChars 10 digits n.significand < UInt64.size) :
    Advances Next n digits { n with significand := Nat.ofDigitChars 10 digits n.significand } := by
  induction digits generalizing n with
  | nil => exact .nil n
  | cons c digits ih =>
    rw [List.forall_mem_cons] at all
    have first := (le_ofDigitChars digits _).trans_lt fits
    have step : n.step c =
        .next { n with significand := 10 * n.significand + digitValue c } := by
      have pushed : n.step c = .next (n.pushInteger c) := by simp [step, part, all.1]
      rw [pushed, pushInteger_of_lt room first, ← part]
    exact .cons step
      (ih (n := { n with significand := 10 * n.significand + digitValue c }) all.2 part room fits)

/-- After a digit that does not fit, the digits after a point do not count. -/
theorem scan_fraction_of_filled (all : ∀ c ∈ digits, c.isDigit = true) (part : n.part = .fraction)
    (filled : n.filled = true) : n.scan (digits ++ rest) = n.scan rest := by
  induction digits with
  | nil => rfl
  | cons c digits ih =>
    rw [List.forall_mem_cons] at all
    have step : n.step c = .next (n.pushFraction c) := by simp [step, part, all.1]
    rw [List.cons_append, scan_cons_of_next step, pushFraction_of_full (Or.inl filled), ← part,
      ← filled]
    exact ih all.2

/-- Of the digits after a point, those are kept that come before the first one that does not fit. -/
theorem scan_fraction (all : ∀ c ∈ digits, c.isDigit = true) (part : n.part = .fraction)
    (rest : List Char) :
    ∃ kept dropped filled, digits = kept ++ dropped ∧
      n.scan (digits ++ rest) =
        ({ n with
          significand := Nat.ofDigitChars 10 kept n.significand
          scale := n.scale - kept.length
          filled }).scan rest := by
  induction digits generalizing n with
  | nil => exact ⟨[], [], n.filled, rfl, by simp⟩
  | cons c digits ih =>
    rw [List.forall_mem_cons] at all
    have step : n.step c = .next (n.pushFraction c) := by simp [step, part, all.1]
    rw [List.cons_append, scan_cons_of_next step]
    by_cases full : n.filled = true ∨ UInt64.size ≤ 10 * n.significand + digitValue c
    · refine ⟨[], c :: digits, true, rfl, ?_⟩
      rw [pushFraction_of_full full, scan_fraction_of_filled all.2 rfl rfl, ← part]
      simp
    · rw [not_or, Bool.not_eq_true, Nat.not_le] at full
      rw [pushFraction_of_lt full.1 full.2, ← part]
      obtain ⟨kept, dropped, filled, split, scanned⟩ := ih (n := { n with
        significand := 10 * n.significand + digitValue c
        scale := n.scale - 1 }) all.2 part
      refine ⟨c :: kept, dropped, filled, by rw [split, List.cons_append], scanned.trans ?_⟩
      have places : n.scale - 1 - kept.length = n.scale - (c :: kept).length := by
        rw [List.length_cons]
        omega
      rw [places]
      rfl

/-- The digits of an exponent are all kept. -/
theorem scan_power (all : ∀ c ∈ digits, c.isDigit = true) (part : n.part = .power)
    (rest : List Char) :
    n.scan (digits ++ rest) =
      ({ n with power := Nat.ofDigitChars 10 digits n.power }).scan rest := by
  induction digits generalizing n with
  | nil => rfl
  | cons c digits ih =>
    rw [List.forall_mem_cons] at all
    have step : n.step c = .next { n with power := 10 * n.power + digitValue c } := by
      simp [step, part, all.1, pushPower, Nat.mul_comm]
    rw [List.cons_append, scan_cons_of_next step]
    exact ih (n := { n with power := 10 * n.power + digitValue c }) all.2 part

/-! ### The parts of a numeral -/

/-- A numeral of which no more than the sign has been scanned. -/
def opened (negative : Bool) : Numeral where
  part := if negative then .sign else .start
  negative := negative

/-- A numeral after its whole part. -/
def afterWhole (negative : Bool) (whole : List Char) : Numeral where
  part := if whole = ['0'] then .zero else .integer
  negative := negative
  significand := Nat.ofDigitChars 10 whole 0

theorem part_afterWhole (negative : Bool) (whole : List Char) :
    (afterWhole negative whole).part = .zero ∨ (afterWhole negative whole).part = .integer := by
  unfold afterWhole
  dsimp only
  split
  · exact Or.inl rfl
  · exact Or.inr rfl

theorem scan_sign (rest : List Char) : ({} : Numeral).scan ('-' :: rest) = (opened true).scan rest :=
  scan_cons_of_next rfl

/-- A whole number that fits is scanned to its value. -/
theorem advances_whole {whole : List Char} (wholeText : WholeText whole) (negative : Bool) :
    Advances Next (opened negative) whole (afterWhole negative whole) := by
  obtain ⟨c, digits, rfl⟩ := List.exists_cons_of_ne_nil wholeText.nonempty
  obtain ⟨digit, digitsAfter⟩ := List.forall_mem_cons.mp wholeText.isDigit_of_mem
  have notSign : c ≠ '-' := by
    rintro rfl
    exact absurd digit (by decide)
  have step : (opened negative).step c = (opened negative).leadingDigit c := by
    cases negative
    · simp [opened, step, notSign]
    · rfl
  rcases wholeText.leads with zero | leads
  · cases zero
    exact .single step
  · have notZero := leads c rfl
    have fits := wholeText.fits
    rw [Nat.ofDigitChars_cons] at fits
    have first := (le_ofDigitChars digits _).trans_lt fits
    have next : (opened negative).leadingDigit c = .next ((opened negative).pushInteger c) := by
      simp [leadingDigit, notZero, digit]
    have other : c :: digits ≠ ['0'] := fun same => notZero (List.cons.inj same).1
    rw [pushInteger_of_lt rfl first] at next
    have rest := advances_integer (n := { opened negative with
      part := .integer
      significand := 10 * (opened negative).significand + digitValue c }) digitsAfter rfl rfl fits
    rw [afterWhole, if_neg other]
    exact .cons (step.trans next) rest

theorem scan_nil (complete : n.isComplete = true) : n.scan [] = some (n, []) := by
  rw [scan, if_pos complete]

/-- A point leads to the digits after it. -/
theorem scan_point {places : List Char} (whole : n.part = .zero ∨ n.part = .integer)
    (nonempty : places ≠ []) (all : ∀ c ∈ places, c.isDigit = true) :
    n.scan ('.' :: (places ++ rest)) =
      ({ n with part := .fraction, filled := false }).scan (places ++ rest) := by
  have step : n.step '.' = .next { n with part := .point, filled := false } := by
    rcases whole with part | part <;> simp [step, part, afterInteger]
  obtain ⟨c, digits, rfl⟩ := List.exists_cons_of_ne_nil nonempty
  have digit := all c List.mem_cons_self
  -- A first digit is taken as any other is.
  rw [scan_cons_of_next step, List.cons_append, scan, scan]
  simp [Numeral.step, digit, pushFraction, keep?]

theorem scan_markSign (all : ∀ c ∈ digits, c.isDigit = true) (nonempty : digits ≠ [])
    (part : n.part = .markSign) :
    n.scan digits =
      some ({ n with part := .power, power := Nat.ofDigitChars 10 digits n.power }, []) := by
  obtain ⟨c, digits, rfl⟩ := List.exists_cons_of_ne_nil nonempty
  rw [List.forall_mem_cons] at all
  have step : n.step c = .next { n with part := .power, power := 10 * n.power + digitValue c } := by
    simp [step, part, all.1, pushPower, Nat.mul_comm]
  have scanned := scan_power (n := { n with part := .power, power := 10 * n.power + digitValue c })
    all.2 rfl []
  rw [List.append_nil, scan_nil rfl] at scanned
  rw [scan_cons_of_next step, scanned]
  rfl

/-- An exponent ends a numeral. The significand stays as it is, and the exponent is added to the
scale. -/
theorem scan_exponentPart (written : n.part = .zero ∨ n.part = .integer ∨ n.part = .fraction)
    (fresh : n.power = 0 ∧ n.powerNegative = false) (e : Int) :
    ∃ numeral : Numeral, n.scan (Decimal.exponentPart e) = some (numeral, []) ∧
      numeral.significand = n.significand ∧ numeral.exponent = n.scale + e := by
  have mark : n.step 'e' = .next { n with part := .mark } := by
    rcases written with part | part | part <;> simp [step, part, afterInteger]
  cases e with
  | ofNat k =>
    have sign : ({ n with part := .mark } : Numeral).step '+' =
        .next { n with part := .markSign } := rfl
    have digits := scan_markSign (n := { n with part := .markSign })
      (isDigit_of_mem_toDigits k) Nat.toDigits_ne_nil rfl
    rw [Decimal.exponentPart, scan_cons_of_next mark, scan_cons_of_next sign, digits]
    refine ⟨_, rfl, rfl, ?_⟩
    simp [exponent, fresh]
  | negSucc k =>
    have sign : ({ n with part := .mark } : Numeral).step '-' =
        .next { n with part := .markSign, powerNegative := true } := rfl
    have digits := scan_markSign (n := { n with part := .markSign, powerNegative := true })
      (isDigit_of_mem_toDigits (k + 1)) Nat.toDigits_ne_nil rfl
    rw [Decimal.exponentPart, scan_cons_of_next mark, scan_cons_of_next sign, digits]
    refine ⟨_, rfl, rfl, ?_⟩
    simp [exponent, fresh, Int.negSucc_eq, sub_eq_add_neg]

theorem scan_powerText {power : List Char} (powerText : PowerText power)
    (written : n.part = .zero ∨ n.part = .integer ∨ n.part = .fraction)
    (fresh : n.power = 0 ∧ n.powerNegative = false) :
    ∃ numeral : Numeral, n.scan power = some (numeral, []) ∧
      numeral.significand = n.significand ∧ numeral.exponent = n.scale + exponentValue power := by
  cases powerText with
  | none =>
    have complete : n.isComplete = true := by
      rcases written with part | part | part <;> simp [isComplete, part]
    refine ⟨n, scan_nil complete, rfl, ?_⟩
    simp [exponent, fresh, exponentValue_nil]
  | exponent e =>
    rw [exponentValue_exponentPart]
    exact scan_exponentPart written fresh e

/-- A numeral is scanned to its end. Its significand has the digits before the point and those that
fit of the digits after it, and its exponent is the written one less the places of these. -/
theorem scan_parts {whole places power : List Char} (wholeText : WholeText whole)
    (placesText : PlacesText places) (powerText : PowerText power) (negative : Bool) :
    ∃ numeral kept dropped, places.tail = kept ++ dropped ∧
      (opened negative).scan (whole ++ places ++ power) = some (numeral, []) ∧
      numeral.significand = Nat.ofDigitChars 10 (whole ++ kept) 0 ∧
      numeral.exponent = exponentValue power - kept.length := by
  have part := part_afterWhole negative whole
  rw [List.append_assoc, scan_append (advances_whole wholeText negative)]
  cases placesText with
  | none =>
    obtain ⟨numeral, scanned, significand, exponent⟩ :=
      scan_powerText (n := afterWhole negative whole) powerText (part.imp_right Or.inl) ⟨rfl, rfl⟩
    refine ⟨numeral, [], [], rfl, scanned, ?_, ?_⟩
    · rw [significand, List.append_nil]
      rfl
    · rw [exponent, afterWhole]
      simp
  | point nonempty digits =>
    rw [List.cons_append, scan_point part nonempty digits]
    obtain ⟨kept, dropped, filled, split, scannedPlaces⟩ :=
      scan_fraction (n := { afterWhole negative whole with part := .fraction, filled := false })
        digits rfl power
    obtain ⟨numeral, scanned, significand, exponent⟩ :=
      scan_powerText (n := { afterWhole negative whole with
        part := .fraction
        significand := Nat.ofDigitChars 10 kept (afterWhole negative whole).significand
        scale := (afterWhole negative whole).scale - kept.length
        filled }) powerText (by simp) ⟨rfl, rfl⟩
    refine ⟨numeral, kept, dropped, split, scannedPlaces.trans scanned, ?_, ?_⟩
    · rw [significand, Nat.ofDigitChars_append]
      rfl
    · rw [exponent, afterWhole, zero_sub, neg_add_eq_sub]

end Json.Numeral

/-! ### The range of numerals -/

namespace Binary64

/-- Rounding to 53 bits adds at most one part in `2 ^ 53`. -/
theorem roundNat_le (n : Nat) : 2 ^ 53 * roundNat n ≤ (2 ^ 53 + 1) * n := by
  obtain ⟨step, isStep⟩ : ∃ step, step = Nat.pow 2 (n.log2 - 52) := ⟨_, rfl⟩
  have split := Nat.div_add_mod' n step
  unfold roundNat
  rw [← isStep]
  dsimp only
  split
  · omega
  · next up =>
    simp only [Bool.or_eq_true, decide_eq_true_eq, not_or, Nat.not_lt] at up
    -- A number of at most 53 bits is not rounded up, since a step of one loses nothing.
    have long : 52 ≤ n.log2 := by
      by_contra short
      rw [Nat.sub_eq_zero_of_le (by omega)] at isStep
      obtain rfl : step = 1 := isStep
      omega
    have steps : 2 ^ 52 * step ≤ n := by
      have nonzero : n ≠ 0 := by
        rintro rfl
        simp at long
      calc 2 ^ 52 * step = 2 ^ n.log2 := by
            rw [isStep, Nat.pow_eq, ← Nat.pow_add, Nat.add_sub_cancel' long]
        _ ≤ n := Nat.log2_self_le nonzero
    rw [Nat.add_mul]
    omega

/-- The middle between the second and the third of the greatest values. Up to here, rounding two
factors does not lead beyond the greatest value. -/
def certainBound : Nat :=
  2 ^ 1024 - 5 * 2 ^ 970

theorem roundNat_mul_roundNat_lt {m n : Nat} (small : m * n ≤ certainBound) :
    roundNat m * roundNat n < overflowBound := by
  have scaled : 2 ^ 53 * 2 ^ 53 * (roundNat m * roundNat n) < 2 ^ 53 * 2 ^ 53 * overflowBound := calc
    _ = 2 ^ 53 * roundNat m * (2 ^ 53 * roundNat n) := by ring
    _ ≤ (2 ^ 53 + 1) * m * ((2 ^ 53 + 1) * n) := Nat.mul_le_mul (roundNat_le m) (roundNat_le n)
    _ = (2 ^ 53 + 1) * (2 ^ 53 + 1) * (m * n) := by ring
    _ ≤ (2 ^ 53 + 1) * (2 ^ 53 + 1) * certainBound := Nat.mul_le_mul_left _ small
    _ < 2 ^ 53 * 2 ^ 53 * overflowBound := by decide +kernel
  exact Nat.lt_of_mul_lt_mul_left scaled

end Binary64

/-- A numeral that says no more than the bound is in range. -/
theorem Json.Numeral.inRange_of_le {n : Numeral}
    (small : (n.significand : ℚ) * 10 ^ n.exponent ≤ Binary64.certainBound) : n.inRange = true := by
  unfold inRange
  rcases Nat.eq_zero_or_pos n.significand with zero | positive
  · simp [zero]
  cases e : n.exponent with
  | negSucc k => simp
  | ofNat k =>
    rw [e, Int.ofNat_eq_natCast, zpow_natCast] at small
    have bound : n.significand * 10 ^ k ≤ Binary64.certainBound := by exact_mod_cast small
    have less : 10 ^ k < 10 ^ 309 := calc
      10 ^ k ≤ n.significand * 10 ^ k := Nat.le_mul_of_pos_left _ positive
      _ ≤ Binary64.certainBound := bound
      _ < 10 ^ 309 := by decide +kernel
    have power := (Nat.pow_lt_pow_iff_right (by decide)).mp less
    simp only [Bool.or_eq_true, Bool.and_eq_true, decide_eq_true_eq]
    exact Or.inr ⟨by omega, Binary64.roundNat_mul_roundNat_lt bound⟩

/-! ### Reading back -/

/-- A text with a minus sign before it, if it is to have one. -/
def signed (negative : Bool) (text : List Char) : List Char :=
  if negative then '-' :: text else text

namespace Json

theorem isSpace_of_isDigit {c : Char} (digit : c.isDigit = true) : isSpace c = false := by
  rw [Bool.eq_false_iff]
  intro space
  simp only [isSpace, Bool.or_eq_true, beq_iff_eq] at space
  rcases space with ((rfl | rfl) | rfl) | rfl <;> exact absurd digit (by decide)

theorem scan_signed (negative : Bool) (text : List Char) :
    ({} : Numeral).scan (signed negative text) = (Numeral.opened negative).scan text := by
  cases negative
  · rfl
  · exact Numeral.scan_sign text

section Parts

variable {whole places power : List Char} (wholeText : WholeText whole)
  (placesText : PlacesText places) (powerText : PowerText power)

include wholeText placesText powerText

/-- A numeral says no more than its text. -/
theorem Numeral.exists_scan_le (negative : Bool) :
    ∃ numeral : Numeral,
      (opened negative).scan (whole ++ places ++ power) = some (numeral, []) ∧
      (numeral.significand : ℚ) * 10 ^ numeral.exponent ≤
        decimalValue (whole ++ places ++ power) := by
  obtain ⟨numeral, kept, dropped, split, scanned, significand, exponent⟩ :=
    scan_parts wholeText placesText powerText negative
  refine ⟨numeral, scanned, ?_⟩
  -- The digits that are passed over come last and can only make a number greater.
  have digits : (10 ^ dropped.length * numeral.significand : ℚ) ≤
      Nat.ofDigitChars 10 (whole ++ places.tail) 0 := by
    rw [split, ← List.append_assoc, Nat.ofDigitChars_append, significand]
    exact_mod_cast shift_le_ofDigitChars dropped _
  have shift : numeral.exponent =
      dropped.length + (exponentValue power - places.tail.length) := by
    rw [exponent, split, List.length_append]
    omega
  calc (numeral.significand : ℚ) * 10 ^ numeral.exponent
      = 10 ^ dropped.length * numeral.significand *
          10 ^ (exponentValue power - places.tail.length) := by
        rw [shift, zpow_add₀ (by norm_num), zpow_natCast]
        ring
    _ ≤ decimalValue (whole ++ places ++ power) := by
        rw [decimalValue_parts wholeText placesText powerText]
        exact mul_le_mul_of_nonneg_right digits (by positivity)

/-- The text of a number that is not too great is read as a number. -/
theorem readsAsNumber_parts (small : decimalValue (whole ++ places ++ power) ≤ Binary64.certainBound)
    (negative : Bool) :
    readsAsNumber (String.ofList (signed negative (whole ++ places ++ power))) = true := by
  have unspaced : (signed negative (whole ++ places ++ power)).dropWhile isSpace =
      signed negative (whole ++ places ++ power) := by
    cases negative with
    | true => rfl
    | false =>
      obtain ⟨c, digits, rfl⟩ := List.exists_cons_of_ne_nil wholeText.nonempty
      have digit := wholeText.isDigit_of_mem c List.mem_cons_self
      exact List.dropWhile_cons_of_neg (by simp [isSpace_of_isDigit digit])
  obtain ⟨numeral, scanned, said⟩ :=
    Numeral.exists_scan_le wholeText placesText powerText negative
  have inRange := Numeral.inRange_of_le (said.trans small)
  rw [readsAsNumber, String.toList_ofList, unspaced, scan_signed, scanned]
  simp [inRange]

end Parts

/-- A whole number is read as a number. -/
theorem readsAsNumber_whole {whole : List Char} (wholeText : WholeText whole) (negative : Bool) :
    readsAsNumber (String.ofList (signed negative whole)) = true := by
  have value := decimalValue_parts wholeText .none .none
  have read := readsAsNumber_parts wholeText .none .none
  rw [List.append_nil, List.append_nil] at value read
  refine read ?_ negative
  have fits : Nat.ofDigitChars 10 whole 0 ≤ Binary64.certainBound :=
    wholeText.fits.le.trans (by decide +kernel)
  have said : decimalValue whole = Nat.ofDigitChars 10 whole 0 := by
    simpa [exponentValue_nil] using value
  rw [said]
  exact_mod_cast fits

end Json

namespace Binary64

variable {x : Binary64}

/-- The rank of the greatest value. -/
def greatestRank : Nat :=
  2046 * fractionCount + (fractionCount - 1)

theorem rank_le (x : Binary64) : x.rank ≤ greatestRank := by
  have exponent := Nat.mul_le_mul_right fractionCount (Nat.le_of_lt_succ x.exponent.isLt)
  exact Nat.add_le_add exponent (Nat.le_sub_one_of_lt x.fraction.isLt)

/-- Any value but the two greatest is less than the bound up to which texts are surely in range. -/
theorem value_le (nonzero : x.isZero = false) (low : x.rank ≤ greatestRank - 2) :
    x.decimal.value ≤ certainBound := by
  obtain ⟨n, inside, scaled⟩ := exists_contains_decimal nonzero
  obtain ⟨-, below, -⟩ := RoundingSpan.bounds_of_contains (lower_lt_upper _) inside
  have bound : n ≤ certainBound * 10 ^ 1075 := calc
    n ≤ (roundingSpan x.rank).upper := below
    _ ≤ (roundingSpan (greatestRank - 2)).upper := upper_le_upper low
    _ = certainBound * 10 ^ 1075 := by decide +kernel
  have scaledBound : x.decimal.value * 10 ^ 1075 ≤ certainBound * 10 ^ 1075 := by
    rw [scaled]
    exact_mod_cast bound
  exact le_of_mul_le_mul_right scaledBound (by positivity)

/-- The two greatest values are written in seventeen digits, whose rounding errors do not lead
beyond the range. -/
theorem readsAsNumber_text_of_lt (high : greatestRank - 2 < x.rank) :
    Json.readsAsNumber x.text = true := by
  have greatest : ∀ negative : Bool,
      Json.readsAsNumber (⟨negative, 2046, 4503599627370495⟩ : Binary64).text = true ∧
        Json.readsAsNumber (⟨negative, 2046, 4503599627370494⟩ : Binary64).text = true := by
    intro negative
    cases negative <;> exact ⟨by decide +kernel, by decide +kernel⟩
  have top := x.rank_le
  rcases Nat.lt_or_eq_of_le top with less | same
  · have other : x = ⟨x.negative, 2046, 4503599627370494⟩ := by
      refine eq_of_rank_eq rfl ?_
      norm_num [rank, greatestRank] at high less ⊢
      omega
    rw [other]
    exact (greatest x.negative).2
  · have other : x = ⟨x.negative, 2046, 4503599627370495⟩ := by
      refine eq_of_rank_eq rfl (same.trans ?_)
      norm_num [rank, greatestRank]
    rw [other]
    exact (greatest x.negative).1

theorem exists_parts (x : Binary64) : ∃ whole places power, WholeText whole ∧ PlacesText places ∧
    PowerText power ∧ x.magnitudeChars = whole ++ places ++ power := by
  have isText := x.isText_magnitudeChars.1
  generalize x.magnitudeChars = magnitude at isText
  obtain ⟨wholeText, placesText, powerText, -⟩ := isText
  exact ⟨_, _, _, wholeText, placesText, powerText, rfl⟩

/-- Every floating-point number is read back as a number. -/
theorem readsAsNumber_text (x : Binary64) : Json.readsAsNumber x.text = true := by
  rcases Nat.lt_or_ge (greatestRank - 2) x.rank with high | low
  · exact readsAsNumber_text_of_lt high
  · have small : decimalValue x.magnitudeChars ≤ certainBound := by
      rw [x.isText_magnitudeChars.2]
      split
      · exact Nat.cast_nonneg _
      · next nonzero => exact value_le (Bool.eq_false_iff.mpr nonzero) low
    obtain ⟨whole, places, power, wholeText, placesText, powerText, magnitude⟩ := x.exists_parts
    rw [magnitude] at small
    rw [text, chars, ← signed, magnitude]
    exact Json.readsAsNumber_parts wholeText placesText powerText small x.negative

end Binary64

namespace Number

/-- An integer that fits 64 bits is written as a whole number with a sign or without. -/
theorem exists_whole {value : Int} (fits : FitsWord value) : ∃ negative whole, WholeText whole ∧
    integerText value = String.ofList (signed negative whole) := by
  have size : UInt64.size = 18446744073709551616 := rfl
  obtain ⟨above, below⟩ := fits
  cases value with
  | ofNat k =>
    rw [Int.ofNat_eq_natCast] at below
    refine ⟨false, _, wholeText_toDigits (n := k) (by omega), ?_⟩
    rw [← String.toList_inj, String.toList_ofList, Int.ofNat_eq_natCast, toList_integerText_natCast]
    rfl
  | negSucc k =>
    rw [Int.negSucc_eq] at above
    refine ⟨true, _, wholeText_toDigits (n := k + 1) (by omega), ?_⟩
    rw [← String.toList_inj, String.toList_ofList, toList_integerText_negSucc]
    rfl

/-- A number is written as a whole number with a sign, places and an exponent, or without any of
them. -/
theorem exists_parts (value : Number) : ∃ negative whole places power, WholeText whole ∧
    PlacesText places ∧ PowerText power ∧
    value.text = String.ofList (signed negative (whole ++ places ++ power)) := by
  cases value with
  | integer value fits =>
    obtain ⟨negative, whole, wholeText, text⟩ := exists_whole fits
    rw [← List.append_nil whole, ← List.append_nil (whole ++ [])] at text
    exact ⟨negative, whole, [], [], wholeText, .none, .none, text⟩
  | float x =>
    obtain ⟨whole, places, power, wholeText, placesText, powerText, magnitude⟩ := x.exists_parts
    refine ⟨x.negative, whole, places, power, wholeText, placesText, powerText, ?_⟩
    rw [← magnitude]
    rfl

/-- Every number is read back as a number. -/
theorem readsAsNumber_text (value : Number) : Json.readsAsNumber value.text = true := by
  cases value with
  | integer value fits =>
    obtain ⟨negative, whole, wholeText, written⟩ := exists_whole fits
    rw [text, written]
    exact Json.readsAsNumber_whole wholeText negative
  | float x => exact x.readsAsNumber_text

end Number

end Sequencer
