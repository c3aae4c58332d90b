import Mathlib.Tactic.NormNum
import Mathlib.Tactic.Ring
import Sequencer.Number.Basic
import Sequencer.Proofs.Rounding

/-!
# Numbers by their texts

The text of a floating-point number says the value of its decimal, in positional and in scientific
digits alike. Read as such, it gives the value back, and the value gives the rank; so two different
numbers have different texts. A floating-point number has a point or an exponent in its text, which
an integer never has.

A number is written in a few characters only. Whatever follows it in a longer text, it ends where
another character stands.

## Main definitions

* `decimalValue`: what digits with an optional point and an optional exponent say.
* `WholeText`, `PlacesText`, `PowerText`: the parts of which the text of a number consists.
* `isNumeral`: the characters that numbers are written in.
* `LooksNumeral`: a text of such characters that starts as a number does.
* `EndsNumeral`: what may follow a number.

## Main results

* `Decimal.isText_chars`: the text of a decimal has these parts and says its value.
* `Binary64.text_injective`, `integerText_injective`: different numbers have different texts.
* `Binary64.text_ne_integerText`: a floating-point number is never written like an integer.
* `LooksNumeral.append_inj`: a number ends where a character stands that is not its own.
-/

namespace Sequencer

/-! ### What digits say -/

/-- What digits with an optional point say. -/
def mantissaValue (text : List Char) : ℚ :=
  let whole := text.takeWhile (· != '.')
  let places := (text.dropWhile (· != '.')).tail
  Nat.ofDigitChars 10 (whole ++ places) 0 * 10 ^ (-(places.length : Int))

/-- What a signed exponent after its letter says; nothing says zero. -/
def exponentValue : List Char → Int
  | _ :: '+' :: digits => Nat.ofDigitChars 10 digits 0
  | _ :: '-' :: digits => -(Nat.ofDigitChars 10 digits 0 : Int)
  | _ => 0

/-- What digits with an optional point and an optional exponent say. -/
def decimalValue (text : List Char) : ℚ :=
  mantissaValue (text.takeWhile (· != 'e')) * 10 ^ exponentValue (text.dropWhile (· != 'e'))

/-- A text is cut where the first character of its second part stands. -/
theorem cut_append {mark : Char} {before after : List Char} (fresh : mark ∉ before)
    (starts : ∀ c ∈ after.head?, c = mark) :
    (before ++ after).takeWhile (· != mark) = before ∧
      (before ++ after).dropWhile (· != mark) = after := by
  have passed : ∀ c ∈ before, (c != mark) = true := by
    intro c listed
    exact bne_iff_ne.mpr fun same => fresh (same ▸ listed)
  rw [List.takeWhile_append_of_pos passed, List.dropWhile_append_of_pos passed]
  cases after with
  | nil => simp
  | cons c rest =>
    obtain rfl := starts c rfl
    simp

/-- What a text says is the number of its digits, shifted by its exponent and by its places. -/
theorem decimalValue_append {whole point power : List Char} (noPoint : '.' ∉ whole)
    (noMark : 'e' ∉ whole ++ point) (pointStarts : ∀ c ∈ point.head?, c = '.')
    (powerStarts : ∀ c ∈ power.head?, c = 'e') :
    decimalValue (whole ++ point ++ power) =
      Nat.ofDigitChars 10 (whole ++ point.tail) 0 *
        10 ^ (exponentValue power - point.tail.length) := by
  obtain ⟨mantissa, exponent⟩ := cut_append noMark powerStarts
  obtain ⟨digits, places⟩ := cut_append noPoint pointStarts
  rw [decimalValue, mantissa, exponent, mantissaValue, digits, places, mul_assoc,
    ← zpow_add₀ (by norm_num), neg_add_eq_sub]

theorem exponentValue_nil : exponentValue [] = 0 := rfl

theorem exponentValue_exponentPart (e : Int) : exponentValue (Decimal.exponentPart e) = e := by
  cases e with
  | ofNat k =>
    simp only [Decimal.exponentPart, exponentValue, Nat.ofDigitChars_ten_toDigits]
    rfl
  | negSucc k =>
    simp only [Decimal.exponentPart, exponentValue, Nat.ofDigitChars_ten_toDigits]
    rfl

/-! ### The parts of a text -/

theorem notMem_of_isDigit {mark : Char} {digits : List Char} (all : ∀ c ∈ digits, c.isDigit = true)
    (other : mark.isDigit = false) : mark ∉ digits := by
  intro listed
  rw [all mark listed] at other
  cases other

/-- The digits of a whole number that fits 64 bits, without needless zeros. -/
structure WholeText (text : List Char) : Prop where
  isDigit_of_mem : ∀ c ∈ text, c.isDigit = true
  nonempty : text ≠ []
  /-- The only whole number that starts with a zero is zero. -/
  leads : text = ['0'] ∨ ∀ c ∈ text.head?, c ≠ '0'
  fits : Nat.ofDigitChars 10 text 0 < UInt64.size

/-- A point with places after it, or nothing. -/
inductive PlacesText : List Char → Prop
  | none : PlacesText []
  | point {places : List Char} (nonempty : places ≠ [])
      (digits : ∀ c ∈ places, c.isDigit = true) : PlacesText ('.' :: places)

/-- An exponent with its letter and its sign, or nothing. -/
inductive PowerText : List Char → Prop
  | none : PowerText []
  | exponent (e : Int) : PowerText (Decimal.exponentPart e)

theorem PlacesText.eq_point_of_mem_head? {text : List Char} (places : PlacesText text) :
    ∀ c ∈ text.head?, c = '.' := by
  cases places <;> simp

theorem PowerText.eq_mark_of_mem_head? {text : List Char} (power : PowerText text) :
    ∀ c ∈ text.head?, c = 'e' := by
  cases power with
  | none => simp
  | exponent e => cases e <;> simp [Decimal.exponentPart]

/-- What a text says is what its digits say, shifted by its exponent and by its places. -/
theorem decimalValue_parts {whole places power : List Char} (wholeText : WholeText whole)
    (placesText : PlacesText places) (powerText : PowerText power) :
    decimalValue (whole ++ places ++ power) =
      Nat.ofDigitChars 10 (whole ++ places.tail) 0 *
        10 ^ (exponentValue power - places.tail.length) := by
  have digits := wholeText.isDigit_of_mem
  refine decimalValue_append (notMem_of_isDigit digits (by decide)) ?_
    placesText.eq_point_of_mem_head? powerText.eq_mark_of_mem_head?
  rw [List.mem_append, not_or]
  refine ⟨notMem_of_isDigit digits (by decide), ?_⟩
  cases placesText with
  | none => simp
  | point _ placesDigits =>
    rw [List.mem_cons, not_or]
    exact ⟨by decide, notMem_of_isDigit placesDigits (by decide)⟩

/-- So many digits say less than the power of ten. -/
theorem ofDigitChars_lt {digits : List Char} (all : ∀ c ∈ digits, c.isDigit = true) (start : Nat) :
    Nat.ofDigitChars 10 digits start < (start + 1) * 10 ^ digits.length := by
  induction digits generalizing start with
  | nil => simp
  | cons c rest ih =>
    rw [List.forall_mem_cons] at all
    have digit : c.toNat ≤ 57 := (Char.isDigit_iff_toNat.mp all.1).2
    rw [Nat.ofDigitChars_cons, List.length_cons, Nat.pow_succ', ← Nat.mul_assoc]
    refine (ih all.2 _).trans_le (Nat.mul_le_mul_right _ ?_)
    have zero : '0'.toNat = 48 := rfl
    omega

theorem isDigit_of_mem_toDigits (n : Nat) : ∀ c ∈ Nat.toDigits 10 n, c.isDigit = true :=
  fun _ listed => Nat.isDigit_of_mem_toDigits (by decide) (by decide) listed

theorem isDigit_of_mem_replicate (count : Nat) :
    ∀ c ∈ List.replicate count '0', c.isDigit = true := by
  intro c listed
  rw [List.eq_of_mem_replicate listed]
  decide

theorem ne_zero_of_mem_head?_toDigits {n : Nat} (positive : 0 < n) :
    ∀ c ∈ (Nat.toDigits 10 n).head?, c ≠ '0' := by
  induction n using Nat.base_induction 10 (by decide) with
  | single m small =>
    rw [Nat.toDigits_of_lt_base small]
    simp [Nat.ne_of_gt positive]
  | digit m k small more ih =>
    rw [← Nat.toDigits_append_toDigits (by decide) more small,
      List.head?_append_of_ne_nil _ Nat.toDigits_ne_nil]
    exact ih more

theorem wholeText_toDigits {n : Nat} (fits : n < UInt64.size) : WholeText (Nat.toDigits 10 n) where
  isDigit_of_mem := isDigit_of_mem_toDigits n
  nonempty := Nat.toDigits_ne_nil
  leads := by
    rcases Nat.eq_zero_or_pos n with rfl | positive
    · exact Or.inl (Nat.toDigits_zero 10)
    · exact Or.inr (ne_zero_of_mem_head?_toDigits positive)
  fits := by rwa [Nat.ofDigitChars_ten_toDigits]

/-- Sixteen digits always fit 64 bits. -/
theorem wholeText_of_length_le {digits : List Char} (all : ∀ c ∈ digits, c.isDigit = true)
    (nonempty : digits ≠ []) (leads : ∀ c ∈ digits.head?, c ≠ '0') (short : digits.length ≤ 16) :
    WholeText digits where
  isDigit_of_mem := all
  nonempty := nonempty
  leads := Or.inr leads
  fits := calc
    Nat.ofDigitChars 10 digits 0 < (0 + 1) * 10 ^ digits.length := ofDigitChars_lt all 0
    _ ≤ (0 + 1) * 10 ^ 16 := Nat.mul_le_mul_left _ (Nat.pow_le_pow_right (by decide) short)
    _ < UInt64.size := by decide

theorem wholeText_zero : WholeText ['0'] :=
  wholeText_toDigits (n := 0) (by decide)

/-! ### Texts of decimals -/

namespace Decimal

theorem isDigit_of_mem_digitChars (d : Decimal) : ∀ c ∈ d.digitChars, c.isDigit = true :=
  isDigit_of_mem_toDigits d.digits

theorem ofDigitChars_digitChars (d : Decimal) : Nat.ofDigitChars 10 d.digitChars 0 = d.digits :=
  Nat.ofDigitChars_ten_toDigits

theorem digitChars_ne_nil (d : Decimal) : d.digitChars ≠ [] :=
  Nat.toDigits_ne_nil

theorem exponent_eq (d : Decimal) : d.exponent = d.leading - d.digitChars.length + 1 := by
  unfold leading
  ring

/-- A whole number with places after a point, with an exponent, or with both. -/
inductive IsText : List Char → Prop
  | parts {whole places power : List Char} (wholeText : WholeText whole)
      (placesText : PlacesText places) (powerText : PowerText power)
      (marked : places ≠ [] ∨ power ≠ []) : IsText (whole ++ places ++ power)

section Layouts

variable {digits : List Char} (all : ∀ c ∈ digits, c.isDigit = true) (nonempty : digits ≠ [])
  (leads : ∀ c ∈ digits.head?, c ≠ '0')

include all nonempty leads

/-- Positional digits are digits around a point. They have the digits given, with zeros before or
after them, shifted so that the first one has exponent `e`. -/
theorem positional_eq {e : Int} (small : e ≤ 15) :
    ∃ whole places, positional digits e = whole ++ '.' :: places ∧ WholeText whole ∧
      places ≠ [] ∧ (∀ c ∈ places, c.isDigit = true) ∧
      (Nat.ofDigitChars 10 (whole ++ places) 0 : ℚ) * 10 ^ (-(places.length : Int)) =
        Nat.ofDigitChars 10 digits 0 * 10 ^ (e - digits.length + 1) := by
  cases e with
  | ofNat k =>
    have few : k + 1 ≤ 16 := by
      rw [Int.ofNat_eq_natCast] at small
      omega
    by_cases short : digits.length ≤ k + 1
    · refine ⟨digits ++ List.replicate (k + 1 - digits.length) '0', List.replicate 1 '0', ?_, ?_,
        List.cons_ne_nil _ _, isDigit_of_mem_replicate 1, ?_⟩
      · simp [positional, short]
      · refine wholeText_of_length_le ?_ (List.append_ne_nil_of_left_ne_nil nonempty _) ?_ ?_
        · rw [List.forall_mem_append]
          exact ⟨all, isDigit_of_mem_replicate _⟩
        · rwa [List.head?_append_of_ne_nil _ nonempty]
        · rw [List.length_append, List.length_replicate]
          omega
      · rw [List.append_assoc, List.replicate_append_replicate, Nat.ofDigitChars_append,
          Nat.ofDigitChars_replicate_zero, Nat.cast_mul, Nat.cast_pow, Nat.cast_ofNat,
          mul_comm (10 ^ _) (_ : ℚ), mul_assoc, ← zpow_natCast, ← zpow_add₀ (by norm_num)]
        congr 2
        simp only [List.length_replicate, Int.ofNat_eq_natCast]
        omega
    · refine ⟨digits.take (k + 1), digits.drop (k + 1), ?_, ?_, ?_, ?_, ?_⟩
      · simp [positional, short]
      · refine wholeText_of_length_le (fun c listed => all c (List.mem_of_mem_take listed))
          (by simp [nonempty]) ?_ ((List.length_take_le _ _).trans few)
        rwa [List.head?_take, if_neg (Nat.succ_ne_zero k)]
      · simpa using Nat.lt_of_not_le short
      · exact fun c listed => all c (List.mem_of_mem_drop listed)
      · rw [List.take_append_drop]
        congr 2
        simp only [List.length_drop, Int.ofNat_eq_natCast]
        omega
  | negSucc k =>
    refine ⟨List.replicate 1 '0', List.replicate k '0' ++ digits, ?_, wholeText_zero,
      List.append_ne_nil_of_right_ne_nil _ nonempty, ?_, ?_⟩
    · simp [positional]
    · rw [List.forall_mem_append]
      exact ⟨isDigit_of_mem_replicate k, all⟩
    · rw [← List.append_assoc, List.replicate_append_replicate, Nat.ofDigitChars_append,
        Nat.ofDigitChars_replicate_zero, Nat.mul_zero]
      congr 2
      simp only [List.length_append, List.length_replicate, Int.negSucc_eq]
      omega

theorem isText_positional {e : Int} (small : e ≤ 15) :
    IsText (positional digits e) ∧ decimalValue (positional digits e) =
      Nat.ofDigitChars 10 digits 0 * 10 ^ (e - digits.length + 1) := by
  obtain ⟨whole, places, text, wholeText, some, placesDigits, said⟩ :=
    positional_eq all nonempty leads small
  have placesText := PlacesText.point some placesDigits
  have isText := IsText.parts wholeText placesText .none (Or.inl (List.cons_ne_nil _ _))
  have value := decimalValue_parts wholeText placesText .none
  rw [List.append_nil] at isText value
  rw [exponentValue_nil, zero_sub, List.tail_cons, said] at value
  rw [text]
  exact ⟨isText, value⟩

theorem isText_scientific (e : Int) :
    IsText (scientific digits e) ∧ decimalValue (scientific digits e) =
      Nat.ofDigitChars 10 digits 0 * 10 ^ (e - digits.length + 1) := by
  obtain ⟨d, rest, rfl⟩ := List.exists_cons_of_ne_nil nonempty
  rw [List.forall_mem_cons] at all
  have wholeText : WholeText [d] := by
    refine wholeText_of_length_le ?_ (List.cons_ne_nil _ _) (by simpa using leads) (by simp)
    rw [List.forall_mem_singleton]
    exact all.1
  have powerText := PowerText.exponent e
  have written : exponentPart e ≠ [] := by cases e <;> exact List.cons_ne_nil _ _
  cases rest with
  | nil =>
    have value := decimalValue_parts wholeText .none powerText
    rw [exponentValue_exponentPart] at value
    exact ⟨.parts wholeText .none powerText (Or.inr written), by simpa [scientific] using value⟩
  | cons next rest =>
    have placesText := PlacesText.point (List.cons_ne_nil next rest) all.2
    have isText := IsText.parts wholeText placesText powerText (Or.inr written)
    have value := decimalValue_parts wholeText placesText powerText
    have text : [d] ++ '.' :: next :: rest ++ exponentPart e = scientific (d :: next :: rest) e := by
      simp [scientific]
    rw [text] at isText value
    refine ⟨isText, value.trans ?_⟩
    rw [exponentValue_exponentPart, List.tail_cons]
    congr 2
    simp only [List.length_cons]
    omega

end Layouts

/-- The text of a decimal has a point or an exponent and says the value of the decimal. -/
theorem isText_chars (d : Decimal) (positive : 0 < d.digits) :
    IsText d.chars ∧ decimalValue d.chars = d.value := by
  have leads := ne_zero_of_mem_head?_toDigits positive
  unfold chars
  rw [value, exponent_eq, ← d.ofDigitChars_digitChars]
  split
  · next inRange =>
    have small : d.leading ≤ 15 := of_decide_eq_true (Bool.and_eq_true_iff.mp inRange).2
    exact isText_positional d.isDigit_of_mem_digitChars d.digitChars_ne_nil leads small
  · exact isText_scientific d.isDigit_of_mem_digitChars d.digitChars_ne_nil leads d.leading

end Decimal

namespace Binary64

variable {x y : Binary64}

/-- The text of a magnitude has a point or an exponent. It says the value of the decimal, and zero if
the magnitude is zero. -/
theorem isText_magnitudeChars (x : Binary64) :
    Decimal.IsText x.magnitudeChars ∧
      decimalValue x.magnitudeChars = if x.isZero then 0 else x.decimal.value := by
  unfold magnitudeChars
  split
  · have placesText := PlacesText.point (List.cons_ne_nil '0' []) (isDigit_of_mem_replicate 1)
    have value := decimalValue_parts wholeText_zero placesText .none
    refine ⟨.parts wholeText_zero placesText .none (Or.inl (List.cons_ne_nil _ _)),
      value.trans ?_⟩
    have nothing : Nat.ofDigitChars 10 ['0', '0'] 0 = 0 := by decide
    simp [nothing]
  · next nonzero =>
    refine x.decimal.isText_chars (Nat.pos_of_ne_zero ?_)
    intro nothing
    have positive := value_pos (Bool.eq_false_iff.mpr nonzero)
    rw [Decimal.value, nothing, Nat.cast_zero, zero_mul] at positive
    exact lt_irrefl _ positive

/-- Magnitudes with the same text have the same rank. -/
theorem rank_eq_of_magnitudeChars_eq (same : x.magnitudeChars = y.magnitudeChars) :
    x.rank = y.rank := by
  have values := x.isText_magnitudeChars.2
  rw [same, y.isText_magnitudeChars.2] at values
  -- Only a zero says zero.
  cases zero : x.isZero with
  | true =>
    cases zeroOther : y.isZero with
    | true =>
      rw [isZero, beq_iff_eq] at zero zeroOther
      rw [zero, zeroOther]
    | false => simp [zero, zeroOther, (value_pos zeroOther).ne'] at values
  | false =>
    cases zeroOther : y.isZero with
    | true => simp [zero, zeroOther, (value_pos zero).ne] at values
    | false =>
      simp only [zero, zeroOther, Bool.false_eq_true, if_false] at values
      exact rank_eq_of_value_eq zero zeroOther values.symm

end Binary64

namespace Decimal.IsText

variable {text : List Char}

/-- The text of a decimal has a point or the letter of an exponent. -/
theorem mem_point_or_mark (isText : IsText text) : '.' ∈ text ∨ 'e' ∈ text := by
  obtain ⟨_, placesText, powerText, marked⟩ := isText
  rcases marked with written | written
  · obtain ⟨c, rest, rfl⟩ := List.exists_cons_of_ne_nil written
    obtain rfl := placesText.eq_point_of_mem_head? c rfl
    exact Or.inl (by simp)
  · obtain ⟨c, rest, rfl⟩ := List.exists_cons_of_ne_nil written
    obtain rfl := powerText.eq_mark_of_mem_head? c rfl
    exact Or.inr (by simp)

theorem exists_eq_cons (isText : IsText text) :
    ∃ first rest, text = first :: rest ∧ first.isDigit = true := by
  obtain ⟨wholeText, -, -, -⟩ := isText
  obtain ⟨first, rest, rfl⟩ := List.exists_cons_of_ne_nil wholeText.nonempty
  exact ⟨first, _, rfl, wholeText.isDigit_of_mem first List.mem_cons_self⟩

end Decimal.IsText

/-! ### Where a number ends -/

/-- The characters that numbers are written in. -/
def isNumeral (c : Char) : Bool :=
  c.isDigit || c == '-' || c == '+' || c == '.' || c == 'e'

/-- A text that has only characters of numbers and starts with a sign or a digit. -/
structure LooksNumeral (text : List Char) : Prop where
  starts : ∃ first rest, text = first :: rest ∧ (first = '-' ∨ first.isDigit = true)
  isNumeral_of_mem : ∀ c ∈ text, isNumeral c = true

/-- What follows a number cannot be taken for a part of it. -/
def EndsNumeral (rest : List Char) : Prop :=
  ∀ c ∈ rest.head?, isNumeral c = false

/-- A number ends where a character stands that is not its own. -/
theorem LooksNumeral.append_inj {s t : String} {rest rest' : List Char}
    (looks : LooksNumeral s.toList) (looks' : LooksNumeral t.toList) (ends : EndsNumeral rest)
    (ends' : EndsNumeral rest') (same : s.toList ++ rest = t.toList ++ rest') :
    s = t ∧ rest = rest' := by
  have stops : ∀ {rest : List Char}, EndsNumeral rest → rest.takeWhile isNumeral = [] := by
    intro rest ends
    cases rest with
    | nil => rfl
    | cons c rest => rw [List.takeWhile_cons_of_neg (by simp [ends c rfl])]
  -- Both numbers are as long as characters of numbers go on.
  have texts := congrArg (List.takeWhile isNumeral) same
  rw [List.takeWhile_append_of_pos looks.isNumeral_of_mem,
    List.takeWhile_append_of_pos looks'.isNumeral_of_mem, stops ends, stops ends',
    List.append_nil, List.append_nil] at texts
  rw [texts, List.append_cancel_left_eq] at same
  exact ⟨String.toList_inj.mp texts, same⟩

theorem isNumeral_of_isDigit {digits : List Char} (all : ∀ c ∈ digits, c.isDigit = true) :
    ∀ c ∈ digits, isNumeral c = true := by
  intro c listed
  simp [isNumeral, all c listed]

theorem LooksNumeral.neg {text : List Char} (looks : LooksNumeral text) :
    LooksNumeral ('-' :: text) :=
  ⟨⟨'-', text, rfl, Or.inl rfl⟩, List.forall_mem_cons.mpr ⟨by decide, looks.isNumeral_of_mem⟩⟩

theorem looksNumeral_toDigits (n : Nat) : LooksNumeral (Nat.toDigits 10 n) := by
  have all := isDigit_of_mem_toDigits n
  obtain ⟨first, rest, digits⟩ := List.exists_cons_of_ne_nil (Nat.toDigits_ne_nil (n := n) (b := 10))
  exact ⟨⟨first, rest, digits, Or.inr (all first (digits ▸ List.mem_cons_self))⟩,
    isNumeral_of_isDigit all⟩

theorem Decimal.isNumeral_exponentPart (e : Int) : ∀ c ∈ exponentPart e, isNumeral c = true := by
  cases e with
  | ofNat k =>
    rw [exponentPart, List.forall_mem_cons, List.forall_mem_cons]
    exact ⟨by decide, by decide, isNumeral_of_isDigit (isDigit_of_mem_toDigits k)⟩
  | negSucc k =>
    rw [exponentPart, List.forall_mem_cons, List.forall_mem_cons]
    exact ⟨by decide, by decide, isNumeral_of_isDigit (isDigit_of_mem_toDigits (k + 1))⟩

theorem Decimal.IsText.looksNumeral {text : List Char} (isText : IsText text) :
    LooksNumeral text := by
  obtain ⟨first, rest, cons, digit⟩ := isText.exists_eq_cons
  refine ⟨⟨first, rest, cons, Or.inr digit⟩, ?_⟩
  obtain ⟨wholeText, placesText, powerText, -⟩ := isText
  rw [List.forall_mem_append, List.forall_mem_append]
  refine ⟨⟨isNumeral_of_isDigit wholeText.isDigit_of_mem, ?_⟩, ?_⟩
  · cases placesText with
    | none => simp
    | point _ placesDigits =>
      rw [List.forall_mem_cons]
      exact ⟨by decide, isNumeral_of_isDigit placesDigits⟩
  · cases powerText with
    | none => simp
    | exponent e => exact isNumeral_exponentPart e

/-! ### Different numbers have different texts -/

namespace Binary64

variable {x y : Binary64}

theorem toList_text (x : Binary64) : x.text.toList = x.chars :=
  String.toList_ofList

/-- A magnitude is written without a sign before it. -/
theorem magnitudeChars_ne_cons (x : Binary64) (rest : List Char) :
    x.magnitudeChars ≠ '-' :: rest := by
  obtain ⟨first, others, text, digit⟩ := x.isText_magnitudeChars.1.exists_eq_cons
  rw [text]
  intro same
  rw [(List.cons.inj same).1] at digit
  exact absurd digit (by decide)

/-- Different values have different texts, the two zeros included. -/
theorem text_injective (same : x.text = y.text) : x = y := by
  have chars : x.chars = y.chars := by
    rw [← toList_text, ← toList_text, same]
  unfold Binary64.chars at chars
  cases sign : x.negative <;> cases signOther : y.negative <;>
    simp only [sign, signOther, Bool.false_eq_true, if_true, if_false] at chars
  · exact eq_of_rank_eq (sign.trans signOther.symm) (rank_eq_of_magnitudeChars_eq chars)
  · exact absurd chars (x.magnitudeChars_ne_cons _)
  · exact absurd chars.symm (y.magnitudeChars_ne_cons _)
  · exact eq_of_rank_eq (sign.trans signOther.symm)
      (rank_eq_of_magnitudeChars_eq (List.cons.inj chars).2)

theorem looksNumeral_text (x : Binary64) : LooksNumeral x.text.toList := by
  have looks := x.isText_magnitudeChars.1.looksNumeral
  rw [toList_text, chars]
  split
  · exact looks.neg
  · exact looks

theorem mem_text_point_or_mark (x : Binary64) : '.' ∈ x.text.toList ∨ 'e' ∈ x.text.toList := by
  have marked := x.isText_magnitudeChars.1.mem_point_or_mark
  rw [toList_text, chars]
  split
  · exact marked.imp (List.mem_cons_of_mem _) (List.mem_cons_of_mem _)
  · exact marked

end Binary64

theorem toList_integerText_natCast (k : Nat) : (integerText k).toList = Nat.toDigits 10 k := by
  simp [integerText]

theorem toList_integerText_negSucc (k : Nat) :
    (integerText (.negSucc k)).toList = '-' :: Nat.toDigits 10 (k + 1) := by
  simp [integerText]

theorem looksNumeral_integerText (n : Int) : LooksNumeral (integerText n).toList := by
  cases n with
  | ofNat k =>
    rw [Int.ofNat_eq_natCast, toList_integerText_natCast]
    exact looksNumeral_toDigits k
  | negSucc k =>
    rw [toList_integerText_negSucc]
    exact (looksNumeral_toDigits (k + 1)).neg

theorem toDigits_inj {m n : Nat} (same : Nat.toDigits 10 m = Nat.toDigits 10 n) : m = n := by
  rw [← Nat.ofDigitChars_ten_toDigits (n := m), same, Nat.ofDigitChars_ten_toDigits]

theorem toDigits_ne_cons (n : Nat) (rest : List Char) : Nat.toDigits 10 n ≠ '-' :: rest := by
  intro same
  exact notMem_of_isDigit (isDigit_of_mem_toDigits n) (by decide) (same ▸ List.mem_cons_self)

theorem integerText_injective {m n : Int} (same : integerText m = integerText n) : m = n := by
  have chars := congrArg String.toList same
  cases m with
  | ofNat k =>
    cases n with
    | ofNat l =>
      simp only [Int.ofNat_eq_natCast, toList_integerText_natCast] at chars
      rw [toDigits_inj chars]
    | negSucc l =>
      rw [Int.ofNat_eq_natCast, toList_integerText_natCast, toList_integerText_negSucc] at chars
      exact absurd chars (toDigits_ne_cons k _)
  | negSucc k =>
    cases n with
    | ofNat l =>
      rw [Int.ofNat_eq_natCast, toList_integerText_natCast, toList_integerText_negSucc] at chars
      exact absurd chars.symm (toDigits_ne_cons l _)
    | negSucc l =>
      rw [toList_integerText_negSucc, toList_integerText_negSucc] at chars
      rw [Nat.succ.inj (toDigits_inj (List.cons.inj chars).2)]

/-- An integer is written with neither a point nor an exponent. -/
theorem notMem_integerText (n : Int) {c : Char} (notDigit : c.isDigit = false)
    (notSign : c ≠ '-') : c ∉ (integerText n).toList := by
  have fresh : ∀ k, c ∉ Nat.toDigits 10 k := by
    intro k
    exact notMem_of_isDigit (isDigit_of_mem_toDigits k) notDigit
  cases n with
  | ofNat k =>
    rw [Int.ofNat_eq_natCast, toList_integerText_natCast]
    exact fresh k
  | negSucc k =>
    rw [toList_integerText_negSucc, List.mem_cons]
    rintro (sign | listed)
    · exact notSign sign
    · exact fresh (k + 1) listed

/-- A floating-point number is never written like an integer. -/
theorem Binary64.text_ne_integerText (x : Binary64) (n : Int) : x.text ≠ integerText n := by
  intro same
  rcases same ▸ x.mem_text_point_or_mark with point | mark
  · exact notMem_integerText n (by decide) (by decide) point
  · exact notMem_integerText n (by decide) (by decide) mark

end Sequencer
