import Sequencer.Json.Text
import Sequencer.Proofs.Advancing
import Sequencer.Json.Document

/-!
# Quoted text by its scan

Between quotes a character is written as itself, by a letter or by number, and beyond U+FFFF by the
numbers of two surrogates. However a text is written, its scan gives the characters that were meant;
one character is scanned at a time, and a whole text follows by induction on its characters. A scan that
only passes over a text takes surrogates as they come.

The printed form of a text is one way to write it. It is scanned back to its characters, and the scan
stops at the closing quote. So a quoted text tells its characters and where it ends, whatever stands
behind it.

## Main definitions

* `Json.IsText`: what may stand between two quotes.
* `Json.Spells`: what stands between two quotes, with surrogates in pairs, and the characters meant.
* `Json.TextScan.run`: the scan of a text up to its closing quote.

## Main results

* `Json.Spells.advances`: a text is scanned to the characters that it spells.
* `Json.IsText.exists_advances`: a text is passed over, also with surrogates that are not paired.
* `Text.spells_escape`: the printed form of a text spells the text.
* `Text.quoted_append_inj`: a quoted text tells its characters and where it ends.
-/

namespace Sequencer

namespace Json

/-! ### What stands between quotes -/

/-- The letters after a backslash, each with the character that it stands for. -/
def escapes : List (Char × Char) :=
  [('"', '"'), ('\\', '\\'), ('/', '/'), ('b', '\x08'), ('f', '\x0c'), ('n', '\n'), ('r', '\r'),
    ('t', '\t')]

/-- Four hexadecimal digits and the number they say. -/
inductive HexText : List Char → Nat → Prop
  | digits {a b c d : Char} {k l m n : Nat} (first : Text.hexValue? a = some k)
      (second : Text.hexValue? b = some l) (third : Text.hexValue? c = some m)
      (fourth : Text.hexValue? d = some n) :
      HexText [a, b, c, d] (((k * 16 + l) * 16 + m) * 16 + n)

/-- A character between quotes, as itself, by a letter or by number. Of a character that is written as
two surrogates this is one of them. -/
inductive IsUnit : List Char → Prop
  | itself {c : Char} (notQuote : c ≠ '"') (notBackslash : c ≠ '\\') (visible : 0x20 ≤ c.toNat) :
      IsUnit [c]
  | letter {letter c : Char} (listed : (letter, c) ∈ escapes) : IsUnit ['\\', letter]
  | number {digits : List Char} {n : Nat} (hex : HexText digits n) : IsUnit ('\\' :: 'u' :: digits)

/-- What may stand between two quotes. -/
inductive IsText : List Char → Prop
  | nil : IsText []
  | cons {first rest : List Char} (isUnit : IsUnit first) (isText : IsText rest) :
      IsText (first ++ rest)

/-- A character between quotes, with the character that is meant. A number that is a surrogate comes
with a second one. -/
inductive SpellsChar : List Char → Char → Prop
  | itself {c : Char} (notQuote : c ≠ '"') (notBackslash : c ≠ '\\') (visible : 0x20 ≤ c.toNat) :
      SpellsChar [c] c
  | letter {letter c : Char} (listed : (letter, c) ∈ escapes) : SpellsChar ['\\', letter] c
  | number {digits : List Char} {n : Nat} (hex : HexText digits n)
      (alone : n < 0xD800 ∨ 0xDFFF < n) : SpellsChar ('\\' :: 'u' :: digits) (Char.ofNat n)
  | pair {digits more : List Char} {m n : Nat} (hex : HexText digits m) (hexMore : HexText more n)
      (leading : 0xD800 ≤ m ∧ m ≤ 0xDBFF) (trailing : 0xDC00 ≤ n ∧ n ≤ 0xDFFF) :
      SpellsChar ('\\' :: 'u' :: (digits ++ '\\' :: 'u' :: more))
        (Char.ofNat ((m - 0xD800) * 0x400 + (n - 0xDC00) + 0x10000))

/-- What stands between two quotes, with the characters that are meant. -/
inductive Spells : List Char → List Char → Prop
  | nil : Spells [] []
  | cons {first rest : List Char} {c : Char} {chars : List Char} (spellsChar : SpellsChar first c)
      (spells : Spells rest chars) : Spells (first ++ rest) (c :: chars)

/-! ### Scans -/

namespace TextScan

/-- A character belongs to a quoted text, and the scan goes on. -/
def Next (care : Care) (s : TextScan) (c : Char) (t : TextScan) : Prop :=
  s.step care c = .ok (.more t)

variable {care : Care} {pending : Option Nat} {scanned : List Char}

theorem advances_itself {c : Char} (notQuote : c ≠ '"') (notBackslash : c ≠ '\\')
    (visible : 0x20 ≤ c.toNat) :
    Advances (Next care) ⟨.plain, none, scanned⟩ [c] ⟨.plain, none, c :: scanned⟩ := by
  apply Advances.single
  simp [Next, step, notQuote, notBackslash, Nat.not_lt.mpr visible, push]

theorem advances_letter {letter c : Char} (listed : (letter, c) ∈ escapes) :
    Advances (Next care) ⟨.plain, none, scanned⟩ ['\\', letter] ⟨.plain, none, c :: scanned⟩ := by
  refine .cons (show Next care _ _ ⟨.escape, none, scanned⟩ from rfl) (.single ?_)
  simp only [escapes, List.mem_cons, Prod.mk.injEq, List.not_mem_nil, or_false] at listed
  rcases listed with ⟨rfl, rfl⟩ | ⟨rfl, rfl⟩ | ⟨rfl, rfl⟩ | ⟨rfl, rfl⟩ | ⟨rfl, rfl⟩ | ⟨rfl, rfl⟩ |
    ⟨rfl, rfl⟩ | ⟨rfl, rfl⟩ <;> rfl

/-- Four digits are scanned to what their number amounts to. -/
theorem advances_number {digits : List Char} {n : Nat} {t : TextScan} (hex : HexText digits n)
    (pushed : ∀ phase, pushNumber care ⟨phase, pending, scanned⟩ n = .ok t) :
    Advances (Next care) ⟨.plain, pending, scanned⟩ ('\\' :: 'u' :: digits) t := by
  cases hex with
  | @digits a b c d k l m n first second third fourth =>
    have backslash : Next care ⟨.plain, pending, scanned⟩ '\\' ⟨.escape, pending, scanned⟩ := rfl
    have mark : Next care ⟨.escape, pending, scanned⟩ 'u' ⟨.unicode 0 0, pending, scanned⟩ := rfl
    have one : Next care ⟨.unicode 0 0, pending, scanned⟩ a ⟨.unicode 1 k, pending, scanned⟩ := by
      simp [Next, step, first]
    have two : Next care ⟨.unicode 1 k, pending, scanned⟩ b
        ⟨.unicode 2 (k * 16 + l), pending, scanned⟩ := by
      simp [Next, step, second]
    have three : Next care ⟨.unicode 2 (k * 16 + l), pending, scanned⟩ c
        ⟨.unicode 3 ((k * 16 + l) * 16 + m), pending, scanned⟩ := by
      simp [Next, step, third]
    have four : Next care ⟨.unicode 3 ((k * 16 + l) * 16 + m), pending, scanned⟩ d t := by
      simp [Next, step, fourth, pushed, Except.map]
    exact .cons backslash (.cons mark (.cons one (.cons two (.cons three (.single four)))))

/-- A number that is no surrogate stands for the character of that number. -/
theorem pushNumber_of_alone {n : Nat} (alone : n < 0xD800 ∨ 0xDFFF < n) (phase : Phase) :
    pushNumber care ⟨phase, none, scanned⟩ n = .ok ⟨.plain, none, Char.ofNat n :: scanned⟩ := by
  have notLeading : isLeading n = false := by
    simp only [isLeading, Bool.and_eq_false_iff, decide_eq_false_iff_not]
    omega
  have notTrailing : isTrailing n = false := by
    simp only [isTrailing, Bool.and_eq_false_iff, decide_eq_false_iff_not]
    omega
  cases care with
  | skim => rfl
  | full => simp [pushNumber, notLeading, notTrailing, push]

/-- The first of two surrogates is kept for the second one. -/
theorem pushNumber_of_leading {m : Nat} (leading : 0xD800 ≤ m ∧ m ≤ 0xDBFF) (phase : Phase) :
    pushNumber .full ⟨phase, none, scanned⟩ m = .ok ⟨.plain, some m, scanned⟩ := by
  have isLeading : isLeading m = true := by simpa [isLeading] using leading
  have notTrailing : isTrailing m = false := by
    simp only [isTrailing, Bool.and_eq_false_iff, decide_eq_false_iff_not]
    omega
  simp [pushNumber, isLeading, notTrailing]

theorem pushNumber_of_trailing {m n : Nat} (trailing : 0xDC00 ≤ n ∧ n ≤ 0xDFFF) (phase : Phase) :
    pushNumber .full ⟨phase, some m, scanned⟩ n = .ok ⟨.plain, none,
      Char.ofNat ((m - 0xD800) * 0x400 + (n - 0xDC00) + 0x10000) :: scanned⟩ := by
  have isTrailing : isTrailing n = true := by simpa [isTrailing] using trailing
  simp [pushNumber, isTrailing, push]

end TextScan

section Scans

open TextScan

variable {text scanned : List Char}

theorem SpellsChar.advances {c : Char} (spells : SpellsChar text c) :
    Advances (Next .full) ⟨.plain, none, scanned⟩ text ⟨.plain, none, c :: scanned⟩ := by
  cases spells with
  | itself notQuote notBackslash visible => exact advances_itself notQuote notBackslash visible
  | letter listed => exact advances_letter listed
  | number hex alone => exact advances_number hex (pushNumber_of_alone alone)
  | pair hex hexMore leading trailing =>
    exact (advances_number hex (pushNumber_of_leading leading)).append
      (advances_number hexMore (pushNumber_of_trailing trailing))

/-- A text is scanned to the characters that it spells. -/
theorem Spells.advances {chars : List Char} (spells : Spells text chars) :
    Advances (Next .full) ⟨.plain, none, scanned⟩ text ⟨.plain, none, chars.reverse ++ scanned⟩ := by
  induction spells generalizing scanned with
  | nil => exact .nil _
  | cons spellsChar _ ih =>
    rw [List.reverse_cons, List.append_assoc]
    exact spellsChar.advances.append ih

theorem IsUnit.exists_advances (isUnit : IsUnit text) :
    ∃ c, Advances (Next .skim) ⟨.plain, none, scanned⟩ text ⟨.plain, none, c :: scanned⟩ := by
  cases isUnit with
  | itself notQuote notBackslash visible =>
    exact ⟨_, advances_itself notQuote notBackslash visible⟩
  | letter listed => exact ⟨_, advances_letter listed⟩
  | number hex => exact ⟨_, advances_number hex fun _ => rfl⟩

/-- A text is passed over to its closing quote. -/
theorem IsText.exists_advances (isText : IsText text) :
    ∃ chars, Advances (Next .skim) ⟨.plain, none, scanned⟩ text ⟨.plain, none, chars⟩ := by
  induction isText generalizing scanned with
  | nil => exact ⟨scanned, .nil _⟩
  | cons isUnit _ ih =>
    obtain ⟨c, wayUnit⟩ := isUnit.exists_advances
    obtain ⟨chars, wayRest⟩ := ih
    exact ⟨chars, wayUnit.append wayRest⟩

end Scans

end Json

/-! ### Printed texts -/

namespace Text

theorem hexValue?_digitChar : ∀ d < 16, hexValue? (Nat.digitChar d) = some d := by
  decide

/-- The printed form of a character spells the character. -/
theorem spellsChar_escapeChar (c : Char) : Json.SpellsChar (escapeChar c) c := by
  unfold escapeChar
  split
  next quote => subst quote; exact .letter (by decide)
  split
  next backslash => subst backslash; exact .letter (by decide)
  split
  next backspace => subst backspace; exact .letter (by decide)
  split
  next formFeed => subst formFeed; exact .letter (by decide)
  split
  next lineFeed => subst lineFeed; exact .letter (by decide)
  split
  next carriageReturn => subst carriageReturn; exact .letter (by decide)
  split
  next tab => subst tab; exact .letter (by decide)
  split
  next small =>
    -- The first two of the four digits are zeros, since the number is below 256.
    have zero : hexValue? '0' = some 0 := rfl
    have hex := Json.HexText.digits zero zero (hexValue?_digitChar (c.toNat / 16) (by omega))
      (hexValue?_digitChar (c.toNat % 16) (by omega))
    have value : ((0 * 16 + 0) * 16 + c.toNat / 16) * 16 + c.toNat % 16 = c.toNat := by omega
    have spells := Json.SpellsChar.number hex (Or.inl (by omega))
    rwa [value, Char.ofNat_toNat] at spells
  next notQuote notBackslash _ _ _ _ _ visible =>
    exact .itself notQuote notBackslash (Nat.not_lt.mp visible)

/-- The printed form of a text spells the text. -/
theorem spells_escape (chars : List Char) : Json.Spells (escape chars) chars := by
  induction chars with
  | nil => exact .nil
  | cons c chars ih => exact .cons (spellsChar_escapeChar c) ih

end Text

namespace Json.TextScan

/-- Scans a text to its closing quote: the characters scanned, and what stands behind the quote. -/
def run (care : Care) (s : TextScan) : List Char → Option (List Char × List Char)
  | [] => none
  | c :: rest =>
    match s.step care c with
    | .ok (.more s') => run care s' rest
    | .ok (.closed chars) => some (chars, rest)
    | .ok (.over chars) => some (chars, c :: rest)
    | .error _ => none

theorem run_append {care : Care} {s t : TextScan} {text : List Char}
    (way : Advances (Next care) s text t) (rest : List Char) :
    run care s (text ++ rest) = run care t rest := by
  induction way with
  | nil => rfl
  | cons first _ ih =>
    rw [List.cons_append, run, first]
    exact ih

/-- The characters between two quotes are scanned back, and the scan stops at the second quote. -/
theorem run_escape (chars rest : List Char) :
    run .full {} (Text.escape chars ++ '"' :: rest) = some (chars, rest) := by
  rw [run_append (Text.spells_escape chars).advances]
  simp [run, step]

end Json.TextScan

namespace Text

/-- A quoted text tells its characters and where it ends, whatever stands behind it. -/
theorem quoted_append_inj {s t : String} {rest rest' : List Char}
    (same : (quoted s).toList ++ rest = (quoted t).toList ++ rest') : s = t ∧ rest = rest' := by
  simp only [toList_quoted, List.cons_append, List.append_assoc, List.nil_append,
    List.cons.injEq, true_and] at same
  have scans := congrArg (Json.TextScan.run .full {}) same
  rw [Json.TextScan.run_escape, Json.TextScan.run_escape] at scans
  simpa [String.toList_inj] using scans

end Text

end Sequencer
