import Sequencer.Text.Characters

/-!
# Modes of a pattern

A pattern may switch how its following part is to be read, by letters in a group such as `(?x)`. Of
the letters `i`, `m`, `s`, `U`, `u`, `R` and `x`, three decide which texts are patterns: whether
letters match in either case, whether characters are those of Unicode, and whether blanks and
comments count.

## Main definitions

* `Pattern.Mode.skip`: the text from the next character that counts.
* `Pattern.Mode.switch`: the mode after a switch.
-/

namespace Sequencer.Pattern

/-- How the following part of a pattern is to be read. -/
structure Mode where
  /-- Letters match in either case. -/
  fold : Bool := false
  /-- Characters are those of Unicode. -/
  unicode : Bool := true
  /-- Blanks and comments between the items do not count. -/
  spaced : Bool := false
deriving DecidableEq

/-! ### Blanks and comments -/

/-- Drops blanks and comments; a comment goes from `#` to the end of the line. -/
def dropSpace (inComment : Bool) : List Char → List Char
  | [] => []
  | c :: rest =>
    if inComment then dropSpace (c != '\n') rest
    else if c == '#' then dropSpace true rest
    else if Text.isBlankChar c then dropSpace false rest
    else c :: rest

theorem length_dropSpace_le (inComment : Bool) (cs : List Char) :
    (dropSpace inComment cs).length ≤ cs.length := by
  induction cs generalizing inComment with
  | nil => simp [dropSpace]
  | cons c rest ih =>
    simp only [dropSpace, List.length_cons]
    split
    · exact Nat.le_succ_of_le (ih _)
    · split
      · exact Nat.le_succ_of_le (ih _)
      · split
        · exact Nat.le_succ_of_le (ih _)
        · simp

namespace Mode

/-- The text from the next character that counts. -/
def skip (mode : Mode) (cs : List Char) : List Char :=
  if mode.spaced then dropSpace false cs else cs

theorem length_skip_le (mode : Mode) (cs : List Char) : (mode.skip cs).length ≤ cs.length := by
  unfold skip
  split
  · exact length_dropSpace_le false cs
  · exact Nat.le_refl _

/-- The character after a dash that decides whether the dash stands for itself. Where blanks do not
count, this is the first one that is not blank, apart from one `#`. A comment is not left out, so
the character may be one of a comment. -/
def deciding? (mode : Mode) (cs : List Char) : Option Char :=
  if mode.spaced then
    match cs.dropWhile Text.isBlankChar with
    | '#' :: rest => (rest.dropWhile Text.isBlankChar).head?
    | rest => rest.head?
  else cs.head?

end Mode

/-! ### Switches -/

/-- Whether a text between `(?` and the following colon or bracket switches modes: letters, each
of them once, and before one of them at most one dash. -/
def isSwitch (switch : List Char) : Bool :=
  switch.all (['i', 'm', 's', 'U', 'u', 'R', 'x', '-'].contains ·) && decide switch.Nodup &&
    switch.getLast? != some '-'

/-- Whether a mode is on after a switch: it is if its letter stands before the dash, and is not if
it stands after the dash. -/
def switched (switch : List Char) (letter : Char) (before : Bool) : Bool :=
  if (switch.takeWhile (· != '-')).contains letter then true
  else if (switch.dropWhile (· != '-')).contains letter then false
  else before

/-- The mode after a switch. -/
def Mode.switch (mode : Mode) (switch : List Char) : Mode where
  fold := switched switch 'i' mode.fold
  unicode := switched switch 'u' mode.unicode
  spaced := switched switch 'x' mode.spaced

end Sequencer.Pattern
