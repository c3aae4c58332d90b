import Sequencer.Text.Characters

/-!
# Reading JSON text

Text is read one character at a time, so the first problem from the left decides. The scanners share
the kinds of problem, the ways a scan goes on, and the blanks.

A quoted text is scanned from the character after its opening quote to its closing quote. A
character beyond U+FFFF may be escaped as a pair of surrogates; whether surrogates have to be paired
depends on the care of the scan.
-/

namespace Sequencer.Json

/-- Why a JSON text is refused. -/
inductive Fault where
  /-- The text is not JSON. -/
  | malformed
  /-- The text is JSON so far, but not of the form that is asked for. -/
  | unfit
  /-- The text ends too early. -/
  | truncated
deriving DecidableEq, Repr

/-- What one character does to a scan for an `α` in state `σ`. -/
inductive Progress (σ α : Type) where
  /-- The character belongs to the scan, which goes on. -/
  | more (state : σ)
  /-- The character belongs to the scan and ends it. -/
  | closed (result : α)
  /-- The scan has ended before the character. -/
  | over (result : α)

/-- How thoroughly text is read. -/
inductive Care where
  /-- Pass over a value whose content is not wanted. Numbers may have any size, texts may hold
  unpaired surrogates, and a number that the text cuts short is malformed. -/
  | skim
  /-- Take a value in. Numbers have to be in range and surrogates paired, values may be nested
  126 levels deep, and a number that the text cuts short is truncated. -/
  | full
deriving DecidableEq

/-- The characters that may stand between the parts of a JSON text. -/
def isSpace (c : Char) : Bool :=
  c == ' ' || c == '\t' || c == '\n' || c == '\r'

/-! ### Quoted text -/

/-- Where a scan of a quoted text stands. -/
inductive TextScan.Phase where
  /-- Between characters. -/
  | plain
  /-- After a backslash. -/
  | escape
  /-- Inside an escape by number: the digits scanned and their value. -/
  | unicode (scanned value : Nat)
  /-- Inside an escape by number that is wrong already. Such an escape is judged once four bytes
  of it are there; this many are still missing. -/
  | spoiled (missing : Nat)
deriving DecidableEq

/-- A scan of a quoted text. -/
structure TextScan where
  /-- Where the scan stands. -/
  phase : TextScan.Phase := .plain
  /-- The first surrogate of a pair whose second one is still to come. -/
  pending : Option Nat := none
  /-- The characters scanned, the last one first. -/
  scanned : List Char := []
deriving DecidableEq

namespace TextScan

/-- The character that a letter after a backslash stands for. -/
def escaped? (c : Char) : Option Char :=
  if c = '"' || c = '\\' || c = '/' then some c
  else if c = 'b' then some '\x08'
  else if c = 'f' then some '\x0c'
  else if c = 'n' then some '\n'
  else if c = 'r' then some '\r'
  else if c = 't' then some '\t'
  else none

/-- Whether a number is the first surrogate of a pair. -/
def isLeading (n : Nat) : Bool :=
  0xD800 ≤ n && n ≤ 0xDBFF

/-- Whether a number is the second surrogate of a pair. -/
def isTrailing (n : Nat) : Bool :=
  0xDC00 ≤ n && n ≤ 0xDFFF

/-- The scan after one more character of the text. -/
def push (s : TextScan) (c : Char) : TextScan :=
  { s with phase := .plain, pending := none, scanned := c :: s.scanned }

/-- An escape by number has ended with the given number. -/
def pushNumber (care : Care) (s : TextScan) (n : Nat) : Except Fault TextScan :=
  match care with
  | .skim => .ok (s.push (Char.ofNat n))
  | .full =>
    match s.pending with
    | some first =>
      if isTrailing n then
        .ok (s.push (Char.ofNat ((first - 0xD800) * 0x400 + (n - 0xDC00) + 0x10000)))
      else .error .malformed
    | none =>
      if isTrailing n then .error .malformed
      else if isLeading n then .ok { s with phase := .plain, pending := some n }
      else .ok (s.push (Char.ofNat n))

/-- A character that spoils an escape by number, of which `missing` bytes are still to come. -/
def spoil (s : TextScan) (missing : Nat) (c : Char) : Except Fault TextScan :=
  if missing ≤ c.utf8Size then .error .malformed
  else .ok { s with phase := .spoiled (missing - c.utf8Size) }

/-- One character of a quoted text. The closing quote ends the scan. -/
def step (care : Care) (s : TextScan) (c : Char) :
    Except Fault (Progress TextScan (List Char)) :=
  match s.phase with
  | .plain =>
    if c = '\\' then .ok (.more { s with phase := .escape })
    else if s.pending.isSome then .error .malformed
    else if c = '"' then .ok (.closed s.scanned.reverse)
    else if c.toNat < 0x20 then .error .malformed
    else .ok (.more (s.push c))
  | .escape =>
    if c = 'u' then .ok (.more { s with phase := .unicode 0 0 })
    else if s.pending.isSome then .error .malformed
    else match escaped? c with
      | some meant => .ok (.more (s.push meant))
      | none => .error .malformed
  | .unicode scanned value =>
    match Text.hexValue? c with
    | none => (s.spoil (4 - scanned) c).map .more
    | some digit =>
      if scanned < 3 then .ok (.more { s with phase := .unicode (scanned + 1) (value * 16 + digit) })
      else (s.pushNumber care (value * 16 + digit)).map .more
  | .spoiled missing => (s.spoil missing c).map .more

end TextScan

end Sequencer.Json
