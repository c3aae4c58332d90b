import Sequencer.Json.Scalar

/-!
# Passing over a JSON value

The scan of a whole value that is checked and then forgotten. The arrays and objects that are
still open are kept in a list, innermost first, so that no depth of nesting costs stack space.

What stands around the values of an object is the same for every machine that reads one: the names
of the members, the colon behind a name, and the separators.

## Main definitions

* `KeyScan.step`: one character where the name of a member is expected.
* `passColon`, `passSeparator`: one character behind a name, and one behind a value.
* `Passage.step`: one character of a value that is passed over.
-/

namespace Sequencer.Json

/-! ### Around the values of an object -/

/-- A scan of the name of a member. -/
inductive KeyScan where
  /-- The name is still to come. Instead, the object may end before its first member. -/
  | start (mayEnd : Bool)
  /-- The rest of the name. -/
  | name (scan : TextScan)

/-- What one character does to the scan of a name. -/
inductive KeyScan.Outcome where
  /-- The scan goes on. -/
  | more (scan : KeyScan)
  /-- The name has been read. -/
  | named (chars : List Char)
  /-- The object has ended. -/
  | ended

/-- One character where the name of a member is expected. -/
def KeyScan.step (care : Care) (s : KeyScan) (c : Char) : Except Fault Outcome :=
  match s with
  | .start mayEnd =>
    if isSpace c then .ok (.more s)
    else if c = '"' then .ok (.more (.name {}))
    else if c = '\x7d' && mayEnd then .ok .ended
    else .error .malformed
  | .name scan =>
    match scan.step care c with
    | .error fault => .error fault
    | .ok (.more scan') => .ok (.more (.name scan'))
    | .ok (.closed chars) | .ok (.over chars) => .ok (.named chars)

/-- A character behind the name of a member. A machine stays as it is over blanks, and goes on at
the colon. -/
def passColon {σ : Type} (stay next : σ) (c : Char) : Except Fault σ :=
  if isSpace c then .ok stay
  else if c = ':' then .ok next
  else .error .malformed

/-- A character behind a value in brackets. A machine stays as it is over blanks, goes on at a
comma, and leaves at the closing bracket. -/
def passSeparator {σ : Type} (closing : Char) (stay next leave : σ) (c : Char) : Except Fault σ :=
  if isSpace c then .ok stay
  else if c = ',' then .ok next
  else if c = closing then .ok leave
  else .error .malformed

/-! ### Passages -/

/-- An array or object that is still open. -/
inductive Frame where
  | array
  | object
deriving DecidableEq

/-- What a passage over a value expects. -/
inductive Passage.Phase where
  /-- A value. -/
  | value
  /-- The first item of an array, or its end. -/
  | firstItem
  /-- The name of a member of an object, or the rest of it. -/
  | key (scan : KeyScan)
  /-- The colon after the name of a member. -/
  | colon
  /-- The rest of a scalar. -/
  | scalar (scan : ScalarScan)
  /-- What follows a value. -/
  | after

/-- A passage over a value. -/
structure Passage where
  /-- What is expected. -/
  phase : Passage.Phase := .value
  /-- The arrays and objects that are open, innermost first. -/
  frames : List Frame := []

namespace Passage

/-- How many arrays and objects may be open at a time, if there is a bound. -/
def depthBound : Care → Option Nat
  | .skim => none
  | .full => some 126

/-- Opens an array or object. -/
def enter (care : Care) (p : Passage) (frame : Frame) (phase : Phase) : Except Fault Passage :=
  if (depthBound care).all (p.frames.length < ·) then .ok ⟨phase, frame :: p.frames⟩
  else .error .malformed

/-- A character where a value starts. -/
def startValue (care : Care) (p : Passage) (c : Char) : Except Fault Passage :=
  if c = '[' then p.enter care .array .firstItem
  else if c = '\x7b' then p.enter care .object (.key (.start true))
  else match ScalarScan.start? c with
    | some scan => .ok { p with phase := .scalar scan }
    | none => .error .malformed

/-- A character after a value. The passage is over when nothing is open. -/
def afterValue (frames : List Frame) (c : Char) : Except Fault (Progress Passage Unit) :=
  match frames with
  | [] => .ok (.over ())
  | .array :: outer =>
    (passSeparator ']' ⟨.after, frames⟩ ⟨.value, frames⟩ ⟨.after, outer⟩ c).map .more
  | .object :: outer =>
    (passSeparator '\x7d' ⟨.after, frames⟩ ⟨.key (.start false), frames⟩ ⟨.after, outer⟩ c).map
      .more

/-- One character of a value. -/
def step (care : Care) (p : Passage) (c : Char) : Except Fault (Progress Passage Unit) :=
  match p.phase with
  | .value => if isSpace c then .ok (.more p) else (p.startValue care c).map .more
  | .firstItem =>
    if isSpace c then .ok (.more p)
    else if c = ']' then .ok (.more ⟨.after, p.frames.tail⟩)
    else (p.startValue care c).map .more
  | .key scan =>
    match scan.step care c with
    | .error fault => .error fault
    | .ok (.more scan') => .ok (.more { p with phase := .key scan' })
    | .ok (.named _) => .ok (.more { p with phase := .colon })
    | .ok .ended => .ok (.more ⟨.after, p.frames.tail⟩)
  | .colon => (passColon p { p with phase := .value } c).map .more
  | .scalar scan =>
    match scan.step care c with
    | .error fault => .error fault
    | .ok (.more scan') => .ok (.more { p with phase := .scalar scan' })
    | .ok (.closed _) => .ok (.more { p with phase := .after })
    | .ok (.over _) => afterValue p.frames c
  | .after => afterValue p.frames c

/-- Whether the text may end here. -/
def finish (care : Care) (p : Passage) : Except Fault Unit :=
  match p.phase with
  | .scalar scan =>
    match scan.finish care with
    | .error fault => .error fault
    | .ok _ => if p.frames.isEmpty then .ok () else .error .truncated
  | .after => if p.frames.isEmpty then .ok () else .error .truncated
  | _ => .error .truncated

end Passage

end Sequencer.Json
