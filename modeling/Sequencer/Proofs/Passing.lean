import Sequencer.Json.Document
import Sequencer.Json.Passage
import Sequencer.Proofs.Quoting
import Sequencer.Proofs.Scanning

/-!
# Passing over JSON values

A passage goes over every well-formed JSON value, whatever its depth and the size of its numbers. It
comes to rest behind the value: what follows there is treated as it is treated after the value, also if
the value is a number, which has no end of its own. The arrays and objects that were open before are
open again, so that nothing of what surrounds the value is lost.

The grammar of values is one family of texts with values, items and members among its shapes. A shape
says in which states a passage may meet it, and the passage over a text follows the rules by which it
is written.

Values and members are read by more machines than passages. What is said of numbers, of the names of
members and of blanks behind a value is therefore said of every machine that holds such a scan.

## Main definitions

* `Json.IsNumber`: the numbers of JSON.
* `Json.Written`: the grammar of JSON values and their parts.
* `Json.Rests`: a machine that has gone over a value.
* `Json.Passage.Covers`: a passage goes over a text and rests behind it.

## Main results

* `Json.IsNumber.exists_advances`: the scan of a numeral goes over every number.
* `Json.ScalarScan.advances_number`, `Json.KeyScan.advances_member`: a machine that holds the scan of a
  scalar goes over a number, and one that holds the scan of a name goes over a member.
* `Json.Written.covers`: a passage goes over every well-formed value and rests behind it.
-/

namespace Sequencer.Json

/-! ### The grammar -/

/-- The digits before the point of a number, without needless zeros. -/
inductive IsInteger : List Char → Prop
  | zero : IsInteger ['0']
  | digits {c : Char} {rest : List Char} (digit : c.isDigit = true) (notZero : c ≠ '0')
      (others : ∀ d ∈ rest, d.isDigit = true) : IsInteger (c :: rest)

/-- The exponent of a number, or nothing. -/
inductive IsPower : List Char → Prop
  | none : IsPower []
  | plain {mark : Char} {digits : List Char} (isMark : mark = 'e' ∨ mark = 'E')
      (nonempty : digits ≠ []) (all : ∀ c ∈ digits, c.isDigit = true) : IsPower (mark :: digits)
  | signed {mark sign : Char} {digits : List Char} (isMark : mark = 'e' ∨ mark = 'E')
      (isSign : sign = '+' ∨ sign = '-') (nonempty : digits ≠ [])
      (all : ∀ c ∈ digits, c.isDigit = true) : IsPower (mark :: sign :: digits)

/-- A number of any size. -/
inductive IsNumber : List Char → Prop
  | parts (negative : Bool) {whole places power : List Char} (isInteger : IsInteger whole)
      (placesText : PlacesText places) (isPower : IsPower power) :
      IsNumber (signed negative (whole ++ (places ++ power)))

/-- The shapes of JSON texts. -/
inductive Shape where
  /-- A value. -/
  | value
  /-- A value with blanks around it. -/
  | item
  /-- Items with commas between them. -/
  | items
  /-- A name with a colon and an item. -/
  | member
  /-- Members with commas between them. -/
  | members

/-- How JSON texts are written. -/
inductive Written : Shape → List Char → Prop
  | null : Written .value ['n', 'u', 'l', 'l']
  | bool (value : Bool) : Written .value (boolText value).toList
  | number {text : List Char} (isNumber : IsNumber text) : Written .value text
  | text {text : List Char} (isText : IsText text) : Written .value ('"' :: (text ++ ['"']))
  | emptyArray {gap : List Char} (blank : Blank gap) : Written .value ('[' :: (gap ++ [']']))
  | array {items : List Char} (written : Written .items items) :
      Written .value ('[' :: (items ++ [']']))
  | emptyObject {gap : List Char} (blank : Blank gap) :
      Written .value ('\x7b' :: (gap ++ ['\x7d']))
  | object {members : List Char} (written : Written .members members) :
      Written .value ('\x7b' :: (members ++ ['\x7d']))
  | item {before value after : List Char} (blank : Blank before) (written : Written .value value)
      (blankAfter : Blank after) : Written .item (before ++ (value ++ after))
  | lastItem {item : List Char} (written : Written .item item) : Written .items item
  | moreItems {item items : List Char} (written : Written .item item)
      (others : Written .items items) : Written .items (item ++ ',' :: items)
  | member {before key gap item : List Char} (blank : Blank before) (isText : IsText key)
      (blankGap : Blank gap) (written : Written .item item) :
      Written .member (before ++ '"' :: (key ++ '"' :: (gap ++ ':' :: item)))
  | lastMember {member : List Char} (written : Written .member member) : Written .members member
  | moreMembers {member members : List Char} (written : Written .member member)
      (others : Written .members members) : Written .members (member ++ ',' :: members)

/-- What may stand behind a value: a blank, a comma or a closing bracket. -/
def endsValue (c : Char) : Bool :=
  isSpace c || c == ',' || c == ']' || c == '\x7d'

theorem endsValue_of_isSpace {c : Char} (space : isSpace c = true) : endsValue c = true := by
  simp [endsValue, space]

/-! ### Numerals -/

namespace Numeral

/-- The part of a numeral that a digit leads to. -/
inductive DigitLeads : Part → Part → Prop
  | integer : DigitLeads .integer .integer
  | point : DigitLeads .point .fraction
  | fraction : DigitLeads .fraction .fraction
  | mark : DigitLeads .mark .power
  | markSign : DigitLeads .markSign .power
  | power : DigitLeads .power .power

variable {n : Numeral} {part next : Part} {c : Char} {digits : List Char}

theorem part_pushInteger (n : Numeral) (c : Char) : (n.pushInteger c).part = .integer := by
  unfold pushInteger
  split <;> rfl

theorem part_pushFraction (n : Numeral) (c : Char) : (n.pushFraction c).part = .fraction := by
  unfold pushFraction
  split <;> rfl

theorem DigitLeads.exists_next (leads : DigitLeads part next) (inside : n.part = part)
    (digit : c.isDigit = true) : ∃ m, Next n c m ∧ m.part = next := by
  have notSign : c ≠ '+' ∧ c ≠ '-' := by
    constructor <;> rintro rfl <;> cases digit
  cases leads with
  | integer => exact ⟨_, by simp [Next, step, inside, digit], n.part_pushInteger c⟩
  | point => exact ⟨_, by simp [Next, step, inside, digit], n.part_pushFraction c⟩
  | fraction => exact ⟨_, by simp [Next, step, inside, digit], n.part_pushFraction c⟩
  | mark => exact ⟨n.pushPower c, by simp [Next, step, inside, digit, notSign], rfl⟩
  | markSign => exact ⟨n.pushPower c, by simp [Next, step, inside, digit], rfl⟩
  | power => exact ⟨n.pushPower c, by simp [Next, step, inside, digit], rfl⟩

/-- Digits of a part that digits stay in. -/
theorem DigitLeads.exists_advances (stays : DigitLeads part part) (inside : n.part = part)
    (all : ∀ c ∈ digits, c.isDigit = true) : ∃ m, Advances Next n digits m ∧ m.part = part := by
  induction digits generalizing n with
  | nil => exact ⟨n, .nil n, inside⟩
  | cons c digits ih =>
    rw [List.forall_mem_cons] at all
    obtain ⟨m, first, insideNext⟩ := stays.exists_next inside all.1
    obtain ⟨last, others, insideLast⟩ := ih insideNext all.2
    exact ⟨last, .cons first others, insideLast⟩

/-- Digits that lead to another part and stay in it. -/
theorem DigitLeads.exists_advances_of_ne_nil (leads : DigitLeads part next)
    (stays : DigitLeads next next) (inside : n.part = part) (nonempty : digits ≠ [])
    (all : ∀ c ∈ digits, c.isDigit = true) : ∃ m, Advances Next n digits m ∧ m.part = next := by
  obtain ⟨c, digits, rfl⟩ := List.exists_cons_of_ne_nil nonempty
  rw [List.forall_mem_cons] at all
  obtain ⟨m, first, insideNext⟩ := leads.exists_next inside all.1
  obtain ⟨last, others, insideLast⟩ := stays.exists_advances insideNext all.2
  exact ⟨last, .cons first others, insideLast⟩

theorem exists_advances_integer {whole : List Char} (isInteger : IsInteger whole) (negative : Bool) :
    ∃ next, Advances Next (opened negative) whole next ∧
      (next.part = .zero ∨ next.part = .integer) := by
  cases isInteger with
  | zero =>
    refine ⟨{ opened negative with part := .zero }, .single ?_, Or.inl rfl⟩
    cases negative <;> rfl
  | @digits c rest digit notZero others =>
    have notSign : c ≠ '-' := by
      rintro rfl
      cases digit
    have first : Next (opened negative) c ((opened negative).pushInteger c) := by
      cases negative <;> simp [Next, opened, step, leadingDigit, notSign, notZero, digit]
    obtain ⟨last, way, part⟩ :=
      DigitLeads.integer.exists_advances (part_pushInteger (opened negative) c) others
    exact ⟨last, .cons first way, Or.inr part⟩

theorem exists_advances_places {places : List Char} (placesText : PlacesText places)
    (whole : n.part = .zero ∨ n.part = .integer) :
    ∃ next, Advances Next n places next ∧
      (next.part = .zero ∨ next.part = .integer ∨ next.part = .fraction) := by
  cases placesText with
  | none => exact ⟨n, .nil n, whole.imp_right Or.inl⟩
  | point nonempty digits =>
    have point : Next n '.' { n with part := .point, filled := false } := by
      rcases whole with part | part <;> simp [Next, step, part, afterInteger]
    obtain ⟨last, way, part⟩ := DigitLeads.point.exists_advances_of_ne_nil .fraction
      (n := { n with part := .point, filled := false }) rfl nonempty digits
    exact ⟨last, .cons point way, Or.inr (Or.inr part)⟩

theorem exists_advances_power {power : List Char} (isPower : IsPower power)
    (written : n.part = .zero ∨ n.part = .integer ∨ n.part = .fraction) :
    ∃ next, Advances Next n power next ∧ next.isComplete = true := by
  -- The letter of an exponent may follow each of the three parts.
  have marked : ∀ {mark : Char}, mark = 'e' ∨ mark = 'E' → Next n mark { n with part := .mark } := by
    rintro mark (rfl | rfl) <;>
      rcases written with part | part | part <;> simp [Next, step, part, afterInteger]
  cases isPower with
  | none =>
    refine ⟨n, .nil n, ?_⟩
    rcases written with part | part | part <;> simp [isComplete, part]
  | plain isMark nonempty all =>
    obtain ⟨last, way, part⟩ := DigitLeads.mark.exists_advances_of_ne_nil .power
      (n := { n with part := .mark }) rfl nonempty all
    exact ⟨last, .cons (marked isMark) way, by simp [isComplete, part]⟩
  | @signed mark sign digits isMark isSign nonempty all =>
    obtain ⟨next, signs, part⟩ : ∃ next, Next { n with part := .mark } sign next ∧
        next.part = .markSign := by
      rcases isSign with rfl | rfl <;> exact ⟨_, rfl, rfl⟩
    obtain ⟨last, way, partLast⟩ :=
      DigitLeads.markSign.exists_advances_of_ne_nil .power part nonempty all
    exact ⟨last, .cons (marked isMark) (.cons signs way), by simp [isComplete, partLast]⟩

/-- A numeral that may end does so where something stands that may follow a value. -/
theorem step_of_isComplete (complete : n.isComplete = true) (ends : endsValue c = true) :
    n.step c = .done := by
  have other : c.isDigit = false ∧ c ≠ '.' ∧ c ≠ 'e' ∧ c ≠ 'E' := by
    simp only [endsValue, isSpace, Bool.or_eq_true, beq_iff_eq] at ends
    rcases ends with (((((rfl | rfl) | rfl) | rfl) | rfl) | rfl) | rfl <;> decide
  cases part : n.part <;> simp_all [isComplete, step, afterInteger]

end Numeral

/-- The scan of a numeral goes over every number, however great it is. -/
theorem IsNumber.exists_advances {text : List Char} (isNumber : IsNumber text) :
    ∃ n : Numeral, Advances Numeral.Next {} text n ∧ n.isComplete = true := by
  obtain ⟨negative, isInteger, placesText, isPower⟩ := isNumber
  obtain ⟨afterWhole, wayWhole, whole⟩ := Numeral.exists_advances_integer isInteger negative
  obtain ⟨afterPlaces, wayPlaces, places⟩ := Numeral.exists_advances_places placesText whole
  obtain ⟨last, wayPower, complete⟩ := Numeral.exists_advances_power isPower places
  refine ⟨last, ?_, complete⟩
  have way := wayWhole.append (wayPlaces.append wayPower)
  cases negative with
  | false => exact way
  | true => exact .cons rfl way

/-! ### Scalars -/

namespace ScalarScan

variable {care : Care} {c : Char} {scan : ScalarScan}

/-- A character belongs to a scalar. -/
def Next (care : Care) (s : ScalarScan) (c : Char) (t : ScalarScan) : Prop :=
  s.step care c = .ok (.more t)

/-- A scalar starts neither with a blank nor with a bracket. -/
theorem lead_of_start? (starts : start? c = some scan) :
    isSpace c = false ∧ c ≠ '[' ∧ c ≠ '\x7b' ∧ c ≠ ']' := by
  refine ⟨?_, ?_, ?_, ?_⟩
  · rw [Bool.eq_false_iff]
    intro space
    simp only [isSpace, Bool.or_eq_true, beq_iff_eq] at space
    rcases space with ((rfl | rfl) | rfl) | rfl <;> cases starts
  all_goals
    rintro rfl
    cases starts

theorem start?_of_next {first : Numeral} (next : Numeral.Next {} c first) :
    start? c = some (.numeral first) := by
  have step : ({} : Numeral).step c = .next first := next
  have other : c ≠ 'n' ∧ c ≠ 't' ∧ c ≠ 'f' ∧ c ≠ '"' := by
    refine ⟨?_, ?_, ?_, ?_⟩ <;> rintro rfl <;> cases step
  simp [start?, other, step]

theorem advances_numeral {m n : Numeral} {text : List Char} (way : Advances Numeral.Next m text n) :
    Advances (Next care) (.numeral m) text (.numeral n) := by
  refine way.lift ScalarScan.numeral ?_
  intro m c n next
  have step : m.step c = .next n := next
  simp [Next, ScalarScan.step, step]

theorem advances_text {s t : TextScan} {text : List Char}
    (way : Advances (TextScan.Next care) s text t) :
    Advances (Next care) (.text s) text (.text t) := by
  refine way.lift ScalarScan.text ?_
  intro s c t next
  have step : s.step care c = .ok (.more t) := next
  simp [Next, ScalarScan.step, step]

/-- A number ends where something stands that may follow a value. -/
theorem step_of_isComplete {n : Numeral} (complete : n.isComplete = true)
    (ends : endsValue c = true) : (numeral n).step care c = (number care n).map .over := by
  simp [step, Numeral.step_of_isComplete complete ends]

/-- A machine that holds the scan of a scalar goes over a number. -/
theorem advances_number {σ : Type} {next : σ → Char → σ → Prop} {s : σ} {hold : ScalarScan → σ}
    {n : Numeral} {text : List Char}
    (starts : ∀ {c scan}, start? c = some scan → next s c (hold scan))
    (holds : ∀ a c b, Next care a c b → next (hold a) c (hold b))
    (way : Advances Numeral.Next {} text n) (complete : n.isComplete = true) :
    Advances next s text (hold (.numeral n)) := by
  cases way with
  | nil => cases complete
  | cons first others =>
    -- The first character starts the scan of the scalar, and the others belong to it.
    exact .cons (starts (start?_of_next first)) ((advances_numeral others).lift hold holds)

end ScalarScan

/-! ### Around the values of an object -/

theorem passColon_of_isSpace {σ : Type} {stay next : σ} {c : Char} (space : isSpace c = true) :
    passColon stay next c = .ok stay :=
  if_pos space

theorem passSeparator_of_isSpace {σ : Type} {closing : Char} {stay next leave : σ} {c : Char}
    (space : isSpace c = true) : passSeparator closing stay next leave c = .ok stay :=
  if_pos space

namespace KeyScan

variable {care : Care} {mayEnd : Bool}

/-- A character belongs to the name of a member, or to the blanks before it. -/
def Next (care : Care) (s : KeyScan) (c : Char) (t : KeyScan) : Prop :=
  s.step care c = .ok (.more t)

theorem next_of_isSpace {c : Char} (space : isSpace c = true) :
    Next care (.start mayEnd) c (.start mayEnd) := by
  simp [Next, step, space]

theorem advances_name {before key : List Char} {scan : TextScan} (blank : Blank before)
    (way : Advances (TextScan.Next care) {} key scan) :
    Advances (Next care) (.start mayEnd) (before ++ '"' :: key) (.name scan) := by
  have quote : Next care (.start mayEnd) '"' (.name {}) := rfl
  refine (blank.advances fun _ => next_of_isSpace).append (.cons quote (way.lift KeyScan.name ?_))
  intro s c t next
  have step : s.step care c = .ok (.more t) := next
  simp [Next, KeyScan.step, step]

theorem step_quote (chars : List Char) :
    (name ⟨.plain, none, chars⟩).step care '"' = .ok (.named chars.reverse) := by
  simp [step, TextScan.step]

/-- A machine that holds the scan of a name goes over a member, if it goes over the value. -/
theorem advances_member {σ : Type} {next : σ → Char → σ → Prop} {hold : KeyScan → σ}
    {colon value last : σ} {before key gap rest chars : List Char}
    (holds : ∀ s c t, Next care s c t → next (hold s) c (hold t))
    (named : next (hold (.name ⟨.plain, none, chars⟩)) '"' colon)
    (stays : ∀ c, isSpace c = true → next colon c colon) (goesOn : next colon ':' value)
    (blank : Blank before) (wayKey : Advances (TextScan.Next care) {} key ⟨.plain, none, chars⟩)
    (blankGap : Blank gap) (way : Advances next value rest last) :
    Advances next (hold (.start mayEnd)) (before ++ '"' :: (key ++ '"' :: (gap ++ ':' :: rest)))
      last := by
  have wayName : Advances next (hold (.start mayEnd)) (before ++ '"' :: key)
      (hold (.name ⟨.plain, none, chars⟩)) :=
    (advances_name blank wayKey).lift hold holds
  have wayColon := (blankGap.advances stays).append (.cons goesOn way)
  have whole := wayName.append (.cons named wayColon)
  rwa [List.append_assoc, List.cons_append] at whole

end KeyScan

/-- A machine has gone over a value: what may stand behind a value is treated so. -/
def Rests {σ α : Type} (step : σ → Char → α) (after : Char → α) (s : σ) : Prop :=
  ∀ c, endsValue c = true → step s c = after c

/-- Blanks behind a value change nothing if they lead to where the machine rests, too. -/
theorem Rests.exists_advances {σ α : Type} {step : σ → Char → α} {after : Char → α}
    {next : σ → Char → σ → Prop} {s t : σ} {gap : List Char} (rests : Rests step after s)
    (there : Rests step after t)
    (leads : ∀ {u c}, isSpace c = true → step u c = after c → next u c t) (blank : Blank gap) :
    ∃ u, Advances next s gap u ∧ Rests step after u := by
  refine blank.exists_advances rests there ?_ ?_
  · intro c space
    exact leads space (rests c (endsValue_of_isSpace space))
  · intro c space
    exact leads space (there c (endsValue_of_isSpace space))

/-! ### Passages -/

namespace Passage

/-- A character belongs to a value that is passed over. -/
def Next (p : Passage) (c : Char) (q : Passage) : Prop :=
  p.step .skim c = .ok (.more q)

/-- A passage has gone over a value, with the given arrays and objects open. -/
def Rests (p : Passage) (frames : List Frame) : Prop :=
  Json.Rests (step .skim) (afterValue frames) p

/-- A value may start. -/
def AwaitsValue (p : Passage) : Prop :=
  p.phase = .value ∨ p.phase = .firstItem

variable {p q : Passage} {frames : List Frame} {c : Char}

theorem AwaitsValue.stays (awaits : p.AwaitsValue) (c : Char) (space : isSpace c = true) :
    Next p c p := by
  rcases awaits with phase | phase <;> simp [Next, step, phase, space]

theorem AwaitsValue.next_scalar {scan : ScalarScan} (awaits : p.AwaitsValue)
    (starts : ScalarScan.start? c = some scan) : Next p c ⟨.scalar scan, p.frames⟩ := by
  obtain ⟨notSpace, notBracket, notBrace, notClosing⟩ := ScalarScan.lead_of_start? starts
  rcases awaits with phase | phase <;>
    simp [Next, step, phase, startValue, notSpace, notBracket, notBrace, notClosing, starts, Except.map]

/-- Passing over has no bound on the depth. -/
theorem AwaitsValue.next_array (awaits : p.AwaitsValue) :
    Next p '[' ⟨.firstItem, .array :: p.frames⟩ := by
  have notSpace : isSpace '[' = false := rfl
  rcases awaits with phase | phase <;>
    simp [Next, step, phase, startValue, notSpace, enter, depthBound, Except.map]

theorem AwaitsValue.next_object (awaits : p.AwaitsValue) :
    Next p '\x7b' ⟨.key (.start true), .object :: p.frames⟩ := by
  have notSpace : isSpace '\x7b' = false := rfl
  rcases awaits with phase | phase <;>
    simp [Next, step, phase, startValue, notSpace, enter, depthBound, Except.map]

theorem rests_after (frames : List Frame) : Rests ⟨.after, frames⟩ frames :=
  fun _ _ => rfl

theorem rests_numeral {n : Numeral} (complete : n.isComplete = true) (frames : List Frame) :
    Rests ⟨.scalar (.numeral n), frames⟩ frames := by
  intro c ends
  simp [step, ScalarScan.step_of_isComplete complete ends, ScalarScan.number, Except.map]

theorem afterValue_of_isSpace (inside : frames ≠ []) (space : isSpace c = true) :
    afterValue frames c = .ok (.more ⟨.after, frames⟩) := by
  obtain ⟨frame, outer, rfl⟩ := List.exists_cons_of_ne_nil inside
  cases frame <;> simp [afterValue, passSeparator_of_isSpace space, Except.map]

/-- A passage goes over a text and rests behind it, with the arrays and objects open that were open
before. -/
def Covers (p : Passage) (text : List Char) : Prop :=
  ∃ q, Advances Next p text q ∧ q.Rests p.frames

/-! ### Scalars in a passage -/

theorem advances_word {meant : Scalar} {left : List Char} (nonempty : left ≠ []) :
    Advances Next ⟨.scalar (.word meant left), frames⟩ left ⟨.after, frames⟩ := by
  induction left with
  | nil => exact absurd rfl nonempty
  | cons letter left ih =>
    cases left with
    | nil => exact .single (by simp [Next, step, ScalarScan.step])
    | cons next left =>
      have first : Next ⟨.scalar (.word meant (letter :: next :: left)), frames⟩ letter
          ⟨.scalar (.word meant (next :: left)), frames⟩ := by
        simp [Next, step, ScalarScan.step]
      exact .cons first (ih (List.cons_ne_nil next left))

theorem next_held_scalar (a : ScalarScan) (c : Char) (b : ScalarScan)
    (next : ScalarScan.Next .skim a c b) : Next ⟨.scalar a, frames⟩ c ⟨.scalar b, frames⟩ := by
  have step : a.step .skim c = .ok (.more b) := next
  simp [Next, Passage.step, step]

theorem next_held_key (s : KeyScan) (c : Char) (t : KeyScan) (next : KeyScan.Next .skim s c t) :
    Next ⟨.key s, frames⟩ c ⟨.key t, frames⟩ := by
  have step : s.step .skim c = .ok (.more t) := next
  simp [Next, Passage.step, step]

namespace AwaitsValue

theorem covers_word {meant : Scalar} {left : List Char} (awaits : p.AwaitsValue)
    (starts : ScalarScan.start? c = some (.word meant left)) (nonempty : left ≠ []) :
    p.Covers (c :: left) :=
  ⟨_, .cons (awaits.next_scalar starts) (advances_word nonempty), rests_after p.frames⟩

theorem covers_number {text : List Char} (awaits : p.AwaitsValue) (isNumber : IsNumber text) :
    p.Covers text := by
  obtain ⟨n, way, complete⟩ := isNumber.exists_advances
  exact ⟨_, ScalarScan.advances_number awaits.next_scalar next_held_scalar way complete,
    rests_numeral complete p.frames⟩

theorem covers_text {text : List Char} (awaits : p.AwaitsValue) (isText : IsText text) :
    p.Covers ('"' :: (text ++ ['"'])) := by
  obtain ⟨chars, way⟩ : ∃ chars, Advances (TextScan.Next .skim) {} text ⟨.plain, none, chars⟩ :=
    isText.exists_advances
  have quote : Next ⟨.scalar (.text ⟨.plain, none, chars⟩), p.frames⟩ '"' ⟨.after, p.frames⟩ := rfl
  have wayText : Advances Next ⟨.scalar (.text {}), p.frames⟩ text
      ⟨.scalar (.text ⟨.plain, none, chars⟩), p.frames⟩ :=
    (ScalarScan.advances_text way).lift (fun scan => (⟨.scalar scan, p.frames⟩ : Passage))
      next_held_scalar
  exact ⟨_, .cons (awaits.next_scalar rfl) (wayText.append (.single quote)), rests_after p.frames⟩

end AwaitsValue

/-! ### Arrays and objects in a passage -/

section Nesting

variable {frame : Frame} {phase : Phase} {opening closing : Char} {inner : List Char}

/-- What stands between brackets is gone over inside of them. -/
theorem Covers.enclosed (opens : Next p opening ⟨phase, frame :: p.frames⟩)
    (covers : Covers ⟨phase, frame :: p.frames⟩ inner) (ends : endsValue closing = true)
    (closes : afterValue (frame :: p.frames) closing = .ok (.more ⟨.after, p.frames⟩)) :
    p.Covers (opening :: (inner ++ [closing])) := by
  obtain ⟨q, way, rests⟩ := covers
  exact ⟨_, .cons opens (way.append (.single ((rests closing ends).trans closes))),
    rests_after p.frames⟩

theorem covers_empty (opens : Next p opening ⟨phase, frame :: p.frames⟩)
    (stays : ∀ c, isSpace c = true → Next ⟨phase, frame :: p.frames⟩ c ⟨phase, frame :: p.frames⟩)
    (closes : Next ⟨phase, frame :: p.frames⟩ closing ⟨.after, p.frames⟩) (blank : Blank inner) :
    p.Covers (opening :: (inner ++ [closing])) :=
  ⟨_, .cons opens ((blank.advances stays).append (.single closes)), rests_after p.frames⟩

theorem AwaitsValue.covers_item {before value after : List Char} (awaits : p.AwaitsValue)
    (inside : p.frames ≠ []) (blank : Blank before) (covers : p.Covers value)
    (blankAfter : Blank after) : p.Covers (before ++ (value ++ after)) := by
  obtain ⟨q, way, rests⟩ := covers
  -- Blanks behind a value are passed over as long as something is open.
  have leads : ∀ {u c}, isSpace c = true → step .skim u c = afterValue p.frames c →
      Next u c ⟨.after, p.frames⟩ :=
    fun space same => same.trans (afterValue_of_isSpace inside space)
  obtain ⟨r, wayAfter, restsAfter⟩ :=
    Json.Rests.exists_advances rests (rests_after p.frames) leads blankAfter
  exact ⟨r, (blank.advances awaits.stays).append (way.append wayAfter), restsAfter⟩

/-- Behind a comma a passage goes on in the same array or object. -/
theorem Covers.separated {text rest : List Char} (covers : p.Covers text)
    (comma : afterValue p.frames ',' = .ok (.more ⟨phase, p.frames⟩))
    (others : Covers ⟨phase, p.frames⟩ rest) : p.Covers (text ++ ',' :: rest) := by
  obtain ⟨q, way, rests⟩ := covers
  obtain ⟨r, wayRest, restsRest⟩ := others
  exact ⟨r, way.append (.cons ((rests ',' rfl).trans comma) wayRest), restsRest⟩

theorem covers_member {mayEnd : Bool} {before key gap item : List Char} (blank : Blank before)
    (isText : IsText key) (blankGap : Blank gap) (covers : Covers ⟨.value, frames⟩ item) :
    Covers ⟨.key (.start mayEnd), frames⟩
      (before ++ '"' :: (key ++ '"' :: (gap ++ ':' :: item))) := by
  obtain ⟨chars, wayKey⟩ := isText.exists_advances
  obtain ⟨q, way, rests⟩ := covers
  have named : Next ⟨.key (.name ⟨.plain, none, chars⟩), frames⟩ '"' ⟨.colon, frames⟩ := rfl
  have stays : ∀ c, isSpace c = true → Next ⟨.colon, frames⟩ c ⟨.colon, frames⟩ := by
    intro c space
    simp [Next, step, passColon_of_isSpace space, Except.map]
  exact ⟨q, KeyScan.advances_member next_held_key named stays rfl blank wayKey blankGap way, rests⟩

end Nesting

end Passage

/-- The states in which a passage may meet a text of some shape. -/
def Shape.Opens : Shape → Passage → Prop
  | .value, p => p.AwaitsValue
  | .item, p => p.AwaitsValue ∧ p.frames ≠ []
  | .items, p => p.AwaitsValue ∧ ∃ outer, p.frames = .array :: outer
  | .member, p | .members, p => ∃ mayEnd outer, p = ⟨.key (.start mayEnd), .object :: outer⟩

/-- A passage goes over every well-formed value and rests behind it, and so it does for the parts of a
value. -/
theorem Written.covers {shape : Shape} {text : List Char} (written : Written shape text) :
    ∀ {p : Passage}, shape.Opens p → p.Covers text := by
  -- The induction is on the rules of the grammar, from any state that the shape may be met in: inside
  -- an array or object the passage has one frame more.
  induction written with
  | null =>
    intro p awaits
    exact awaits.covers_word rfl (List.cons_ne_nil _ _)
  | bool value =>
    intro p awaits
    cases value with
    | false => exact awaits.covers_word rfl (List.cons_ne_nil _ _)
    | true => exact awaits.covers_word rfl (List.cons_ne_nil _ _)
  | number isNumber =>
    intro p awaits
    exact awaits.covers_number isNumber
  | text isText =>
    intro p awaits
    exact awaits.covers_text isText
  | emptyArray blank =>
    intro p awaits
    exact Passage.covers_empty awaits.next_array (Passage.AwaitsValue.stays (Or.inr rfl)) rfl blank
  | array _ ih =>
    intro p awaits
    exact (ih ⟨Or.inr rfl, p.frames, rfl⟩).enclosed awaits.next_array rfl rfl
  | emptyObject blank =>
    intro p awaits
    exact Passage.covers_empty awaits.next_object
      (fun _ space => Passage.next_held_key _ _ _ (KeyScan.next_of_isSpace space)) rfl blank
  | object _ ih =>
    intro p awaits
    exact (ih ⟨true, p.frames, rfl⟩).enclosed awaits.next_object rfl rfl
  | item blank _ blankAfter ih =>
    rintro p ⟨awaits, inside⟩
    exact awaits.covers_item inside blank (ih awaits) blankAfter
  | lastItem _ ih =>
    rintro p ⟨awaits, outer, frames⟩
    exact ih ⟨awaits, by simp [frames]⟩
  | moreItems _ _ ih ihOthers =>
    rintro p ⟨awaits, outer, frames⟩
    refine (ih ⟨awaits, by simp [frames]⟩).separated ?_ (ihOthers ⟨Or.inl rfl, outer, frames⟩)
    rw [frames]
    rfl
  | member blank isText blankGap _ ih =>
    rintro p ⟨mayEnd, outer, rfl⟩
    exact Passage.covers_member blank isText blankGap (ih ⟨Or.inl rfl, List.cons_ne_nil _ _⟩)
  | lastMember _ ih =>
    intro p opens
    exact ih opens
  | moreMembers _ _ ih ihOthers =>
    rintro p ⟨mayEnd, outer, rfl⟩
    exact (ih ⟨mayEnd, outer, rfl⟩).separated rfl (ihOthers ⟨false, outer, rfl⟩)

end Sequencer.Json
