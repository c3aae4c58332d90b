import Sequencer.Json.Document
import Sequencer.Json.Text
import Sequencer.Proofs.Numerals
import Sequencer.Proofs.Quoting

/-!
# JSON documents by their texts

The two layouts differ in blanks only, so both are one printer with a spacing of its own. A printed
value tells itself: no other value has the same text, not even with other text behind it. The first
character gives the kind of the value. Words and quoted texts know where they end; a number ends
because no character of numbers follows a value inside a document; and the parts of an array or
object are told one after the other, since a comma stands where a further part comes and never
where the bracket closes.

## Main definitions

* `Json.Spacing`: the blanks of a layout.
* `Json.Spacing.chars`: a value laid out with the given blanks.
* `Json.Tells`: a part that is known, with its end, from any text that starts with it.

## Main results

* `Json.toList_compact`, `Json.toList_pretty`: both layouts as such printers.
* `Json.Spacing.tells_chars`: every value is told by its text.
* `Json.compact_injective`, `Json.pretty_injective`: different documents have different texts.
-/

namespace Sequencer.Json

/-- The blanks of a layout: those before a part at a level of nesting, and those behind a colon. -/
structure Spacing where
  /-- What stands before a part of the given level, and before the bracket that ends the level. -/
  gap : Nat → List Char
  /-- What stands between the colon of a member and its value. -/
  colonGap : List Char
  isSpace_of_mem_gap : ∀ level, ∀ c ∈ gap level, isSpace c = true

namespace Spacing

/-- No blanks at all. -/
def none : Spacing where
  gap _ := []
  colonGap := []
  isSpace_of_mem_gap := by simp

/-- A line for every part, indented by two spaces a level. -/
def indented : Spacing where
  gap level := '\n' :: List.replicate (2 * level) ' '
  colonGap := [' ']
  isSpace_of_mem_gap := by
    intro level c listed
    rcases List.mem_cons.mp listed with rfl | listed
    · rfl
    · rw [List.eq_of_mem_replicate listed]
      rfl

/-- What follows the first part inside brackets: every further part behind a separator, and then
the ending. -/
def further (separator ending : List Char) : List (List Char) → List Char
  | [] => ending
  | part :: parts => separator ++ (part ++ further separator ending parts)

/-- Parts between brackets; no blanks without parts. -/
def enclose (spacing : Spacing) (opening closing : Char) (level : Nat) :
    List (List Char) → List Char
  | [] => [opening, closing]
  | part :: parts =>
    opening :: (spacing.gap (level + 1) ++
      (part ++ further (',' :: spacing.gap (level + 1)) (spacing.gap level ++ [closing]) parts))

mutual

/-- A value with the blanks of the spacing; `level` is the nesting of its last line. -/
def chars (spacing : Spacing) (level : Nat) : Json → List Char
  | .null => "null".toList
  | .bool value => (boolText value).toList
  | .integer value => (integerText value).toList
  | .float value => value.text.toList
  | .string value => (Text.quoted value).toList
  | .array items => spacing.enclose '[' ']' level (spacing.itemChars (level + 1) items)
  | .object members => spacing.enclose '\x7b' '\x7d' level (spacing.memberChars (level + 1) members)

/-- The items of an array, each by itself. -/
def itemChars (spacing : Spacing) (level : Nat) : List Json → List (List Char)
  | [] => []
  | item :: rest => spacing.chars level item :: spacing.itemChars level rest

/-- The members of an object, each by itself. -/
def memberChars (spacing : Spacing) (level : Nat) : List (String × Json) → List (List Char)
  | [] => []
  | (key, value) :: rest =>
    ((Text.quoted key).toList ++ (':' :: (spacing.colonGap ++ spacing.chars level value))) ::
      spacing.memberChars level rest

end

/-- A member of an object. -/
def member (spacing : Spacing) (level : Nat) (field : String × Json) : List Char :=
  (Text.quoted field.1).toList ++ (':' :: (spacing.colonGap ++ spacing.chars level field.2))

theorem itemChars_eq_map (spacing : Spacing) (level : Nat) (items : List Json) :
    spacing.itemChars level items = items.map (spacing.chars level) := by
  induction items with
  | nil => rfl
  | cons item rest mapped => rw [itemChars, mapped, List.map_cons]

theorem memberChars_eq_map (spacing : Spacing) (level : Nat) (members : List (String × Json)) :
    spacing.memberChars level members = members.map (spacing.member level) := by
  induction members with
  | nil => rfl
  | cons field rest mapped => rw [memberChars, mapped, List.map_cons, member]

/-! ### Both layouts -/

theorem intercalate_append (separator ending part : List Char) (parts : List (List Char)) :
    separator.intercalate (part :: parts) ++ ending =
      part ++ further separator ending parts := by
  induction parts generalizing part with
  | nil => simp [further]
  | cons next parts known =>
    rw [List.intercalate_cons_cons, List.append_assoc, List.append_assoc, known, further]

theorem enclose_none (opening closing : Char) (level : Nat) (parts : List (List Char)) :
    opening :: ([','].intercalate parts ++ [closing]) = none.enclose opening closing level parts := by
  cases parts with
  | nil => rfl
  | cons part parts =>
    rw [intercalate_append, enclose]
    rfl

theorem toList_newline (level : Nat) : (newline level).toList = indented.gap level :=
  String.toList_ofList

theorem toList_block {opening closing : String} (first last : Char)
    (opens : opening.toList = [first]) (closes : closing.toList = [last]) (level : Nat)
    (parts : List String) :
    (block opening closing level parts).toList =
      indented.enclose first last level (parts.map String.toList) := by
  cases parts with
  | nil => simp [block, enclose, opens, closes]
  | cons part parts =>
    have laid := intercalate_append (',' :: indented.gap (level + 1))
      (indented.gap level ++ [last]) part.toList (parts.map String.toList)
    simp [block, enclose, opens, closes, toList_newline, String.toList_intercalate, ← laid]

end Spacing

mutual

theorem toList_compact (level : Nat) :
    ∀ value : Json, value.compact.toList = Spacing.none.chars level value
  | .null => rfl
  | .bool _ => rfl
  | .integer _ => rfl
  | .float _ => rfl
  | .string _ => rfl
  | .array items => by
    rw [Spacing.chars, ← Spacing.enclose_none, ← toList_compactItems (level + 1) items]
    simp [compact, String.toList_intercalate]
  | .object members => by
    rw [Spacing.chars, ← Spacing.enclose_none, ← toList_compactMembers (level + 1) members]
    simp [compact, String.toList_intercalate]

theorem toList_compactItems (level : Nat) : ∀ items : List Json,
    (compactItems items).map String.toList = Spacing.none.itemChars level items
  | [] => rfl
  | item :: rest => by
    rw [compactItems, List.map_cons, toList_compact level item, toList_compactItems level rest,
      Spacing.itemChars]

theorem toList_compactMembers (level : Nat) : ∀ members : List (String × Json),
    (compactMembers members).map String.toList = Spacing.none.memberChars level members
  | [] => rfl
  | (key, value) :: rest => by
    rw [compactMembers, List.map_cons, toList_compactMembers level rest, Spacing.memberChars,
      ← toList_compact level value]
    simp [Spacing.none]

end

mutual

theorem toList_pretty (level : Nat) :
    ∀ value : Json, (value.pretty level).toList = Spacing.indented.chars level value
  | .null => rfl
  | .bool _ => rfl
  | .integer _ => rfl
  | .float _ => rfl
  | .string _ => rfl
  | .array items => by
    rw [pretty, Spacing.toList_block '[' ']' rfl rfl, toList_prettyItems (level + 1) items,
      Spacing.chars]
  | .object members => by
    rw [pretty, Spacing.toList_block '\x7b' '\x7d' rfl rfl,
      toList_prettyMembers (level + 1) members, Spacing.chars]

theorem toList_prettyItems (level : Nat) : ∀ items : List Json,
    (prettyItems level items).map String.toList = Spacing.indented.itemChars level items
  | [] => rfl
  | item :: rest => by
    rw [prettyItems, List.map_cons, toList_pretty level item, toList_prettyItems level rest,
      Spacing.itemChars]

theorem toList_prettyMembers (level : Nat) : ∀ members : List (String × Json),
    (prettyMembers level members).map String.toList = Spacing.indented.memberChars level members
  | [] => rfl
  | (key, value) :: rest => by
    rw [prettyMembers, List.map_cons, toList_prettyMembers level rest, Spacing.memberChars,
      ← toList_pretty level value]
    simp [Spacing.indented]

end

/-! ### The kind of a value by its first character -/

/-- The kinds of values that differ in their first character. -/
inductive Kind where
  | null
  | bool
  | number
  | string
  | array
  | object
deriving DecidableEq

/-- The kind of a value. -/
def kind : Json → Kind
  | .null => .null
  | .bool _ => .bool
  | .integer _ | .float _ => .number
  | .string _ => .string
  | .array _ => .array
  | .object _ => .object

/-- The kind of value that a character starts. -/
def Kind.ofLead (c : Char) : Option Kind :=
  if c = '-' || c.isDigit then some .number
  else if c = 'n' then some .null
  else if c = 't' || c = 'f' then some .bool
  else if c = '"' then some .string
  else if c = '[' then some .array
  else if c = '\x7b' then some .object
  else none

theorem Kind.exists_ofLead_of_looksNumeral {text : List Char} (looks : LooksNumeral text) :
    ∃ first rest, text = first :: rest ∧ ofLead first = some .number := by
  obtain ⟨first, rest, starts, numeral⟩ := looks.starts
  refine ⟨first, rest, starts, ?_⟩
  rcases numeral with rfl | digit
  · rfl
  · simp [ofLead, digit]

namespace Spacing

variable (spacing : Spacing) (level : Nat)

theorem exists_enclose_eq_cons (opening closing : Char) (parts : List (List Char)) :
    ∃ rest, spacing.enclose opening closing level parts = opening :: rest := by
  cases parts <;> exact ⟨_, rfl⟩

/-- The first character of a value gives its kind. -/
theorem exists_lead (value : Json) :
    ∃ first rest, spacing.chars level value = first :: rest ∧
      Kind.ofLead first = some value.kind := by
  cases value with
  | null => exact ⟨'n', _, rfl, rfl⟩
  | bool value => cases value <;> exact ⟨_, _, rfl, rfl⟩
  | integer value => exact Kind.exists_ofLead_of_looksNumeral (looksNumeral_integerText value)
  | float value => exact Kind.exists_ofLead_of_looksNumeral value.looksNumeral_text
  | string value => exact ⟨'"', _, Text.toList_quoted value, rfl⟩
  | array items =>
    obtain ⟨rest, starts⟩ := spacing.exists_enclose_eq_cons level '[' ']' _
    exact ⟨'[', rest, starts, rfl⟩
  | object members =>
    obtain ⟨rest, starts⟩ := spacing.exists_enclose_eq_cons level '\x7b' '\x7d' _
    exact ⟨'\x7b', rest, starts, rfl⟩

theorem exists_member_eq_cons (field : String × Json) :
    ∃ rest, spacing.member level field = '"' :: rest := by
  rw [member, Text.toList_quoted]
  exact ⟨_, rfl⟩

end Spacing

/-! ### Parts that are told by their text -/

section Tells

variable {α : Type} {print : α → List Char}

/-- The text of `x` is not that of another part, whatever stands behind the two, as long as it
cannot belong to a number. -/
def Tells (print : α → List Char) (x : α) : Prop :=
  ∀ (y : α) (rest rest' : List Char), EndsNumeral rest → EndsNumeral rest' →
    print x ++ rest = print y ++ rest' → x = y ∧ rest = rest'

variable {ending separator rest rest' : List Char} {last : Char}

/-- What follows a part inside brackets does not go on with a number. -/
theorem endsNumeral_further (notNumeral : isNumeral last = false) (parts : List (List Char)) :
    EndsNumeral (Spacing.further (',' :: separator) (last :: ending) parts ++ rest) := by
  intro c first
  cases parts with
  | nil =>
    obtain rfl := Option.some.inj first
    exact notNumeral
  | cons part parts =>
    obtain rfl := Option.some.inj first
    rfl

/-- Parts that are told one by one are told together: a comma stands where a further part comes, and
never where the parts end. -/
theorem further_append_inj {xs ys : List α} (tells : ∀ x ∈ xs, Tells print x)
    (notComma : last ≠ ',') (notNumeral : isNumeral last = false)
    (same : Spacing.further (',' :: separator) (last :: ending) (xs.map print) ++ rest =
      Spacing.further (',' :: separator) (last :: ending) (ys.map print) ++ rest') :
    xs = ys ∧ rest = rest' := by
  induction xs generalizing ys with
  | nil =>
    cases ys with
    | nil => exact ⟨rfl, List.append_cancel_left same⟩
    | cons y ys => exact absurd (List.cons.inj same).1 notComma
  | cons x xs toldRest =>
    cases ys with
    | nil => exact absurd (List.cons.inj same).1.symm notComma
    | cons y ys =>
      simp only [List.map_cons, Spacing.further, List.append_assoc,
        List.append_cancel_left_eq] at same
      -- The first parts are the same, and then what follows them is.
      obtain ⟨rfl, others⟩ := tells x List.mem_cons_self y _ _
        (endsNumeral_further notNumeral _) (endsNumeral_further notNumeral _) same
      obtain ⟨rfl, rests⟩ :=
        toldRest (fun z listed => tells z (List.mem_cons_of_mem x listed)) others
      exact ⟨rfl, rests⟩

end Tells

namespace Spacing

variable {spacing : Spacing} {level : Nat}

/-! ### Brackets -/

/-- A blank is no part of a number, no comma and no closing bracket. -/
theorem isSpace_cases {c : Char} (space : isSpace c = true) :
    isNumeral c = false ∧ c ≠ ',' ∧ c ≠ ']' ∧ c ≠ '\x7d' := by
  simp only [isSpace, Bool.or_eq_true, beq_iff_eq] at space
  rcases space with ((rfl | rfl) | rfl) | rfl <;> decide

section Brackets

variable {opening closing : Char} (closes : closing = ']' ∨ closing = '\x7d')

include closes

theorem exists_ending (spacing : Spacing) (level : Nat) :
    ∃ last ending, spacing.gap level ++ [closing] = last :: ending ∧ last ≠ ',' ∧
      isNumeral last = false := by
  cases gap : spacing.gap level with
  | nil =>
    refine ⟨closing, [], rfl, ?_⟩
    rcases closes with rfl | rfl <;> decide
  | cons blank blanks =>
    have space := spacing.isSpace_of_mem_gap level blank (gap ▸ List.mem_cons_self)
    exact ⟨blank, _, rfl, (isSpace_cases space).2.1, (isSpace_cases space).1⟩

theorem gap_append_ne_cons {first : Char} {others rest : List Char} (other : first ≠ closing) :
    spacing.gap level ++ first :: others ≠ closing :: rest := by
  cases gap : spacing.gap level with
  | nil =>
    intro same
    exact other (List.cons.inj same).1
  | cons blank blanks =>
    have space := spacing.isSpace_of_mem_gap level blank (gap ▸ List.mem_cons_self)
    intro same
    obtain rfl := (List.cons.inj same).1
    rcases closes with bracket | brace
    · exact (isSpace_cases space).2.2.1 bracket
    · exact (isSpace_cases space).2.2.2 brace

theorem enclose_cons_ne {first : Char} {part others : List Char} {parts : List (List Char)}
    {rest rest' : List Char} (starts : part = first :: others) (other : first ≠ closing) :
    spacing.enclose opening closing level (part :: parts) ++ rest ≠
      spacing.enclose opening closing level [] ++ rest' := by
  simp only [enclose, starts, List.cons_append, List.append_assoc, ne_eq, List.cons.injEq, true_and]
  exact gap_append_ne_cons closes other

/-- Parts between brackets are told together if each of them is told and none starts with the
closing bracket. -/
theorem enclose_append_inj {α : Type} {print : α → List Char} {xs ys : List α}
    {rest rest' : List Char} (tells : ∀ x ∈ xs, Tells print x)
    (leads : ∀ x, ∃ first others, print x = first :: others ∧ first ≠ closing)
    (same : spacing.enclose opening closing level (xs.map print) ++ rest =
      spacing.enclose opening closing level (ys.map print) ++ rest') :
    xs = ys ∧ rest = rest' := by
  cases xs with
  | nil =>
    cases ys with
    | nil => exact ⟨rfl, List.append_cancel_left same⟩
    | cons y ys =>
      obtain ⟨first, others, starts, other⟩ := leads y
      exact absurd same.symm (enclose_cons_ne closes starts other)
  | cons x xs =>
    cases ys with
    | nil =>
      obtain ⟨first, others, starts, other⟩ := leads x
      exact absurd same (enclose_cons_ne closes starts other)
    | cons y ys =>
      obtain ⟨last, ending, ends, notComma, notNumeral⟩ :=
        exists_ending closes spacing level
      simp only [List.map_cons, enclose, ends, List.cons_append, List.append_assoc,
        List.cons.injEq, true_and, List.append_cancel_left_eq] at same
      obtain ⟨rfl, others⟩ := tells x List.mem_cons_self y _ _
        (endsNumeral_further notNumeral _) (endsNumeral_further notNumeral _) same
      obtain ⟨rfl, rests⟩ := further_append_inj
        (fun z listed => tells z (List.mem_cons_of_mem x listed)) notComma notNumeral others
      exact ⟨rfl, rests⟩

end Brackets

/-! ### Every value is told by its text -/

theorem kind_eq_of_append_eq {x y : Json} {rest rest' : List Char}
    (same : spacing.chars level x ++ rest = spacing.chars level y ++ rest') : x.kind = y.kind := by
  obtain ⟨first, others, starts, leads⟩ := spacing.exists_lead level x
  obtain ⟨first', others', starts', leads'⟩ := spacing.exists_lead level y
  rw [starts, starts'] at same
  rw [(List.cons.inj same).1, leads'] at leads
  exact (Option.some.inj leads).symm

variable (spacing level)

theorem tells_null : Tells (spacing.chars level) .null := by
  intro y rest rest' _ _ same
  have kinds := kind_eq_of_append_eq same
  cases y with
  | null => exact ⟨rfl, List.append_cancel_left same⟩
  | bool | integer | float | string | array | object => cases kinds

theorem tells_bool (value : Bool) : Tells (spacing.chars level) (.bool value) := by
  intro y rest rest' _ _ same
  have kinds := kind_eq_of_append_eq same
  cases y with
  | bool other =>
    have same : (boolText value).toList ++ rest = (boolText other).toList ++ rest' := same
    cases value <;> cases other <;> simp_all [boolText]
  | null | integer | float | string | array | object => cases kinds

theorem tells_integer (value : Int) : Tells (spacing.chars level) (.integer value) := by
  intro y rest rest' ends ends' same
  have kinds := kind_eq_of_append_eq same
  cases y with
  | integer other =>
    obtain ⟨texts, rests⟩ := (looksNumeral_integerText value).append_inj
      (looksNumeral_integerText other) ends ends' same
    exact ⟨congrArg integer (integerText_injective texts), rests⟩
  | float other =>
    obtain ⟨texts, -⟩ := (looksNumeral_integerText value).append_inj other.looksNumeral_text ends
      ends' same
    exact absurd texts.symm (other.text_ne_integerText value)
  | null | bool | string | array | object => cases kinds

theorem tells_float (value : Binary64) : Tells (spacing.chars level) (.float value) := by
  intro y rest rest' ends ends' same
  have kinds := kind_eq_of_append_eq same
  cases y with
  | integer other =>
    obtain ⟨texts, -⟩ := value.looksNumeral_text.append_inj (looksNumeral_integerText other) ends
      ends' same
    exact absurd texts (value.text_ne_integerText other)
  | float other =>
    obtain ⟨texts, rests⟩ := value.looksNumeral_text.append_inj other.looksNumeral_text ends ends'
      same
    exact ⟨congrArg float (Binary64.text_injective texts), rests⟩
  | null | bool | string | array | object => cases kinds

theorem tells_string (value : String) : Tells (spacing.chars level) (.string value) := by
  intro y rest rest' _ _ same
  have kinds := kind_eq_of_append_eq same
  cases y with
  | string other =>
    obtain ⟨rfl, rests⟩ := Text.quoted_append_inj same
    exact ⟨rfl, rests⟩
  | null | bool | integer | float | array | object => cases kinds

theorem tells_array {items : List Json}
    (tells : ∀ item ∈ items, Tells (spacing.chars (level + 1)) item) :
    Tells (spacing.chars level) (.array items) := by
  intro y rest rest' _ _ same
  have kinds := kind_eq_of_append_eq same
  cases y with
  | array others =>
    have leads : ∀ item, ∃ first rest, spacing.chars (level + 1) item = first :: rest ∧
        first ≠ ']' := by
      intro item
      obtain ⟨first, rest, starts, lead⟩ := spacing.exists_lead (level + 1) item
      refine ⟨first, rest, starts, ?_⟩
      -- No value starts with a closing bracket.
      rintro rfl
      cases lead
    simp only [chars, itemChars_eq_map] at same
    obtain ⟨rfl, rests⟩ := enclose_append_inj (Or.inl rfl) tells leads same
    exact ⟨rfl, rests⟩
  | null | bool | integer | float | string | object => cases kinds

theorem tells_object {members : List (String × Json)}
    (tells : ∀ field ∈ members, Tells (spacing.member (level + 1)) field) :
    Tells (spacing.chars level) (.object members) := by
  intro y rest rest' _ _ same
  have kinds := kind_eq_of_append_eq same
  cases y with
  | object others =>
    have leads : ∀ field, ∃ first rest, spacing.member (level + 1) field = first :: rest ∧
        first ≠ '\x7d' := by
      intro field
      obtain ⟨rest, starts⟩ := spacing.exists_member_eq_cons (level + 1) field
      exact ⟨'"', rest, starts, by decide⟩
    simp only [chars, memberChars_eq_map] at same
    obtain ⟨rfl, rests⟩ := enclose_append_inj (Or.inr rfl) tells leads same
    exact ⟨rfl, rests⟩
  | null | bool | integer | float | string | array => cases kinds

theorem tells_member {field : String × Json} (tells : Tells (spacing.chars level) field.2) :
    Tells (spacing.member level) field := by
  intro other rest rest' ends ends' same
  simp only [member, List.append_assoc, List.cons_append] at same
  obtain ⟨keys, values⟩ := Text.quoted_append_inj same
  simp only [List.cons.injEq, true_and, List.append_cancel_left_eq] at values
  obtain ⟨sameValue, rests⟩ := tells other.2 rest rest' ends ends' values
  exact ⟨Prod.ext keys sameValue, rests⟩

-- Arrays and objects hold lists of values, so values, items and members are told together. The level
-- grows with the depth.
mutual

/-- Every value is told by its text. -/
theorem tells_chars (level : Nat) : ∀ value : Json, Tells (spacing.chars level) value
  | .null => spacing.tells_null level
  | .bool value => spacing.tells_bool level value
  | .integer value => spacing.tells_integer level value
  | .float value => spacing.tells_float level value
  | .string value => spacing.tells_string level value
  | .array items => spacing.tells_array level (tells_items (level + 1) items)
  | .object members => spacing.tells_object level (tells_members (level + 1) members)

theorem tells_items (level : Nat) :
    ∀ items : List Json, ∀ item ∈ items, Tells (spacing.chars level) item
  | [] => by simp
  | item :: rest => List.forall_mem_cons.mpr ⟨tells_chars level item, tells_items level rest⟩

theorem tells_members (level : Nat) :
    ∀ members : List (String × Json), ∀ field ∈ members, Tells (spacing.member level) field
  | [] => by simp
  | (_, value) :: rest => List.forall_mem_cons.mpr
    ⟨spacing.tells_member level (tells_chars level value), tells_members level rest⟩

end

theorem chars_injective {x y : Json} (same : spacing.chars level x = spacing.chars level y) :
    x = y := by
  have ends : EndsNumeral [] := by simp [EndsNumeral]
  exact (spacing.tells_chars level x y [] [] ends ends (congrArg (· ++ []) same)).1

end Spacing

/-- Different documents have different compact texts. -/
theorem compact_injective {x y : Json} (same : x.compact = y.compact) : x = y := by
  apply Spacing.none.chars_injective 0
  rw [← toList_compact, ← toList_compact, same]

/-- Different documents have different pretty texts. -/
theorem pretty_injective {level : Nat} {x y : Json} (same : x.pretty level = y.pretty level) :
    x = y := by
  apply Spacing.indented.chars_injective level
  rw [← toList_pretty, ← toList_pretty, same]

end Sequencer.Json
