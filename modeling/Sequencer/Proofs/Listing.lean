import Mathlib.Algebra.BigOperators.Group.List.Basic
import Sequencer.Proofs.Numerals
import Sequencer.Sequence

/-!
# Listings by their lines

A listing has a line for every action and one for the return value. Texts, keys of objects and keys of
projections are written in quotes, where a line break is escaped, so what they hold adds no line. Only
names are written as they stand: the results of actions, the operations that are called, the names
that are referred to and the names of fields. A line break in one of them is a line break in the
listing, as often as the name is written.

## Main definitions

* `lineBreaks`: the number of line breaks in a text.
* `bareNames`: the names that a listing writes as they stand.
* `lines`: the lines of a listing.
* `ListsByLine`: how many line breaks a listing has, and what stands between them.

## Main results

* `Text.lineBreaks_quoted`: a quoted text has no line break.
* `Source.lineBreaks_text`: a source has the line breaks of the names in it.
* `listsByLine_text`: sequences and programs are listed line by line.
-/

namespace Sequencer

/-- The number of line breaks in a text. -/
def lineBreaks (text : String) : Nat :=
  text.toList.count '\n'

/-- The number of line breaks in several texts. -/
def lineBreaksIn (texts : List String) : Nat :=
  (texts.map lineBreaks).sum

@[simp]
theorem lineBreaks_append (s t : String) : lineBreaks (s ++ t) = lineBreaks s + lineBreaks t := by
  rw [lineBreaks, String.toList_append, List.count_append]
  rfl

@[simp]
theorem lineBreaksIn_nil : lineBreaksIn [] = 0 :=
  rfl

@[simp]
theorem lineBreaksIn_cons (text : String) (texts : List String) :
    lineBreaksIn (text :: texts) = lineBreaks text + lineBreaksIn texts := by
  simp [lineBreaksIn]

@[simp]
theorem lineBreaksIn_append (texts more : List String) :
    lineBreaksIn (texts ++ more) = lineBreaksIn texts + lineBreaksIn more := by
  simp [lineBreaksIn]

theorem lineBreaks_join (texts : List String) : lineBreaks (String.join texts) = lineBreaksIn texts := by
  induction texts with
  | nil => rfl
  | cons text texts ih => rw [String.join_cons, lineBreaks_append, ih, lineBreaksIn_cons]

theorem lineBreaks_intercalate {separator : String} (unbroken : lineBreaks separator = 0)
    (texts : List String) : lineBreaks (separator.intercalate texts) = lineBreaksIn texts := by
  induction texts with
  | nil => rfl
  | cons text texts ih =>
    cases texts with
    | nil => simp
    | cons next texts =>
      rw [String.intercalate_cons_cons, lineBreaks_append, lineBreaks_append, unbroken, ih,
        lineBreaksIn_cons text, Nat.add_zero]

/-- Texts that have the line breaks of their names have those of all their names together. -/
theorem lineBreaksIn_map {α : Type} {print : α → String} {names : α → List String}
    (counted : ∀ x, lineBreaks (print x) = lineBreaksIn (names x)) (xs : List α) :
    lineBreaksIn (xs.map print) = lineBreaksIn (xs.flatMap names) := by
  induction xs with
  | nil => rfl
  | cons x xs ih =>
    rw [List.map_cons, List.flatMap_cons, lineBreaksIn_cons, lineBreaksIn_append, counted, ih]

theorem lineBreaksIn_eq_zero_iff {texts : List String} :
    lineBreaksIn texts = 0 ↔ ∀ text ∈ texts, '\n' ∉ text.toList := by
  simp [lineBreaksIn, lineBreaks, List.sum_eq_zero_iff, List.count_eq_zero]

/-! ### What is not written as it stands -/

/-- A line break is escaped, and no other character is written with one. -/
theorem Text.notMem_escapeChar (c : Char) : '\n' ∉ escapeChar c := by
  have digit : ∀ d < 16, '\n' ≠ Nat.digitChar d := by decide
  unfold escapeChar
  -- The seven characters that are escaped by a letter come first.
  iterate 7
    split
    · decide
  split
  · next small =>
    have upper := digit (c.toNat / 16) (by omega)
    have lower := digit (c.toNat % 16) (by omega)
    simp [upper, lower]
  · next lineFeed _ _ _ =>
    rw [List.mem_singleton]
    exact Ne.symm lineFeed

/-- A quoted text has no line break, whatever it holds. -/
@[simp]
theorem Text.lineBreaks_quoted (text : String) : lineBreaks (quoted text) = 0 := by
  have escaped : '\n' ∉ escape text.toList := by
    intro listed
    obtain ⟨c, -, inside⟩ := List.mem_flatMap.mp listed
    exact notMem_escapeChar c inside
  rw [lineBreaks, toList_quoted, List.count_eq_zero]
  simp [escaped]

/-- A number has no line break. -/
theorem LooksNumeral.lineBreaks_eq_zero {text : String} (looks : LooksNumeral text.toList) :
    lineBreaks text = 0 := by
  rw [lineBreaks, List.count_eq_zero]
  intro listed
  exact absurd (looks.isNumeral_of_mem _ listed) (by decide)

theorem lineBreaks_toString (n : Nat) : lineBreaks (toString n) = 0 :=
  (looksNumeral_integerText n).lineBreaks_eq_zero

@[simp]
theorem Literal.lineBreaks_text (value : Literal) : lineBreaks value.text = 0 := by
  cases value with
  | bool value => cases value <;> rfl
  | number value =>
    cases value with
    | integer value fits => exact (looksNumeral_integerText value).lineBreaks_eq_zero
    | float x => exact x.looksNumeral_text.lineBreaks_eq_zero
  | string value => exact Text.lineBreaks_quoted value

/-! ### Sources -/

/-- The names that a projection writes as they stand. -/
def Segment.bareNames : Segment → List String
  | .field name => [name]
  | .index _ => []
  | .key _ => []

theorem Segment.lineBreaks_text (segment : Segment) :
    lineBreaks segment.text = lineBreaksIn segment.bareNames := by
  have mark : lineBreaks "." = 0 ∧ lineBreaks "[" = 0 ∧ lineBreaks "]" = 0 := ⟨rfl, rfl, rfl⟩
  cases segment with
  | field name => simp [text, bareNames, mark]
  | index position =>
    rw [text, lineBreaks_append, lineBreaks_append, lineBreaks_toString, mark.2.1, mark.2.2]
    rfl
  | key name => simp [text, bareNames, mark]

namespace Source

theorem lineBreaks_pathText (path : List Segment) :
    lineBreaks (pathText path) = lineBreaksIn (path.flatMap Segment.bareNames) := by
  rw [pathText, lineBreaks_join, lineBreaksIn_map Segment.lineBreaks_text]

mutual

/-- The names that a source writes as they stand, as often as it writes them. -/
def bareNames : Source → List String
  | .input path => path.flatMap Segment.bareNames
  | .reference name path => name.text :: path.flatMap Segment.bareNames
  | .constant _ path => path.flatMap Segment.bareNames
  | .array items path => itemBareNames items ++ path.flatMap Segment.bareNames
  | .object fields path => fieldBareNames fields ++ path.flatMap Segment.bareNames

/-- The names that the items of an array write as they stand. -/
def itemBareNames : List Source → List String
  | [] => []
  | item :: rest => item.bareNames ++ itemBareNames rest

/-- The names that the fields of an object write as they stand; keys are quoted. -/
def fieldBareNames : List (String × Source) → List String
  | [] => []
  | (_, value) :: rest => value.bareNames ++ fieldBareNames rest

end

mutual

/-- A source has the line breaks of the names in it. -/
theorem lineBreaks_text : ∀ source : Source, lineBreaks source.text = lineBreaksIn source.bareNames
  | .input path => by
    have word : lineBreaks "input" = 0 := rfl
    rw [text, lineBreaks_append, word, lineBreaks_pathText, bareNames, Nat.zero_add]
  | .reference name path => by
    rw [text, lineBreaks_append, lineBreaks_pathText, bareNames, lineBreaksIn_cons]
  | .constant value path => by
    rw [text, lineBreaks_append, value.lineBreaks_text, lineBreaks_pathText, bareNames, Nat.zero_add]
  | .array items path => by
    have bracket : lineBreaks "[" = 0 ∧ lineBreaks "]" = 0 := ⟨rfl, rfl⟩
    simp [text, bareNames, bracket, lineBreaks_pathText, lineBreaks_intercalate,
      lineBreaksIn_itemTexts items, show lineBreaks ", " = 0 from rfl]
  | .object fields path => by
    have brace : lineBreaks "\x7b" = 0 ∧ lineBreaks "\x7d" = 0 := ⟨rfl, rfl⟩
    simp [text, bareNames, brace, lineBreaks_pathText, lineBreaks_intercalate,
      lineBreaksIn_fieldTexts fields, show lineBreaks ", " = 0 from rfl]

theorem lineBreaksIn_itemTexts : ∀ items : List Source,
    lineBreaksIn (itemTexts items) = lineBreaksIn (itemBareNames items)
  | [] => rfl
  | item :: rest => by
    rw [itemTexts, itemBareNames, lineBreaksIn_cons, lineBreaksIn_append, lineBreaks_text item,
      lineBreaksIn_itemTexts rest]

theorem lineBreaksIn_fieldTexts : ∀ fields : List (String × Source),
    lineBreaksIn (fieldTexts fields) = lineBreaksIn (fieldBareNames fields)
  | [] => rfl
  | (key, value) :: rest => by
    have colon : lineBreaks ": " = 0 := rfl
    rw [fieldTexts, fieldBareNames, lineBreaksIn_cons, lineBreaksIn_append, lineBreaks_append,
      lineBreaks_append, Text.lineBreaks_quoted, colon, lineBreaks_text value,
      lineBreaksIn_fieldTexts rest, Nat.zero_add]

end

-- Of three names with a line break, one is the name of a field.
example :
    lineBreaks (Source.object [("a\nb", .input [.key "c\nd", .field "e\nf"])] []).text = 1 := by
  decide

end Source

/-! ### Listings -/

/-- The names that an operation writes as they stand. -/
def Operation.bareNames : Operation → List String
  | .call template arguments => template.name :: arguments.flatMap Source.bareNames
  | .assign source => source.bareNames

/-- The names that an action writes as they stand. -/
def Action.bareNames (action : Action) : List String :=
  action.result.text :: action.operation.bareNames

/-- The names that a listing writes as they stand. -/
def bareNames (actions : List Action) (returns : Option Source) : List String :=
  actions.flatMap Action.bareNames ++ returns.toList.flatMap Source.bareNames

/-- The lines of a listing: the actions in order, and then the return value. -/
def lines (actions : List Action) (returns : Option Source) : List String :=
  actions.map Action.text ++ returns.toList.map fun source => "return " ++ source.text ++ ";"

theorem Operation.lineBreaks_text (operation : Operation) :
    lineBreaks operation.text = lineBreaksIn operation.bareNames := by
  cases operation with
  | call template arguments =>
    have bracket : lineBreaks "(" = 0 ∧ lineBreaks ")" = 0 := ⟨rfl, rfl⟩
    simp [text, bareNames, bracket, lineBreaks_intercalate, lineBreaksIn_map Source.lineBreaks_text,
      show lineBreaks ", " = 0 from rfl]
  | assign source => exact source.lineBreaks_text

theorem Action.lineBreaks_text (action : Action) :
    lineBreaks action.text = lineBreaksIn action.bareNames := by
  have sign : lineBreaks " = " = 0 ∧ lineBreaks ";" = 0 := ⟨rfl, rfl⟩
  simp [text, bareNames, sign, action.operation.lineBreaks_text]

/-- The lines of a listing have the line breaks of the names in them. -/
theorem lineBreaksIn_lines (actions : List Action) (returns : Option Source) :
    lineBreaksIn (lines actions returns) = lineBreaksIn (bareNames actions returns) := by
  have sign : lineBreaks "return " = 0 ∧ lineBreaks ";" = 0 := ⟨rfl, rfl⟩
  cases returns <;>
    simp [lines, bareNames, sign, lineBreaksIn_map Action.lineBreaks_text, Source.lineBreaks_text]

/-- A listing is its lines, each with a line break behind it. -/
theorem listing_eq_join (actions : List Action) (returns : Option Source) :
    listing actions returns = String.join ((lines actions returns).map (· ++ "\n")) := by
  cases returns with
  | none => simp [listing, lines, Function.comp_def]
  | some source => simp [listing, lines, Function.comp_def, String.append_assoc]

/-- Each line adds its own line breaks and one more. -/
theorem lineBreaks_join_lines (texts : List String) :
    lineBreaks (String.join (texts.map (· ++ "\n"))) = texts.length + lineBreaksIn texts := by
  have ending : lineBreaks "\n" = 1 := rfl
  rw [lineBreaks_join]
  induction texts with
  | nil => rfl
  | cons text texts ih =>
    rw [List.map_cons, lineBreaksIn_cons, lineBreaks_append, ending, ih, List.length_cons,
      lineBreaksIn_cons]
    omega

/-- Lines without line breaks are what stands between the line breaks. Nothing stands behind the last
one. -/
theorem splitOn_join_lines {texts : List String} (unbroken : ∀ text ∈ texts, '\n' ∉ text.toList) :
    (String.join (texts.map (· ++ "\n"))).toList.splitOn '\n' = texts.map String.toList ++ [[]] := by
  induction texts with
  | nil => rfl
  | cons text texts ih =>
    rw [List.forall_mem_cons] at unbroken
    have first : (String.join ((text :: texts).map (· ++ "\n"))).toList =
        text.toList ++ '\n' :: (String.join (texts.map (· ++ "\n"))).toList := by
      rw [List.map_cons, String.join_cons, String.toList_append, String.toList_append,
        List.append_assoc]
      rfl
    rw [first, List.splitOn_append_cons_self_of_not_mem unbroken.1, ih unbroken.2]
    rfl

/-- How the lines of a listing follow each other. -/
structure ListsByLine (text : String) (actions : List Action) (returns : Option Source) : Prop where
  /-- There is a line break for every action, one for the return value, and those in names. -/
  lineBreaks_eq : lineBreaks text =
    actions.length + returns.toList.length + lineBreaksIn (bareNames actions returns)
  /-- If the names have none, a line is an action, or the return value at the end. -/
  splitOn_eq : (∀ name ∈ bareNames actions returns, '\n' ∉ name.toList) →
    text.toList.splitOn '\n' = (lines actions returns).map String.toList ++ [[]]

theorem listsByLine_listing (actions : List Action) (returns : Option Source) :
    ListsByLine (listing actions returns) actions returns where
  lineBreaks_eq := by
    rw [listing_eq_join, lineBreaks_join_lines, lineBreaksIn_lines]
    simp [lines]
  splitOn_eq unbroken := by
    rw [listing_eq_join]
    apply splitOn_join_lines
    rw [← lineBreaksIn_eq_zero_iff, lineBreaksIn_lines, lineBreaksIn_eq_zero_iff]
    exact unbroken

/-- Sequences and programs are listed line by line, whatever their texts and keys hold. -/
theorem listsByLine_text (s : Sequence) (p : Program) :
    ListsByLine s.text s.actions s.returns ∧ ListsByLine p.text p.actions.toList p.returns :=
  ⟨listsByLine_listing s.actions s.returns, listsByLine_listing p.actions.toList p.returns⟩

end Sequencer
