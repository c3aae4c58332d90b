import Sequencer.Proofs.Projecting
import Sequencer.Proofs.Scanning

/-!
# References among written sources

Names and field names are written as they stand, so a reference could be written like something else.
Names that would be written like the external input, a truth value or a number are refused. That also
covers references with projections: what a projection adds to a name starts with a point or a bracket,
and in a number only a point occurs, at most once. What stands before it is a whole number, which is
refused as a name like any other number.

Other sources are not covered. A text, an array, an object or a projection of the external input has a
beginning that neither a reserved word nor a number has, and whatever has such a beginning is accepted
as a name. So each of these sources has a reference that is written like it. Only names with such a
beginning are concerned.

## Main definitions

* `Source.openings`: the beginnings of texts, arrays, objects and projections of the external input.
* `Source.Opened`: the sources with such a beginning.

## Main results

* `Source.text_reference_ne`: no reference is written like a text if the text has no bracket and is
  refused as a name, with everything in it that ends before a point.
* `Source.reference_text_apart`: no reference, with projections or without, is written like the
  external input, like a truth value or like a number.
* `Name.fault?_of_opening`: whatever starts with such a beginning is accepted as a name.
* `Source.exists_reference_text_eq`: every source with such a beginning is written like a reference,
  whose name has the beginning too.
-/

namespace Sequencer

namespace Name

theorem fault?_of_mem_reservedWords {text : String} (reserved : text ∈ reservedWords) :
    fault? text ≠ none := by
  unfold fault?
  split
  · simp
  · simp [reserved]

theorem fault?_of_readsAsNumber {text : String} (number : Json.readsAsNumber text = true) :
    fault? text ≠ none := by
  unfold fault?
  rw [if_pos number]
  split
  · simp
  · split <;> simp

end Name

namespace Source

/-- No reference is written like a text without brackets that is refused as a name, with everything
in it that ends before a point. -/
theorem text_reference_ne {text : String} (unbracketed : '[' ∉ text.toList)
    (refused : Name.fault? text ≠ none)
    (refusedBefore : ∀ before rest, text.toList = before ++ '.' :: rest →
      Name.fault? (String.ofList before) ≠ none) (name : Name) (path : List Segment) :
    (Source.reference name path).text ≠ text := by
  rintro rfl
  rw [Source.text] at *
  cases path with
  | nil =>
    apply refused
    rw [pathText, List.map_nil, String.join_nil, String.append_empty]
    exact name.valid
  | cons segment path =>
    obtain ⟨mark, rest, isMark, written⟩ := exists_toList_pathText_eq_cons segment path
    have split : (name.text ++ pathText (segment :: path)).toList =
        name.text.toList ++ mark :: rest := by
      rw [String.toList_append, written]
    rcases isMark with rfl | rfl
    · have fault := refusedBefore _ _ split
      rw [String.ofList_toList] at fault
      exact fault name.valid
    · rw [split] at unbracketed
      simp at unbracketed

end Source

/-! ### Numbers -/

theorem signed_append (negative : Bool) (text rest : List Char) :
    signed negative (text ++ rest) = signed negative text ++ rest := by
  cases negative <;> rfl

theorem notMem_signed {mark : Char} {text : List Char} (negative : Bool) (notSign : mark ≠ '-')
    (fresh : mark ∉ text) : mark ∉ signed negative text := by
  cases negative
  · exact fresh
  · exact List.not_mem_cons_of_ne_of_not_mem notSign fresh

theorem PowerText.notMem {power : List Char} (powerText : PowerText power) : '.' ∉ power := by
  cases powerText with
  | none => exact List.not_mem_nil
  | exponent e =>
    cases e <;>
      exact List.not_mem_cons_of_ne_of_not_mem (by decide) (List.not_mem_cons_of_ne_of_not_mem
        (by decide) (notMem_of_isDigit (isDigit_of_mem_toDigits _) (by decide)))

/-- A text is cut at a mark in one way only if the mark does not occur again. -/
theorem eq_of_append_cons_eq {mark : Char} {before after whole rest : List Char}
    (same : before ++ mark :: after = whole ++ mark :: rest) (freshWhole : mark ∉ whole)
    (freshRest : mark ∉ rest) : before = whole := by
  rcases List.append_eq_append_iff.mp same with ⟨more, longer, tail⟩ | ⟨more, longer, tail⟩
  · cases more with
    | nil => rw [longer, List.append_nil]
    | cons c more =>
      obtain rfl : mark = c := (List.cons.inj tail).1
      exact absurd (longer ▸ by simp) freshWhole
  · cases more with
    | nil => rw [longer, List.append_nil]
    | cons c more => exact absurd ((List.cons.inj tail).2 ▸ by simp) freshRest

/-- What stands before a point in the text of a number is a whole number. -/
theorem Number.readsAsNumber_before {value : Number} {before rest : List Char}
    (split : value.text.toList = before ++ '.' :: rest) :
    Json.readsAsNumber (String.ofList before) = true := by
  obtain ⟨negative, whole, places, power, wholeText, placesText, powerText, written⟩ :=
    value.exists_parts
  have fresh : '.' ∉ signed negative whole :=
    notMem_signed negative (by decide) (notMem_of_isDigit wholeText.isDigit_of_mem (by decide))
  rw [written, String.toList_ofList, List.append_assoc, signed_append] at split
  cases placesText with
  | none =>
    have listed : '.' ∈ signed negative whole ++ ([] ++ power) := split ▸ by simp
    rcases List.mem_append.mp listed with inside | inside
    · exact absurd inside fresh
    · exact absurd inside powerText.notMem
  | @point places nonempty digits =>
    have freshRest : '.' ∉ places ++ power := by
      rw [List.mem_append, not_or]
      exact ⟨notMem_of_isDigit digits (by decide), powerText.notMem⟩
    rw [eq_of_append_cons_eq split.symm fresh freshRest]
    exact Json.readsAsNumber_whole wholeText negative

namespace Source

/-- No reference is written like one of the reserved words. -/
theorem text_reference_ne_of_mem_reservedWords {word : String} (reserved : word ∈ Name.reservedWords)
    (name : Name) (path : List Segment) : (Source.reference name path).text ≠ word := by
  have plain : ∀ word ∈ Name.reservedWords, '[' ∉ word.toList ∧ '.' ∉ word.toList := by decide
  obtain ⟨unbracketed, unpointed⟩ := plain word reserved
  refine text_reference_ne unbracketed (Name.fault?_of_mem_reservedWords reserved) ?_ name path
  intro before rest split
  exact absurd (split ▸ by simp) unpointed

/-- No reference is written like a number. -/
theorem text_reference_ne_number (value : Number) (name : Name) (path : List Segment) :
    (Source.reference name path).text ≠ value.text := by
  have looks : LooksNumeral value.text.toList := by
    cases value with
    | integer value fits => exact looksNumeral_integerText value
    | float x => exact x.looksNumeral_text
  have unbracketed : '[' ∉ value.text.toList := by
    intro listed
    exact absurd (looks.isNumeral_of_mem '[' listed) (by decide)
  refine text_reference_ne unbracketed (Name.fault?_of_readsAsNumber value.readsAsNumber_text) ?_
    name path
  intro before rest split
  exact Name.fault?_of_readsAsNumber (Number.readsAsNumber_before split)

/-- No reference, with projections or without, is written like the external input, like a truth value
or like a number. -/
theorem reference_text_apart (name : Name) (path : List Segment) :
    (Source.reference name path).text ≠ (Source.input []).text ∧
    (∀ value : Bool,
      (Source.reference name path).text ≠ (Source.constant (.bool value) []).text) ∧
    ∀ value : Number,
      (Source.reference name path).text ≠ (Source.constant (.number value) []).text := by
  refine ⟨text_reference_ne_of_mem_reservedWords (by decide) name path, ?_, ?_⟩
  · intro value
    cases value with
    | false => exact text_reference_ne_of_mem_reservedWords (by decide) name path
    | true => exact text_reference_ne_of_mem_reservedWords (by decide) name path
  · intro value
    have written : (Source.constant (.number value) []).text = value.text := String.append_empty
    rw [written]
    exact text_reference_ne_number value name path

end Source

/-! ### Sources that names are not kept apart from -/

/-- A text is no number if it does not start like one. -/
theorem Json.readsAsNumber_eq_false {text : String} {first : Char} {rest : List Char}
    (starts : text.toList = first :: rest) (notSpace : isSpace first = false)
    (notSign : first ≠ '-') (notDigit : first.isDigit = false) : readsAsNumber text = false := by
  have notZero : first ≠ '0' := by
    rintro rfl
    cases notDigit
  have unspaced : (first :: rest).dropWhile isSpace = first :: rest :=
    List.dropWhile_cons_of_neg (by simp [notSpace])
  have stuck : ({} : Numeral).step first = .stuck := by
    simp [Numeral.step, Numeral.leadingDigit, notSign, notZero, notDigit]
  rw [readsAsNumber, starts, unspaced, Numeral.scan, stuck]

namespace Source

/-- The beginnings of texts, arrays, objects and projections of the external input. -/
def openings : List String :=
  ["\"", "[", "\x7b", "input.", "input["]

/-- Texts, arrays and objects, with projections or without, and projections of the external input. -/
inductive Opened : Source → Prop
  | string (value : String) (path : List Segment) : Opened (.constant (.string value) path)
  | array (items : List Source) (path : List Segment) : Opened (.array items path)
  | object (fields : List (String × Source)) (path : List Segment) : Opened (.object fields path)
  | projection (segment : Segment) (path : List Segment) : Opened (.input (segment :: path))

/-- Each of these sources is written with one of the beginnings. -/
theorem Opened.exists_opening {source : Source} (opened : Opened source) :
    ∃ opening ∈ openings, opening.toList <+: source.text.toList := by
  cases opened with
  | string value path =>
    refine ⟨"\"", by decide, ?_⟩
    rw [text, Literal.text, String.toList_append, Text.toList_quoted]
    exact ⟨_, rfl⟩
  | array items path =>
    refine ⟨"[", by decide, ?_⟩
    rw [text, String.append_assoc, String.append_assoc, String.toList_append]
    exact List.prefix_append _ _
  | object fields path =>
    refine ⟨"\x7b", by decide, ?_⟩
    rw [text, String.append_assoc, String.append_assoc, String.toList_append]
    exact List.prefix_append _ _
  | projection segment path =>
    obtain ⟨mark, rest, isMark, written⟩ := exists_toList_pathText_eq_cons segment path
    rw [text, String.toList_append, written]
    rcases isMark with rfl | rfl
    · exact ⟨"input.", by decide, _, rfl⟩
    · exact ⟨"input[", by decide, _, rfl⟩

theorem text_reference_nil (name : Name) : (Source.reference name []).text = name.text :=
  String.append_empty

end Source

/-- Whatever starts with one of these beginnings is accepted as a name. -/
theorem Name.fault?_of_opening {text opening : String} (listed : opening ∈ Source.openings)
    (begins : opening.toList <+: text.toList) : fault? text = none := by
  obtain ⟨first, rest, starts, lead⟩ : ∃ first rest, text.toList = first :: rest ∧
      (first = '"' ∨ first = '[' ∨ first = '\x7b' ∨ first = 'i') := by
    obtain ⟨others, written⟩ := begins
    rw [← written]
    simp only [Source.openings, List.mem_cons, List.not_mem_nil, or_false] at listed
    rcases listed with rfl | rfl | rfl | rfl | rfl
    all_goals exact ⟨_, _, rfl, by decide⟩
  have notBlank : Text.isBlank text = false := by
    rw [Text.isBlank, starts, List.all_cons, Bool.and_eq_false_iff]
    rcases lead with rfl | rfl | rfl | rfl <;> exact Or.inl rfl
  have notReserved : text ∉ reservedWords := by
    have apart : ∀ word ∈ reservedWords, ∀ opening ∈ Source.openings,
        ¬ opening.toList <+: word.toList := by decide
    intro reserved
    exact apart text reserved opening listed begins
  have notNumber : Json.readsAsNumber text = false := by
    rcases lead with rfl | rfl | rfl | rfl <;>
      exact Json.readsAsNumber_eq_false starts rfl (by decide) rfl
  simp [fault?, notBlank, notReserved, notNumber]

namespace Source

/-- Of the sources with such a beginning, none is kept apart from all references, since its text is
accepted as a name. References to names without such a beginning are kept apart from them. -/
theorem exists_reference_text_eq {source : Source} (opened : Opened source) :
    (∃ name : Name, (Source.reference name []).text = source.text) ∧
    ∀ name : Name, (∀ opening ∈ openings, ¬ opening.toList <+: name.text.toList) →
      (Source.reference name []).text ≠ source.text := by
  obtain ⟨opening, listed, begins⟩ := opened.exists_opening
  refine ⟨⟨⟨source.text, Name.fault?_of_opening listed begins⟩, text_reference_nil _⟩, ?_⟩
  intro name apart same
  rw [text_reference_nil] at same
  exact apart opening listed (same ▸ begins)

end Source

namespace Sample

/-- The name that is the text `x` in quotes. -/
def quotedName : Name := ⟨"\"x\"", by decide⟩

/-- A reference to this name is written like the text `x`. -/
theorem reference_text_eq_string :
    (Source.reference quotedName []).text = (Source.constant (.string "x") []).text := by
  decide

/-- A name without quotes. -/
def plainName : Name := ⟨"x", by decide⟩

/-- The text `x` is written like a reference, but not like one whose name has no quotes. -/
theorem exists_reference_text_eq_string :
    (∃ name : Name, (Source.reference name []).text = (Source.constant (.string "x") []).text) ∧
      (Source.reference plainName []).text ≠ (Source.constant (.string "x") []).text := by
  obtain ⟨alike, apart⟩ := Source.exists_reference_text_eq (.string "x" [])
  exact ⟨alike, apart plainName (by decide)⟩

end Sample

end Sequencer
