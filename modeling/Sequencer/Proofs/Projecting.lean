import Sequencer.Proofs.Documents
import Sequencer.Source.Text

/-!
# Projections by their texts

What stands between the brackets of a projection is a JSON value, a number for an element and a text
for a member, and a JSON value is told by its text. A projection in brackets therefore tells where it
ends and what it is, whatever stands in its key, and a path of such projections is read one after the
other. The name of a field has no end of its own and could hold anything, brackets too.

## Main definitions

* `Segment.Bracketed`: the projections that are written in brackets.

## Main results

* `Segment.Bracketed.append_inj`: a projection in brackets is told by any text that starts with it.
* `Source.pathText_inj`: a path of such projections is told by its text.
* `Source.text_extend_eq_iff`: two such paths extend a source to different texts unless they are the
  same.
-/

namespace Sequencer

namespace Segment

/-- A projection is written with a point or a bracket first. -/
theorem exists_toList_text_eq_cons (segment : Segment) :
    ∃ mark rest, (mark = '.' ∨ mark = '[') ∧ segment.text.toList = mark :: rest := by
  have bracketed : ∀ inner : String, ("[" ++ inner ++ "]").toList = '[' :: (inner ++ "]").toList := by
    intro inner
    rw [String.append_assoc, String.toList_append]
    rfl
  cases segment with
  | field name => exact ⟨'.', _, Or.inl rfl, String.toList_append⟩
  | index position => exact ⟨'[', _, Or.inr rfl, bracketed _⟩
  | key name => exact ⟨'[', _, Or.inr rfl, bracketed _⟩

/-- The projections that are written in brackets. -/
inductive Bracketed : Segment → Prop
  | index (position : Nat) : Bracketed (.index position)
  | key (name : String) : Bracketed (.key name)

theorem toList_text_index_append (position : Nat) (rest : List Char) :
    (Segment.index position).text.toList ++ rest =
      '[' :: (Json.Spacing.none.chars 0 (.integer position) ++ ']' :: rest) := by
  simp [text, Json.Spacing.chars, integerText]

theorem toList_text_key_append (name : String) (rest : List Char) :
    (Segment.key name).text.toList ++ rest =
      '[' :: (Json.Spacing.none.chars 0 (.string name) ++ ']' :: rest) := by
  simp [text, Json.Spacing.chars]

/-- A projection in brackets is told by any text that starts with it. -/
theorem Bracketed.append_inj {s t : Segment} {rest rest' : List Char} (bracketed : s.Bracketed)
    (bracketed' : t.Bracketed) (same : s.text.toList ++ rest = t.text.toList ++ rest') :
    s = t ∧ rest = rest' := by
  -- The closing bracket belongs to no number.
  have told : ∀ inner inner' : Json,
      '[' :: (Json.Spacing.none.chars 0 inner ++ ']' :: rest) =
        '[' :: (Json.Spacing.none.chars 0 inner' ++ ']' :: rest') →
      inner = inner' ∧ rest = rest' := by
    intro inner inner' same
    have closes : ∀ rest : List Char, EndsNumeral (']' :: rest) := by
      rintro rest c ⟨⟩
      decide
    obtain ⟨inners, rests⟩ := Json.Spacing.none.tells_chars 0 inner inner' _ _ (closes rest)
      (closes rest') (List.cons.inj same).2
    exact ⟨inners, (List.cons.inj rests).2⟩
  cases bracketed with
  | index position =>
    rw [toList_text_index_append] at same
    cases bracketed' with
    | index position' =>
      rw [toList_text_index_append] at same
      obtain ⟨inners, rests⟩ := told _ _ same
      cases inners
      exact ⟨rfl, rests⟩
    | key name =>
      rw [toList_text_key_append] at same
      cases (told _ _ same).1
  | key name =>
    rw [toList_text_key_append] at same
    cases bracketed' with
    | index position =>
      rw [toList_text_index_append] at same
      cases (told _ _ same).1
    | key name' =>
      rw [toList_text_key_append] at same
      obtain ⟨inners, rests⟩ := told _ _ same
      cases inners
      exact ⟨rfl, rests⟩

end Segment

namespace Source

theorem toList_pathText_cons (segment : Segment) (path : List Segment) :
    (pathText (segment :: path)).toList = segment.text.toList ++ (pathText path).toList := by
  simp [pathText, String.join_cons]

/-- What follows a name is written with a point or a bracket first. -/
theorem exists_toList_pathText_eq_cons (segment : Segment) (path : List Segment) :
    ∃ mark rest, (mark = '.' ∨ mark = '[') ∧ (pathText (segment :: path)).toList = mark :: rest := by
  obtain ⟨mark, rest, isMark, written⟩ := segment.exists_toList_text_eq_cons
  refine ⟨mark, rest ++ (pathText path).toList, isMark, ?_⟩
  rw [toList_pathText_cons, written, List.cons_append]

theorem pathText_append (p q : List Segment) : pathText (p ++ q) = pathText p ++ pathText q := by
  rw [← String.toList_inj]
  simp [pathText]

theorem pathText_cons (segment : Segment) (path : List Segment) :
    pathText (segment :: path) = segment.text ++ pathText path := by
  rw [← String.toList_inj, toList_pathText_cons, String.toList_append]

/-- One more projection is written behind a source. -/
theorem text_push (source : Source) (segment : Segment) :
    (source.push segment).text = source.text ++ segment.text := by
  have last : pathText [segment] = segment.text := by
    simp [pathText]
  cases source <;> simp [push, text, pathText_append, last, String.append_assoc]

/-- Further projections are written behind a source. -/
theorem text_extend (source : Source) (more : List Segment) :
    (source.extend more).text = source.text ++ pathText more := by
  induction more generalizing source with
  | nil => simp [pathText]
  | cons segment more ih =>
    rw [extend_cons, ih, text_push, pathText_cons, String.append_assoc]

/-- A path of projections in brackets is told by its text. -/
theorem pathText_inj {p q : List Segment} (bracketed : ∀ s ∈ p, s.Bracketed)
    (bracketed' : ∀ s ∈ q, s.Bracketed) (same : pathText p = pathText q) : p = q := by
  rw [← String.toList_inj] at same
  induction p generalizing q with
  | nil =>
    cases q with
    | nil => rfl
    | cons t q =>
      obtain ⟨mark, rest, -, written⟩ := exists_toList_pathText_eq_cons t q
      cases same.trans written
  | cons s p ih =>
    cases q with
    | nil =>
      obtain ⟨mark, rest, -, written⟩ := exists_toList_pathText_eq_cons s p
      cases same.symm.trans written
    | cons t q =>
      rw [List.forall_mem_cons] at bracketed bracketed'
      rw [toList_pathText_cons, toList_pathText_cons] at same
      obtain ⟨rfl, rests⟩ := bracketed.1.append_inj bracketed'.1 same
      rw [ih bracketed.2 bracketed'.2 rests]

/-- Paths of projections in brackets that extend a source to the same text are the same, and they
follow the path that the source has. -/
theorem text_extend_eq_iff (source : Source) {p q : List Segment}
    (bracketed : ∀ s ∈ p, s.Bracketed) (bracketed' : ∀ s ∈ q, s.Bracketed) :
    ((source.extend p).text = (source.extend q).text ↔ p = q) ∧
      (source.extend p).path = source.path ++ p := by
  refine ⟨⟨?_, congrArg fun path => (source.extend path).text⟩, path_extend source p⟩
  intro same
  rw [text_extend, text_extend, String.append_right_inj] at same
  exact pathText_inj bracketed bracketed' same

-- The name of a field may hold what a projection in brackets is written with.
example : (Source.input [.field "a[0]"]).text = (Source.input [.field "a", .index 0]).text := by
  decide

end Source

namespace Sample

/-- One key that holds the closing and the opening of a key, and two keys. -/
theorem text_extend_keys :
    ((Source.input [.field "x"]).extend [.key "a\"][\"b"]).text ≠
      ((Source.input [.field "x"]).extend [.key "a", .key "b"]).text ∧
    ((Source.input [.field "x"]).extend [.key "a\"][\"b"]).path =
      [.field "x", .key "a\"][\"b"] := by
  have keys : ∀ names : List String, ∀ s ∈ names.map Segment.key, s.Bracketed := by
    intro names s listed
    obtain ⟨name, -, rfl⟩ := List.mem_map.mp listed
    exact .key name
  obtain ⟨told, path⟩ := Source.text_extend_eq_iff (.input [.field "x"]) (keys ["a\"][\"b"])
    (keys ["a", "b"])
  exact ⟨fun same => absurd (told.mp same) (by decide), path⟩

end Sample

end Sequencer
