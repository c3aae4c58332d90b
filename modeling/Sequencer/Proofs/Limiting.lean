import Sequencer.Limits
import Sequencer.Proofs.Documents
import Sequencer.Proofs.Passing

/-!
# Limits by their text

A text gives limits by the members of an object. Members of other names may stand among them, in any
number and order and with any values; they are passed over, and the reader goes on behind them as it
does behind a limit. What it has recorded at the end are the limits that the text gives. A limit that
is not given has its default.

The printed form of limits is one such text, so limits are read back from it.

## Main definitions

* `Limits.MemberText`, `Limits.MembersText`, `Limits.ObjectText`: how an object is written that gives
  limits.
* `Reader.Rests`: a reader that has read the value of a member.

## Main results

* `Limits.MembersText.exists_advances`: the reader goes over the members of an object and records the
  limits that they give.
* `Limits.objectText_text`: the printed form of limits gives both of them.
* `Limits.read_eq_of_object`: limits are read from every object that gives them, and read back.
-/

namespace Sequencer

open Json

/-! ### How limits are written -/

namespace Limits

/-- The names of the limits. -/
def names : List String :=
  ["max_actions", "max_edge_count"]

/-- A member of an object, with the limit that it gives if it has the name of one. -/
inductive MemberText : List Char → List (String × UInt64) → Prop
  | limit {name : String} {before key gap lead digits trail : List Char} (isLimit : name ∈ names)
      (blank : Blank before) (spells : Spells key name.toList) (blankGap : Blank gap)
      (blankLead : Blank lead) (wholeText : WholeText digits) (blankTrail : Blank trail) :
      MemberText (before ++ '"' :: (key ++ '"' :: (gap ++ ':' :: (lead ++ (digits ++ trail)))))
        [(name, UInt64.ofNat (Nat.ofDigitChars 10 digits 0))]
  | other {name : String} {before key gap item : List Char} (notLimit : name ∉ names)
      (blank : Blank before) (spells : Spells key name.toList) (blankGap : Blank gap)
      (written : Written .item item) :
      MemberText (before ++ '"' :: (key ++ '"' :: (gap ++ ':' :: item))) []

/-- Members of an object, with the limits that they give. -/
inductive MembersText : List Char → List (String × UInt64) → Prop
  | last {text : List Char} {given : List (String × UInt64)} (memberText : MemberText text given) :
      MembersText text given
  | more {text rest : List Char} {given others : List (String × UInt64)}
      (memberText : MemberText text given) (membersText : MembersText rest others) :
      MembersText (text ++ ',' :: rest) (given ++ others)

/-- An object with blanks around it, and the limits that it gives. -/
inductive ObjectText : List Char → List (String × UInt64) → Prop
  | empty {before gap after : List Char} (blank : Blank before) (blankGap : Blank gap)
      (blankAfter : Blank after) : ObjectText (before ++ '\x7b' :: (gap ++ '\x7d' :: after)) []
  | members {before text after : List Char} {given : List (String × UInt64)} (blank : Blank before)
      (membersText : MembersText text given) (blankAfter : Blank after) :
      ObjectText (before ++ '\x7b' :: (text ++ '\x7d' :: after)) given

end Limits

/-! ### Natural numbers -/

namespace Json.Numeral

theorem isComplete_afterWhole (negative : Bool) (whole : List Char) :
    (afterWhole negative whole).isComplete = true := by
  rcases part_afterWhole negative whole with part | part <;> simp [isComplete, part]

theorem inRange_afterWhole {whole : List Char} (wholeText : WholeText whole) (negative : Bool) :
    (afterWhole negative whole).inRange = true := by
  have fits : Nat.ofDigitChars 10 whole 0 ≤ Binary64.certainBound :=
    wholeText.fits.le.trans (by decide +kernel)
  have said : ((afterWhole negative whole).significand : ℚ) *
      10 ^ (afterWhole negative whole).exponent = (Nat.ofDigitChars 10 whole 0 : ℕ) := by
    simp [afterWhole, exponent]
  apply inRange_of_le
  rw [said]
  exact_mod_cast fits

theorem natural?_afterWhole (whole : List Char) :
    (afterWhole false whole).natural? = some (UInt64.ofNat (Nat.ofDigitChars 10 whole 0)) := by
  by_cases zero : whole = ['0']
  · subst zero
    rfl
  · simp [natural?, afterWhole, zero]

end Json.Numeral

/-! ### The reader -/

namespace Reader

variable {form : Form} {r t : Reader} {settings : Settings}

/-- A character is read. -/
def Next (form : Form) (r : Reader) (c : Char) (s : Reader) : Prop :=
  step form r c = .ok s

/-- A reader has read the value of a member, with the given settings recorded. -/
def Rests (form : Form) (r : Reader) (settings : Settings) : Prop :=
  Json.Rests (step form) (afterValue { settings } .member) r

/-- Blanks behind the value of a member are passed over. -/
theorem Rests.over_blanks {gap : List Char} (rests : Rests form r settings) (blank : Blank gap) :
    ∃ s, Advances (Next form) r gap s ∧ Rests form s settings := by
  have there : Rests form ⟨.after .member, settings⟩ settings := fun _ _ => rfl
  refine Json.Rests.exists_advances rests there ?_ blank
  intro u c space same
  exact same.trans (passSeparator_of_isSpace space)

theorem next_held_key (s : KeyScan) (c : Char) (t : KeyScan) (next : KeyScan.Next .full s c t) :
    Next form ⟨.key s, settings⟩ c ⟨.key t, settings⟩ := by
  have step : s.step .full c = .ok (.more t) := next
  simp [Next, Reader.step, step]

/-- The name of a member, with what it is taken for, and the value behind it. -/
theorem advances_member {mayEnd : Bool} {name : String} {before key gap rest : List Char}
    {field : Option Setting.Field} (blank : Blank before) (spells : Spells key name.toList)
    (blankGap : Blank gap)
    (taken : ∀ phase, named form ⟨phase, settings⟩ name = .ok ⟨.colon field, settings⟩)
    (way : Advances (Next form) (expect { settings } field) rest t) :
    Advances (Next form) ⟨.key (.start mayEnd), settings⟩
      (before ++ '"' :: (key ++ '"' :: (gap ++ ':' :: rest))) t := by
  -- The scan has the characters of the name last one first.
  have wayKey : Advances (TextScan.Next .full) {} key
      ⟨.plain, none, name.toList.reverse ++ []⟩ := spells.advances
  have quote : Next form ⟨.key (.name ⟨.plain, none, name.toList.reverse ++ []⟩), settings⟩ '"'
      ⟨.colon field, settings⟩ := by
    simp [Next, step, KeyScan.step_quote, taken]
  have stays : ∀ c, isSpace c = true →
      Next form ⟨.colon field, settings⟩ c ⟨.colon field, settings⟩ :=
    fun _ space => passColon_of_isSpace space
  have goesOn : Next form ⟨.colon field, settings⟩ ':' (expect { settings } field) := by
    cases field <;> rfl
  exact KeyScan.advances_member next_held_key quote stays goesOn blank wayKey blankGap way

/-! ### Values -/

theorem next_scalar {field : Setting.Field} {place : Place} {c : Char} {scan : ScalarScan}
    (starts : ScalarScan.start? c = some scan) :
    Next form ⟨.value field place, settings⟩ c ⟨.scalar field place scan, settings⟩ := by
  obtain ⟨notSpace, notBracket, notBrace, -⟩ := ScalarScan.lead_of_start? starts
  simp [Next, step, notSpace, startValue, startScalar, notBracket, notBrace, starts, Except.map]

theorem next_held_scalar {field : Setting.Field} {place : Place} (a : ScalarScan) (c : Char)
    (b : ScalarScan) (next : ScalarScan.Next .full a c b) :
    Next form ⟨.scalar field place a, settings⟩ c ⟨.scalar field place b, settings⟩ := by
  have step : a.step .full c = .ok (.more b) := next
  simp [Next, Reader.step, step]

/-- A natural number that has been read is recorded where it ends. -/
theorem rests_numeral {name : String} {n : Numeral} {value : UInt64} (complete : n.isComplete = true)
    (inRange : n.inRange = true) (natural : n.natural? = some value) :
    Rests form ⟨.scalar ⟨name, .natural⟩ .member (.numeral n), settings⟩
      ((name, .natural value) :: settings) := by
  intro c ends
  simp [step, ScalarScan.step_of_isComplete complete ends, ScalarScan.number, inRange, record, settle,
    natural, Except.map, afterValue]

/-- The value of a limit. -/
theorem exists_advances_natural (form : Form) (settings : Settings) (name : String)
    {lead digits trail : List Char} (blank : Blank lead) (wholeText : WholeText digits)
    (blankTrail : Blank trail) :
    ∃ t, Advances (Next form) ⟨.value ⟨name, .natural⟩ .member, settings⟩
        (lead ++ (digits ++ trail)) t ∧
      Rests form t ((name, .natural (UInt64.ofNat (Nat.ofDigitChars 10 digits 0))) :: settings) := by
  have stays : ∀ c, isSpace c = true → Next form ⟨.value ⟨name, .natural⟩ .member, settings⟩ c
      ⟨.value ⟨name, .natural⟩ .member, settings⟩ := by
    intro c space
    simp [Next, step, space]
  have complete := Numeral.isComplete_afterWhole false digits
  have way : Advances (Next form) ⟨.value ⟨name, .natural⟩ .member, settings⟩ digits
      ⟨.scalar ⟨name, .natural⟩ .member (.numeral (.afterWhole false digits)), settings⟩ :=
    ScalarScan.advances_number next_scalar next_held_scalar
      (Numeral.advances_whole wholeText false) complete
  have rests : Rests form
      ⟨.scalar ⟨name, .natural⟩ .member (.numeral (.afterWhole false digits)), settings⟩
      ((name, .natural (UInt64.ofNat (Nat.ofDigitChars 10 digits 0))) :: settings) :=
    rests_numeral complete (Numeral.inRange_afterWhole wholeText false)
      (Numeral.natural?_afterWhole digits)
  obtain ⟨t, wayTrail, restsTrail⟩ := rests.over_blanks blankTrail
  exact ⟨t, (blank.advances stays).append (way.append wayTrail), restsTrail⟩

theorem advances_passage {p q : Passage} {text : List Char} (skims : form.care = .skim)
    (way : Advances Passage.Next p text q) :
    Advances (Next form) ⟨.passage p, settings⟩ text ⟨.passage q, settings⟩ := by
  refine way.lift (fun p => (⟨.passage p, settings⟩ : Reader)) ?_
  intro p c q next
  have step : p.step .skim c = .ok (.more q) := next
  simp [Next, Reader.step, skims, step]

/-- A value that has been passed over leaves no trace. -/
theorem rests_passage {p : Passage} (skims : form.care = .skim) (rests : p.Rests []) :
    Rests form ⟨.passage p, settings⟩ settings := by
  intro c ends
  have passed : p.step .skim c = .ok (.over ()) := rests c ends
  simp [step, skims, passed, afterValue]

/-- A value of an unknown name. -/
theorem exists_advances_item (settings : Settings) {item : List Char} (skims : form.care = .skim)
    (written : Written .item item) :
    ∃ t, Advances (Next form) ⟨.passage {}, settings⟩ item t ∧ Rests form t settings := by
  cases written with
  | item blank written blankAfter =>
    -- No array or object is open around the value, so the passage is over where it rests.
    have awaits : ({} : Passage).AwaitsValue := Or.inl rfl
    obtain ⟨q, way, rests⟩ := written.covers awaits
    have rests : Rests form ⟨.passage q, settings⟩ settings := rests_passage skims rests
    obtain ⟨t, wayAfter, restsAfter⟩ := rests.over_blanks blankAfter
    exact ⟨t, (advances_passage skims (blank.advances awaits.stays)).append
      ((advances_passage skims way).append wayAfter), restsAfter⟩

end Reader

/-! ### Members -/

namespace Limits

variable {text : List Char} {before given : List (String × UInt64)}

/-- The settings that given limits amount to, the last one first. -/
def recorded (given : List (String × UInt64)) : Settings :=
  (given.map fun entry => (entry.1, .natural entry.2)).reverse

theorem recorded_append_singleton (before : List (String × UInt64)) (name : String) (value : UInt64) :
    recorded (before ++ [(name, value)]) = (name, .natural value) :: recorded before := by
  simp [recorded]

theorem lookup_recorded_of_notMem {name : String} (fresh : name ∉ given.map Prod.fst) :
    (recorded given).lookup name = none := by
  rw [List.lookup_eq_none_iff]
  intro setting listed
  simp only [recorded, List.mem_reverse, List.mem_map] at listed
  obtain ⟨entry, listed, rfl⟩ := listed
  rw [bne_iff_ne]
  rintro rfl
  exact fresh (List.mem_map_of_mem listed)

/-- Of limits given once each, the last one recorded is the one given. -/
theorem lookup_recorded (distinct : (given.map Prod.fst).Nodup) (name : String) :
    (recorded given).lookup name = (given.lookup name).map .natural := by
  induction given with
  | nil => rfl
  | cons entry given ih =>
    obtain ⟨other, value⟩ := entry
    rw [List.map_cons, List.nodup_cons] at distinct
    have split : recorded ((other, value) :: given) =
        recorded given ++ [(other, .natural value)] := by
      simp [recorded]
    rw [split, List.lookup_append]
    by_cases same : name = other
    · -- The limit given first is looked at last, and no other one has its name.
      subst same
      simp [lookup_recorded_of_notMem distinct.1]
    · simp [List.lookup_cons, beq_false_of_ne same, ih distinct.2]

theorem named_of_mem {name : String} (isLimit : name ∈ names)
    (fresh : name ∉ before.map Prod.fst) (phase : Reader.Phase) :
    Reader.named form ⟨phase, recorded before⟩ name =
      .ok ⟨.colon (some ⟨name, .natural⟩), recorded before⟩ := by
  have found : form.find? name = some ⟨name, .natural⟩ := by
    simp only [names, List.mem_cons, List.not_mem_nil, or_false] at isLimit
    rcases isLimit with rfl | rfl <;> rfl
  simp [Reader.named, found, lookup_recorded_of_notMem fresh]

theorem named_of_notMem {name : String} (notLimit : name ∉ names) (phase : Reader.Phase)
    (settings : Settings) :
    Reader.named form ⟨phase, settings⟩ name = .ok ⟨.colon none, settings⟩ := by
  have unknown : form.find? name = none := by
    simp only [names, List.mem_cons, List.not_mem_nil, or_false, not_or] at notLimit
    simp [Form.find?, form, fields, Ne.symm notLimit.1, Ne.symm notLimit.2]
  simp [Reader.named, unknown]

/-- The reader goes over a member and records the limit that it gives. -/
theorem MemberText.exists_advances (memberText : MemberText text given) (mayEnd : Bool)
    (distinct : ((before ++ given).map Prod.fst).Nodup) :
    ∃ t, Advances (Reader.Next form) ⟨.key (.start mayEnd), recorded before⟩ text t ∧
      Reader.Rests form t (recorded (before ++ given)) := by
  cases memberText with
  | @limit name _ _ _ _ _ _ isLimit blank spells blankGap blankLead wholeText blankTrail =>
    have fresh : name ∉ before.map Prod.fst := by
      rw [List.map_append] at distinct
      exact fun listed => (List.nodup_append.mp distinct).2.2 name listed name (by simp) rfl
    obtain ⟨t, way, rests⟩ :=
      Reader.exists_advances_natural form (recorded before) name blankLead wholeText blankTrail
    refine ⟨t, Reader.advances_member blank spells blankGap (named_of_mem isLimit fresh) way, ?_⟩
    rw [recorded_append_singleton]
    exact rests
  | other notLimit blank spells blankGap written =>
    have skims : form.care = .skim := rfl
    obtain ⟨t, way, rests⟩ := Reader.exists_advances_item (recorded before) skims written
    refine ⟨t, Reader.advances_member blank spells blankGap
      (fun phase => named_of_notMem notLimit phase _) way, ?_⟩
    rw [List.append_nil]
    exact rests

/-- The reader goes over the members of an object and records the limits that they give. -/
theorem MembersText.exists_advances (membersText : MembersText text given) :
    ∀ (before : List (String × UInt64)) (mayEnd : Bool), ((before ++ given).map Prod.fst).Nodup →
      ∃ t, Advances (Reader.Next form) ⟨.key (.start mayEnd), recorded before⟩ text t ∧
        Reader.Rests form t (recorded (before ++ given)) := by
  -- The induction is on the members to come, whatever has been recorded before them.
  induction membersText with
  | last memberText =>
    intro before mayEnd distinct
    exact memberText.exists_advances mayEnd distinct
  | @more text rest given others memberText _ ih =>
    intro before mayEnd distinct
    rw [← List.append_assoc] at distinct
    have distinctGiven : ((before ++ given).map Prod.fst).Nodup := by
      rw [List.map_append] at distinct
      exact (List.nodup_append.mp distinct).1
    obtain ⟨s, way, rests⟩ := memberText.exists_advances mayEnd distinctGiven
    have comma : Reader.Next form s ',' ⟨.key (.start false), recorded (before ++ given)⟩ :=
      rests ',' rfl
    obtain ⟨t, wayRest, restsRest⟩ := ih (before ++ given) false distinct
    rw [List.append_assoc] at restsRest
    exact ⟨t, way.append (.cons comma wayRest), restsRest⟩

/-- The reader goes over an object and has recorded the limits that it gives. -/
theorem ObjectText.advances (objectText : ObjectText text given)
    (distinct : (given.map Prod.fst).Nodup) :
    Advances (Reader.Next form) {} text ⟨.closed, recorded given⟩ := by
  have starts : ∀ c, isSpace c = true → Reader.Next form {} c {} := by
    intro c space
    simp [Reader.Next, Reader.step, space]
  have ended : ∀ settings c, isSpace c = true →
      Reader.Next form ⟨.closed, settings⟩ c ⟨.closed, settings⟩ := by
    intro settings c space
    simp [Reader.Next, Reader.step, space]
  have opening : Reader.Next form {} '\x7b' ⟨.key (.start true), recorded []⟩ := rfl
  cases objectText with
  | empty blank blankGap blankAfter =>
    have stays : ∀ c, isSpace c = true → Reader.Next form ⟨.key (.start true), recorded []⟩ c
        ⟨.key (.start true), recorded []⟩ :=
      fun _ space => Reader.next_held_key _ _ _ (KeyScan.next_of_isSpace space)
    have closing : Reader.Next form ⟨.key (.start true), recorded []⟩ '\x7d'
        ⟨.closed, recorded []⟩ := rfl
    exact (blank.advances starts).append (.cons opening
      ((blankGap.advances stays).append (.cons closing (blankAfter.advances (ended _)))))
  | members blank membersText blankAfter =>
    obtain ⟨t, way, rests⟩ := membersText.exists_advances [] true distinct
    have closing : Reader.Next form t '\x7d' ⟨.closed, recorded given⟩ := rests '\x7d' rfl
    exact (blank.advances starts).append (.cons opening
      (way.append (.cons closing (blankAfter.advances (ended _)))))

/-! ### Limits -/

theorem natural_recorded (distinct : (given.map Prod.fst).Nodup) (name : String) (default : UInt64) :
    (recorded given).natural name default = (given.lookup name).getD default := by
  unfold Settings.natural
  rw [lookup_recorded distinct]
  cases given.lookup name <;> rfl

theorem read_of_objectText {text : String} (objectText : ObjectText text.toList given)
    (distinct : (given.map Prod.fst).Nodup) :
    read text = .ok {
      maxActions := (given.lookup "max_actions").getD 10000
      maxEdges := (given.lookup "max_edge_count").getD 100000 } := by
  have folded : text.toList.foldlM (Reader.step form) ({} : Reader) =
      .ok ⟨.closed, recorded given⟩ :=
    Advances.foldlM_eq (objectText.advances distinct)
  simp [read, Form.read, folded, Reader.finish, Except.map, ofSettings, natural_recorded distinct]

theorem memberText_compact (level : Nat) (name : String) (value : UInt64) (isLimit : name ∈ names) :
    MemberText (Spacing.none.member level (name, .integer value.toNat)) [(name, value)] := by
  have written := MemberText.limit isLimit .nil (Text.spells_escape name.toList) .nil .nil
    (wholeText_toDigits value.toNat_lt) .nil
  rw [Nat.ofDigitChars_ten_toDigits, UInt64.ofNat_toNat] at written
  simpa [Spacing.member, Spacing.none, Spacing.chars, Text.toList_quoted, toList_integerText_natCast]
    using written

/-- The printed form of limits gives both of them. -/
theorem objectText_text (limits : Limits) : ObjectText limits.text.toList
    [("max_actions", limits.maxActions), ("max_edge_count", limits.maxEdges)] := by
  have actions := memberText_compact 1 "max_actions" limits.maxActions (by decide)
  have edges := memberText_compact 1 "max_edge_count" limits.maxEdges (by decide)
  have written := ObjectText.members .nil (.more actions (.last edges)) .nil
  rw [text, toList_compact 0, toJson, Spacing.chars, Spacing.memberChars_eq_map]
  simpa [Spacing.enclose, Spacing.further, Spacing.none] using written

/-- Limits are read back from their printed form. From every object in which each limit is given at
most once, the given limits are read, with the defaults for the others. -/
theorem read_eq_of_object :
    (∀ limits : Limits, read limits.text = .ok limits) ∧
      ∀ (text : String) (given : List (String × UInt64)), ObjectText text.toList given →
        (given.map Prod.fst).Nodup →
        read text = .ok {
          maxActions := (given.lookup "max_actions").getD 10000
          maxEdges := (given.lookup "max_edge_count").getD 100000 } := by
  constructor
  · intro limits
    have distinct : ["max_actions", "max_edge_count"].Nodup := by decide
    exact read_of_objectText (objectText_text limits) distinct
  · intro text given objectText distinct
    exact read_of_objectText objectText distinct

end Limits

namespace Sample

/-- An object that gives one limit, behind two members of one other name. -/
def limitsText : String :=
  "\x7b\"x\":[null],\"x\":-1e999, \"max_edge_count\" :7\x7d"

theorem objectText_limitsText : Limits.ObjectText limitsText.toList [("max_edge_count", 7)] := by
  have blank : Blank [' '] := by simp [Blank, isSpace]
  have name : Spells ['x'] "x".toList := Text.spells_escape ['x']
  have list : Written .item "[null]".toList :=
    .item .nil (.array (.lastItem (.item .nil .null .nil))) .nil
  have integer : IsInteger ['1'] := .digits (by decide) (by decide) (by simp)
  have power : IsPower ['e', '9', '9', '9'] :=
    .plain (Or.inl rfl) (List.cons_ne_nil _ _) (by simp)
  have number : Written .item "-1e999".toList :=
    .item .nil (.number (.parts true integer .none power)) .nil
  have first : Limits.MemberText _ [] := .other (by decide) .nil name .nil list
  have second : Limits.MemberText _ [] := .other (by decide) .nil name .nil number
  have third : Limits.MemberText _ [("max_edge_count", 7)] :=
    .limit (by decide) blank (Text.spells_escape "max_edge_count".toList) blank .nil
      (wholeText_toDigits (n := 7) (by decide)) .nil
  exact .members .nil (.more first (.more second (.last third))) .nil

theorem read_limitsText : Limits.read limitsText = .ok { maxEdges := 7 } :=
  Limits.read_eq_of_object.2 limitsText _ objectText_limitsText (by decide)

end Sample

end Sequencer
