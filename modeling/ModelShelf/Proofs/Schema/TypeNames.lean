import Mathlib.Tactic.SplitIfs
import ModelShelf.Dictionary
import ModelShelf.Proofs.Schema.Layout
import ModelShelf.Proofs.Text.Joining
import ModelShelf.Proofs.Text.Splitting
import ModelShelf.Schema.ElementType

/-!
The texts that name element types. A type is named by a listed name, or, behind any number of marks
of byte order, by a point in time with its unit or by the letter of texts or byte strings with a
size. Each text has at most one of these readings, and the reader of names accepts it exactly if it
has one.
-/

namespace ModelShelf

/-! ### Parts at the ends of a text -/

namespace Text

variable {opening closing front s part : List Char}

theorem stripSuffix?_eq_some : stripSuffix? closing s = some front ↔ s = front ++ closing := by
  rw [stripSuffix?]
  constructor
  · intro h
    split at h
    · rename_i hback
      obtain ⟨before, rfl⟩ := List.isSuffixOf_iff_suffix.1 hback
      rw [List.length_append, Nat.add_sub_cancel, List.take_left] at h
      rw [Option.some.inj h]
    · cases h
  · rintro rfl
    rw [if_pos (List.isSuffixOf_iff_suffix.2 (List.suffix_append front closing)),
      List.length_append, Nat.add_sub_cancel, List.take_left]

theorem between?_eq_some :
    between? opening closing s = some part ↔ s = opening ++ (part ++ closing) := by
  simp only [between?, Option.bind_eq_some_iff, stripPrefix?_eq_some, stripSuffix?_eq_some]
  constructor
  · rintro ⟨_, rfl, rfl⟩
    rfl
  · rintro rfl
    exact ⟨_, rfl, rfl⟩

end Text

open Text

theorem TimeUnit.ofCode?_eq_some {code : String} {unit : TimeUnit} :
    ofCode? code = some unit ↔ code = unit.code := by
  constructor
  · intro h
    have found := List.find?_some h
    exact (of_decide_eq_true found).symm
  · rintro rfl
    cases unit <;> decide

namespace ElementType

/-! ### Readings -/

/-- Marks of byte order, in any number. -/
abbrev Marks := { s : List Char // ∀ c ∈ s, c ∈ ['<', '>', '|', '='] }

/-- The digits of a size, or none. -/
abbrev Size := { s : List Char // ∀ c ∈ s, '0' ≤ c ∧ c ≤ '9' }

/-- A text without marks of byte order that names a type. -/
inductive Unmarked where
  /-- A point in time; its name may be shortened. -/
  | time (shortened : Bool) (unit : TimeUnit)
  | texts (size : Size)
  | byteStrings (size : Size)

/-- The names that stand for a type as they are. -/
def listedNames : ElementType → List String
  | .bool => ["bool", "bool_", "?"]
  | .int8 => ["int8", "i1"]
  | .int16 => ["int16", "i2"]
  | .int32 => ["int32", "i4"]
  | .int64 => ["int64", "i8", "int"]
  | .uint8 => ["uint8", "u1"]
  | .uint16 => ["uint16", "u2"]
  | .uint32 => ["uint32", "u4"]
  | .uint64 => ["uint64", "u8"]
  | .float16 => ["float16", "f2", "half"]
  | .float32 => ["float32", "f4", "single"]
  | .float64 => ["float64", "f8", "float", "double"]
  | .str => ["str", "unicode"]
  | .bytes => ["bytes"]
  | .object => ["object", "O"]
  | .datetime .nanosecond => ["datetime64"]
  | .datetime _ => []

/-- How a text names a type. -/
inductive Spelling where
  | listed (type : ElementType) (name : { name : String // name ∈ type.listedNames })
  | marked (marks : Marks) (name : Unmarked)

def timeWord (shortened : Bool) : List Char :=
  if shortened then "M8[".toList else "datetime64[".toList

namespace Unmarked

def text : Unmarked → List Char
  | time shortened unit => timeWord shortened ++ (unit.code.toList ++ [']'])
  | texts size => 'U' :: size.val
  | byteStrings size => 'S' :: size.val

def type : Unmarked → ElementType
  | time _ unit => .datetime unit
  | texts _ => .str
  | byteStrings _ => .bytes

/-- The letter that a name begins with. -/
def letter : Unmarked → Char
  | time shortened _ => if shortened then 'M' else 'd'
  | texts _ => 'U'
  | byteStrings _ => 'S'

theorem head?_text (name : Unmarked) : name.text.head? = some name.letter := by
  cases name with
  | time shortened unit => cases shortened <;> rfl
  | texts size => rfl
  | byteStrings size => rfl

theorem text_injective : Function.Injective text := by
  intro a b h
  have hletter : a.letter = b.letter :=
    Option.some.inj (a.head?_text.symm.trans ((congrArg List.head? h).trans b.head?_text))
  cases a with
  | time shortened unit =>
    cases b with
    | time shortened' unit' =>
      obtain rfl : shortened = shortened' := by
        cases shortened <;> cases shortened' <;> simp [letter] at hletter ⊢
      have codes := List.append_cancel_right (List.append_cancel_left h)
      have same := TimeUnit.ofCode?_eq_some.2 (String.toList_inj.1 codes)
      rw [TimeUnit.ofCode?_eq_some.2 rfl] at same
      rw [Option.some.inj same]
    | texts | byteStrings => cases shortened <;> simp [letter] at hletter
  | texts size =>
    cases b with
    | time shortened => cases shortened <;> simp [letter] at hletter
    | texts size' => rw [Subtype.ext (List.cons.inj h).2]
    | byteStrings => simp [letter] at hletter
  | byteStrings size =>
    cases b with
    | time shortened => cases shortened <;> simp [letter] at hletter
    | texts => simp [letter] at hletter
    | byteStrings size' => rw [Subtype.ext (List.cons.inj h).2]

end Unmarked

namespace Spelling

def text : Spelling → List Char
  | listed _ name => name.val.toList
  | marked marks name => marks.val ++ name.text

def type : Spelling → ElementType
  | listed type _ => type
  | marked _ name => name.type

end Spelling

/-! ### Unmarked names -/

/-- The text of the unit of a point in time. -/
def unitText? (body : List Char) : Option (List Char) :=
  (between? "datetime64[".toList "]".toList body).or (between? "M8[".toList "]".toList body)

theorem unitText?_eq_some {body unit : List Char} :
    unitText? body = some unit ↔ ∃ shortened, body = timeWord shortened ++ (unit ++ [']']) := by
  rw [unitText?, Option.or_eq_some_iff, between?_eq_some, between?_eq_some]
  constructor
  · rintro (h | ⟨-, h⟩)
    · exact ⟨false, h⟩
    · exact ⟨true, h⟩
  · rintro ⟨shortened, rfl⟩
    cases shortened with
    | false => exact .inl rfl
    | true =>
      refine .inr ⟨Option.eq_none_iff_forall_ne_some.2 fun other h => ?_, rfl⟩
      exact absurd (List.cons.inj (between?_eq_some.1 h)).1 (by decide)

theorem unitText?_eq_none {first : Char} {rest : List Char} (notLong : first ≠ 'd')
    (notShort : first ≠ 'M') : unitText? (first :: rest) = none := by
  refine Option.eq_none_iff_forall_ne_some.2 fun unit h => ?_
  obtain ⟨shortened, h⟩ := unitText?_eq_some.1 h
  cases shortened with
  | false => exact notLong (List.cons.inj h).1
  | true => exact notShort (List.cons.inj h).1

theorem ofSized?_of_unit {body unit : List Char} (h : unitText? body = some unit) :
    ofSized? body = (TimeUnit.ofCode? (String.ofList unit)).map .datetime := by
  rw [unitText?] at h
  unfold ofSized?
  simp only [h]

theorem ofSized?_of_letter {first : Char} {rest : List Char}
    (h : unitText? (first :: rest) = none) :
    ofSized? (first :: rest) =
      if rest.all isDigit then
        if first = 'U' then some .str else if first = 'S' then some .bytes else none
      else none := by
  rw [unitText?] at h
  unfold ofSized?
  simp only [h]
  split
  · next heq => cases heq
  · next heq =>
    obtain ⟨rfl, rfl⟩ := List.cons.inj heq
    rw [if_pos rfl]
  · next heq =>
    obtain ⟨rfl, rfl⟩ := List.cons.inj heq
    have other : 'S' ≠ 'U' := by decide
    rw [if_neg other, if_pos rfl]
  · next notText notBytes =>
    have hU : first ≠ 'U' := fun heq => notText rest (by rw [heq])
    have hS : first ≠ 'S' := fun heq => notBytes rest (by rw [heq])
    rw [if_neg hU, if_neg hS, ite_self]

theorem isDigit_iff {c : Char} : isDigit c = true ↔ '0' ≤ c ∧ c ≤ '9' := by
  rw [isDigit, Bool.and_eq_true, decide_eq_true_eq, decide_eq_true_eq]

theorem all_isDigit_iff {s : List Char} : s.all isDigit = true ↔ ∀ c ∈ s, '0' ≤ c ∧ c ≤ '9' := by
  simp only [List.all_eq_true, isDigit_iff]

theorem ofSized?_text (name : Unmarked) : ofSized? name.text = some name.type := by
  cases name with
  | time shortened unit =>
    have hunit : unitText? (timeWord shortened ++ (unit.code.toList ++ [']'])) =
        some unit.code.toList := unitText?_eq_some.2 ⟨shortened, rfl⟩
    rw [Unmarked.text, ofSized?_of_unit hunit, String.ofList_toList, TimeUnit.ofCode?_eq_some.2 rfl]
    rfl
  | texts size =>
    rw [Unmarked.text, ofSized?_of_letter (unitText?_eq_none (by decide) (by decide)),
      if_pos (all_isDigit_iff.2 size.property)]
    rfl
  | byteStrings size =>
    rw [Unmarked.text, ofSized?_of_letter (unitText?_eq_none (by decide) (by decide)),
      if_pos (all_isDigit_iff.2 size.property)]
    rfl

theorem exists_of_ofSized? {body : List Char} {t : ElementType} (h : ofSized? body = some t) :
    ∃ name : Unmarked, name.text = body ∧ name.type = t := by
  cases hunit : unitText? body with
  | some unit =>
    rw [ofSized?_of_unit hunit] at h
    obtain ⟨u, hu, rfl⟩ := Option.map_eq_some_iff.1 h
    obtain ⟨shortened, rfl⟩ := unitText?_eq_some.1 hunit
    refine ⟨.time shortened u, ?_, rfl⟩
    rw [Unmarked.text, ← TimeUnit.ofCode?_eq_some.1 hu, String.toList_ofList]
  | none =>
    cases body with
    | nil => cases h
    | cons first rest =>
      rw [ofSized?_of_letter hunit] at h
      split_ifs at h with hdigits hU hS
      · cases h
        exact ⟨.texts ⟨rest, all_isDigit_iff.1 hdigits⟩, by rw [hU]; rfl, rfl⟩
      · cases h
        exact ⟨.byteStrings ⟨rest, all_isDigit_iff.1 hdigits⟩, by rw [hS]; rfl, rfl⟩

/-! ### Marked names -/

theorem isByteOrderMark_iff {c : Char} : isByteOrderMark c = true ↔ c ∈ ['<', '>', '|', '='] := by
  simp [isByteOrderMark, or_assoc]

theorem marks_separable : Separable (Past isByteOrderMark) fun marks : Marks => marks.val :=
  separable_of_all (fun _ _ => Subtype.ext) fun marks =>
    List.all_eq_true.2 fun c hc => isByteOrderMark_iff.2 (marks.property c hc)

/-- What follows the marks is no mark. -/
theorem Unmarked.past_marks (name : Unmarked) : Past isByteOrderMark name.text := by
  intro c h
  obtain rfl := Option.some.inj (name.head?_text.symm.trans h)
  cases name with
  | time shortened unit => cases shortened <;> rfl
  | texts size => rfl
  | byteStrings size => rfl

theorem dropWhile_marked (marks : Marks) (name : Unmarked) :
    (marks.val ++ name.text).dropWhile isByteOrderMark = name.text := by
  rw [List.dropWhile_append_of_pos fun c hc => isByteOrderMark_iff.2 (marks.property c hc),
    dropWhile_of_head? name.past_marks]

/-! ### All names -/

theorem nodup_spellings : (spellings.map Prod.fst).Nodup := by decide

theorem listedName_of_mem : ∀ entry ∈ spellings, entry.1 ∈ entry.2.listedNames := by decide

theorem mem_of_listedName (t : ElementType) : ∀ name ∈ t.listedNames, (name, t) ∈ spellings := by
  cases t with
  | datetime unit => cases unit <;> decide
  | _ => decide

/-- The table of the reader holds the listed names. -/
theorem lookup_spellings {name : String} {t : ElementType} :
    spellings.lookup name = some t ↔ name ∈ t.listedNames := by
  rw [lookup_eq_some_iff_mem nodup_spellings]
  exact ⟨listedName_of_mem (name, t), mem_of_listedName t name⟩

/-- No listed name is one of the others. -/
theorem ofSized?_listed : ∀ entry ∈ spellings,
    ofSized? (entry.1.toList.dropWhile isByteOrderMark) = none := by decide

/-- No text has two readings. -/
theorem Spelling.text_injective : Function.Injective Spelling.text := by
  have apart (type : ElementType) (listedName : { name : String // name ∈ type.listedNames })
      (marks : Marks) (name : Unmarked) :
      (listed type listedName).text ≠ (marked marks name).text := by
    intro h
    have none := ofSized?_listed _ (mem_of_listedName type _ listedName.property)
    rw [show listedName.val.toList = marks.val ++ name.text from h, dropWhile_marked,
      ofSized?_text] at none
    cases none
  intro x y h
  cases x with
  | listed type name =>
    cases y with
    | listed type' name' =>
      have same : name.val = name'.val := String.toList_inj.1 h
      have value := lookup_spellings.2 name.property
      rw [same, lookup_spellings.2 name'.property] at value
      obtain rfl := Option.some.inj value
      rw [Subtype.ext same]
    | marked marks name' => exact absurd h (apart type name marks name')
  | marked marks name =>
    cases y with
    | listed type' name' => exact absurd h.symm (apart type' name' marks name)
    | marked marks' name' =>
      obtain ⟨rfl, hname⟩ := marks_separable name.past_marks name'.past_marks h
      rw [Unmarked.text_injective hname]

theorem parse_of_listed {s : String} {t : ElementType} (h : spellings.lookup s = some t) :
    parse s = .ok t := by
  rw [parse, h]

theorem parse_of_unlisted {s : String} (h : spellings.lookup s = none) :
    parse s = (ofSized? (s.toList.dropWhile isByteOrderMark)).elim
      (.error (.unsupportedType s)) .ok := by
  rw [parse, h]
  cases ofSized? (s.toList.dropWhile isByteOrderMark) <;> rfl

/-- A type is read from exactly the texts that name it. -/
theorem parse_eq_ok {s : String} {t : ElementType} :
    parse s = .ok t ↔ ∃ x : Spelling, x.text = s.toList ∧ x.type = t := by
  constructor
  · intro h
    cases hlookup : spellings.lookup s with
    | some listed =>
      rw [parse_of_listed hlookup] at h
      cases h
      exact ⟨.listed t ⟨s, lookup_spellings.1 hlookup⟩, rfl, rfl⟩
    | none =>
      rw [parse_of_unlisted hlookup] at h
      cases hsized : ofSized? (s.toList.dropWhile isByteOrderMark) with
      | none =>
        rw [hsized] at h
        cases h
      | some sized =>
        rw [hsized] at h
        cases h
        obtain ⟨name, hname, rfl⟩ := exists_of_ofSized? hsized
        have marks : ∀ c ∈ s.toList.takeWhile isByteOrderMark, c ∈ ['<', '>', '|', '='] :=
          fun c hc => isByteOrderMark_iff.1 (List.all_eq_true.1 List.all_takeWhile c hc)
        refine ⟨.marked ⟨_, marks⟩ name, ?_, rfl⟩
        rw [Spelling.text, hname, List.takeWhile_append_dropWhile]
  · rintro ⟨x, htext, rfl⟩
    cases x with
    | listed type name =>
      have hname : name.val = s := String.toList_inj.1 htext
      exact parse_of_listed (hname ▸ lookup_spellings.2 name.property)
    | marked marks name =>
      have unlisted : spellings.lookup s = none := by
        refine Option.eq_none_iff_forall_ne_some.2 fun t ht => ?_
        have listedText : (Spelling.listed t ⟨s, lookup_spellings.1 ht⟩).text = s.toList := rfl
        cases Spelling.text_injective (listedText.trans htext.symm)
      rw [parse_of_unlisted unlisted, ← htext, Spelling.text, dropWhile_marked, ofSized?_text]
      rfl

theorem eq_unsupported_of_parse {s : String} {fault : SchemaFault} (h : parse s = .error fault) :
    fault = .unsupportedType s := by
  cases hlookup : spellings.lookup s with
  | some listed =>
    rw [parse_of_listed hlookup] at h
    cases h
  | none =>
    rw [parse_of_unlisted hlookup] at h
    cases hsized : ofSized? (s.toList.dropWhile isByteOrderMark) with
    | none =>
      rw [hsized] at h
      cases h
      rfl
    | some sized =>
      rw [hsized] at h
      cases h

/-- A text that names no type is refused with the text itself. -/
theorem parse_eq_error {s : String} {fault : SchemaFault} :
    parse s = .error fault ↔
      fault = .unsupportedType s ∧ ∀ x : Spelling, x.text ≠ s.toList := by
  constructor
  · intro h
    refine ⟨eq_unsupported_of_parse h, fun x htext => ?_⟩
    rw [parse_eq_ok.2 ⟨x, htext, rfl⟩] at h
    cases h
  · rintro ⟨rfl, hnone⟩
    cases hparse : parse s with
    | ok t =>
      obtain ⟨x, htext, -⟩ := parse_eq_ok.1 hparse
      exact absurd htext (hnone x)
    | error fault => rw [eq_unsupported_of_parse hparse]

/-! ### Cuts counted in bytes -/

/-- The two parts of a text around a number of bytes. There are none if the text ends before, or if
the cut would go through a character. -/
def cutAtByte? : List Char → Nat → Option (List Char × List Char)
  | [], n => if n = 0 then some ([], []) else none
  | c :: rest, n =>
    if n = 0 then some ([], c :: rest)
    else if c.utf8Size ≤ n then
      (cutAtByte? rest (n - c.utf8Size)).map fun parts => (c :: parts.1, parts.2)
    else none

theorem cutAtByte?_zero (s : List Char) : cutAtByte? s 0 = some ([], s) := by
  cases s <;> rfl

/-- A text can be cut behind its first character, however many bytes that takes. -/
theorem cutAtByte?_first (first : Char) (rest : List Char) :
    cutAtByte? (first :: rest) first.utf8Size = some ([first], rest) := by
  rw [cutAtByte?, if_neg first.utf8Size_pos.ne', if_pos (Nat.le_refl _), Nat.sub_self,
    cutAtByte?_zero]
  rfl

/-- The type of an unmarked text that begins with the letter of its kind. The letter is cut off by
its bytes; where that is no cut between characters, there is no outcome at all. -/
def ofLetterAtByte? : List Char → Option (Option ElementType)
  | [] => some none
  | first :: rest =>
    (cutAtByte? (first :: rest) first.utf8Size).map fun parts =>
      if parts.2.all isDigit then
        if parts.1 = ['U'] then some .str else if parts.1 = ['S'] then some .bytes else none
      else none

/-- The type of an unmarked text, step by step: the word of a point in time is looked for in front
and its bracket at the end, and else the first letter is cut off. -/
def ofSizedAtByte? (body : List Char) : Option (Option ElementType) :=
  (((stripPrefix? "datetime64[".toList body).or (stripPrefix? "M8[".toList body)).bind
    (stripSuffix? "]".toList)).elim (ofLetterAtByte? body) fun unit =>
      some ((TimeUnit.ofCode? (String.ofList unit)).map .datetime)

/-- The type that a name stands for. There is no outcome where the name would be cut within a
character. -/
def parseAtByte? (s : String) : Option (Except SchemaFault ElementType) :=
  (spellings.lookup s).elim
    ((ofSizedAtByte? (s.toList.dropWhile isByteOrderMark)).map fun found =>
      found.elim (.error (.unsupportedType s)) .ok)
    fun t => some (.ok t)

theorem unitText?_eq_bind (body : List Char) : unitText? body =
    ((stripPrefix? "datetime64[".toList body).or (stripPrefix? "M8[".toList body)).bind
      (stripSuffix? "]".toList) := by
  refine Option.ext fun unit => ?_
  rw [unitText?, Option.or_eq_some_iff, between?, between?]
  cases hlong : stripPrefix? "datetime64[".toList body with
  | none => simp
  | some rest =>
    have hshort : stripPrefix? "M8[".toList body = none := by
      refine stripPrefix?_eq_none.2 fun hprefix => ?_
      rw [stripPrefix?_eq_some.1 hlong] at hprefix
      exact absurd (List.cons_prefix_cons.1 hprefix).1 (by decide)
    simp only [hshort, Option.bind_some, Option.bind_none, reduceCtorEq, and_false, or_false,
      Option.or_none]

theorem ofSizedAtByte?_eq (body : List Char) : ofSizedAtByte? body = some (ofSized? body) := by
  rw [ofSizedAtByte?, ← unitText?_eq_bind]
  cases hunit : unitText? body with
  | some unit => rw [ofSized?_of_unit hunit, Option.elim_some]
  | none =>
    cases body with
    | nil => rfl
    | cons first rest =>
      rw [ofSized?_of_letter hunit, Option.elim_none, ofLetterAtByte?, cutAtByte?_first,
        Option.map_some]
      simp only [List.cons.injEq, and_true]

/-- The first letter of a name is always cut off between two characters. -/
theorem parseAtByte?_eq (s : String) : parseAtByte? s = some (parse s) := by
  rw [parseAtByte?, ofSizedAtByte?_eq, Option.map_some]
  cases hlookup : spellings.lookup s with
  | some t => rw [parse_of_listed hlookup, Option.elim_some]
  | none => rw [parse_of_unlisted hlookup, Option.elim_none]

/-- A text names a type exactly if it is a listed name or has, behind marks of byte order, one of
the other forms; it is read as the type that this form stands for, and as no other, for it has no
second form. Every other text is refused with itself as it was. The name of what was read is read as
the same type again, and no text is cut within a character. -/
theorem parse_names (s : String) :
    (∀ t, parse s = .ok t ↔ ∃ x : Spelling, x.text = s.toList ∧ x.type = t) ∧
    (∀ fault, parse s = .error fault ↔
      fault = .unsupportedType s ∧ ∀ x : Spelling, x.text ≠ s.toList) ∧
    (∀ x y : Spelling, x.text = s.toList → y.text = s.toList → x = y) ∧
    (∀ t, parse s = .ok t → parse t.name = .ok t) ∧
    parseAtByte? s = some (parse s) :=
  ⟨fun _ => parse_eq_ok, fun _ => parse_eq_error,
    fun _ _ hx hy => Spelling.text_injective (hx.trans hy.symm), fun t _ => parse_name t,
    parseAtByte?_eq s⟩

example : (parse "=<M8[us]").toOption = some (.datetime .microsecond) := by decide

end ElementType

end ModelShelf
