import ModelShelf.Proofs.Json.Numbers

/-!
The grammar of JSON. A string of the grammar need not stand for a text, because the units of its
escapes are not put together.
-/

namespace ModelShelf.Json.Grammar

open Reader

def hexDigits : List Char := "0123456789abcdefABCDEF".toList

def escapeLetters : List Char := ['"', '\\', '/', 'b', 'f', 'n', 'r', 't']

/-- The characters between the quotes of a string. -/
inductive StringBody : List Char → Prop
  | nil : StringBody []
  | literal {c : Char} {more : List Char} (notQuote : c ≠ '"') (notEscape : c ≠ '\\')
      (notControl : ¬ c < ' ') (tail : StringBody more) : StringBody (c :: more)
  | letter {letter : Char} {more : List Char} (known : letter ∈ escapeLetters)
      (tail : StringBody more) : StringBody ('\\' :: letter :: more)
  | unit {x y z w : Char} {more : List Char} (hex : ∀ d ∈ [x, y, z, w], d ∈ hexDigits)
      (tail : StringBody more) : StringBody ('\\' :: 'u' :: x :: y :: z :: w :: more)

/-- At least one digit. -/
def Digits (s : List Char) : Prop := s ≠ [] ∧ ∀ c ∈ s, isDigit c = true

/-- A zero alone, or digits that do not begin with one. -/
inductive Whole : List Char → Prop
  | zero : Whole ['0']
  | digits {s : List Char} (digits : Digits s) (lead : s.head? ≠ some '0') : Whole s

inductive Fraction : List Char → Prop
  | none : Fraction []
  | digits {s : List Char} (digits : Digits s) : Fraction ('.' :: s)

inductive Exponent : List Char → Prop
  | none : Exponent []
  | digits {mark : Char} {sign s : List Char} (letter : mark = 'e' ∨ mark = 'E')
      (signed : sign ∈ [[], ['+'], ['-']]) (digits : Digits s) : Exponent (mark :: (sign ++ s))

theorem Digits.exists_cons {s : List Char} (h : Digits s) :
    ∃ first more, s = first :: more ∧ isDigit first = true := by
  cases s with
  | nil => exact absurd rfl h.1
  | cons first more => exact ⟨first, more, rfl, h.2 first List.mem_cons_self⟩

theorem Whole.exists_cons {s : List Char} (h : Whole s) :
    ∃ first more, s = first :: more ∧ isDigit first = true := by
  cases h with
  | zero => exact ⟨'0', [], rfl, rfl⟩
  | digits digits => exact digits.exists_cons

/-- What the grammar has rules for: values, and what stands behind an item of a list or a member of
an object up to the closing bracket. -/
inductive Symbol where
  | value
  | moreItems
  | moreMembers

/-- The texts of the grammar. -/
inductive Derives : Symbol → List Char → Prop
  | null : Derives .value ['n', 'u', 'l', 'l']
  | truth : Derives .value ['t', 'r', 'u', 'e']
  | falsehood : Derives .value ['f', 'a', 'l', 's', 'e']
  | number {sign whole fraction exponent : List Char} (hsign : sign = [] ∨ sign = ['-'])
      (hwhole : Whole whole) (hfraction : Fraction fraction) (hexponent : Exponent exponent) :
      Derives .value (sign ++ (whole ++ (fraction ++ exponent)))
  | string {body : List Char} (hbody : StringBody body) : Derives .value ('"' :: (body ++ ['"']))
  | emptyList {gap : List Char} (blank : Gap gap) : Derives .value ('[' :: (gap ++ [']']))
  | list {gap item more : List Char} (blank : Gap gap) (hitem : Derives .value item)
      (hmore : Derives .moreItems more) : Derives .value ('[' :: (gap ++ (item ++ more)))
  | emptyObject {gap : List Char} (blank : Gap gap) : Derives .value ('\x7b' :: (gap ++ ['\x7d']))
  | object {gap name before after value more : List Char} (blank : Gap gap)
      (hname : StringBody name) (beforeBlank : Gap before) (afterBlank : Gap after)
      (hvalue : Derives .value value) (hmore : Derives .moreMembers more) :
      Derives .value ('\x7b' :: (gap ++ '"' :: (name ++ '"' :: (before ++ ':' ::
        (after ++ (value ++ more))))))
  | endList {gap : List Char} (blank : Gap gap) : Derives .moreItems (gap ++ [']'])
  | item {gap lead item more : List Char} (blank : Gap gap) (leadBlank : Gap lead)
      (hitem : Derives .value item) (hmore : Derives .moreItems more) :
      Derives .moreItems (gap ++ ',' :: (lead ++ (item ++ more)))
  | endObject {gap : List Char} (blank : Gap gap) : Derives .moreMembers (gap ++ ['\x7d'])
  | member {gap lead name before after value more : List Char} (blank : Gap gap)
      (leadBlank : Gap lead) (hname : StringBody name) (beforeBlank : Gap before)
      (afterBlank : Gap after) (hvalue : Derives .value value)
      (hmore : Derives .moreMembers more) :
      Derives .moreMembers (gap ++ ',' :: (lead ++ '"' :: (name ++ '"' :: (before ++ ':' ::
        (after ++ (value ++ more))))))

/-- The text of a JSON value. -/
abbrev ValueText (text : List Char) : Prop := Derives .value text

theorem Derives.starts {text : List Char} (h : Derives .value text) :
    ∃ first more, text = first :: more ∧ isBlank first = false ∧ first ≠ ']' := by
  cases h with
  | @number sign _ _ _ hsign hwhole =>
    rcases hsign with rfl | rfl
    · obtain ⟨first, more, rfl, hdigit⟩ := hwhole.exists_cons
      refine ⟨first, _, rfl, isBlank_of_isDigit hdigit, ?_⟩
      rintro rfl
      contradiction
    · exact ⟨'-', _, rfl, rfl, by decide⟩
  | _ => exact ⟨_, _, rfl, rfl, by decide⟩

end ModelShelf.Json.Grammar
