import ModelShelf.Proofs.Json.Strings

/-!
Texts of lists and objects in any layout: blanks stand around every item, name, colon and comma,
and names have any spelling. What the texts of items and of the members' values are is left open.
-/

namespace ModelShelf.Json

open Reader (Gap)

/-- What stands between an item of a list and the closing bracket: a comma and an item each time,
and blanks. -/
inductive MoreItems (item : List Char → α → Prop) : List Char → List α → Prop
  | done {gap : List Char} (blank : Gap gap) : MoreItems item gap []
  | next {gap lead text tail : List Char} {a : α} {as : List α} (blank : Gap gap)
      (leadBlank : Gap lead) (written : item text a) (more : MoreItems item tail as) :
      MoreItems item (gap ++ ',' :: (lead ++ (text ++ tail))) (a :: as)

/-- The text of a list. -/
inductive ListText (item : List Char → α → Prop) : List Char → List α → Prop
  | nil {gap : List Char} (blank : Gap gap) : ListText item ('[' :: (gap ++ [']'])) []
  | cons {gap text tail : List Char} {a : α} {as : List α} (blank : Gap gap)
      (written : item text a) (more : MoreItems item tail as) :
      ListText item ('[' :: (gap ++ (text ++ (tail ++ [']'])))) (a :: as)

/-- What stands between a member of an object and the closing bracket: a comma and a member each
time, and blanks. A member is kept as its name and the text of its value. -/
inductive MoreMembers : List Char → List (String × List Char) → Prop
  | done {gap : List Char} (blank : Gap gap) : MoreMembers gap []
  | next {gap lead written before after value tail : List Char} {name : String}
      {members : List (String × List Char)} (blank : Gap gap) (leadBlank : Gap lead)
      (spelled : Spelling written name.toList) (beforeBlank : Gap before) (afterBlank : Gap after)
      (more : MoreMembers tail members) :
      MoreMembers (gap ++ ',' :: (lead ++ '"' :: (written ++ '"' :: (before ++ ':' ::
        (after ++ (value ++ tail)))))) ((name, value) :: members)

/-- The text of an object. -/
inductive ObjectText : List Char → List (String × List Char) → Prop
  | nil {gap : List Char} (blank : Gap gap) : ObjectText ('\x7b' :: (gap ++ ['\x7d'])) []
  | cons {gap written before after value tail : List Char} {name : String}
      {members : List (String × List Char)} (blank : Gap gap)
      (spelled : Spelling written name.toList) (beforeBlank : Gap before) (afterBlank : Gap after)
      (more : MoreMembers tail members) :
      ObjectText ('\x7b' :: (gap ++ '"' :: (written ++ '"' :: (before ++ ':' ::
        (after ++ (value ++ (tail ++ ['\x7d']))))))) ((name, value) :: members)

variable {item item' : List Char → α → Prop} {text : List Char} {as : List α}

theorem MoreItems.mono (h : MoreItems item text as)
    (imp : ∀ text, ∀ a ∈ as, item text a → item' text a) : MoreItems item' text as := by
  induction h with
  | done blank => exact .done blank
  | next blank leadBlank written more ih =>
    refine .next blank leadBlank (imp _ _ List.mem_cons_self written) (ih fun t a ha => ?_)
    exact imp t a (List.mem_cons_of_mem _ ha)

theorem ListText.mono (h : ListText item text as)
    (imp : ∀ text, ∀ a ∈ as, item text a → item' text a) : ListText item' text as := by
  cases h with
  | nil blank => exact .nil blank
  | cons blank written more =>
    refine .cons blank (imp _ _ List.mem_cons_self written) (more.mono fun t a ha => ?_)
    exact imp t a (List.mem_cons_of_mem _ ha)

theorem ObjectText.starts {members : List (String × List Char)} (h : ObjectText text members) :
    ∃ inside, text = '\x7b' :: inside := by
  cases h with
  | nil => exact ⟨_, rfl⟩
  | cons => exact ⟨_, rfl⟩

end ModelShelf.Json
