import Mathlib.Data.List.Forall2
import ModelShelf.Proofs.Json.Acceptance
import ModelShelf.Proofs.Json.Skipping

/-!
The text of a list has one list of items, and the text of an object one list of members, because
there are readers that take a text apart and keep the texts of its values. So what is said of the
items of a text does not depend on how it was taken apart.
-/

namespace ModelShelf.Json

open Reader Grammar

variable {text text' inside : List Char} {items items' : List (List Char)}
  {members members' : List (String × List Char)}

/-- The text of a list of values, and the texts of its items. -/
def ValueItems (text : List Char) (items : List (List Char)) : Prop :=
  ListText (fun text item => ValueText text ∧ item = text) text items

/-- The text of an object of values, and its members with the texts of their values. -/
structure ValueMembers (text : List Char) (members : List (String × List Char)) : Prop where
  object : ObjectText text members
  values : ∀ member ∈ members, ValueText member.2

/-- A document that holds a list, between blanks, and the texts of the items. -/
def ArrayText (text : List Char) (items : List (List Char)) : Prop :=
  ∃ before inside after, Gap before ∧ Gap after ∧ text = before ++ (inside ++ after) ∧
    ValueItems inside items

namespace Reader

/-- Passes a value and gives its text. -/
def rawValue : Reader (List Char) := fun c =>
  match skipValue c with
  | .ok _ after =>
    let body := c.rest.dropWhile isBlank
    .ok (body.take (body.length - after.rest.length)) after
  | .error fault after => .error fault after

theorem takes_rawValue (h : ValueText text) : Takes rawValue text text where
  starts := h.starts
  reads {gap rest} blank hrest position := by
    obtain ⟨after, hskip⟩ := reads_skipValue h blank hrest position
    obtain ⟨first, more, rfl, solid, -⟩ := h.starts
    have hbody : (gap ++ (first :: more ++ rest)).dropWhile isBlank = first :: more ++ rest :=
      blank.dropWhile_append_cons solid (more ++ rest)
    refine ⟨after, ?_⟩
    simp only [rawValue, hskip, hbody, List.length_append, Nat.add_sub_cancel, List.take_left']

def rawMember (read : List (String × List Char)) (name : String) :
    Reader (List (String × List Char)) := do
  colon
  return read ++ [(name, ← rawValue)]

theorem folds_rawMember (h : ∀ member ∈ members, ValueText member.2)
    (read : List (String × List Char)) : Folds rawMember read members (read ++ members) := by
  induction members generalizing read with
  | nil =>
    rw [List.append_nil]
    exact .nil
  | cons member members ih =>
    obtain ⟨name, value⟩ := member
    obtain ⟨first, others⟩ := List.forall_mem_cons.1 h
    have folds := ih others (read ++ [(name, value)])
    rw [List.append_assoc, List.singleton_append] at folds
    refine .cons (fun beforeBlank afterBlank hrest => ?_) folds
    exact .bind (reads_colon beforeBlank _)
      (.bind ((takes_rawValue first).reads afterBlank hrest) (.pure _ _))

end Reader

theorem ValueItems.takes (h : ValueItems text items) : Takes (list rawValue) text items := by
  refine takes_list (h.mono fun text item _ written => ?_)
  obtain ⟨value, rfl⟩ := written
  exact takes_rawValue value

theorem Reads.unique {α : Type} {read : Reader α} {a b : α} {rest rest' : List Char}
    (h : Reads read text a rest) (h' : Reads read text b rest') : a = b ∧ rest = rest' := by
  obtain ⟨after, h⟩ := h .start
  exact Reads.eq_of_yields h' ⟨.start, after, h⟩

/-- A document has one list of items. -/
theorem ArrayText.eq (h : ArrayText text items) (h' : ArrayText text items') : items = items' := by
  obtain ⟨before, inside, after, blank, blankAfter, rfl, list⟩ := h
  obtain ⟨before', inside', after', blank', blankAfter', htext, list'⟩ := h'
  have endsGap {gap : List Char} (h : Gap gap) : EndsValue gap := by
    have ends := EndsValue.gap h EndsValue.nil
    rwa [List.append_nil] at ends
  have reads := list.takes.reads blank (endsGap blankAfter)
  have reads' := list'.takes.reads blank' (endsGap blankAfter')
  rw [← htext] at reads'
  exact (Reads.unique reads reads').1

theorem ValueItems.eq (h : ValueItems text items) (h' : ValueItems text items') :
    items = items' := by
  have whole {items : List (List Char)} (h : ValueItems text items) : ArrayText text items :=
    ⟨[], text, [], Gap.nil, Gap.nil, by simp, h⟩
  exact (whole h).eq (whole h')

theorem ValueMembers.eq (h : ValueMembers text members) (h' : ValueMembers text members') :
    members = members' := by
  obtain ⟨inside, rfl, reads⟩ := reads_object h.object (folds_rawMember h.values [])
  obtain ⟨inside', htext, reads'⟩ := reads_object h'.object (folds_rawMember h'.values [])
  obtain rfl := List.append_cancel_right (List.cons.inj htext).2
  exact (Reads.unique (reads []) (reads' [])).1

theorem ValueItems.starts (h : ValueItems text items) : ∃ inside, text = '[' :: inside := by
  cases h <;> exact ⟨_, rfl⟩

theorem ArrayText.bracket_mem (h : ArrayText text items) : '[' ∈ text := by
  obtain ⟨before, inside, after, -, -, rfl, list⟩ := h
  obtain ⟨more, rfl⟩ := list.starts
  simp

theorem ValueItems.valueText (h : ValueItems text items) : ValueText text :=
  valueText_of_listText h fun _ _ written => written.1

theorem ValueMembers.valueText (h : ValueMembers text members) : ValueText text :=
  valueText_of_objectText h.object h.values

/-! ### Items that are more than texts -/

section Pairs

variable {α : Type} {item : List Char → α → Prop} {as : List α}

theorem exists_moreItems_of_moreItems (h : MoreItems item text as)
    (values : ∀ ⦃text a⦄, item text a → ValueText text) :
    ∃ items, MoreItems (fun text item => ValueText text ∧ item = text) text items ∧
      List.Forall₂ item items as := by
  induction h with
  | done blank => exact ⟨[], .done blank, .nil⟩
  | next blank leadBlank written _ ih =>
    obtain ⟨items, more, paired⟩ := ih
    exact ⟨_, .next blank leadBlank ⟨values written, rfl⟩ more, .cons written paired⟩

/-- The items of a list of values of a kind, each with what stands for it. -/
theorem exists_valueItems_of_listText (h : ListText item text as)
    (values : ∀ ⦃text a⦄, item text a → ValueText text) :
    ∃ items, ValueItems text items ∧ List.Forall₂ item items as := by
  cases h with
  | nil blank => exact ⟨[], .nil blank, .nil⟩
  | cons blank written more =>
    obtain ⟨items, more, paired⟩ := exists_moreItems_of_moreItems more values
    exact ⟨_, .cons blank ⟨values written, rfl⟩ more, .cons written paired⟩

end Pairs

/-! ### Lists that are read item by item -/

namespace Reader

variable {α : Type} {read : Reader α} {a : α} {item : List Char → α → Prop}
  {middle rest : List Char}

/-- What is left of a list: the items to come, and the closing bracket. -/
def Remains (items : List (List Char)) (text rest : List Char) : Prop :=
  ∃ tail, text = tail ++ ']' :: rest ∧
    MoreItems (fun text item => ValueText text ∧ item = text) tail items

theorem remains_of_yields_endList (h : Yields endList text () rest) : Remains [] text rest := by
  obtain ⟨gap, blank, rfl⟩ := gap_of_yields_endList h
  exact ⟨gap, rfl, .done blank⟩

theorem gap_of_yields_item?_none {isFirst : Bool} (h : Yields (item? isFirst read) text none middle)
    (hend : Yields endList middle () rest) : ∃ gap, Gap gap ∧ text = gap ++ ']' :: rest := by
  obtain ⟨goesOn, between, hgoes, hnext⟩ := h.of_bind
  cases goesOn with
  | false =>
    obtain ⟨gap, more, blank, rfl, rfl⟩ := gap_of_yields_hasItem_end hgoes
    obtain ⟨-, rfl⟩ := hnext.of_pure
    rw [eq_of_yields_endList hend]
    exact ⟨gap, blank, rfl⟩
  | true =>
    obtain ⟨_, _, -, hpure⟩ := Yields.of_bind hnext
    cases hpure.of_pure.1

theorem remains_of_yields_item?_none (h : Yields (item? false read) text none middle)
    (hend : Yields endList middle () rest) : Remains [] text rest := by
  obtain ⟨gap, blank, rfl⟩ := gap_of_yields_item?_none h hend
  exact ⟨gap, rfl, .done blank⟩

theorem remains_of_yields_item?_some (hitem : Accepts read item)
    (values : ∀ ⦃text a⦄, item text a → ValueText text)
    (h : Yields (item? false read) text (some a) middle) (remains : Remains items middle rest) :
    ∃ value, item value a ∧ Remains (value :: items) text rest := by
  obtain ⟨goesOn, between, hgoes, hnext⟩ := h.of_bind
  cases goesOn with
  | false => cases hnext.of_pure.1
  | true =>
    obtain ⟨gap, lead, blank, leadBlank, rfl⟩ := gap_of_yields_hasItem_next hgoes
    obtain ⟨_, _, hread, hpure⟩ := Yields.of_bind hnext
    obtain ⟨hsome, rfl⟩ := hpure.of_pure
    obtain rfl := Option.some.inj hsome
    obtain ⟨gap', value, blank', rfl, written⟩ := hitem hread
    obtain ⟨tail, rfl, more⟩ := remains
    refine ⟨value, written, gap ++ ',' :: ((lead ++ gap') ++ (value ++ tail)), by simp, ?_⟩
    exact .next blank (List.forall_mem_append.2 ⟨leadBlank, blank'⟩) ⟨values written, rfl⟩ more

theorem valueItems_of_yields_item?_none (h : Yields (item? true read) text none middle)
    (hend : Yields endList middle () rest) :
    ∃ body, text = body ++ rest ∧ ValueItems ('[' :: body) [] := by
  obtain ⟨gap, blank, rfl⟩ := gap_of_yields_item?_none h hend
  exact ⟨gap ++ [']'], by simp, .nil blank⟩

theorem valueItems_of_yields_item?_some (hitem : Accepts read item)
    (values : ∀ ⦃text a⦄, item text a → ValueText text)
    (h : Yields (item? true read) text (some a) middle) (remains : Remains items middle rest) :
    ∃ body value, text = body ++ rest ∧ item value a ∧
      ValueItems ('[' :: body) (value :: items) := by
  obtain ⟨goesOn, between, hgoes, hnext⟩ := h.of_bind
  cases goesOn with
  | false => cases hnext.of_pure.1
  | true =>
    obtain ⟨gap, blank, rfl⟩ := gap_of_yields_hasItem_first hgoes
    obtain ⟨_, _, hread, hpure⟩ := Yields.of_bind hnext
    obtain ⟨hsome, rfl⟩ := hpure.of_pure
    obtain rfl := Option.some.inj hsome
    obtain ⟨gap', value, blank', rfl, written⟩ := hitem hread
    obtain ⟨tail, rfl, more⟩ := remains
    refine ⟨(gap ++ gap') ++ (value ++ (tail ++ [']'])), value, by simp, written, ?_⟩
    exact .cons (List.forall_mem_append.2 ⟨blank, blank'⟩) ⟨values written, rfl⟩ more

end Reader

end ModelShelf.Json
