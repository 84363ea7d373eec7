import ModelShelf.Proofs.Json.Values
import ModelShelf.Proofs.Text.Joining

/-!
The text of a JSON value on one line, as characters, and how readers take it: a rendered list is
taken when its rendered items are, and the members of a rendered object are read one after the
other. With a style that escapes what is beyond ASCII, the text is ASCII.
-/

namespace ModelShelf.Json

open Reader (Gap)
open Text (intercalate_cons mem_intercalate mem_intercalate_of_mem)

/-- The characters of a value on one line. -/
def Style.chars (style : Style) (value : Json) : List Char := (render style value).toList

/-- The characters of a member on one line. -/
def Style.memberChars (style : Style) (member : String × Json) : List Char :=
  style.stringChars member.1.toList ++ (style.colon.toList ++ style.chars member.2)

variable (style : Style)

theorem chars_string (s : String) : style.chars (.string s) = style.stringChars s.toList := by
  simp [Style.chars, render, Style.stringText]

theorem chars_integer (n : Int) : style.chars (.integer n) = (toString n).toList := rfl

theorem renderItems_eq_map (items : List Json) :
    renderItems style items = items.map (render style) := by
  induction items with
  | nil => rfl
  | cons item items ih => rw [renderItems, ih, List.map_cons]

theorem chars_array (items : List Json) :
    style.chars (.array items) =
      '[' :: (style.comma.toList.intercalate (items.map style.chars) ++ [']']) := by
  have hitems : (renderItems style items).map String.toList = items.map style.chars := by
    rw [renderItems_eq_map, List.map_map]
    rfl
  simp [Style.chars, render, hitems]

theorem renderMembers_eq_map (members : List (String × Json)) :
    (renderMembers style members).map String.toList = members.map style.memberChars := by
  induction members with
  | nil => rfl
  | cons member members ih =>
    obtain ⟨name, value⟩ := member
    rw [renderMembers, List.map_cons, ih, List.map_cons]
    simp [Style.memberChars, Style.stringText, Style.chars]

theorem chars_object (members : List (String × Json)) :
    style.chars (.object members) =
      '\x7b' :: (style.comma.toList.intercalate (members.map style.memberChars) ++ ['\x7d']) := by
  simp [Style.chars, render, renderMembers_eq_map]

/-! ### What stands in a text -/

theorem mem_chars_array {style : Style} {c : Char} {item : Json} {items : List Json}
    (hitem : item ∈ items) (h : c ∈ style.chars item) : c ∈ style.chars (.array items) := by
  rw [chars_array]
  refine List.mem_cons_of_mem _ (List.mem_append_left _ ?_)
  exact mem_intercalate_of_mem (List.mem_map.2 ⟨item, hitem, rfl⟩) h

theorem mem_chars_object {style : Style} {c : Char} {name : String} {value : Json}
    {members : List (String × Json)} (hmember : (name, value) ∈ members)
    (h : c ∈ style.chars value) : c ∈ style.chars (.object members) := by
  rw [chars_object]
  refine List.mem_cons_of_mem _ (List.mem_append_left _ ?_)
  refine mem_intercalate_of_mem (List.mem_map.2 ⟨_, hmember, rfl⟩) ?_
  exact List.mem_append_right _ (List.mem_append_right _ h)

/-! ### Layouts -/

theorem MoreItems.flatMap {item : List Char → α → Prop} {chars : α → List Char} {as : List α}
    (h : ∀ a ∈ as, item (chars a) a) :
    MoreItems item (as.flatMap fun a => spaced.comma.toList ++ chars a) as := by
  induction as with
  | nil => exact .done Gap.nil
  | cons a as ih =>
    rw [List.flatMap_cons]
    exact .next Gap.nil Gap.single (h a List.mem_cons_self)
      (ih fun b hb => h b (List.mem_cons_of_mem a hb))

/-- A rendered list is a text of the list. -/
theorem listText_chars {item : List Char → α → Prop} {toJson : α → Json} {as : List α}
    (h : ∀ a ∈ as, item (spaced.chars (toJson a)) a) :
    ListText item (spaced.chars (.array (as.map toJson))) as := by
  rw [chars_array, List.map_map]
  cases as with
  | nil => exact .nil Gap.nil
  | cons a as =>
    have more := MoreItems.flatMap fun b hb => h b (List.mem_cons_of_mem a hb)
    have := ListText.cons Gap.nil (h a List.mem_cons_self) more
    simpa [intercalate_cons, List.flatMap_map] using this

/-- The members of an object with their values as text. -/
def memberTexts (members : List (String × Json)) : List (String × List Char) :=
  members.map fun member => (member.1, spaced.chars member.2)

theorem memberTexts_cons (member : String × Json) (members : List (String × Json)) :
    memberTexts (member :: members) = (member.1, spaced.chars member.2) :: memberTexts members :=
  rfl

/-- A member with the text of its value, and what stands behind the colon. -/
def Style.layMember (after : List Char) (member : String × List Char) : List Char :=
  style.stringChars member.1.toList ++ ':' :: (after ++ member.2)

section Layouts

variable {lead next last after : List Char}

theorem moreMembers_of_gaps (hnext : Gap next) (hlast : Gap last) (hafter : Gap after)
    (members : List (String × List Char)) :
    MoreMembers
      (members.flatMap (fun member => ',' :: next ++ style.layMember after member) ++ last)
      members := by
  induction members with
  | nil => exact .done hlast
  | cons member members ih =>
    have more : MoreMembers _ (member :: members) :=
      .next Gap.nil hnext (Spelling.flatMap_charForm style member.1.toList) Gap.nil hafter ih
    rw [List.flatMap_cons]
    simpa [Style.layMember, Style.stringChars] using more

/-- Members between brackets, with blanks behind the opening bracket, the colons and the commas, and
in front of the closing bracket, are a text of the object. -/
theorem objectText_of_gaps (hlead : Gap lead) (hnext : Gap next) (hlast : Gap last)
    (hafter : Gap after) (members : List (String × List Char)) :
    ObjectText ('\x7b' :: (lead ++ ((',' :: next).intercalate
      (members.map (style.layMember after)) ++ (last ++ ['\x7d'])))) members := by
  cases members with
  | nil =>
    have object : ObjectText _ [] := .nil (List.forall_mem_append.2 ⟨hlead, hlast⟩)
    simpa using object
  | cons member members =>
    have object : ObjectText _ (member :: members) :=
      .cons hlead (Spelling.flatMap_charForm style member.1.toList) Gap.nil hafter
        (moreMembers_of_gaps style hnext hlast hafter members)
    simpa [intercalate_cons, List.flatMap_map, Style.layMember, Style.stringChars] using object

end Layouts

/-- A rendered object is a text of the object. -/
theorem objectText_chars (members : List (String × Json)) :
    ObjectText (spaced.chars (.object members)) (memberTexts members) := by
  have members_eq : (memberTexts members).map (spaced.layMember [' ']) =
      members.map spaced.memberChars := by
    rw [memberTexts, List.map_map]
    rfl
  have object := objectText_of_gaps spaced Gap.nil Gap.single Gap.nil Gap.single
    (memberTexts members)
  rw [members_eq] at object
  rw [chars_object]
  exact object

namespace Reader

/-! ### Readers of any value -/

theorem takes_string_chars (s : String) : Takes text (style.chars (.string s)) s := by
  rw [chars_string]
  simpa [Style.stringChars] using takes_text (Spelling.flatMap_charForm style s.toList)

theorem takes_value_string (depth : Nat) (s : String) :
    Takes (value depth) (style.chars (.string s)) (.string s) where
  starts := (takes_string_chars style s).starts
  reads {gap rest} hgap hrest := by
    have hbody := reads_stringBody (Spelling.flatMap_charForm style s.toList) rest
    rw [String.ofList_toList] at hbody
    rw [chars_string, Style.stringChars, List.cons_append, List.append_assoc]
    have hvalue (nested : Option (Reader Json)) : Reads (valueWith nested)
        (gap ++ '"' :: (s.toList.flatMap style.charForm ++ '"' :: rest)) (.string s) rest :=
      reads_byFirst hgap rfl (.bind (reads_skip '"' _) (.bind hbody (.pure _ rest)))
    cases depth with
    | zero => exact hvalue none
    | succ depth => exact hvalue (some (value depth))

/-- The members of an object as they are kept when they are read in this order. -/
def sortedMembers (members read : List (String × Json)) : List (String × Json) :=
  members.foldl (fun read member => insertSorted member.1 member.2 read) read

section Objects

variable {chars : Json → List Char} {depth : Nat} {members : List (String × Json)}
  (h : ∀ member ∈ members, Takes (value depth) (chars member.2) member.2)

include h

theorem folds_value (read : List (String × Json)) :
    Folds (fun read name => do
      colon
      return insertSorted name (← value depth) read) read
      (members.map fun member => (member.1, chars member.2)) (sortedMembers members read) := by
  induction members generalizing read with
  | nil => exact .nil
  | cons member members ih =>
    obtain ⟨first, others⟩ := List.forall_mem_cons.1 h
    refine .cons (fun {before after rest} hbefore hafter hrest => ?_) (ih others _)
    exact .bind (reads_colon hbefore _) (.bind (first.reads hafter hrest) (.pure _ rest))

/-- An object in any layout is taken one level above its members, and keeps them sorted by name. -/
theorem takes_value_of_objectText {text : List Char}
    (object : ObjectText text (members.map fun member => (member.1, chars member.2))) :
    Takes (value (depth + 1)) text (.object (sortedMembers members [])) := by
  obtain ⟨inside, htext, hinside⟩ := reads_object object (folds_value h [])
  rw [htext]
  refine ⟨⟨'\x7b', _, rfl, rfl, by decide⟩, fun {gap rest} hgap _ => ?_⟩
  simp only [List.cons_append, List.append_assoc, List.nil_append]
  exact reads_byFirst hgap rfl
    (.bind ((hinside rest).enclosed (reads_endObject Gap.nil rest)) (.pure _ rest))

end Objects

end Reader

/-! ### ASCII -/

theorem ascii_intercalate {separator : List Char} (hs : Ascii separator) {parts : List (List Char)}
    (h : ∀ part ∈ parts, Ascii part) : Ascii (separator.intercalate parts) := by
  intro c hc
  rcases mem_intercalate hc with hc | ⟨part, hpart, hc⟩
  · exact hs c hc
  · exact h part hpart c hc

theorem mem_chars_integer {n : Int} {c : Char} (h : c ∈ spaced.chars (.integer n)) :
    c = '-' ∨ Reader.isDigit c = true := by
  rw [chars_integer] at h
  obtain ⟨k, ⟨-, htext⟩ | ⟨-, -, htext⟩⟩ := Reader.toList_toString_cases n
  · rw [htext] at h
    exact .inr (Reader.isDigit_of_mem_toDigits h)
  · rw [htext] at h
    exact (List.mem_cons.1 h).imp_right Reader.isDigit_of_mem_toDigits

theorem ascii_chars_integer (n : Int) : Ascii (spaced.chars (.integer n)) := by
  intro c hc
  rcases mem_chars_integer hc with rfl | hdigit
  · decide
  · simp only [Reader.isDigit, Bool.and_eq_true, decide_eq_true_eq] at hdigit
    have high : c.toNat ≤ '9'.toNat := hdigit.2
    have code : '9'.toNat = 57 := rfl
    omega

theorem ascii_chars_string (s : String) : Ascii (spaced.chars (.string s)) := by
  rw [chars_string]
  exact ascii_stringChars rfl s.toList

theorem ascii_comma : Ascii spaced.comma.toList := .cons (by decide) (.cons (by decide) nofun)

theorem ascii_colon : Ascii spaced.colon.toList := .cons (by decide) (.cons (by decide) nofun)

theorem ascii_chars_array {items : List Json} (h : ∀ item ∈ items, Ascii (spaced.chars item)) :
    Ascii (spaced.chars (.array items)) := by
  rw [chars_array]
  refine .cons (by decide) (.append (ascii_intercalate ascii_comma fun part hpart => ?_)
    (.cons (by decide) nofun))
  obtain ⟨item, hitem, rfl⟩ := List.mem_map.1 hpart
  exact h item hitem

theorem ascii_chars_object {members : List (String × Json)}
    (h : ∀ member ∈ members, Ascii (spaced.chars member.2)) :
    Ascii (spaced.chars (.object members)) := by
  rw [chars_object]
  refine .cons (by decide) (.append (ascii_intercalate ascii_comma fun part hpart => ?_)
    (.cons (by decide) nofun))
  obtain ⟨member, hmember, rfl⟩ := List.mem_map.1 hpart
  exact (ascii_stringChars rfl _).append (.append ascii_colon (h member hmember))

end ModelShelf.Json
