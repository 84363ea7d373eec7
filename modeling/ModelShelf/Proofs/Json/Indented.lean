import ModelShelf.Proofs.Json.Rendering

/-!
Objects over several lines. The line ends and blanks between the members are blanks to a reader, so
that an object is read as from one line.
-/

namespace ModelShelf.Json

open Reader (Gap)

theorem gap_newline (depth : Nat) : Gap (newline depth).toList := by
  intro c hc
  rw [newline, String.toList_append] at hc
  rcases List.mem_append.1 hc with hc | hc
  · obtain rfl := List.mem_singleton.1 hc
    rfl
  · rw [String.toList_ofList] at hc
    obtain rfl := List.eq_of_mem_replicate hc
    rfl

theorem toList_block {items : List String} (depth : Nat) (opening closing : String)
    (hne : items ≠ []) : (block depth opening closing items).toList =
      opening.toList ++ ((newline (depth + 1)).toList ++
        ((',' :: (newline (depth + 1)).toList).intercalate (items.map String.toList) ++
          ((newline depth).toList ++ closing.toList))) := by
  have comma : ",".toList = [','] := rfl
  rw [block, if_neg (by simpa using hne)]
  simp [comma]

/-- The characters of a value over several lines. -/
def indentedChars (depth : Nat) (value : Json) : List Char := (renderIndented depth value).toList

theorem indentMembers_eq_map (depth : Nat) (members : List (String × Json)) :
    (indentMembers depth members).map String.toList =
      members.map fun member =>
        compact.layMember [' '] (member.1, indentedChars depth member.2) := by
  induction members with
  | nil => rfl
  | cons member members ih =>
    obtain ⟨name, value⟩ := member
    rw [indentMembers, List.map_cons, ih, List.map_cons]
    simp [Style.layMember, Style.stringText, indentedChars]

/-- An object over several lines is a text of the object. -/
theorem objectText_indented (depth : Nat) (members : List (String × Json)) :
    ObjectText (indentedChars depth (.object members))
      (members.map fun member => (member.1, indentedChars (depth + 1) member.2)) := by
  rw [indentedChars, renderIndented]
  cases members with
  | nil =>
    have object : ObjectText ('\x7b' :: ([] ++ ['\x7d'])) [] := .nil Gap.nil
    simpa [indentMembers, block] using object
  | cons member members =>
    have solid : indentMembers (depth + 1) (member :: members) ≠ [] := List.cons_ne_nil _ _
    have object := objectText_of_gaps compact (gap_newline (depth + 1)) (gap_newline (depth + 1))
      (gap_newline depth) Gap.single
      ((member :: members).map fun member => (member.1, indentedChars (depth + 1) member.2))
    rw [List.map_map] at object
    rw [toList_block depth _ _ solid, indentMembers_eq_map]
    exact object

theorem indentedChars_string (depth : Nat) (s : String) :
    indentedChars depth (.string s) = compact.chars (.string s) := by
  rw [indentedChars, renderIndented, Style.chars, render]

namespace Reader

/-- An object of texts over several lines is read from a document that ends in a line end. -/
theorem parse_indented {members : List (String × Json)}
    (strings : ∀ member ∈ members, ∃ s, member.2 = .string s) :
    Json.parse (renderIndented 0 (.object members) ++ "\n") =
      .ok (.object (sortedMembers members [])) := by
  have values : ∀ member ∈ members,
      Takes (value (greatestDepth - 1)) (indentedChars 1 member.2) member.2 := by
    intro member hmember
    obtain ⟨s, hs⟩ := strings member hmember
    rw [hs, indentedChars_string]
    exact takes_value_string compact _ s
  have object : Takes (value greatestDepth) _ _ :=
    takes_value_of_objectText values (objectText_indented 0 members)
  have ending : Gap ['\n'] := List.forall_mem_singleton.2 rfl
  have reads := object.reads Gap.nil (EndsValue.gap ending .nil)
  rw [List.nil_append, List.append_nil] at reads
  refine Reads.run ?_ ending
  rw [String.toList_append]
  exact reads

end Reader

end ModelShelf.Json
