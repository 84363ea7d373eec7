import Mathlib
import ModelShelf.Proofs.Schema.Layout
import ModelShelf.Proofs.Text.Quoted
import ModelShelf.Signature.Basic

/-!
Signatures as they are shown to people. The text of a spec ends where the spec does, and so do those
of a schema and a signature, whatever names they hold: a name is quoted, and the rest is made of
characters that close what stands before them. What is shown therefore tells a signature from every
other one.
-/

namespace ModelShelf

open Text

/-! ### Types and shapes -/

theorem ColumnType.mem_all (t : ColumnType) : t ∈ all := by
  cases t <;> decide

/-- No name of a column type begins with another one. -/
theorem ColumnType.eq_of_name_prefix :
    ∀ a ∈ all, ∀ b ∈ all, a.name.toList <+: b.name.toList → a = b := by
  decide

theorem ColumnType.name_prefixFree : PrefixFree fun t : ColumnType => t.name.toList :=
  prefixFree_of_eq_of_prefix fun a b => eq_of_name_prefix a a.mem_all b b.mem_all

theorem ColumnType.name_begins {type : ColumnType} {c : Char} {s t : List Char}
    (h : type.name.toList ++ s = c :: t) : c.isLower = true := by
  cases type <;>
  · obtain ⟨rfl, -⟩ := List.cons.inj h
    rfl

theorem ElementType.name_inj {a b : ElementType} (h : a.name = b.name) : a = b := by
  have same : parse a.name = parse b.name := by rw [h]
  rw [parse_name, parse_name] at same
  exact Except.ok.inj same

theorem ElementType.quote_not_mem_name (t : ElementType) :
    t.name.toList.all (· != '\'') = true := by
  cases t with
  | datetime unit => cases unit <;> rfl
  | _ => rfl

/-- The name of an element type ends at the quote behind it. -/
theorem ElementType.name_separable :
    Separable (Past (· != '\'')) fun t : ElementType => t.name.toList :=
  separable_of_all (fun _ _ h => name_inj (String.toList_inj.1 h)) quote_not_mem_name

/-- An integer ends before the first character that is neither a sign nor a digit. -/
theorem integer_separable :
    Separable (Past fun c => c == '-' || Json.Reader.isDigit c)
      fun d : Int => (toString d).toList := by
  refine separable_of_all (fun m n h => ?_) fun n => List.all_eq_true.2 fun c hc => ?_
  · exact Int.repr_inj.1 (String.toList_inj.1 h)
  · rcases Json.mem_chars_integer (n := n) hc with rfl | hdigit
    · rfl
    · rw [hdigit, Bool.or_true]

theorem integer_begins {d : Int} {c : Char} {s t : List Char}
    (h : (toString d).toList ++ s = c :: t) : c = '-' ∨ Json.Reader.isDigit c = true := by
  cases hd : (toString d).toList with
  | nil =>
    obtain ⟨k, ⟨-, htext⟩ | ⟨-, -, htext⟩⟩ := Json.Reader.toList_toString_cases d
    · exact absurd (htext.symm.trans hd) Nat.toDigits_ne_nil
    · exact absurd (htext.symm.trans hd) (List.cons_ne_nil _ _)
  | cons first more =>
    rw [hd, List.cons_append] at h
    obtain ⟨rfl, -⟩ := List.cons.inj h
    have mem : first ∈ (toString d).toList := by
      rw [hd]
      exact List.mem_cons_self
    exact Json.mem_chars_integer (n := d) mem

/-- The text of a shape behind its opening parenthesis, with both parentheses that close it. -/
def shapeChars (shape : List Int) : List Char :=
  [',', ' '].intercalate (shape.map fun d => (toString d).toList) ++ [')', ')']

theorem shapeChars_prefixFree : PrefixFree shapeChars := by
  refine integer_separable.intercalate (fun _ => past_cons rfl) (fun _ => past_cons rfl)
    (fun s t h => ?apart) fun d s t h => ?first
  case apart => exact absurd (List.cons.inj h).1 (by decide)
  case first => exact absurd (integer_begins h) (by decide)

/-! ### Specs -/

namespace Spec

/-- What a spec is besides its name. -/
def kind : Spec → ColumnType ⊕ ElementType × List Int
  | .column c => .inl c.type
  | .tensor t => .inr (t.element, t.shape)

theorem eq_of_name_of_kind {a b : Spec} (hname : a.name = b.name) (hkind : a.kind = b.kind) :
    a = b := by
  cases a with
  | column c =>
    cases b with
    | column c' =>
      obtain ⟨type, name⟩ := c
      obtain ⟨type', name'⟩ := c'
      cases hname
      cases hkind
      rfl
    | tensor t => cases hkind
  | tensor t =>
    cases b with
    | column c => cases hkind
    | tensor t' =>
      obtain ⟨element, shape, name, valid⟩ := t
      obtain ⟨element', shape', name', valid'⟩ := t'
      cases hname
      cases hkind
      rfl

/-- The text of a name in front of what it names. -/
def labelChars (name : Option String) : List Char :=
  name.elim [] fun name => quotedChars name.toList ++ [':', ' ']

/-- The text of a tensor's type and shape. -/
def tensorChars (tensor : ElementType × List Int) : List Char :=
  "Tensor('".toList ++ (tensor.1.name.toList ++ ("', (".toList ++ shapeChars tensor.2))

def kindChars : ColumnType ⊕ ElementType × List Int → List Char :=
  Sum.elim (fun type => type.name.toList) tensorChars

theorem toList_display (spec : Spec) :
    spec.display.toList = labelChars spec.name ++ kindChars spec.kind := by
  have labelled (name : String) (rest : List Char) :
      (quoted name).toList ++ (": ".toList ++ rest) = labelChars (some name) ++ rest := by
    rw [quoted, String.toList_ofList]
    exact (List.append_assoc ..).symm
  cases spec with
  | column c =>
    obtain ⟨type, name⟩ := c
    cases name with
    | none => simp [display, Spec.name, labelChars, kind, kindChars]
    | some name =>
      simp only [display, Spec.name, String.toList_append, List.append_assoc, labelled]
      rfl
  | tensor t =>
    obtain ⟨element, shape, name, valid⟩ := t
    cases name with
    | none =>
      simp only [display, Spec.name, String.toList_append, String.toList_intercalate, List.map_map,
        List.append_assoc]
      rfl
    | some name =>
      simp only [display, Spec.name, String.toList_append, String.toList_intercalate, List.map_map,
        List.append_assoc, labelled]
      rfl

theorem labelChars_separable : Separable (fun s => ∀ t, s ≠ '"' :: t) labelChars := by
  have label : PrefixFree fun name : String => quotedChars name.toList ++ [':', ' '] :=
    (quotedChars_prefixFree.comp fun _ _ => String.toList_inj.1).before fun _ => trivial
  intro a b s t hs ht heq
  exact label.option [] ⟨trivial, fun _ _ => hs _⟩ ⟨trivial, fun _ _ => ht _⟩ heq

theorem tensorChars_prefixFree : PrefixFree tensorChars :=
  (ElementType.name_separable.append (shapeChars_prefixFree.behind _) fun _ _ _ =>
    past_cons rfl).behind _

/-- The names of column types begin with small letters, the texts of tensors with a capital one. -/
theorem kindChars_prefixFree : PrefixFree kindChars :=
  ColumnType.name_prefixFree.sum tensorChars_prefixFree fun _ _ _ _ h =>
    absurd (ColumnType.name_begins h) (by decide)

theorem kindChars_begins {kind : ColumnType ⊕ ElementType × List Int} {c : Char} {s t : List Char}
    (h : kindChars kind ++ s = c :: t) : c.isAlpha = true := by
  cases kind with
  | inl type => simp [Char.isAlpha, ColumnType.name_begins h]
  | inr tensor =>
    obtain ⟨rfl, -⟩ := List.cons.inj h
    rfl

theorem display_prefixFree : PrefixFree fun spec : Spec => spec.display.toList := by
  have both := labelChars_separable.append kindChars_prefixFree fun kind s _ t h =>
    absurd (kindChars_begins h) (by decide)
  have parts : Function.Injective fun spec : Spec => (spec.name, spec.kind) := fun a b h =>
    eq_of_name_of_kind (Prod.mk.inj h).1 (Prod.mk.inj h).2
  simpa only [toList_display] using both.comp parts

theorem display_begins {spec : Spec} {c : Char} {s t : List Char}
    (h : spec.display.toList ++ s = c :: t) : c = '"' ∨ c.isAlpha = true := by
  rw [toList_display, List.append_assoc] at h
  cases hname : spec.name with
  | none =>
    rw [hname] at h
    exact .inr (kindChars_begins h)
  | some name =>
    rw [hname] at h
    exact .inl (List.cons.inj h).1.symm

end Spec

/-! ### Schemas and signatures -/

theorem toList_bracketed (items : List String) : (bracketed items).toList =
    '[' :: ([',', ' '].intercalate (items.map String.toList) ++ [']']) := by
  rw [bracketed, String.toList_append, String.toList_append, String.toList_intercalate]
  rfl

/-- A list of specs in brackets ends at its own bracket, whichever specs it mixes. -/
theorem listed_prefixFree :
    PrefixFree fun specs : List Spec => (bracketed (specs.map Spec.display)).toList := by
  have items : PrefixFree fun specs : List Spec =>
      [',', ' '].intercalate (specs.map fun spec => spec.display.toList) ++ [']'] := by
    refine Spec.display_prefixFree.intercalate (fun _ => trivial) (fun _ => trivial)
      (fun s t h => ?apart) fun spec s t h => ?first
    case apart => exact absurd (List.cons.inj h).1 (by decide)
    case first => exact absurd (Spec.display_begins h) (by decide)
  simp only [toList_bracketed, List.map_map]
  exact items.behind ['[']

/-- A name that looks like the specs of two columns. -/
example : bracketed ([.column ⟨.long, some "x\": long, \"y"⟩].map Spec.display) ≠
    bracketed ([.column ⟨.long, some "x"⟩, .column ⟨.long, some "y"⟩].map Spec.display) := by
  decide

theorem Schema.display_prefixFree : PrefixFree fun schema : Schema => schema.display.toList := by
  have parts : Function.Injective Schema.specs := by
    rintro ⟨specs, naming, kinds⟩ schema rfl
    rfl
  exact listed_prefixFree.comp parts

namespace Signature

theorem toList_display (signature : Signature) : signature.display.toList =
    "inputs:\n  ".toList ++ (signature.inputs.display.toList ++ ("\noutputs:\n  ".toList ++
      (signature.outputs.elim "None".toList (fun schema => schema.display.toList) ++ ['\n']))) := by
  obtain ⟨inputs, outputs⟩ := signature
  cases outputs <;> simp [display]

/-- The outputs of a signature are absent or shown as a schema, and a line break ends them. -/
theorem outputs_prefixFree : PrefixFree fun outputs : Option Schema =>
    outputs.elim "None".toList (fun schema => schema.display.toList) ++ ['\n'] := by
  have bracket (schema : Schema) (s t : List Char) :
      "None".toList ++ s ≠ schema.display.toList ++ t := by
    rw [Schema.display, toList_bracketed]
    intro h
    exact absurd (List.cons.inj h).1 (by decide)
  exact (Schema.display_prefixFree.option "None".toList).before fun s =>
    ⟨trivial, fun schema t => bracket schema _ t⟩

theorem display_prefixFree : PrefixFree fun signature : Signature => signature.display.toList := by
  have both := (Schema.display_prefixFree.append (outputs_prefixFree.behind "\noutputs:\n  ".toList)
    fun _ _ _ => trivial).behind "inputs:\n  ".toList
  have parts : Function.Injective fun signature : Signature =>
      (signature.inputs, signature.outputs) := by
    rintro ⟨inputs, outputs⟩ ⟨inputs', outputs'⟩ h
    cases h
    rfl
  simpa only [toList_display] using both.comp parts

/-- The text that is shown of a signature tells it from every other one, whatever names its specs
have. -/
theorem display_eq_display_iff (a b : Signature) : a.display = b.display ↔ a = b := by
  rw [← String.toList_inj]
  exact display_prefixFree.inj

end Signature

end ModelShelf
