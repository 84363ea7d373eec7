import ModelShelf.Proofs.Schema.RoundTrip
import ModelShelf.Signature.Basic

/-!
Every stored form of a signature gives the signature back: the record of its texts, the JSON value
of that record, with absent outputs left out or null, and the JSON text. The texts of the schemas
are themselves texts inside a JSON text; the reader of any JSON value undoes the outer escapes, and
the reader of schemas the inner ones.
-/

namespace ModelShelf

open Json Json.Reader

/-- The JSON value of texts is an object whose members are texts, in the order in which a reader
keeps them. -/
theorem SignatureTexts.toJson_eq_object (texts : SignatureTexts) :
    ∃ members, texts.toJson = .object members ∧ sortedMembers members [] = members ∧
      ∀ member ∈ members, ∃ s, member.2 = .string s := by
  obtain ⟨inputs, outputs⟩ := texts
  cases outputs with
  | none => exact ⟨_, rfl, rfl, List.forall_mem_singleton.2 ⟨inputs, rfl⟩⟩
  | some outputs =>
    refine ⟨_, rfl, ?_, List.forall_mem_cons.2
      ⟨⟨inputs, rfl⟩, List.forall_mem_singleton.2 ⟨outputs, rfl⟩⟩⟩
    have distinct : "outputs" ≠ "inputs" := by decide
    have later : ¬ "outputs" < "inputs" := by decide
    simp only [sortedMembers, List.singleton_append, List.foldl_cons, List.foldl_nil, insertSorted,
      distinct, later, ↓reduceIte]

theorem SignatureTexts.takes_toJson (texts : SignatureTexts) (depth : Nat) :
    Takes (value (depth + 1)) (spaced.chars texts.toJson) texts.toJson := by
  obtain ⟨members, hobject, hsorted, strings⟩ := texts.toJson_eq_object
  have values : ∀ member ∈ members,
      Takes (value depth) (spaced.chars member.2) member.2 := by
    intro member hmember
    obtain ⟨s, hs⟩ := strings member hmember
    rw [hs]
    exact takes_value_string spaced depth s
  have object := takes_value_of_objectText values (objectText_chars members)
  rwa [hsorted, ← hobject] at object

theorem SignatureTexts.parse_toJson (texts : SignatureTexts) :
    Json.parse (render spaced texts.toJson) = .ok texts.toJson := by
  have h : Takes (value greatestDepth) (spaced.chars texts.toJson) texts.toJson :=
    texts.takes_toJson (greatestDepth - 1)
  exact h.run

namespace Signature

theorem textsOfJson_toJson (texts : SignatureTexts) : textsOfJson texts.toJson = .ok texts := by
  obtain ⟨inputs, outputs⟩ := texts
  cases outputs <;> rfl

/-- Outputs that are written as a member in any case, with null for absent ones. -/
theorem textsOfJson_ofOption (texts : SignatureTexts) :
    textsOfJson (.object [("inputs", .string texts.inputs), ("outputs", .ofOption texts.outputs)]) =
      .ok texts := by
  obtain ⟨inputs, outputs⟩ := texts
  cases outputs <;> rfl

theorem ofTexts_toTexts (s : Signature) : ofTexts s.toTexts = .ok s := by
  obtain ⟨inputs, outputs⟩ := s
  cases outputs with
  | none =>
    simp only [ofTexts, toTexts, Schema.ofJsonText_toJsonText]
    rfl
  | some outputs =>
    simp only [ofTexts, toTexts, Schema.ofJsonText_toJsonText, Option.map_some, Option.mapM_some]
    rfl

theorem ofJson_toJson (s : Signature) : ofJson s.toTexts.toJson = .ok s := by
  rw [ofJson, textsOfJson_toJson]
  exact ofTexts_toTexts s

theorem ofJson_ofOption (s : Signature) :
    ofJson (.object [("inputs", .string s.toTexts.inputs),
      ("outputs", .ofOption s.toTexts.outputs)]) = .ok s := by
  rw [ofJson, textsOfJson_ofOption]
  exact ofTexts_toTexts s

theorem ofJsonText_toJsonText (s : Signature) : ofJsonText s.toJsonText = .ok s := by
  rw [ofJsonText, toJsonText, SignatureTexts.parse_toJson]
  exact ofJson_toJson s

theorem toJsonText_injective {s t : Signature} (h : s.toJsonText = t.toJsonText) : s = t := by
  have back : ofJsonText s.toJsonText = .ok t := h.symm ▸ ofJsonText_toJsonText t
  exact Except.ok.inj ((ofJsonText_toJsonText s).symm.trans back)

/-- A signature comes back from its texts, from the JSON value of the texts, with absent outputs
left out or null, and from the JSON text. Absent outputs are never written as a schema is, be it an
empty one. -/
theorem carried_back (s : Signature) :
    ofTexts s.toTexts = .ok s ∧
    ofJsonText s.toJsonText = .ok s ∧
    ofJson s.toTexts.toJson = .ok s ∧
    ofJson (.object [("inputs", .string s.toTexts.inputs),
      ("outputs", .ofOption s.toTexts.outputs)]) = .ok s ∧
    ∀ outputs : Schema, toTexts ⟨s.inputs, none⟩ ≠ toTexts ⟨s.inputs, some outputs⟩ ∧
      toJsonText ⟨s.inputs, none⟩ ≠ toJsonText ⟨s.inputs, some outputs⟩ := by
  refine ⟨ofTexts_toTexts s, ofJsonText_toJsonText s, ofJson_toJson s, ofJson_ofOption s,
    fun outputs => ⟨fun h => ?_, fun h => ?_⟩⟩
  · cases congrArg SignatureTexts.outputs h
  · cases congrArg Signature.outputs (toJsonText_injective h)

end Signature

end ModelShelf
