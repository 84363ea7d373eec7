import ModelShelf.Schema.Json

/-!
Signatures: the schema of a model's inputs and, if it is known, of its outputs. A signature is
stored as a record of texts, each the JSON text of a schema; the record itself may be written as
JSON again. Absent outputs and an empty output schema are different things.
-/

namespace ModelShelf

/-- The schemas of a model's inputs and outputs. -/
structure Signature where
  inputs : Schema
  outputs : Option Schema
deriving DecidableEq, Repr

/-- The stored form of a signature: the JSON texts of its schemas. -/
structure SignatureTexts where
  inputs : String
  outputs : Option String
deriving DecidableEq, Repr

namespace Signature

/-- The stored form of a signature. -/
def toTexts (signature : Signature) : SignatureTexts :=
  ⟨signature.inputs.toJsonText, signature.outputs.map Schema.toJsonText⟩

/-- Reads the texts of a stored signature, the inputs first. -/
def ofTexts (texts : SignatureTexts) : Result Signature := do
  let inputs ← Schema.ofJsonText texts.inputs
  let outputs ← texts.outputs.mapM Schema.ofJsonText
  return ⟨inputs, outputs⟩

def malformed (reason : String) : Error := .serialization ("malformed signature: " ++ reason)

/-- A member that has to be a text. -/
def textMember (name : String) : Json → Result String
  | .string s => .ok s
  | other =>
    .error (malformed
      ("'" ++ name ++ "' must be a JSON string, got " ++ Json.render Json.compact other))

/-- The texts of a record: inputs are required, outputs may be absent or null. -/
def textsOfJson (value : Json) : Result SignatureTexts := do
  match value with
  | .object _ =>
    let inputs ← match value.get? "inputs" with
      | none => .error (malformed "missing 'inputs'")
      | some member => textMember "inputs" member
    let outputs ← match value.get? "outputs" with
      | none | some .null => pure none
      | some member => some <$> textMember "outputs" member
    return ⟨inputs, outputs⟩
  | _ => .error (malformed "expected an object with an 'inputs' key")

/-- Reads a signature from the JSON value of its stored form. -/
def ofJson (value : Json) : Result Signature := textsOfJson value >>= ofTexts

end Signature

def SignatureTexts.toJson (texts : SignatureTexts) : Json :=
  let outputs := match texts.outputs with
    | none => []
    | some text => [("outputs", .string text)]
  .object ([("inputs", .string texts.inputs)] ++ outputs)

namespace Signature

/-- The text of a signature as JSON. -/
def toJsonText (signature : Signature) : String :=
  Json.render Json.spaced signature.toTexts.toJson

/-- Reads a signature from the JSON text of its stored form. -/
def ofJsonText (text : String) : Result Signature := do
  let value ← (Json.parse text).mapError fun fault => .serialization fault.message
  ofJson value

/-- The text of a signature as it is shown to people. -/
def display (signature : Signature) : String :=
  let outputs := match signature.outputs with
    | some schema => schema.display
    | none => "None"
  "inputs:\n  " ++ signature.inputs.display ++ "\noutputs:\n  " ++ outputs ++ "\n"

end Signature

end ModelShelf
