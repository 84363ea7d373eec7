import ModelShelf.Number.Binary64
import ModelShelf.Text.Quoted

/-!
What a reader found where it expected something else, and the sentences that report it. The
sentences are shared by the document formats; how an empty value and a floating-point number are
called is a matter of the format.
-/

namespace ModelShelf.Text

open Number

/-- A value that was not expected. -/
inductive Found where
  | nothing
  | boolean (value : Bool)
  | integer (value : Int)
  /-- An integer of more than 64 bits. -/
  | wideInteger (value : Int)
  | float (value : Binary64)
  | string (value : String)
  | sequence
  | map
deriving DecidableEq, Repr

/-- How a format calls an empty value and spells a floating-point number. -/
structure FoundStyle where
  nothing : String
  float : Binary64 → String

def Found.describe (style : FoundStyle) : Found → String
  | .nothing => style.nothing
  | .boolean b => "boolean `" ++ (if b then "true" else "false") ++ "`"
  | .integer n => "integer `" ++ toString n ++ "`"
  | .wideInteger n =>
    "integer `" ++ toString n ++ "` as " ++ if n < 0 then "i128" else "u128"
  | .float x => "floating point `" ++ style.float x ++ "`"
  | .string s => "string " ++ quoted s
  | .sequence => "sequence"
  | .map => "map"

/-- Why a well-formed document is not what a reader wants. -/
inductive Mismatch where
  | type (found : Found) (expected : String)
  | value (found : Found) (expected : String)
  | length (actual : Nat) (expected : String)
  | variant (name : String) (choices : List String)
  | missingField (name : String)
  | duplicateField (name : String)
  | other (text : String)
deriving DecidableEq, Repr

def Mismatch.message (style : FoundStyle) : Mismatch → String
  | .type found expected =>
    "invalid type: " ++ found.describe style ++ ", expected " ++ expected
  | .value found expected =>
    "invalid value: " ++ found.describe style ++ ", expected " ++ expected
  | .length n expected => "invalid length " ++ toString n ++ ", expected " ++ expected
  | .variant name choices =>
    "unknown variant `" ++ name ++ "`, expected one of " ++
      ", ".intercalate (choices.map fun c => "`" ++ c ++ "`")
  | .missingField name => "missing field `" ++ name ++ "`"
  | .duplicateField name => "duplicate field `" ++ name ++ "`"
  | .other text => text

end ModelShelf.Text
