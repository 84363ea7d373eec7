import ModelShelf.Text.Quoted

/-!
Errors of the library: what went wrong, the text that reports it, and a code that classifies it
for callers that do not read texts.
-/

namespace ModelShelf

open Text

/-- Why column specs do not make a schema, or a name no type. -/
inductive SchemaFault where
  /-- Some specs are named and others are not. -/
  | mixedNaming (names : List (Option String))
  /-- Some specs are columns and others are tensors. -/
  | mixedKinds
  /-- A tensor shape has no dimension, or one that is no size. -/
  | invalidShape (shape : List Int) (reason : String)
  /-- A name stands for no type. -/
  | unsupportedType (name : String)
deriving DecidableEq, Repr

/-- The text that reports a fault. -/
def SchemaFault.message : SchemaFault → String
  | .mixedNaming names =>
    "Creating Schema with a combination of named and unnamed columns is not supported. " ++
      "Got names " ++ bracketed (names.map quotedOption)
  | .mixedKinds =>
    "Please choose either TensorSpec or ColSpec to represent the inputs of the model. " ++
      "A schema cannot mix both kinds of column spec."
  | .invalidShape shape reason =>
    "Invalid tensor shape " ++ bracketed (shape.map toString) ++ ": " ++ reason
  | .unsupportedType name => "Unsupported type '" ++ name ++ "'"

/-- Why an operation on files failed. -/
inductive FileFault where
  | noEntry
  | notDirectory
  | isDirectory
  | alreadyThere
  | notEmpty
  | nameTooLong
  | invalidInput
  | notText
  | other (text : String)
deriving DecidableEq, Repr

/-- The text that reports a fault, with the number that systems give it. -/
def FileFault.message : FileFault → String
  | .noEntry => "No such file or directory (os error 2)"
  | .notDirectory => "Not a directory (os error 20)"
  | .isDirectory => "Is a directory (os error 21)"
  | .alreadyThere => "File exists (os error 17)"
  | .notEmpty => "Directory not empty (os error 39)"
  | .nameTooLong => "File name too long (os error 36)"
  | .invalidInput => "file name contained an unexpected NUL byte"
  | .notText => "stream did not contain valid UTF-8"
  | .other text => text

/-- Why an operation of the library failed. -/
inductive Error where
  /-- A schema or a column spec could not be made. -/
  | schema (fault : SchemaFault)
  /-- A sample has an element type that stands for no column type. -/
  | inference (text : String)
  /-- A document is malformed or is not the one that was expected. -/
  | serialization (text : String)
  /-- A manifest, a flavor, a run or an artifact is not there. -/
  | notFound (text : String)
  | alreadyExists (text : String)
  /-- A URI has a scheme that the operation does not take. -/
  | unsupportedUri (text : String)
  | invalidParameter (text : String)
  | file (fault : FileFault)
deriving DecidableEq, Repr

namespace Error

def message : Error → String
  | .schema fault => "Schema error: " ++ fault.message
  | .inference text => "Failed to infer signature: " ++ text
  | .serialization text => "Serialization error: " ++ text
  | .notFound text => text
  | .alreadyExists text => text
  | .unsupportedUri text => text
  | .invalidParameter text => "Invalid parameter: " ++ text
  | .file fault => "I/O error: " ++ fault.message

end Error

/-- The class of an error. -/
inductive ErrorCode where
  | doesNotExist
  | alreadyExists
  | invalidValue
  | internal
deriving DecidableEq, Repr

def ErrorCode.name : ErrorCode → String
  | .doesNotExist => "RESOURCE_DOES_NOT_EXIST"
  | .alreadyExists => "RESOURCE_ALREADY_EXISTS"
  | .invalidValue => "INVALID_PARAMETER_VALUE"
  | .internal => "INTERNAL_ERROR"

def Error.code : Error → ErrorCode
  | .notFound _ => .doesNotExist
  | .alreadyExists _ => .alreadyExists
  | .file _ => .internal
  | .schema _ | .inference _ | .serialization _ | .unsupportedUri _ | .invalidParameter _ =>
    .invalidValue

/-- The answer of an operation that may fail. -/
abbrev Result (α : Type) := Except Error α

end ModelShelf
