import ModelShelf.Error
import ModelShelf.Signature.Basic

/-!
What a command prints: lines with a few colours, and for a failure the chain of its causes.
-/

namespace ModelShelf

/-- Whether colours are written. -/
structure Palette where
  isColored : Bool

namespace Palette

/-- A text in a colour, given by its code. -/
def paint (p : Palette) (code text : String) : String :=
  if p.isColored then "\x1b[" ++ code ++ "m" ++ text ++ "\x1b[0m" else text

def title (p : Palette) : String → String := p.paint "1;36"
def faint (p : Palette) : String → String := p.paint "90"
def done (p : Palette) : String → String := p.paint "32"
def warning (p : Palette) : String → String := p.paint "33"

/-- The number of characters under a title, and the width of the names of fields. -/
def ruleWidth : Nat := 60
def nameWidth : Nat := 18

def header (p : Palette) (title : String) : List String :=
  [p.title title, p.faint (String.ofList (List.replicate ruleWidth '='))]

/-- A field with its name, and a dash for a missing value. -/
def field (p : Palette) (name : String) (value : Option String) : String :=
  let label := name ++ ":"
  let padding := String.ofList (List.replicate (nameWidth - label.length) ' ')
  p.faint (label ++ padding) ++ " " ++ value.getD "-"

end Palette

/-- An error and the errors behind it. -/
structure Failure where
  message : String
  causes : List String
deriving DecidableEq, Repr

namespace Failure

/-- The errors behind an error of the library. -/
def behind : Error → List String
  | .schema fault => [fault.message]
  | .file fault => [fault.message]
  | _ => []

def ofError (e : Error) : Failure := ⟨e.message, behind e⟩

/-- An error of the library behind a sentence that says what was being done. -/
def within (context : String) (e : Error) : Failure := ⟨context, e.message :: behind e⟩

/-- A text whose lines after the first are indented. -/
def indented (lead blanks text : String) : List String :=
  match text.splitOn "\n" with
  | [] => [lead]
  | first :: rest => (lead ++ first) :: rest.map (blanks ++ ·)

/-- The causes, numbered if there is more than one. -/
def causeLines : List String → List String
  | [] => []
  | [cause] => indented "    " "    " cause
  | causes =>
    causes.zipIdx.flatMap fun (cause, n) =>
      let number := toString n
      let padding := String.ofList (List.replicate (5 - number.length) ' ')
      indented (padding ++ number ++ ": ") "       " cause

def lines (f : Failure) : List String :=
  let head := ("Error: " ++ f.message).splitOn "\n"
  if f.causes.isEmpty then head else head ++ ["", "Caused by:"] ++ causeLines f.causes

end Failure

/-- What a command printed, and how it failed, if it did. -/
structure Report where
  output : String
  failure : Option Failure
deriving DecidableEq, Repr

namespace Report

def ofLines (lines : List String) : Report := ⟨String.join (lines.map (· ++ "\n")), none⟩

def failed (f : Failure) : Report := ⟨"", some f⟩

/-- A report whose lines follow others. -/
def after (lines : List String) (r : Report) : Report :=
  { r with output := (ofLines lines).output ++ r.output }

def ofExcept (r : Except Failure Report) : Report :=
  match r with
  | .ok report => report
  | .error f => .failed f

end Report

end ModelShelf
