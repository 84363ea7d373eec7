import ModelShelf.Yaml.Token

/-!
The nodes of a document as they are written: scalars with their style, sequences and mappings,
each with its tag and the number of its anchor, and aliases. A text without a document has an
absent node; where a text is malformed, a broken node stands for what could not be read.
-/

namespace ModelShelf.Yaml

/-- What may be written in front of a node. -/
structure Properties where
  anchor : Option Nat
  tag : Option String
deriving DecidableEq, Repr

def Properties.none : Properties := ⟨.none, .none⟩

/-- A node of a document as it is written. -/
inductive Node where
  | scalar (place : Mark) (properties : Properties) (style : ScalarStyle) (text : String)
  | sequence (place : Mark) (properties : Properties) (items : List Node)
  | mapping (place : Mark) (properties : Properties) (entries : List (Node × Node))
  | reference (place : Mark) (anchor : Nat)
  | absent (place : Mark)
  | broken (fault : Fault)
deriving Repr

namespace Node

/-- A scalar that is left out. -/
def empty (place : Mark) : Node := .scalar place Properties.none .plain ""

def anchor? : Node → Option Nat
  | .scalar _ p _ _ | .sequence _ p _ | .mapping _ p _ => p.anchor
  | .reference .. | .absent _ | .broken _ => none

mutual

/-- The nodes with an anchor, in the order in which they begin. -/
def anchored (node : Node) : List (Nat × Node) :=
  let self := (node.anchor?.map fun n => (n, node)).toList
  match node with
  | .sequence _ _ items => self ++ anchoredItems items
  | .mapping _ _ entries => self ++ anchoredEntries entries
  | .scalar .. | .reference .. | .absent _ | .broken _ => self

def anchoredItems : List Node → List (Nat × Node)
  | [] => []
  | item :: rest => anchored item ++ anchoredItems rest

def anchoredEntries : List (Node × Node) → List (Nat × Node)
  | [] => []
  | (key, value) :: rest => anchored key ++ anchored value ++ anchoredEntries rest

end

mutual

/-- The number of beginnings and ends in a node. -/
def size : Node → Nat
  | .scalar .. | .reference .. | .absent _ => 1
  | .sequence _ _ items => sizeItems items + 2
  | .mapping _ _ entries => sizeEntries entries + 2
  | .broken _ => 0

def sizeItems : List Node → Nat
  | [] => 0
  | item :: rest => size item + sizeItems rest

def sizeEntries : List (Node × Node) → Nat
  | [] => 0
  | (key, value) :: rest => size key + size value + sizeEntries rest

end

mutual

/-- Where a node breaks off. -/
def fault? : Node → Option Fault
  | .sequence _ _ items => faultInItems? items
  | .mapping _ _ entries => faultInEntries? entries
  | .broken fault => some fault
  | .scalar .. | .reference .. | .absent _ => none

def faultInItems? : List Node → Option Fault
  | [] => none
  | item :: rest => (fault? item).or (faultInItems? rest)

def faultInEntries? : List (Node × Node) → Option Fault
  | [] => none
  | (key, value) :: rest => ((fault? key).or (fault? value)).or (faultInEntries? rest)

end

end Node

/-- The first document of a text. -/
structure Document where
  root : Node
  /-- What is malformed at the end of the document. -/
  ending : Option Fault
  /-- Whether anything but comments follows the document. -/
  isFollowed : Bool

end ModelShelf.Yaml
