/-!
Texts as bytes. Decoding accepts exactly the bytes that encode a text; for other bytes the fault
says where the first ill-formed sequence starts and how long it is, or that the bytes end inside
a sequence.
-/

namespace ModelShelf.Text

/-- The bytes that a list of characters takes. -/
def byteCount (s : List Char) : Nat := s.foldr (fun c n => c.utf8Size + n) 0

/-- Why bytes are not a text. -/
structure Utf8Fault where
  /-- The number of bytes before the first ill-formed sequence. -/
  validUpTo : Nat
  /-- The length of that sequence, absent if the bytes end inside it. -/
  badLength : Option Nat
deriving DecidableEq, Repr

def Utf8Fault.message (fault : Utf8Fault) : String :=
  match fault.badLength with
  | some n =>
    "invalid utf-8 sequence of " ++ toString n ++ " bytes from index " ++ toString fault.validUpTo
  | none => "incomplete utf-8 byte sequence from index " ++ toString fault.validUpTo

def isContinuation (b : UInt8) : Bool := 0x80 ≤ b && b ≤ 0xBF

/-- The second bytes that may follow a first byte of a sequence of three or four. -/
def secondByteAllowed (first second : UInt8) : Bool :=
  if first = 0xE0 then 0xA0 ≤ second && second ≤ 0xBF
  else if first = 0xED then 0x80 ≤ second && second ≤ 0x9F
  else if first = 0xF0 then 0x90 ≤ second && second ≤ 0xBF
  else if first = 0xF4 then 0x80 ≤ second && second ≤ 0x8F
  else isContinuation second

/-- The number of bytes in the sequence that a byte starts, zero if it starts none. -/
def sequenceLength (first : UInt8) : Nat :=
  if first < 0x80 then 1
  else if 0xC2 ≤ first && first ≤ 0xDF then 2
  else if 0xE0 ≤ first && first ≤ 0xEF then 3
  else if 0xF0 ≤ first && first ≤ 0xF4 then 4
  else 0

/-- The fault of one sequence, if it has one. The outer option tells whether there is a fault, the
inner one is its length. -/
def sequenceFault (first : UInt8) (rest : List UInt8) : Option (Option Nat) :=
  match sequenceLength first, rest with
  | 0, _ => some (some 1)
  | 1, _ => none
  | _, [] => some none
  | 2, b :: _ => if isContinuation b then none else some (some 1)
  | n, b :: rest =>
    if !secondByteAllowed first b then some (some 1)
    else
      match rest with
      | [] => some none
      | c :: rest =>
        if !isContinuation c then some (some 2)
        else if n = 3 then none
        else
          match rest with
          | [] => some none
          | d :: _ => if isContinuation d then none else some (some 3)

/-- The first fault of the bytes from `index` on, where `skip` more bytes belong to a sequence
already examined. -/
def findFault (index skip : Nat) : List UInt8 → Option Utf8Fault
  | [] => none
  | b :: rest =>
    match skip with
    | skip + 1 => findFault (index + 1) skip rest
    | 0 =>
      match sequenceFault b rest with
      | some badLength => some ⟨index, badLength⟩
      | none => findFault (index + 1) (sequenceLength b - 1) rest

/-- The text that the bytes encode. -/
def decodeUtf8 (bytes : ByteArray) : Except Utf8Fault String :=
  match String.fromUTF8? bytes with
  | some text => .ok text
  | none => .error ((findFault 0 0 bytes.toList).getD ⟨0, none⟩)

end ModelShelf.Text
