/-!
Taking texts apart: at their ends, and around the first or last place of a mark.
-/

namespace ModelShelf.Text

/-- What follows `front` in a list that starts with it. -/
def stripPrefix? [BEq α] (front s : List α) : Option (List α) :=
  if front.isPrefixOf s then some (s.drop front.length) else none

/-- What precedes `back` in a list that ends with it. -/
def stripSuffix? [BEq α] (back s : List α) : Option (List α) :=
  if back.isSuffixOf s then some (s.take (s.length - back.length)) else none

/-- The list between an opening and a closing part. -/
def between? [BEq α] (opening closing s : List α) : Option (List α) :=
  (stripPrefix? opening s).bind (stripSuffix? closing)

/-- The parts before and after the first place where `mark` stands. -/
def splitFirst? [BEq α] (mark : List α) : List α → Option (List α × List α)
  | [] => if mark.isEmpty then some ([], []) else none
  | x :: rest =>
    match stripPrefix? mark (x :: rest) with
    | some after => some ([], after)
    | none => (splitFirst? mark rest).map fun (before, after) => (x :: before, after)

/-- The parts before and after the last element equal to `mark`. -/
def splitLast? [BEq α] (mark : α) (s : List α) : Option (List α × List α) :=
  match s.reverse.span (fun x => !(x == mark)) with
  | (_, []) => none
  | (after, _ :: before) => some (before.reverse, after.reverse)

/-- The parts between the elements equal to `mark`: one more than there are such elements. -/
def splitAll [BEq α] (mark : α) : List α → List (List α)
  | [] => [[]]
  | x :: rest =>
    if x == mark then [] :: splitAll mark rest
    else
      match splitAll mark rest with
      | [] => [[x]]
      | part :: parts => (x :: part) :: parts

/-- The list without the elements at both ends that satisfy `p`. -/
def trim (p : α → Bool) (s : List α) : List α :=
  ((s.dropWhile p).reverse.dropWhile p).reverse

end ModelShelf.Text
