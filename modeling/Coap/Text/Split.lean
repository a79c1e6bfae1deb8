/-!
Cutting text at marks: once at the first or the last place, or at every separator. Nothing is lost but the
marks.
-/
namespace Coap.Text

/-- The text before and after the first occurrence of `mark`. -/
def cutFirst (mark : List Char) : List Char → Option (List Char × List Char)
  | [] => if mark.isEmpty then some ([], []) else none
  | c :: r =>
    if mark.isPrefixOf (c :: r) then some ([], (c :: r).drop mark.length)
    else (cutFirst mark r).map fun (a, b) => (c :: a, b)

/-- The text before and after the last occurrence of `mark`. -/
def cutLast (mark : Char) : List Char → Option (List Char × List Char)
  | [] => none
  | c :: r =>
    match cutLast mark r with
    | some (a, b) => some (c :: a, b)
    | none => if c = mark then some ([], r) else none

/-- The parts between separators, one more than there are separators. -/
def fields (separator : Char) : List Char → List (List Char)
  | [] => [[]]
  | c :: r =>
    if c = separator then [] :: fields separator r
    else
      match fields separator r with
      | [] => [[c]]
      | f :: fs => (c :: f) :: fs

end Coap.Text
