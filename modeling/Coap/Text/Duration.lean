/-!
Spans of time as text: the number of the largest unit that does not exceed the span, with its exact
decimals and no trailing zeros.
-/
namespace Coap.Text

/-- The digits of `n` behind a decimal point, with `width` places of which trailing zeros are dropped. -/
def fraction (n width : Nat) : List Char :=
  let digits := Nat.toDigits 10 n
  let places := List.replicate (width - digits.length) '0' ++ digits
  let kept := (places.reverse.dropWhile (· == '0')).reverse
  if kept.isEmpty then [] else '.' :: kept

/-- The text of `nanos` counted in a unit of 10 ^ `width` nanoseconds. -/
def inUnit (nanos width : Nat) (unit : String) : String :=
  let scale := Nat.pow 10 width
  toString (nanos / scale) ++ String.ofList (fraction (nanos % scale) width) ++ unit

def duration (nanos : Nat) : String :=
  if 1000000000 ≤ nanos then inUnit nanos 9 "s"
  else if 1000000 ≤ nanos then inUnit nanos 6 "ms"
  else if 1000 ≤ nanos then inUnit nanos 3 "µs"
  else inUnit nanos 0 "ns"

end Coap.Text
