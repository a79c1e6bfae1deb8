/-!
Freshness of notifications: sequence numbers live on a circle of 2 ^ 24, and the nearer way round decides which of
two is newer.
-/
namespace Coap

/-- Half of the circle of sequence numbers. -/
def sequenceHalfRange : Nat := 1 <<< 23

def isFresher (previous candidate : UInt32) : Bool :=
  let p := previous.toNat
  let c := candidate.toNat
  (p < c && c - p < sequenceHalfRange) || (c < p && sequenceHalfRange < p - c)

end Coap
