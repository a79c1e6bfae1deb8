import Coap.Block

/-!
Progress of block-wise transfers, one report a block, and a feed that keeps the newest reports for each of its
receivers.
-/
namespace Coap

inductive Direction
  /-- A request payload on its way to the server. -/
  | upload
  /-- A response payload on its way to the client. -/
  | download
  deriving DecidableEq, Repr

structure Progress where
  direction : Direction
  number : UInt32
  size : BlockSize
  /-- Bytes transferred so far, this block included. -/
  bytes : Nat
  /-- The size of the whole payload where it is known. -/
  total : Option Nat
  last : Bool
  deriving DecidableEq, Repr

namespace Progress

/-- A share in percent, at most 100; of nothing, everything has been transferred. -/
def share (bytes total : Nat) : Float :=
  if total = 0 then 100.0
  else
    let p := bytes.toUInt64.toFloat * 100.0 / total.toUInt64.toFloat
    if p < 100.0 then p else 100.0

def percent (p : Progress) : Option Float := p.total.map (share p.bytes)

/-- The blocks of the whole payload at the current size, at least one. -/
def totalBlocks (p : Progress) : Option Nat :=
  p.total.map fun total => max 1 ((total + p.size.bytes - 1) / p.size.bytes)

end Progress

/-- All reports since the client connected. -/
structure Feed where
  reports : Array Progress := #[]

/-- One reader of a feed: the number of reports that it has seen or missed. -/
structure FeedReceiver where
  position : Nat

namespace Feed

/-- The number of reports that a receiver can fall behind. -/
def capacity : Nat := 64

def publish (f : Feed) (p : Progress) : Feed := { reports := f.reports.push p }

/-- A receiver of the reports still to come. -/
def subscribe (f : Feed) : FeedReceiver := { position := f.reports.size }

/-- How many reports the receiver has missed, those it still gets, and the receiver afterwards. -/
def drain (f : Feed) (r : FeedReceiver) : Nat × List Progress × FeedReceiver :=
  let start := max r.position (f.reports.size - capacity)
  (start - r.position, (f.reports.extract start f.reports.size).toList, { position := f.reports.size })

end Feed

end Coap
