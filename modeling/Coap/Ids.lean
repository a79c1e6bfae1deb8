import Coap.Wire.Integer

/-!
Message ids and tokens. Ids come from a cursor that wraps after 65535; tokens are a base plus a running count,
written in eight bytes, and repeat only after 2 ^ 64 of them.
-/
namespace Coap

structure MessageIds where
  next : UInt16
  deriving DecidableEq, Repr

/-- The id at the cursor, which then moves on. -/
def MessageIds.take (ids : MessageIds) : UInt16 × MessageIds :=
  (ids.next, { next := ids.next + 1 })

structure Tokens where
  base : UInt64
  count : Nat := 0
  deriving DecidableEq, Repr

namespace Tokens

/-- The token with a given number, counted from 0. -/
def token (ts : Tokens) (k : Nat) : ByteArray :=
  Wire.eightBytes (ts.base + UInt64.ofNat k)

def take (ts : Tokens) : ByteArray × Tokens :=
  (ts.token ts.count, { ts with count := ts.count + 1 })

end Tokens

end Coap
