import Coap.Transfer.Turn

/-!
Block-wise upload of a request payload. The server may ask for smaller blocks by the size in its answers; all
later blocks then have that size.
-/
namespace Coap

structure Upload where
  /-- The request without payload that every block is sent in. -/
  template : Message
  payload : ByteArray
  size : BlockSize
  /-- The place of the current block's first byte. -/
  offset : Nat

namespace Upload

/-- The place after the current block's last byte. -/
def stop (u : Upload) : Nat := min (u.offset + u.size.bytes) u.payload.size

def more (u : Upload) : Bool := u.stop < u.payload.size

/-- The current block; a number that 32 bits cannot hold would become the largest that they can. -/
def block (u : Upload) : Block :=
  { number := UInt32.ofNatClamp (u.offset / u.size.bytes), size := u.size, more := u.more }

/-- The request for the current block; the first one announces the size of the whole payload. -/
def request (u : Upload) : Except ClientError Message :=
  match u.block.encode with
  | .error e => .error (.invalidArgument (.block e))
  | .ok value =>
    let m := { u.template with payload := u.payload.extract u.offset u.stop }
    let m := m.setOption (.block1 value)
    .ok (if u.offset = 0 then m.setOption (.size1 (UInt32.ofNat u.payload.size)) else m)

def turn (u : Upload) : Turn Upload Outcome :=
  match u.request with
  | .ok m => .ask m u
  | .error e => .finish (.error e)

/-- Starts at the first byte, unless the last block would have a number that no option can carry, or the size
of the whole payload could not be announced. -/
def start (template : Message) (payload : ByteArray) (size : BlockSize) : Turn Upload Outcome :=
  if Block.maxNumber < (payload.size - 1) / size.bytes then
    .finish (.error (.invalidArgument (.tooManyBlocks payload.size size)))
  else if UInt32.size ≤ payload.size then
    .finish (.error (.invalidArgument (.payloadTooLarge payload.size)))
  else turn { template, payload, size, offset := 0 }

def report (u : Upload) : Progress :=
  { direction := .upload
    number := u.block.number
    size := u.size
    bytes := u.stop
    total := some u.payload.size
    last := !u.more }

/-- The block size after an answer; only a smaller one counts. -/
def nextSize (u : Upload) (answer : Message) : BlockSize :=
  match answer.block1Value with
  | none => u.size
  | some value =>
    match Block.decode value with
    | .ok b => if b.size.exponent < u.size.exponent then b.size else u.size
    | .error _ => u.size

/-- The upload at the block after the current one. -/
def next (u : Upload) (answer : Message) : Upload :=
  { u with size := u.nextSize answer, offset := u.stop }

/-- Goes on after the answer to the current block. The answer to the last block, or one that is no success, is
the result. -/
def resume (u : Upload) : Outcome → Stride Upload Outcome
  | .error e => { turn := .finish (.error e) }
  | .ok answer =>
    { reports := [u.report]
      turn :=
        if !answer.code.isSuccess || !u.more then .finish (.ok answer)
        else (u.next answer).turn }

end Upload

end Coap
