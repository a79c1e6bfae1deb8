import Coap.Transfer.Turn

/-!
Block-wise download of a response payload. Every block has to start where the ones before it ended; the server
may change to another block size at any point.
-/
namespace Coap

/-- What a download comes to. -/
inductive Assembly
  /-- All blocks, one after the other. -/
  | reassembled (payload : ByteArray)
  /-- The first answer that was no success. -/
  | rejected (answer : Message)
  deriving DecidableEq

/-- The block that a response carries. -/
def Message.responseBlock (m : Message) : Except ClientError Block :=
  match m.block2Value with
  | none => .error (.protocolViolation .missingBlock)
  | some value =>
    match Block.decode value with
    | .ok b => .ok b
    | .error e => .error (.protocolViolation (.undecodableBlock e))

structure Download where
  /-- The request that asks for a block, but for the number of the block. -/
  template : Message
  /-- The size of the whole payload that the first block announced. -/
  announced : Option Nat
  buffer : ByteArray
  /-- The latest block. -/
  block : Block

namespace Download

def report (d : Download) : Progress :=
  { direction := .download
    number := d.block.number
    size := d.block.size
    bytes := d.buffer.size
    total := if d.block.more then d.announced else some d.buffer.size
    last := !d.block.more }

/-- The block to ask for next. -/
def next (d : Download) : Block :=
  { number := d.block.number + 1, size := d.block.size, more := false }

def request (d : Download) : Except ClientError Message :=
  match d.next.encode with
  | .ok value => .ok (d.template.setOption (.block2 value))
  | .error e => .error (.protocolViolation (.unreachableBlock e))

def turn (d : Download) : Turn Download (Except ClientError Assembly) :=
  if d.block.more then
    match d.request with
    | .ok m => .ask m d
    | .error e => .finish (.error e)
  else .finish (.ok (.reassembled d.buffer))

/-- The download after one more block. -/
def accept (d : Download) (answer : Message) (block : Block) : Download :=
  { d with buffer := d.buffer ++ answer.payload, block }

/-- Starts with a message that carries the first block. -/
def start (template first : Message) : Stride Download (Except ClientError Assembly) :=
  match first.responseBlock with
  | .error e => { turn := .finish (.error e) }
  | .ok block =>
    let d : Download :=
      { template, announced := first.size2Value.map UInt32.toNat, buffer := first.payload, block }
    { reports := [d.report], turn := d.turn }

/-- Goes on after the answer to the latest request. -/
def resume (d : Download) : Outcome → Stride Download (Except ClientError Assembly)
  | .error e => { turn := .finish (.error e) }
  | .ok answer =>
    if !answer.code.isSuccess then { turn := .finish (.ok (.rejected answer)) }
    else
      match answer.responseBlock with
      | .error e => { turn := .finish (.error e) }
      | .ok block =>
        if block.offset ≠ d.buffer.size then
          { turn := .finish (.error (.protocolViolation (.misplacedBlock d.buffer.size block))) }
        else
          { reports := [(d.accept answer block).report], turn := (d.accept answer block).turn }

end Download

end Coap
