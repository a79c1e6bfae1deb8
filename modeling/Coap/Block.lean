/-!
Values of the block options: a block number, a flag for blocks that follow, and a block size, packed into at
most three bytes. Decoding undoes encoding.
-/
namespace Coap

inductive BlockError
  | reservedExponent
  | numberOutOfRange (number : UInt32)
  | valueOutOfRange (value : UInt32)
  deriving DecidableEq, Repr

def BlockError.message : BlockError → String
  | reservedExponent => "CoAP block option error: reserved block size exponent 7"
  | numberOutOfRange n => s!"CoAP block option error: block number {n} exceeds 20 bits"
  | valueOutOfRange v =>
    s!"CoAP block option error: raw value 0x{String.ofList (Nat.toDigits 16 v.toNat)} exceeds 24 bits"

/-- The seven block sizes, each a power of two. -/
inductive BlockSize
  | s16
  | s32
  | s64
  | s128
  | s256
  | s512
  | s1024
  deriving DecidableEq, Repr, Inhabited

namespace BlockSize

/-- All sizes, the smallest first. -/
def all : List BlockSize := [s16, s32, s64, s128, s256, s512, s1024]

def exponent : BlockSize → Nat
  | s16 => 0
  | s32 => 1
  | s64 => 2
  | s128 => 3
  | s256 => 4
  | s512 => 5
  | s1024 => 6

def bytes (s : BlockSize) : Nat := 16 <<< s.exponent

def ofExponent (e : Nat) : Except BlockError BlockSize :=
  match all.find? fun s => s.exponent == e with
  | some s => .ok s
  | none => .error .reservedExponent

/-- The largest size of at most `preferred` bytes, or the smallest one if there is none. -/
def normalize (preferred : Nat) : BlockSize :=
  (all.reverse.find? fun s => s.bytes ≤ preferred).getD s16

end BlockSize

/-- A block of a larger payload; its number counts in units of its own size. -/
structure Block where
  number : UInt32
  size : BlockSize
  more : Bool
  deriving DecidableEq, Repr, Inhabited

namespace Block

/-- The largest block number that an option can carry. -/
def maxNumber : Nat := 0xfffff

/-- The largest value of a block option. -/
def maxValue : Nat := 0xffffff

/-- The place of the block's first byte in the whole payload. -/
def offset (b : Block) : Nat := b.number.toNat * b.size.bytes

def encode (b : Block) : Except BlockError UInt32 :=
  if maxNumber < b.number.toNat then .error (.numberOutOfRange b.number)
  else .ok (UInt32.ofNat (b.number.toNat * 16 + b.more.toNat * 8 + b.size.exponent))

/-- Unpacks an option value; a value of more than three bytes is found before a reserved exponent. -/
def decode (value : UInt32) : Except BlockError Block :=
  if maxValue < value.toNat then .error (.valueOutOfRange value)
  else do
    let size ← BlockSize.ofExponent (value.toNat % 8)
    return { number := UInt32.ofNat (value.toNat / 16), size, more := value.toNat / 8 % 2 = 1 }

/-- The three parts in the order number, flag and size. -/
def text (b : Block) : String := s!"{b.number}/{b.more.toNat}/{b.size.bytes}"

end Block

end Coap
