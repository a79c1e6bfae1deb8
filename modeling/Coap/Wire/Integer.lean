/-!
Unsigned integers on the wire: big-endian, in as few bytes as possible, so that zero is the empty string.
Longer forms with leading zeros are read as well.
-/
namespace Coap.Wire

/-- Byte strings are equal if all their bytes are. -/
instance decidableEqBytes : DecidableEq ByteArray := ByteArray.instDecidableEq

/-- The big-endian value of a byte string. -/
def value (bytes : ByteArray) : Nat :=
  bytes.data.toList.foldl (fun n b => n * 256 + b.toNat) 0

def toUInt32 (bytes : ByteArray) : UInt32 := UInt32.ofNat (value bytes)

def toUInt16 (bytes : ByteArray) : UInt16 := UInt16.ofNat (value bytes)

def toUInt8 (bytes : ByteArray) : UInt8 := UInt8.ofNat (value bytes)

/-- All four bytes of a word, the highest first. -/
def fourBytes (n : UInt32) : List UInt8 :=
  [(n >>> 24).toUInt8, (n >>> 16).toUInt8, (n >>> 8).toUInt8, n.toUInt8]

/-- The shortest form: the four bytes without the zeros in front. -/
def shortest (n : UInt32) : ByteArray :=
  ⟨((fourBytes n).dropWhile (· == 0)).toArray⟩

/-- Eight bytes, the highest first. -/
def eightBytes (n : UInt64) : ByteArray :=
  ⟨#[(n >>> 56).toUInt8, (n >>> 48).toUInt8, (n >>> 40).toUInt8, (n >>> 32).toUInt8,
    (n >>> 24).toUInt8, (n >>> 16).toUInt8, (n >>> 8).toUInt8, n.toUInt8]⟩

end Coap.Wire
