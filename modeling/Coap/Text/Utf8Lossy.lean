/-!
Reading bytes as UTF-8 when they need not be valid: every maximal start of a sequence that is cut short, and
every byte that starts none, becomes one replacement character.
-/
namespace Coap.Text

def replacement : Char := Char.ofNat 0xfffd

/-- Whether a byte continues a sequence. -/
def isContinuation (b : UInt8) : Bool := 0x80 ≤ b && b ≤ 0xbf

/-- Whether `b` may follow the first byte `a` of a sequence of three. -/
def mayFollow3 (a b : UInt8) : Bool :=
  if a == 0xe0 then 0xa0 ≤ b && b ≤ 0xbf
  else if a == 0xed then 0x80 ≤ b && b ≤ 0x9f
  else isContinuation b

/-- Whether `b` may follow the first byte `a` of a sequence of four. -/
def mayFollow4 (a b : UInt8) : Bool :=
  if a == 0xf0 then 0x90 ≤ b && b ≤ 0xbf
  else if a == 0xf4 then 0x80 ≤ b && b ≤ 0x8f
  else isContinuation b

/-- The character of two to four bytes of a sequence; the first byte gives its bits below `mask`. -/
def sequenceChar (mask : Nat) (first : UInt8) (rest : List UInt8) : Char :=
  Char.ofNat (rest.foldl (fun n b => n * 64 + b.toNat % 64) (first.toNat % mask))

def utf8Lossy : List UInt8 → List Char
  | [] => []
  | a :: r =>
    if a < 0x80 then Char.ofNat a.toNat :: utf8Lossy r
    else if 0xc2 ≤ a && a ≤ 0xdf then
      match r with
      | [] => [replacement]
      | b :: r' =>
        if isContinuation b then sequenceChar 32 a [b] :: utf8Lossy r'
        else replacement :: utf8Lossy (b :: r')
    else if 0xe0 ≤ a && a ≤ 0xef then
      match r with
      | [] => [replacement]
      | b :: r' =>
        if mayFollow3 a b then
          match r' with
          | [] => [replacement]
          | c :: r'' =>
            if isContinuation c then sequenceChar 16 a [b, c] :: utf8Lossy r''
            else replacement :: utf8Lossy (c :: r'')
        else replacement :: utf8Lossy (b :: r')
    else if 0xf0 ≤ a && a ≤ 0xf4 then
      match r with
      | [] => [replacement]
      | b :: r' =>
        if mayFollow4 a b then
          match r' with
          | [] => [replacement]
          | c :: r'' =>
            if isContinuation c then
              match r'' with
              | [] => [replacement]
              | d :: r''' =>
                if isContinuation d then sequenceChar 8 a [b, c, d] :: utf8Lossy r'''
                else replacement :: utf8Lossy (d :: r''')
            else replacement :: utf8Lossy (c :: r'')
        else replacement :: utf8Lossy (b :: r')
    else replacement :: utf8Lossy r

end Coap.Text
