import Coap.Text.Quoted
import Coap.Text.Utf8Lossy
import Coap.Wire.Integer

/-!
Credentials for secured connections. Diagnostics show who the key belongs to, and of the key only its
length.
-/
namespace Coap

structure PresharedKey where
  identity : Option ByteArray
  data : ByteArray
  deriving DecidableEq

/-- The identity in words, where there is one. -/
def PresharedKey.identityText : Option ByteArray → String
  | some identity =>
    s!"Some({Text.quoted (String.ofList (Text.utf8Lossy identity.data.toList))})"
  | none => "None"

def PresharedKey.text (k : PresharedKey) : String :=
  s!"PskKey \x7b identity: {identityText k.identity}, data: <{k.data.size} bytes> \x7d"

inductive Credentials
  | psk (key : PresharedKey)
  deriving DecidableEq

namespace Credentials

def text : Credentials → String
  | psk key => s!"Psk({key.text})"

/-- Credentials in words, where there are any. -/
def optionalText : Option Credentials → String
  | some c => s!"Some({c.text})"
  | none => "None"

end Credentials

end Coap
