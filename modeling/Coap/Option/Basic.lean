import Coap.Option.Kind
import Coap.Uri.Basic
import Coap.Wire.Integer

/-!
Options of a message with their values, and the bytes that stand for the values on the wire.
-/
namespace Coap

/-- The reasons why a value is refused. -/
inductive OptionError
  | tooShort
  | tooLong
  | invalidText
  | invalidUri (cause : UriError)
  | illegalValue
  deriving DecidableEq, Repr

def OptionError.message : OptionError → String
  | tooShort => "CoAP option has invalid value: too short"
  | tooLong => "CoAP option has invalid value: too long"
  | invalidText => "CoAP option has invalid value: invalid string"
  | invalidUri _ => "CoAP option has invalid value: invalid URI"
  | illegalValue => "CoAP option has invalid value"

/-- What a representation has to match: an entity tag, or merely that there is one. -/
inductive Precondition
  | tag (etag : ByteArray)
  | anyRepresentation
  deriving DecidableEq

inductive MessageOption
  | ifMatch (condition : Precondition)
  | ifNoneMatch
  | uriHost (host : String)
  | uriPort (port : UInt16)
  | uriPath (segment : String)
  | uriQuery (component : String)
  | locationPath (segment : String)
  | locationQuery (component : String)
  | proxyUri (uri : String)
  | proxyScheme (scheme : String)
  | contentFormat (number : UInt16)
  | accept (number : UInt16)
  | size1 (size : UInt32)
  | size2 (size : UInt32)
  | block1 (value : UInt32)
  | block2 (value : UInt32)
  | hopLimit (limit : UInt16)
  | noResponse (classes : UInt8)
  | eTag (etag : ByteArray)
  | maxAge (seconds : UInt32)
  | observe (sequence : UInt32)
  | other (number : UInt16) (value : ByteArray)
  deriving DecidableEq

namespace MessageOption

def number : MessageOption → UInt16
  | other n _ => n
  | ifMatch _ => OptionKind.ifMatch.number
  | ifNoneMatch => OptionKind.ifNoneMatch.number
  | uriHost _ => OptionKind.uriHost.number
  | uriPort _ => OptionKind.uriPort.number
  | uriPath _ => OptionKind.uriPath.number
  | uriQuery _ => OptionKind.uriQuery.number
  | locationPath _ => OptionKind.locationPath.number
  | locationQuery _ => OptionKind.locationQuery.number
  | proxyUri _ => OptionKind.proxyUri.number
  | proxyScheme _ => OptionKind.proxyScheme.number
  | contentFormat _ => OptionKind.contentFormat.number
  | accept _ => OptionKind.accept.number
  | size1 _ => OptionKind.size1.number
  | size2 _ => OptionKind.size2.number
  | block1 _ => OptionKind.block1.number
  | block2 _ => OptionKind.block2.number
  | hopLimit _ => OptionKind.hopLimit.number
  | noResponse _ => OptionKind.noResponse.number
  | eTag _ => OptionKind.eTag.number
  | maxAge _ => OptionKind.maxAge.number
  | observe _ => OptionKind.observe.number

/-- The kind registered for the option's number, whichever constructor holds it. -/
def kind (o : MessageOption) : Option OptionKind := OptionKind.ofNumber? o.number

/-- The bytes of the value: text in UTF-8, integers in their shortest form. -/
def bytes : MessageOption → ByteArray
  | ifMatch (.tag etag) => etag
  | ifMatch .anyRepresentation => ByteArray.empty
  | ifNoneMatch => ByteArray.empty
  | uriHost s => s.toUTF8
  | uriPort n => Wire.shortest n.toUInt32
  | uriPath s => s.toUTF8
  | uriQuery s => s.toUTF8
  | locationPath s => s.toUTF8
  | locationQuery s => s.toUTF8
  | proxyUri s => s.toUTF8
  | proxyScheme s => s.toUTF8
  | contentFormat n => Wire.shortest n.toUInt32
  | accept n => Wire.shortest n.toUInt32
  | size1 n => Wire.shortest n
  | size2 n => Wire.shortest n
  | block1 n => Wire.shortest n
  | block2 n => Wire.shortest n
  | hopLimit n => Wire.shortest n.toUInt32
  | noResponse n => Wire.shortest n.toUInt32
  | eTag etag => etag
  | maxAge n => Wire.shortest n
  | observe n => Wire.shortest n
  | other _ value => value

end MessageOption

/-- Whether a value of `length` bytes may stand in an option of this kind; too short is found first. -/
def OptionKind.checkLength (k : OptionKind) (length : Nat) : Except OptionError Unit :=
  if length < k.minLength then .error .tooShort
  else if k.maxLength < length then .error .tooLong
  else .ok ()

namespace MessageOption

/-- The bytes of the value if their number is one that the option's kind allows. -/
def encode (o : MessageOption) : Except OptionError ByteArray :=
  match o.kind with
  | none => .ok o.bytes
  | some k => (k.checkLength o.bytes.size).map fun _ => o.bytes

/-- Reads the bytes of a text value. -/
def textValue (value : ByteArray) : Except OptionError String :=
  match String.fromUTF8? value with
  | some s => .ok s
  | none => .error .invalidText

/-- Reads the bytes of a value of the given kind. -/
def ofKind (k : OptionKind) (value : ByteArray) : Except OptionError MessageOption :=
  match k with
  | .ifMatch => .ok (ifMatch (if value.size = 0 then .anyRepresentation else .tag value))
  | .uriHost => (textValue value).map uriHost
  | .eTag => .ok (eTag value)
  | .ifNoneMatch => .ok ifNoneMatch
  | .observe => .ok (observe (Wire.toUInt32 value))
  | .uriPort => .ok (uriPort (Wire.toUInt16 value))
  | .locationPath => (textValue value).map locationPath
  | .uriPath => (textValue value).map uriPath
  | .contentFormat => .ok (contentFormat (Wire.toUInt16 value))
  | .maxAge => .ok (maxAge (Wire.toUInt32 value))
  | .uriQuery => (textValue value).map uriQuery
  | .hopLimit => .ok (hopLimit (Wire.toUInt16 value))
  | .accept => .ok (accept (Wire.toUInt16 value))
  | .locationQuery => (textValue value).map locationQuery
  | .block2 => .ok (block2 (Wire.toUInt32 value))
  | .block1 => .ok (block1 (Wire.toUInt32 value))
  | .size2 => .ok (size2 (Wire.toUInt32 value))
  | .proxyUri => (textValue value).map proxyUri
  | .proxyScheme => (textValue value).map proxyScheme
  | .size1 => .ok (size1 (Wire.toUInt32 value))
  | .noResponse => .ok (noResponse (Wire.toUInt8 value))

/-- Reads an option; a number outside the registry is kept with its bytes as they are. -/
def decode (number : UInt16) (value : ByteArray) : Except OptionError MessageOption :=
  match OptionKind.ofNumber? number with
  | none => .ok (other number value)
  | some k => do
    k.checkLength value.size
    ofKind k value

end MessageOption

end Coap
