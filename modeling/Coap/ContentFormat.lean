import Coap.Text.Blank

/-!
Content formats: the registered numbers, the media type that each of them stands for, and the way back
from a media type.
-/
namespace Coap

/-- A registered content format, or `other` for a number outside the registry. -/
inductive ContentFormat
  | textPlain
  | coseEncrypt0
  | coseMac0
  | coseSign1
  | linkFormat
  | applicationXml
  | octetStream
  | exi
  | json
  | cbor
  | cwt
  | coseEncrypt
  | coseMac
  | coseSign
  | coseKey
  | coseKeySet
  | senMlJson
  | sensMlJson
  | senMlCbor
  | sensMlCbor
  | senMlExi
  | sensMlExi
  | coapGroupJson
  | dotsCbor
  | senMlXml
  | sensMlXml
  | other
  deriving DecidableEq, Repr, Inhabited

namespace ContentFormat

/-- The registry, in ascending order of its numbers. -/
def registry : List ContentFormat :=
  [textPlain, coseEncrypt0, coseMac0, coseSign1, linkFormat, applicationXml, octetStream, exi, json,
    cbor, cwt, coseEncrypt, coseMac, coseSign, coseKey, coseKeySet, senMlJson, sensMlJson, senMlCbor,
    sensMlCbor, senMlExi, sensMlExi, coapGroupJson, dotsCbor, senMlXml, sensMlXml]

/-- The name of a format as a single word. -/
def name : ContentFormat → String
  | textPlain => "TextPlain"
  | coseEncrypt0 => "CoseEncrypt0"
  | coseMac0 => "CoseMac0"
  | coseSign1 => "CoseSign1"
  | linkFormat => "LinkFormat"
  | applicationXml => "ApplicationXml"
  | octetStream => "OctetStream"
  | exi => "Exi"
  | json => "Json"
  | cbor => "Cbor"
  | cwt => "Cwt"
  | coseEncrypt => "CoseEncrypt"
  | coseMac => "CoseMac"
  | coseSign => "CoseSign"
  | coseKey => "CoseKey"
  | coseKeySet => "CoseKeySet"
  | senMlJson => "SenMlJson"
  | sensMlJson => "SensMlJson"
  | senMlCbor => "SenMlCbor"
  | sensMlCbor => "SensMlCbor"
  | senMlExi => "SenMlExi"
  | sensMlExi => "SensMlExi"
  | coapGroupJson => "CoapGroupJson"
  | dotsCbor => "DotsCbor"
  | senMlXml => "SenMlXml"
  | sensMlXml => "SensMlXml"
  | other => "Other"

/-- Formats outside the registry share the number after the last registered one. -/
def number : ContentFormat → UInt16
  | textPlain => 0
  | coseEncrypt0 => 16
  | coseMac0 => 17
  | coseSign1 => 18
  | linkFormat => 40
  | applicationXml => 41
  | octetStream => 42
  | exi => 47
  | json => 50
  | cbor => 60
  | cwt => 61
  | coseEncrypt => 96
  | coseMac => 97
  | coseSign => 98
  | coseKey => 101
  | coseKeySet => 102
  | senMlJson => 110
  | sensMlJson => 111
  | senMlCbor => 112
  | sensMlCbor => 113
  | senMlExi => 114
  | sensMlExi => 115
  | coapGroupJson => 256
  | dotsCbor => 271
  | senMlXml => 310
  | sensMlXml => 311
  | other => 312

def ofNumber (n : UInt16) : ContentFormat :=
  (registry.find? fun f => f.number == n).getD other

/-- The registered media type; a format outside the registry is reported as an octet stream. -/
def mediaType : ContentFormat → String
  | textPlain => "text/plain; charset=utf-8"
  | coseEncrypt0 => "application/cose; cose-type=\"cose-encrypt0\""
  | coseMac0 => "application/cose; cose-type=\"cose-mac0\""
  | coseSign1 => "application/cose; cose-type=\"cose-sign1\""
  | linkFormat => "application/link-format"
  | applicationXml => "application/xml"
  | octetStream => "application/octet-stream"
  | exi => "application/exi"
  | json => "application/json"
  | cbor => "application/cbor"
  | cwt => "application/cwt"
  | coseEncrypt => "application/cose; cose-type=\"cose-encrypt\""
  | coseMac => "application/cose; cose-type=\"cose-mac\""
  | coseSign => "application/cose; cose-type=\"cose-sign\""
  | coseKey => "application/cose-key"
  | coseKeySet => "application/cose-key-set"
  | senMlJson => "application/senml+json"
  | sensMlJson => "application/sensml+json"
  | senMlCbor => "application/senml+cbor"
  | sensMlCbor => "application/sensml+cbor"
  | senMlExi => "application/senml-exi"
  | sensMlExi => "application/sensml-exi"
  | coapGroupJson => "application/coap-group+json"
  | dotsCbor => "application/dots+cbor"
  | senMlXml => "application/senml+xml"
  | sensMlXml => "application/sensml+xml"
  | other => "application/octet-stream"

/-- A media type as it is compared: trimmed, with ASCII letters in lower case. -/
def normalized (mediaType : String) : List Char :=
  (Text.trim mediaType.toList).map Char.toLower

/-- The registered format of a media type. Plain text is recognised by the start of the text alone,
every other format by its whole media type. -/
def ofMediaType? (mediaType : String) : Option ContentFormat :=
  let wanted := normalized mediaType
  if wanted.isEmpty then none
  else if "text/plain".toList.isPrefixOf wanted then some textPlain
  else registry.find? fun f => f.mediaType.toList == wanted

def isCbor : ContentFormat → Bool
  | cbor | senMlCbor | sensMlCbor | cwt | dotsCbor => true
  | _ => false

def isJson : ContentFormat → Bool
  | json | senMlJson | sensMlJson | coapGroupJson => true
  | _ => false

def isXml : ContentFormat → Bool
  | applicationXml | senMlXml | sensMlXml => true
  | _ => false

/-- Formats a person can read. -/
def isText (f : ContentFormat) : Bool :=
  f == textPlain || f == linkFormat || f.isJson || f.isXml

def isBinary (f : ContentFormat) : Bool := !f.isText

end ContentFormat

end Coap
