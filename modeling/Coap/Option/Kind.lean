/-!
The registered option numbers with the lengths that their values may have.
-/
namespace Coap

inductive OptionKind
  | ifMatch
  | uriHost
  | eTag
  | ifNoneMatch
  | observe
  | uriPort
  | locationPath
  | uriPath
  | contentFormat
  | maxAge
  | uriQuery
  | hopLimit
  | accept
  | locationQuery
  | block2
  | block1
  | size2
  | proxyUri
  | proxyScheme
  | size1
  | noResponse
  deriving DecidableEq, Repr, Inhabited

inductive OptionKindError
  | unknown
  deriving DecidableEq, Repr

def OptionKindError.message : OptionKindError → String
  | unknown => "CoAP option conversion error: unknown option"

namespace OptionKind

def all : List OptionKind :=
  [ifMatch, uriHost, eTag, ifNoneMatch, observe, uriPort, locationPath, uriPath, contentFormat, maxAge,
    uriQuery, hopLimit, accept, locationQuery, block2, block1, size2, proxyUri, proxyScheme, size1,
    noResponse]

def number : OptionKind → UInt16
  | ifMatch => 1
  | uriHost => 3
  | eTag => 4
  | ifNoneMatch => 5
  | observe => 6
  | uriPort => 7
  | locationPath => 8
  | uriPath => 11
  | contentFormat => 12
  | maxAge => 14
  | uriQuery => 15
  | hopLimit => 16
  | accept => 17
  | locationQuery => 20
  | block2 => 23
  | block1 => 27
  | size2 => 28
  | proxyUri => 35
  | proxyScheme => 39
  | size1 => 60
  | noResponse => 258

/-- The name of the option, as diagnostics show it. -/
def name : OptionKind → String
  | ifMatch => "IfMatch"
  | uriHost => "UriHost"
  | eTag => "ETag"
  | ifNoneMatch => "IfNoneMatch"
  | observe => "Observe"
  | uriPort => "UriPort"
  | locationPath => "LocationPath"
  | uriPath => "UriPath"
  | contentFormat => "ContentFormat"
  | maxAge => "MaxAge"
  | uriQuery => "UriQuery"
  | hopLimit => "HopLimit"
  | accept => "Accept"
  | locationQuery => "LocationQuery"
  | block2 => "Block2"
  | block1 => "Block1"
  | size2 => "Size2"
  | proxyUri => "ProxyUri"
  | proxyScheme => "ProxyScheme"
  | size1 => "Size1"
  | noResponse => "NoResponse"

/-- The largest number of bytes in a value of this kind. -/
def maxLength : OptionKind → Nat
  | ifMatch => 8
  | uriHost => 255
  | eTag => 8
  | ifNoneMatch => 0
  | observe => 3
  | uriPort => 2
  | locationPath => 255
  | uriPath => 255
  | contentFormat => 2
  | maxAge => 4
  | uriQuery => 255
  | hopLimit => 1
  | accept => 2
  | locationQuery => 255
  | block2 => 3
  | block1 => 3
  | size2 => 4
  | proxyUri => 1034
  | proxyScheme => 255
  | size1 => 4
  | noResponse => 1

/-- The smallest number of bytes in a value of this kind. -/
def minLength : OptionKind → Nat
  | uriHost | eTag | hopLimit | proxyUri | proxyScheme => 1
  | _ => 0

/-- Whether the option may occur more than once in a message. -/
def isRepeatable : OptionKind → Bool
  | ifMatch | eTag | locationPath | uriPath | uriQuery | locationQuery => true
  | _ => false

def ofNumber? (n : UInt16) : Option OptionKind :=
  all.find? fun k => k.number == n

def ofNumber (n : UInt16) : Except OptionKindError OptionKind :=
  match ofNumber? n with
  | some k => .ok k
  | none => .error .unknown

end OptionKind

end Coap
