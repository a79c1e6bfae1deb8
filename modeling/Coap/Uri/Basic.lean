/-!
URIs of CoAP resources: an absolute form with scheme, host and port, or a reference made of path and query
alone. Every host, path segment and query component has at most 255 bytes.
-/
namespace Coap

inductive UriError
  | notCoapScheme (text : String)
  | missingHost
  | invalidPort (text : String)
  | segmentTooLong
  | containsFragment
  deriving DecidableEq, Repr

inductive Scheme
  | coap
  | coaps
  | coapTcp
  | coapsTcp
  | coapWs
  | coapsWs
  deriving DecidableEq, Repr, Inhabited

/-- The port of plain CoAP. -/
def coapPort : UInt16 := 5683

/-- The port of CoAP over DTLS or TLS. -/
def coapsPort : UInt16 := 5684

namespace Scheme

def all : List Scheme := [coap, coaps, coapTcp, coapsTcp, coapWs, coapsWs]

/-- The name of a scheme as a single word. -/
def name : Scheme → String
  | coap => "Coap"
  | coaps => "Coaps"
  | coapTcp => "CoapTcp"
  | coapsTcp => "CoapsTcp"
  | coapWs => "CoapWs"
  | coapsWs => "CoapsWs"

def text : Scheme → String
  | coap => "coap"
  | coaps => "coaps"
  | coapTcp => "coap+tcp"
  | coapsTcp => "coaps+tcp"
  | coapWs => "coap+ws"
  | coapsWs => "coaps+ws"

def isSecure : Scheme → Bool
  | coaps | coapsTcp | coapsWs => true
  | _ => false

/-- The port used where a URI names none. -/
def defaultPort : Scheme → UInt16
  | coap | coapTcp => coapPort
  | coaps | coapsTcp => coapsPort
  | coapWs => 80
  | coapsWs => 443

/-- A scheme is recognised without regard to the case of ASCII letters. -/
def parse (s : List Char) : Except UriError Scheme :=
  let wanted := s.map Char.toLower
  match all.find? fun scheme => scheme.text.toList == wanted with
  | some scheme => .ok scheme
  | none => .error (.notCoapScheme (String.ofList s))

end Scheme

structure Uri where
  scheme : Option Scheme := none
  host : Option String := none
  port : Option UInt16 := none
  path : List String := []
  query : List String := []
  deriving DecidableEq, Repr, Inhabited

namespace Uri

/-- The largest number of bytes in a host, a path segment or a query component. -/
def maxSegmentLength : Nat := 255

def fits (segment : String) : Bool := segment.utf8ByteSize ≤ maxSegmentLength

def segments (u : Uri) : List String := u.host.toList ++ u.path ++ u.query

/-- The URI itself unless one of its segments is too long. -/
def checked (u : Uri) : Except UriError Uri :=
  if u.segments.all fits then .ok u else .error .segmentTooLong

/-- A reference from path segments and query components, taken as they are. -/
def relative (path query : List String) : Except UriError Uri :=
  checked { path, query }

def addQuery (u : Uri) (component : String) : Except UriError Uri :=
  if fits component then .ok { u with query := u.query ++ [component] }
  else .error .segmentTooLong

end Uri

end Coap
