import Coap.Text.Quoted
import Coap.Text.Split
import Coap.Uri.Basic

/-!
URIs as text. A URI is absolute if a scheme mark occurs in it anywhere; empty path segments and empty query
components are dropped, and escapes with a percent sign are kept as they stand.
-/
namespace Coap

def UriError.message : UriError → String
  | notCoapScheme s => s!"URI scheme {s} is not a valid CoAP scheme"
  | missingHost => "CoAP URI parsing error: URI has no host"
  | invalidPort s => s!"CoAP URI parsing error: invalid port {Text.quoted s}"
  | segmentTooLong => "CoAP URI parsing error: URI segment exceeds 255 bytes"
  | containsFragment => "CoAP URI parsing error: fragments are not allowed in CoAP URIs"

namespace Uri

/-- The value of decimal digits, where all values from `bound` on count as `bound`. -/
def digitsBelow (bound : Nat) (digits : List Char) : Nat :=
  digits.foldl (fun n c => min bound (n * 10 + (c.toNat - 48))) 0

/-- A port is at most 65535, in decimal digits that may follow a plus sign. -/
def port? (s : List Char) : Option UInt16 :=
  let digits := if s.head? = some '+' then s.tail else s
  if digits.isEmpty || !digits.all Char.isDigit then none
  else
    let n := digitsBelow 65536 digits
    if n < 65536 then some (UInt16.ofNat n) else none

/-- Splits off the port. A host in brackets ends at the first closing one, and what follows counts only if
it starts with a colon; any other host ends at the last colon. -/
def hostAndPort (authority : List Char) : Except UriError (List Char × Option (List Char)) :=
  match authority with
  | '[' :: rest =>
    match Text.cutFirst [']'] rest with
    | none => .error .missingHost
    | some (host, ':' :: port) => .ok (host, some port)
    | some (host, _) => .ok (host, none)
  | _ =>
    match Text.cutLast ':' authority with
    | some (host, port) => .ok (host, some port)
    | none => .ok (authority, none)

/-- The host and the port of an authority; a bad port is found before a missing host. -/
def parseAuthority (authority : List Char) : Except UriError (String × Option UInt16) := do
  let (host, portText) ← hostAndPort authority
  let port ← match portText with
    | none => pure none
    | some text =>
      match port? text with
      | some p => pure (some p)
      | none => throw (.invalidPort (String.ofList text))
  if host.isEmpty then throw .missingHost
  return (String.ofList host, port)

/-- The parts between separators that are not empty. -/
def components (separator : Char) (s : List Char) : List String :=
  ((Text.fields separator s).filter fun f => !f.isEmpty).map String.ofList

/-- Adds path and query to what stands in front of them. -/
def withReference (front : Uri) (s : List Char) : Except UriError Uri :=
  match Text.cutFirst ['?'] s with
  | some (path, query) =>
    checked { front with path := components '/' path, query := components '&' query }
  | none => checked { front with path := components '/' s, query := [] }

def inAuthority (c : Char) : Bool := c != '/' && c != '?'

def parse (s : String) : Except UriError Uri :=
  let text := s.toList
  if text.contains '#' then .error .containsFragment
  else
    match Text.cutFirst "://".toList text with
    | none => withReference {} text
    | some (schemeText, rest) => do
      let scheme ← Scheme.parse schemeText
      let (host, port) ← parseAuthority (rest.takeWhile inAuthority)
      withReference { scheme := some scheme, host := some host, port } (rest.dropWhile inAuthority)

/-- A host with a colon in it stands in brackets. -/
def hostText (host : String) : String :=
  if host.toList.contains ':' then s!"[{host}]" else host

def frontText (u : Uri) : String :=
  match u.scheme, u.host with
  | some scheme, some host =>
    scheme.text ++ "://" ++ hostText host ++
      match u.port with
      | some port => s!":{port}"
      | none => ""
  | _, _ => ""

def pathText (u : Uri) : String :=
  if u.path.isEmpty && u.scheme.isNone then "/"
  else String.join (u.path.map fun segment => "/" ++ segment)

def queryText : List String → String
  | [] => ""
  | first :: rest => "?" ++ first ++ String.join (rest.map fun component => "&" ++ component)

def text (u : Uri) : String :=
  u.frontText ++ u.pathText ++ queryText u.query

end Uri

end Coap
