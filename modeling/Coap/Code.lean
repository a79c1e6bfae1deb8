/-!
Message codes and message types. A code is one byte, three bits of class and five bits of detail; the
registered methods have class 0, the registered statuses class 2, 4 or 5, and the byte 0 is the code
of an empty message.
-/
namespace Coap

/-- Two decimal digits at least, as the detail part of a code is written. -/
def twoDigits (n : Nat) : String :=
  if n < 10 then "0" ++ toString n else toString n

/-- The reasons why a byte is not the code that was asked for. -/
inductive CodeError
  | notRequest
  | notResponse
  deriving DecidableEq, Repr

def CodeError.message : CodeError → String
  | .notRequest => "CoAP message code conversion error: not a request code"
  | .notResponse => "CoAP message code conversion error: not a response code"

inductive Method
  | get
  | post
  | put
  | delete
  | fetch
  | patch
  | iPatch
  deriving DecidableEq, Repr, Inhabited

namespace Method

def all : List Method := [get, post, put, delete, fetch, patch, iPatch]

def raw : Method → UInt8
  | get => 1
  | post => 2
  | put => 3
  | delete => 4
  | fetch => 5
  | patch => 6
  | iPatch => 7

def name : Method → String
  | get => "Get"
  | post => "Post"
  | put => "Put"
  | delete => "Delete"
  | fetch => "Fetch"
  | patch => "Patch"
  | iPatch => "IPatch"

def ofRaw (byte : UInt8) : Except CodeError Method :=
  match all.find? (fun m => m.raw == byte) with
  | some m => .ok m
  | none => .error .notRequest

end Method

/-- The registered response codes. -/
inductive Status
  | created
  | deleted
  | valid
  | changed
  | content
  | continue
  | badRequest
  | unauthorized
  | badOption
  | forbidden
  | notFound
  | notAllowed
  | notAcceptable
  | incomplete
  | conflict
  | preconditionFailed
  | requestTooLarge
  | unsupportedContentFormat
  | unprocessable
  | tooManyRequests
  | internalError
  | notImplemented
  | badGateway
  | serviceUnavailable
  | gatewayTimeout
  | proxyingNotSupported
  | hopLimitReached
  deriving DecidableEq, Repr, Inhabited

namespace Status

def all : List Status :=
  [created, deleted, valid, changed, content, .continue, badRequest, unauthorized, badOption,
    forbidden, notFound, notAllowed, notAcceptable, incomplete, conflict, preconditionFailed,
    requestTooLarge, unsupportedContentFormat, unprocessable, tooManyRequests, internalError,
    notImplemented, badGateway, serviceUnavailable, gatewayTimeout, proxyingNotSupported,
    hopLimitReached]

def raw : Status → UInt8
  | created => 65
  | deleted => 66
  | valid => 67
  | changed => 68
  | content => 69
  | .continue => 95
  | badRequest => 128
  | unauthorized => 129
  | badOption => 130
  | forbidden => 131
  | notFound => 132
  | notAllowed => 133
  | notAcceptable => 134
  | incomplete => 136
  | conflict => 137
  | preconditionFailed => 140
  | requestTooLarge => 141
  | unsupportedContentFormat => 143
  | unprocessable => 150
  | tooManyRequests => 157
  | internalError => 160
  | notImplemented => 161
  | badGateway => 162
  | serviceUnavailable => 163
  | gatewayTimeout => 164
  | proxyingNotSupported => 165
  | hopLimitReached => 168

/-- The name of a status as a single word. -/
def name : Status → String
  | created => "Created"
  | deleted => "Deleted"
  | valid => "Valid"
  | changed => "Changed"
  | content => "Content"
  | .continue => "Continue"
  | badRequest => "BadRequest"
  | unauthorized => "Unauthorized"
  | badOption => "BadOption"
  | forbidden => "Forbidden"
  | notFound => "NotFound"
  | notAllowed => "NotAllowed"
  | notAcceptable => "NotAcceptable"
  | incomplete => "Incomplete"
  | conflict => "Conflict"
  | preconditionFailed => "PreconditionFailed"
  | requestTooLarge => "RequestTooLarge"
  | unsupportedContentFormat => "UnsupportedContentFormat"
  | unprocessable => "Unprocessable"
  | tooManyRequests => "TooManyRequests"
  | internalError => "InternalError"
  | notImplemented => "NotImplemented"
  | badGateway => "BadGateway"
  | serviceUnavailable => "ServiceUnavailable"
  | gatewayTimeout => "GatewayTimeout"
  | proxyingNotSupported => "ProxyingNotSupported"
  | hopLimitReached => "HopLimitReached"

def phrase : Status → String
  | created => "Created"
  | deleted => "Deleted"
  | valid => "Valid"
  | changed => "Changed"
  | content => "Content"
  | .continue => "Continue"
  | badRequest => "Bad Request"
  | unauthorized => "Unauthorized"
  | badOption => "Bad Option"
  | forbidden => "Forbidden"
  | notFound => "Not Found"
  | notAllowed => "Method Not Allowed"
  | notAcceptable => "Not Acceptable"
  | incomplete => "Request Entity Incomplete"
  | conflict => "Conflict"
  | preconditionFailed => "Precondition Failed"
  | requestTooLarge => "Request Entity Too Large"
  | unsupportedContentFormat => "Unsupported Content-Format"
  | unprocessable => "Unprocessable Entity"
  | tooManyRequests => "Too Many Requests"
  | internalError => "Internal Server Error"
  | notImplemented => "Not Implemented"
  | badGateway => "Bad Gateway"
  | serviceUnavailable => "Service Unavailable"
  | gatewayTimeout => "Gateway Timeout"
  | proxyingNotSupported => "Proxying Not Supported"
  | hopLimitReached => "Hop Limit Reached"

/-- The upper three bits: 2 for success, 4 for a client error, 5 for a server error. -/
def codeClass (s : Status) : UInt8 := s.raw >>> 5

def detail (s : Status) : UInt8 := s.raw &&& 0x1f

def isSuccess (s : Status) : Bool := s.codeClass == 2

/-- The dotted form, such as "2.05 Content". -/
def text (s : Status) : String :=
  s!"{s.codeClass}.{twoDigits s.detail.toNat} {s.phrase}"

def ofRaw (byte : UInt8) : Except CodeError Status :=
  match all.find? (fun s => s.raw == byte) with
  | some s => .ok s
  | none => .error .notResponse

end Status

inductive Code
  | empty
  | request (method : Method)
  | response (status : Status)
  deriving DecidableEq, Repr, Inhabited

namespace Code

def raw : Code → UInt8
  | empty => 0
  | request m => m.raw
  | response s => s.raw

def codeClass (c : Code) : UInt8 := c.raw >>> 5

def detail (c : Code) : UInt8 := c.raw &&& 0x1f

/-- Only a response code of class 2 is a success. -/
def isSuccess : Code → Bool
  | response s => s.isSuccess
  | _ => false

def text : Code → String
  | empty => "0.00 Empty"
  | request m => s!"0.{twoDigits m.raw.toNat} {m.name}"
  | response s => s.text

/-- A byte that is neither 0 nor a registered method is judged as a response code. -/
def ofRaw (byte : UInt8) : Except CodeError Code :=
  if byte == 0 then .ok empty
  else
    match Method.ofRaw byte with
    | .ok m => .ok (request m)
    | .error _ => (Status.ofRaw byte).map response

end Code

inductive MessageType
  | confirmable
  | nonConfirmable
  | acknowledgement
  | reset
  deriving DecidableEq, Repr, Inhabited

/-- The abbreviated type name, as diagnostics show it. -/
def MessageType.name : MessageType → String
  | confirmable => "Con"
  | nonConfirmable => "Non"
  | acknowledgement => "Ack"
  | reset => "Rst"

inductive MessageTypeError
  | invalidForCode (type : MessageType)
  | unknown (raw : UInt8)
  deriving DecidableEq, Repr

def MessageTypeError.message : MessageTypeError → String
  | invalidForCode t => s!"message type {t.name} cannot be used for this message code"
  | unknown raw => s!"CoAP message type conversion error: unknown message type {raw}"

def MessageType.ofRaw (byte : UInt8) : Except MessageTypeError MessageType :=
  match byte.toNat with
  | 0 => .ok confirmable
  | 1 => .ok nonConfirmable
  | 2 => .ok acknowledgement
  | 3 => .ok reset
  | _ => .error (.unknown byte)

end Coap
