import Coap.Block
import Coap.Message

/-!
Errors of transports, of configurations and of the client's operations.
-/
namespace Coap

inductive TransportError
  | io (reason : String)
  | closed
  | connectFailed (address : String)
  deriving DecidableEq, Repr

def TransportError.message : TransportError → String
  | io _ => "CoAP transport error: I/O error"
  | closed => "CoAP transport error: transport closed"
  | connectFailed address => s!"CoAP transport error: unable to connect to {address}"

inductive ConfigurationError
  | missingTransportFactory
  | emptyHost
  | zeroTimeout
  deriving DecidableEq, Repr

def ConfigurationError.message : ConfigurationError → String
  | missingTransportFactory => "CoAP client configuration error: no transport factory set"
  | emptyHost => "CoAP client configuration error: host must not be empty"
  | zeroTimeout => "CoAP client configuration error: communication timeout must be non-zero"

/-- Bytes in hexadecimal, as a list in brackets. -/
def hexList (bytes : ByteArray) : String :=
  let hex (b : UInt8) : String :=
    (if b < 16 then "0" else "") ++ String.ofList (Nat.toDigits 16 b.toNat)
  "[" ++ String.intercalate ", " (bytes.data.toList.map hex) ++ "]"

/-- What was wrong with an argument. -/
inductive BadArgument
  | message (cause : MessageError)
  | option (cause : OptionError)
  | block (cause : BlockError)
  | tooManyBlocks (length : Nat) (size : BlockSize)
  | payloadTooLarge (length : Nat)
  | tokenInUse (token : ByteArray)
  | described (reason : String)
  deriving DecidableEq

def BadArgument.text : BadArgument → String
  | message cause => cause.message
  | option cause => cause.message
  | block cause => cause.message
  | tooManyBlocks length size =>
    s!"payload of {length} bytes needs more than {Block.maxNumber + 1} blocks of {size.bytes} bytes"
  | payloadTooLarge length => s!"payload of {length} bytes is too large"
  | tokenInUse token => s!"an observation with token {hexList token} is already active"
  | described reason => reason

/-- In what way a received message was not what the exchange expected. -/
inductive Violation
  | reset (id : UInt16)
  | unexpectedCode (code : Code)
  | missingBlock
  | undecodableBlock (cause : BlockError)
  | unreachableBlock (cause : BlockError)
  | misplacedBlock (expected : Nat) (block : Block)
  | noResponse (cause : MessageError)
  | described (reason : String)
  deriving DecidableEq

def Violation.text : Violation → String
  | reset id => s!"server reset message {id}"
  | unexpectedCode code =>
    s!"expected a piggybacked response, received {code.text} (separate responses are not supported)"
  | missingBlock => "response block lacks a Block2 option"
  | undecodableBlock cause => cause.message
  | unreachableBlock cause => s!"cannot request next block: {cause.message}"
  | misplacedBlock expected block =>
    s!"expected block at offset {expected} but received block {block.text}"
  | noResponse cause => cause.message
  | described reason => reason

inductive ClientError
  /-- An argument was refused before anything was sent. -/
  | invalidArgument (what : BadArgument)
  | protocolViolation (what : Violation)
  | timedOut
  | communication (cause : TransportError)
  | noMessageIdAvailable
  | connectionClosed
  | cancelled
  | configuration (cause : ConfigurationError)
  deriving DecidableEq

namespace ClientError

def message : ClientError → String
  | invalidArgument what => s!"CoAP client error: invalid argument: {what.text}"
  | protocolViolation what => s!"CoAP client error: protocol violation: {what.text}"
  | timedOut => "CoAP client error: communication timed out"
  | communication _ => "CoAP client error: communication failed"
  | noMessageIdAvailable => "CoAP client error: no free message id available"
  | connectionClosed => "CoAP client error: connection closed"
  | cancelled => "CoAP client error: operation cancelled"
  | configuration _ => "CoAP client error: invalid configuration"

/-- The kind of failure as a single word. -/
def name : ClientError → String
  | invalidArgument _ => "InvalidArgument"
  | protocolViolation _ => "ProtocolViolation"
  | timedOut => "CommunicationTimedOut"
  | communication _ => "Communication"
  | noMessageIdAvailable => "NoMessageIdAvailable"
  | connectionClosed => "ConnectionClosed"
  | cancelled => "Cancelled"
  | configuration _ => "Configuration"

/-- Whether the caller gave up, rather than something going wrong. -/
def isCancelled : ClientError → Bool
  | cancelled => true
  | _ => false

/-- A message that cannot be sent is a bad argument. -/
def ofMessage (e : MessageError) : ClientError := invalidArgument (.message e)

/-- An option value that cannot be sent is a bad argument. -/
def ofOption (e : OptionError) : ClientError := invalidArgument (.option e)

end ClientError

end Coap
