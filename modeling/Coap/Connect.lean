import Coap.Block
import Coap.Credentials
import Coap.Error
import Coap.Text.Duration

/-!
Options of a connection, collected step by step and then checked once.
-/
namespace Coap

/-- The wait for one response if nothing else is configured, in nanoseconds. -/
def defaultTimeout : Nat := 10000000000

/-- Checked options of a connection. -/
structure ConnectOptions where
  host : String
  port : UInt16
  /-- The wait for the response to one exchange, in nanoseconds. -/
  timeout : Nat
  blockSize : BlockSize
  blockTransfer : Bool
  credentials : Option Credentials
  deriving DecidableEq

/-- A block size in words. -/
def BlockSize.name (s : BlockSize) : String := s!"S{s.bytes}"

namespace ConnectOptions

def text (o : ConnectOptions) : String :=
  s!"CoapClientConnectOptions \x7b host: {Text.quoted o.host}, port: {o.port}, " ++
    s!"communication_timeout: {Text.duration o.timeout}, " ++
    s!"preferred_block_size: {o.blockSize.name}, " ++
    s!"enable_block_transfer: {o.blockTransfer}, " ++
    s!"credentials: {Credentials.optionalText o.credentials}, .. \x7d"

end ConnectOptions

/-- Options of a connection as they are being collected. -/
structure ConnectDraft where
  host : String := ""
  port : UInt16 := coapPort
  /-- Whether there is something to open transports with. -/
  hasFactory : Bool := false
  timeout : Nat := defaultTimeout
  blockSize : BlockSize := .s1024
  blockTransfer : Bool := true
  credentials : Option Credentials := none
  deriving DecidableEq

namespace ConnectDraft

/-- The largest supported block size of at most `bytes` bytes is used. -/
def preferBlockSize (d : ConnectDraft) (bytes : Nat) : ConnectDraft :=
  { d with blockSize := BlockSize.normalize bytes }

/-- A missing factory is found before an empty host, and that before a timeout of zero. -/
def build (d : ConnectDraft) : Except ConfigurationError ConnectOptions :=
  if !d.hasFactory then .error .missingTransportFactory
  else if d.host.isEmpty then .error .emptyHost
  else if d.timeout = 0 then .error .zeroTimeout
  else .ok {
    host := d.host
    port := d.port
    timeout := d.timeout
    blockSize := d.blockSize
    blockTransfer := d.blockTransfer
    credentials := d.credentials }

/-- The draft in words; credentials are not shown. -/
def text (d : ConnectDraft) : String :=
  s!"CoapClientConnectOptionsBuilder \x7b host: {Text.quoted d.host}, port: {d.port}, " ++
    s!"transport_factory: {d.hasFactory}, " ++
    s!"communication_timeout: {Text.duration d.timeout}, " ++
    s!"preferred_block_size: {d.blockSize.name}, " ++
    s!"enable_block_transfer: {d.blockTransfer}, .. \x7d"

end ConnectDraft

end Coap
