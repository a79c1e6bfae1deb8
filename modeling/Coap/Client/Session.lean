import Coap.Client.Connection
import Coap.Connect
import Coap.Observe.Delivery
import Coap.Observe.Subscriptions
import Coap.Request

/-!
The state of a client and everything that runs on it: the operations that its callers have started, one worker a
subscription, and the receiver that routes what arrives.
-/
namespace Coap

/-- An observation that a caller has asked for, as needed to stop it later on. -/
structure Observation where
  /-- The response to the registration. -/
  response : Response
  token : ByteArray
  /-- The registration without Observe option and payload. -/
  template : Message
  /-- Whether the server accepted the registration. -/
  registered : Bool

/-- What a caller asks for. -/
inductive Call
  | request (request : Request)
  | observe (request : Request) (handler : Handler)
  | stop (observation : Observation)
  | shutdown

/-- What an operation does with the response that it gets. -/
inductive Purpose
  | respond
  | register (token : ByteArray) (template : Message)
  | deregister (token : ByteArray)

/-- How an operation ends. -/
inductive Completion
  | response (response : Response)
  | observation (observation : Observation)
  | stopped
  | failure (error : ClientError)

inductive Operation.Stage
  /-- Nothing has been done yet. -/
  | called (call : Call)
  /-- The registration of an observation is ready, but there is no subscription yet. -/
  | enrolling (request template : Message) (handler : Handler)
  | running (purpose : Purpose) (transfer : Transfer) (exchange : Exchange)
  /-- The response is there, or the reason why there is none. -/
  | concluding (purpose : Purpose) (result : Except ClientError Response)
  /-- Waiting for the receiver to come to its end. -/
  | joining

structure Operation where
  serial : Nat
  /-- Whether the caller has cancelled the operation. -/
  cancelled : Bool := false
  stage : Operation.Stage

/-- The worker of one subscription; it delivers notifications one after the other. -/
structure Worker where
  /-- The serial number of its subscription. -/
  serial : Nat
  /-- The operation that registered the subscription. -/
  owner : Nat
  template : Message
  handler : Handler
  /-- The delivery that is waiting for an exchange, if there is one. -/
  current : Option (Delivery × Exchange) := none

/-- The receiver, and the steps in which it ends. -/
inductive Receiver
  | listening
  /-- A confirmable message is about to be answered. -/
  | replying (reply : Message)
  | failing (error : ClientError)
  | collecting (error : ClientError)
  /-- The exchanges that were outstanding are being ended. -/
  | ending (error : ClientError) (ids : List UInt16)
  | clearing
  | closing
  | ended

/-- Everything that can take steps. -/
inductive Task
  | receiver
  | operation (serial : Nat)
  | worker (serial : Nat)
  deriving DecidableEq, Repr

/-- What happened, in order. -/
inductive Event
  | sent (sender : Task) (message : Message)
  | finished (operation : Nat) (completion : Completion)
  | notified (operation : Nat) (notification : Notification) (reaction : Reaction)
  /-- The handler of an observe operation was let go. -/
  | released (operation : Nat)

structure Session where
  connection : Connection
  transfers : TransferSettings
  tokens : Tokens
  subscriptions : Subscriptions := {}
  operations : List Operation := []
  workers : List Worker := []
  receiver : Receiver := .listening
  /-- Whether the client is to stop. -/
  shutdown : Bool := false
  /-- Whether somebody is waiting, or has waited, for the receiver's end. -/
  joined : Bool := false
  /-- Whether the callers have let go of the client. -/
  dropped : Bool := false
  /-- The serial number of the next operation or subscription. -/
  nextSerial : Nat := 0
  feed : Feed := {}
  log : Array Event := #[]

namespace Session

/-- A client on a fresh connection. -/
def start (options : ConnectOptions) (pipe : Pipe) (messageIds : MessageIds) (tokens : Tokens)
    (timer : Timer := .exact) : Session :=
  { connection := { wire := { pipe }, messageIds, timer, timeout := options.timeout }
    transfers := { blockTransfer := options.blockTransfer, blockSize := options.blockSize }
    tokens }

def isClosed (s : Session) : Bool := s.connection.closed

/-- The number of outstanding exchanges. -/
def pendingCount (s : Session) : Nat := s.connection.exchanges.size

def observationCount (s : Session) : Nat := s.subscriptions.size

/-- The state of the client in words. -/
def text (s : Session) : String :=
  s!"CoapClient \x7b closed: {s.isClosed}, pending_exchanges: {s.pendingCount}, " ++
    s!"active_observations: {s.observationCount}, block_transfer: {s.transfers.blockTransfer}, " ++
    s!"block_size: {s.transfers.blockSize.name} \x7d"

/-- Whether the server's end of the connection is gone. -/
def isPeerGone (s : Session) : Bool := s.connection.wire.pipe.peerGone

/-- Whether nothing of the client is left, so that its end of the connection is gone. -/
def isGone (s : Session) : Bool :=
  s.dropped && s.operations.isEmpty && s.workers.isEmpty &&
    match s.receiver with
    | .ended => true
    | _ => false

def setWire (s : Session) (wire : Wire) : Session :=
  { s with connection := { s.connection with wire } }

def setPipe (s : Session) (pipe : Pipe) : Session :=
  s.setWire { s.connection.wire with pipe }

def setExchanges (s : Session) (exchanges : Exchanges) : Session :=
  { s with connection := { s.connection with exchanges } }

def note (s : Session) (e : Event) : Session := { s with log := s.log.push e }

def publish (s : Session) (reports : List Progress) : Session :=
  { s with feed := reports.foldl Feed.publish s.feed }

/-- Replaces an operation by its next stage. -/
def putOperation (s : Session) (o : Operation) : Session :=
  { s with operations := s.operations.map fun p => if p.serial == o.serial then o else p }

/-- Ends an operation. -/
def finish (s : Session) (o : Operation) (c : Completion) : Session :=
  ({ s with operations := s.operations.filter fun p => p.serial != o.serial }).note
    (.finished o.serial c)

def putWorker (s : Session) (w : Worker) : Session :=
  { s with workers := s.workers.map fun v => if v.serial == w.serial then w else v }

/-- Whether the worker of a subscription has to stop. -/
def isStopped (s : Session) (serial : Nat) : Bool :=
  s.shutdown || !s.subscriptions.holds serial

end Session

end Coap
