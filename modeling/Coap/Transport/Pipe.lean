import Coap.Credentials
import Coap.Error

/-!
An in-process connection: two queues of messages between a client and its peer, and a factory that opens it
once.
-/
namespace Coap

/-- Both ends of a connection. Messages wait in the order in which they were sent. -/
structure Pipe where
  toPeer : List Message := []
  toClient : List Message := []
  /-- The client closed its end. -/
  closed : Bool := false
  clientGone : Bool := false
  peerGone : Bool := false

/-- What an attempt to receive finds. -/
inductive Arrival
  | message (m : Message)
  /-- Nothing has arrived yet. -/
  | pending
  /-- Nothing will ever arrive. -/
  | ended

namespace Pipe

/-- Sends from the client; the error is about a closed end or a missing peer. -/
def send (p : Pipe) (m : Message) : Except TransportError Pipe :=
  if p.closed || p.peerGone then .error .closed
  else .ok { p with toPeer := p.toPeer ++ [m] }

/-- Receives for the client. A closed end yields nothing, even if messages wait; a missing peer ends the
connection once all its messages have been taken. -/
def receive (p : Pipe) : Arrival × Pipe :=
  if p.closed then (.ended, p)
  else
    match p.toClient with
    | m :: rest => (.message m, { p with toClient := rest })
    | [] => (if p.peerGone then .ended else .pending, p)

def close (p : Pipe) : Pipe := { p with closed := true }

/-- Sends from the peer. -/
def peerSend (p : Pipe) (m : Message) : Except TransportError Pipe :=
  if p.clientGone then .error .closed
  else .ok { p with toClient := p.toClient ++ [m] }

/-- Receives for the peer; a missing client ends the connection once all its messages have been taken. -/
def peerReceive (p : Pipe) : Arrival × Pipe :=
  match p.toPeer with
  | m :: rest => (.message m, { p with toPeer := rest })
  | [] => (if p.clientGone then .ended else .pending, p)

def dropClient (p : Pipe) : Pipe := { p with clientGone := true }

def dropPeer (p : Pipe) : Pipe := { p with peerGone := true }

end Pipe

/-- What a transport is asked to connect to. -/
structure Endpoint where
  host : String
  port : UInt16
  credentials : Option Credentials
  deriving DecidableEq

/-- A factory that opens its one pipe once; it notes the endpoint of the latest attempt. -/
structure PipeFactory where
  opened : Bool := false
  latest : Option Endpoint := none

/-- Only the first attempt succeeds; the endpoint is noted in any case. -/
def PipeFactory.connect (f : PipeFactory) (e : Endpoint) : Except TransportError Unit × PipeFactory :=
  let found := if f.opened then .error (.connectFailed s!"{e.host}:{e.port}") else .ok ()
  (found, { opened := true, latest := some e })

/-- What a client does to its end of the pipe; as long as the factory keeps that end, nothing happens to it. -/
def PipeFactory.atClient (f : PipeFactory) (act : Pipe → Pipe) (p : Pipe) : Pipe :=
  if f.opened then act p else p

end Coap
