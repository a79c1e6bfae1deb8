import Coap.Client.Step

/-!
What comes to a session from outside, and what it changes at once. The tasks take their steps afterwards, in
whatever order.
-/
namespace Coap

inductive Input
  /-- A caller asks for something; the operation may have been cancelled before it began. -/
  | call (call : Call) (cancelled : Bool)
  /-- A caller cancels an operation. -/
  | cancel (operation : Nat)
  /-- A caller drops an operation where it stands. -/
  | abort (operation : Nat)
  /-- The server sends a message. -/
  | message (message : Message)
  /-- Time passes. -/
  | elapse (span : Nat)
  /-- The server goes away. -/
  | dropPeer
  /-- The callers let go of the client. -/
  | dropClient
  /-- Every send fails from now on, or none any more. -/
  | failSends (error : Option TransportError)
  /-- Every receive fails from now on, or none any more. -/
  | failReceives (error : Option TransportError)
  /-- Sends have to wait from now on, or no more. -/
  | holdSends (held : Bool)

namespace Session

/-- A new operation, which has done nothing yet. -/
def call (s : Session) (c : Call) (cancelled : Bool) : Session :=
  let o : Operation := { serial := s.nextSerial, cancelled, stage := .called c }
  { s with operations := s.operations ++ [o], nextSerial := s.nextSerial + 1 }

def cancel (s : Session) (serial : Nat) : Session :=
  let mark (o : Operation) : Operation :=
    if o.serial == serial then { o with cancelled := true } else o
  { s with operations := s.operations.map mark }

/-- Only its exchange is given up together with an operation; a subscription that it has made stays. -/
def abort (s : Session) (serial : Nat) : Session :=
  match s.operations.find? fun o => o.serial == serial with
  | none => s
  | some o =>
    let connection := match o.stage with
      | .running _ _ exchange => s.connection.abandon exchange
      | _ => s.connection
    { s with connection, operations := s.operations.filter fun o => o.serial != serial }

/-- A message from the server waits until it is received; it fails once the client's end is gone. -/
def arrive (s : Session) (m : Message) : Except TransportError Session :=
  if s.isGone then .error .closed else (s.connection.wire.pipe.peerSend m).map s.setPipe

def elapse (s : Session) (span : Nat) : Session :=
  { s with connection := { s.connection with clock := s.connection.clock + span } }

def accept (s : Session) : Input → Session
  | .call c cancelled => s.call c cancelled
  | .cancel serial => s.cancel serial
  | .abort serial => s.abort serial
  | .message m => (s.arrive m).toOption.getD s
  | .elapse span => s.elapse span
  | .dropPeer => s.setPipe s.connection.wire.pipe.dropPeer
  -- A client that nobody holds any more is to stop.
  | .dropClient => { s with dropped := true, shutdown := true }
  | .failSends e => s.setWire { s.connection.wire with sendFault := e }
  | .failReceives e => s.setWire { s.connection.wire with receiveFault := e }
  | .holdSends held => s.setWire { s.connection.wire with held }

end Session

end Coap
