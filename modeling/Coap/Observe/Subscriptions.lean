import Coap.Error
import Coap.Observe.Freshness

/-!
Active subscriptions, one a token, each with the newest sequence number seen and the notifications that wait for
delivery.
-/
namespace Coap

structure Subscription where
  token : ByteArray
  /-- Tells apart subscriptions that come to use the same token one after the other. -/
  serial : Nat
  lastSequence : Option UInt32 := none
  /-- Accepted notifications that have not been taken for delivery, the oldest first. -/
  queue : List Message := []

structure Subscriptions where
  entries : List Subscription := []

namespace Subscriptions

def size (s : Subscriptions) : Nat := s.entries.length

def find? (s : Subscriptions) (token : ByteArray) : Option Subscription :=
  s.entries.find? fun e => e.token == token

def isActive (s : Subscriptions) (token : ByteArray) : Bool := (s.find? token).isSome

def register (s : Subscriptions) (token : ByteArray) (serial : Nat) :
    Except ClientError Subscriptions :=
  if s.isActive token then
    .error (.invalidArgument (.tokenInUse token))
  else .ok { entries := s.entries ++ [{ token, serial }] }

/-- Removes the subscription of a token; the flag tells whether there was one. -/
def deregister (s : Subscriptions) (token : ByteArray) : Bool × Subscriptions :=
  (s.isActive token, { entries := s.entries.filter fun e => e.token != token })

/-- Changes the subscription of a token. -/
def modify (s : Subscriptions) (token : ByteArray) (f : Subscription → Subscription) : Subscriptions :=
  { entries := s.entries.map fun e => if e.token == token then f e else e }

def isNewer (last : Option UInt32) (sequence : UInt32) : Bool :=
  match last with
  | none => true
  | some previous => isFresher previous sequence

end Subscriptions

/-- A subscription after a notification: a stale one changes nothing, one without a sequence number is always
accepted. -/
def Subscription.accept (e : Subscription) (m : Message) : Subscription :=
  match m.observeValue with
  | none => { e with queue := e.queue ++ [m] }
  | some sequence =>
    if Subscriptions.isNewer e.lastSequence sequence then
      { e with lastSequence := some sequence, queue := e.queue ++ [m] }
    else e

/-- A subscription after the sequence number of the response to its registration. -/
def Subscription.seed (e : Subscription) (sequence : UInt32) : Subscription :=
  if Subscriptions.isNewer e.lastSequence sequence then { e with lastSequence := some sequence } else e

namespace Subscriptions

/-- Hands a notification to the subscription with its token. Stale ones count as handled. -/
def tryHandle (s : Subscriptions) (m : Message) : Bool × Subscriptions :=
  (s.isActive m.token, s.modify m.token fun e => e.accept m)

def seed (s : Subscriptions) (token : ByteArray) (sequence : UInt32) : Subscriptions :=
  s.modify token fun e => e.seed sequence

def clear (_ : Subscriptions) : Subscriptions := {}

/-- Whether the subscription with a serial number is still active. -/
def holds (s : Subscriptions) (serial : Nat) : Bool := s.entries.any fun e => e.serial == serial

/-- Takes the oldest waiting notification of a subscription. -/
def take (s : Subscriptions) (serial : Nat) : Option (Message × Subscriptions) :=
  match s.entries.find? fun e => e.serial == serial with
  | none => none
  | some e =>
    match e.queue with
    | [] => none
    | m :: rest =>
      some (m, { entries := s.entries.map fun e => if e.serial == serial then { e with queue := rest } else e })

end Subscriptions

end Coap
