import Coap.Exchange.Table
import Coap.Ids
import Coap.Transport.Pipe

/-!
The connection that all operations of a client share, and a single exchange on it in atomic steps: check,
register, look whether the connection is closed, send, wait. A step that has to wait for something else does not
happen.
-/
namespace Coap

/-- The client's end of a connection, with the faults that the network may have. -/
structure Wire where
  pipe : Pipe := {}
  /-- The error of every send, if sending fails. -/
  sendFault : Option TransportError := none
  /-- The error of every receive, if receiving fails. -/
  receiveFault : Option TransportError := none
  /-- Whether sends have to wait. -/
  held : Bool := false

namespace Wire

/-- Sends a message, unless it has to wait. -/
def send (w : Wire) (m : Message) : Option (Except TransportError Wire) :=
  if w.held then none
  else
    match w.sendFault with
    | some e => some (.error e)
    | none => some ((w.pipe.send m).map fun pipe => { w with pipe })

def receive (w : Wire) : Except TransportError (Arrival × Wire) :=
  match w.receiveFault with
  | some e => .error e
  | none =>
    let (arrival, pipe) := w.pipe.receive
    .ok (arrival, { w with pipe })

end Wire

structure Connection where
  wire : Wire := {}
  exchanges : Exchanges := {}
  messageIds : MessageIds
  /-- Whether the connection is over, so that nothing can be sent any more. -/
  closed : Bool := false
  timer : Timer
  /-- The time that has passed, in nanoseconds. -/
  clock : Nat := 0
  /-- The wait for the response to one exchange, in nanoseconds. -/
  timeout : Nat

/-- Registers an exchange under the first free id at or after the cursor, which moves on in any case. -/
def allocate : Nat → MessageIds → Exchanges → Option Waiter × MessageIds × Exchanges
  | 0, ids, x => (none, ids, x)
  | attempts + 1, ids, x =>
    let (id, ids) := ids.take
    match x.register id with
    | .ok (w, x) => (some w, ids, x)
    | .error _ => allocate attempts ids x

/-- The phase of one exchange. -/
inductive Exchange
  | begun (request : Message)
  | checked (request : Message)
  | registered (request : Message) (waiter : Waiter)
  | sending (request : Message) (waiter : Waiter)
  | waiting (waiter : Waiter) (deadline : Nat)
  | ended (outcome : Outcome)

namespace Exchange

/-- The entry of the exchange in the table, while it may have one. -/
def waiter? : Exchange → Option Waiter
  | registered _ w | sending _ w | waiting w _ => some w
  | begun _ | checked _ | ended _ => none

/-- What a delivered message means: a response code makes it the response, a reset or anything else is a
violation. -/
def judge (m : Message) : Outcome :=
  match m.code with
  | .response _ => .ok m
  | code =>
    if m.type = .reset then .error (.protocolViolation (.reset m.id))
    else .error (.protocolViolation (.unexpectedCode code))

end Exchange

/-- The result of a step of an exchange: what is shared, the phase, and the message that was sent if one was. -/
structure Connection.Stepped where
  connection : Connection
  exchange : Exchange
  sent : Option Message := none

namespace Connection

/-- Ends an exchange that gives up; its entry is removed. -/
def giveUp (c : Connection) (w : Waiter) (e : ClientError) : Stepped :=
  { connection := { c with exchanges := c.exchanges.release w }, exchange := .ended (.error e) }

/-- One step of an exchange, none if it has to wait or is over. -/
def step (c : Connection) (cancelled : Bool) : Exchange → Option Stepped
  | .begun request =>
    if cancelled then some { connection := c, exchange := .ended (.error .cancelled) }
    else
      match request.validate with
      | .error e => some { connection := c, exchange := .ended (.error (.ofMessage e)) }
      | .ok () => some { connection := c, exchange := .checked request }
  | .checked request =>
    match allocate maxIdAttempts c.messageIds c.exchanges with
    | (none, messageIds, exchanges) =>
      some {
        connection := { c with messageIds, exchanges }
        exchange := .ended (.error .noMessageIdAvailable) }
    | (some w, messageIds, exchanges) =>
      some {
        connection := { c with messageIds, exchanges }
        exchange := .registered { request with id := w.id } w }
  | .registered request w =>
    -- The entry is in the table before the flag is read, so whoever closes afterwards finds the entry.
    if c.closed then some (c.giveUp w .connectionClosed)
    else some { connection := c, exchange := .sending request w }
  | .sending request w =>
    if cancelled then some (c.giveUp w .cancelled)
    else
      -- A send that is held is no step: the exchange stays where it is, with its entry.
      match c.wire.send request with
      | none => none
      | some (.error e) => some (c.giveUp w (.communication e))
      | some (.ok wire) =>
        some {
          connection := { c with wire }
          exchange := .waiting w (c.timer.wake c.clock c.timeout)
          sent := some request }
  | .waiting w deadline =>
    -- A result that has arrived wins over a cancellation and over the deadline.
    match c.exchanges.fetch w cancelled (deadline ≤ c.clock) with
    | none => none
    | some (outcome, exchanges) =>
      some {
        connection := { c with exchanges }
        exchange := .ended (outcome.bind Exchange.judge) }
  | .ended _ => none

/-- Drops an exchange that nobody cares for any more. -/
def abandon (c : Connection) (e : Exchange) : Connection :=
  match e.waiter? with
  | some w => { c with exchanges := c.exchanges.release w }
  | none => c

end Connection

end Coap
