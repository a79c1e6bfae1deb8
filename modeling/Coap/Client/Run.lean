import Coap.Client.Input

/-!
A client at work: its session, and the order in which the tasks take turns. They do so in the order in which they
became able to take a step. Each goes on until it has to wait or its share of the turn is used up; in the second
case it goes on once all the others have had their turns. The client rests when no task can go on without new input
or time. Every input is followed by running on to that point.
-/
namespace Coap

/-- The share of a task in one turn. -/
def turnShare : Nat := 128

structure Client where
  session : Session
  /-- Tasks that were found able to take a step, in that order. -/
  ready : List Task := []
  /-- What is left of the share of the first of them. -/
  share : Nat := turnShare
  /-- Tasks that have used up their share. -/
  later : List Task := []
  /-- Tasks whose message has to wait, in the order in which they came to it. -/
  queued : List Task := []
  /-- The number of events that have been looked at. -/
  seen : Nat := 0

namespace Session

/-- Whether a task has a message that it may not send yet. -/
def holdsMessage (s : Session) : Task → Bool
  | .receiver =>
    match s.receiver with
    | .replying _ => true
    | _ => false
  | .operation serial => s.operations.any fun o =>
    o.serial == serial &&
      match o.stage with
      | .running _ _ (.sending _ _) => true
      | _ => false
  | .worker serial => s.workers.any fun w =>
    w.serial == serial &&
      match w.current with
      | some (_, .sending _ _) => true
      | _ => false

/-- An exchange that is waiting for its response. -/
structure Expiry where
  deadline : Nat
  ticket : Nat
  task : Task

/-- Whether one ends before another: by the deadline, and of two that end together the older one first. -/
def Expiry.before (a b : Expiry) : Bool :=
  a.deadline < b.deadline || (a.deadline == b.deadline && a.ticket ≤ b.ticket)

def expiries (s : Session) : List Expiry :=
  let operations := s.operations.filterMap fun o =>
    match o.stage with
    | .running _ _ (.waiting w deadline) => some ⟨deadline, w.ticket, .operation o.serial⟩
    | _ => none
  let workers := s.workers.filterMap fun w =>
    match w.current with
    | some (_, .waiting v deadline) => some ⟨deadline, v.ticket, .worker w.serial⟩
    | _ => none
  operations ++ workers

/-- The tasks whose wait is over when the clock stands at `time`, in the order in which the waits end. -/
def expired (s : Session) (time : Nat) : List Task :=
  ((s.expiries.filter fun e => e.deadline ≤ time).mergeSort Expiry.before).map Expiry.task

/-- What the next step of an exchange takes of a share: one for its result, and nothing for all that leads to it. -/
def exchangeCost : Exchange → Nat
  | .waiting _ _ => 1
  | _ => 0

/-- What the next step of a task takes of its share. The receiver needs two for a message, one of them for the
turn on the connection; a worker needs one for a notification. -/
def cost (s : Session) : Task → Nat
  | .receiver =>
    match s.receiver with
    | .listening => 2
    | _ => 0
  | .operation serial =>
    match s.operations.find? fun o => o.serial == serial with
    | some { stage := .running _ _ exchange, .. } => exchangeCost exchange
    | _ => 0
  | .worker serial =>
    match s.workers.find? fun w => w.serial == serial with
    | some { current := some (_, exchange), .. } => exchangeCost exchange
    | some { current := none, .. } => 1
    | none => 0

/-- More steps than can be taken without new input: every operation, worker, message and outstanding exchange
accounts for a few dozen of them at most. -/
def stepBound (s : Session) : Nat :=
  let notifications := s.subscriptions.entries.foldl (fun n e => n + e.queue.length) 0
  let arrivals := s.connection.wire.pipe.toClient.length
  64 * (1 + s.operations.length + s.workers.length + arrivals + notifications + s.pendingCount)

end Session

namespace Client

/-- Adds the tasks that have become able to take a step. -/
def wake (c : Client) : Client :=
  let s := c.session
  let fresh (t : Task) (able : Unit → Bool) : List Task :=
    if c.ready.contains t || c.later.contains t then [] else if able () then [t] else []
  let receiver := fresh .receiver fun _ => s.stepReceiver.isSome
  let operations := s.operations.flatMap fun o =>
    fresh (.operation o.serial) fun _ => (s.stepOperation o).isSome
  let workers := s.workers.flatMap fun w =>
    fresh (.worker w.serial) fun _ => (s.stepWorker w).isSome
  { c with ready := c.ready ++ receiver ++ operations ++ workers }

/-- Lets a task rest that cannot go on; one with a message takes its place in the queue. -/
def rest (c : Client) (t : Task) : Client :=
  if c.session.holdsMessage t && !c.queued.contains t then { c with queued := c.queued ++ [t] } else c

/-- Ends the turn of the first ready task. -/
def endTurn (c : Client) : Client := { c with ready := c.ready.tail, share := turnShare }

/-- Runs the ready tasks for at most the given number of steps. -/
def runFor : Nat → Client → Client
  | 0, c => c
  | n + 1, c =>
    match c.ready, c.later with
    | [], [] => c
    | [], later => runFor n { c with ready := later, later := [] }
    | t :: _, _ =>
      match c.session.step t with
      | none => runFor n (c.endTurn.rest t)
      | some session =>
        let cost := c.session.cost t
        if cost ≤ c.share then runFor n (wake { c with session, share := c.share - cost })
        else runFor n { c.endTurn with later := c.later ++ [t] }

/-- Runs until no task can go on. -/
def run (c : Client) : Client :=
  runFor c.session.stepBound c.wake

/-- A client on a fresh connection, which listens to what arrives. -/
def start (options : ConnectOptions) (pipe : Pipe) (messageIds : MessageIds) (tokens : Tokens)
    (timer : Timer := .exact) : Client :=
  { session := Session.start options pipe messageIds tokens timer }

/-- The tasks to which an input gives turns in an order of its own: waits end one after the other, and messages
that had to wait go out as they came. -/
def turns (c : Client) : Input → List Task
  | .elapse span => c.session.expired (c.session.connection.clock + span)
  | .holdSends false => c.queued
  | _ => []

/-- Takes an input and runs on until no task can go on. -/
def take (c : Client) (i : Input) : Client :=
  let queued := match i with
    | .holdSends false => []
    | _ => c.queued
  run { c with session := c.session.accept i, ready := c.ready ++ c.turns i, queued }

/-- The serial number of the operation that the next call begins. -/
def nextOperation (c : Client) : Nat := c.session.nextSerial

/-- Takes a message from the server, unless the client's end of the connection is gone. -/
def receive (c : Client) (m : Message) : Except TransportError Client :=
  (c.session.arrive m).map fun _ => c.take (.message m)

/-- The events since the last time, and the client that has shown them. -/
def takeLog (c : Client) : Array Event × Client :=
  (c.session.log.extract c.seen c.session.log.size, { c with seen := c.session.log.size })

end Client

end Coap
