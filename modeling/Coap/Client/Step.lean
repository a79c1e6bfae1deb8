import Coap.Client.Session

/-!
The atomic steps of operations, workers and the receiver. A task that has to wait for something else has no step.
-/
namespace Coap.Session

/-- The value by which an observation is asked for. -/
def observeRegister : UInt32 := 0

/-- The value by which an observation is ended. -/
def observeDeregister : UInt32 := 1

/-- An operation that runs a transfer from its next turn on. -/
def proceed (s : Session) (o : Operation) (purpose : Purpose)
    (next : Stride Transfer (Except ClientError Response)) : Session :=
  let s := s.publish next.reports
  match next.turn with
  | .ask request transfer =>
    s.putOperation { o with stage := .running purpose transfer (.begun request) }
  | .finish result => s.putOperation { o with stage := .concluding purpose result }

/-- Begins what the caller asked for. A request that cannot be sent ends the operation before it takes a token. -/
def begin (s : Session) (o : Operation) : Call → Session
  | .request request =>
    match request.toMessage with
    | .error e => s.finish o (.failure (.ofMessage e))
    | .ok m =>
      let (token, tokens) := s.tokens.take
      let m := { m with token }
      { s with tokens }.proceed o .respond (Transfer.start s.transfers m m.followUp)
  | .observe request handler =>
    let request := { request.setMethod .get with observe := some observeRegister }
    match request.toMessage with
    | .error e => (s.finish o (.failure (.ofMessage e))).note (.released o.serial)
    | .ok m =>
      let (token, tokens) := s.tokens.take
      let m := { m with token }
      let template := m.followUp.removeOptions OptionKind.observe.number
      { s with tokens }.putOperation { o with stage := .enrolling m template handler }
  | .stop observation =>
    let m := observation.template.setOption (.observe observeDeregister)
    s.proceed o (.deregister observation.token) (Transfer.start s.transfers m observation.template)
  | .shutdown =>
    let s := { s with shutdown := true }
    if s.joined then s.finish o .stopped
    else { s with joined := true }.putOperation { o with stage := .joining }

/-- Makes the subscription of an observation, with its worker, and starts to register it. -/
def enroll (s : Session) (o : Operation) (request template : Message) (handler : Handler) : Session :=
  match s.subscriptions.register request.token s.nextSerial with
  | .error e => (s.finish o (.failure e)).note (.released o.serial)
  | .ok subscriptions =>
    let worker : Worker := { serial := s.nextSerial, owner := o.serial, template, handler }
    { s with
      subscriptions
      workers := s.workers ++ [worker]
      nextSerial := s.nextSerial + 1 }.proceed o (.register request.token template)
        (Transfer.start s.transfers request template)

def unsubscribe (s : Session) (token : ByteArray) : Session :=
  { s with subscriptions := (s.subscriptions.deregister token).2 }

/-- Ends an operation with its result. A registration that the server did not accept leaves no subscription, and
the end of an observation leaves none in any case. -/
def conclude (s : Session) (o : Operation) : Purpose → Except ClientError Response → Session
  | .respond, .ok r => s.finish o (.response r)
  | .respond, .error e => s.finish o (.failure e)
  | .register token _, .error e => (s.unsubscribe token).finish o (.failure e)
  | .register token template, .ok response =>
    match response.observe, response.isSuccess with
    | some sequence, true =>
      { s with subscriptions := s.subscriptions.seed token sequence }.finish o
        (.observation { response, token, template, registered := true })
    | _, _ =>
      (s.unsubscribe token).finish o
        (.observation { response, token, template, registered := false })
  | .deregister token, .ok r => (s.unsubscribe token).finish o (.response r)
  | .deregister token, .error e => (s.unsubscribe token).finish o (.failure e)

/-- Takes over what a step of an exchange has changed. -/
def absorb (s : Session) (task : Task) (c : Connection.Stepped) : Session :=
  let s := { s with connection := c.connection }
  match c.sent with
  | some m => s.note (.sent task m)
  | none => s

def stepOperation (s : Session) (o : Operation) : Option Session :=
  match o.stage with
  | .called call => some (s.begin o call)
  | .enrolling request template handler => some (s.enroll o request template handler)
  | .running purpose transfer (.ended outcome) =>
    some (s.proceed o purpose (transfer.resume outcome))
  | .running purpose transfer exchange =>
    (s.connection.step o.cancelled exchange).map fun c =>
      (s.absorb (.operation o.serial) c).putOperation
        { o with stage := .running purpose transfer c.exchange }
  | .concluding purpose result => some (s.conclude o purpose result)
  | .joining =>
    match s.receiver with
    | .ended => some (s.finish o .stopped)
    | _ => none

/-- A worker that delivers a notification from its next turn on. However the handler takes it, the worker goes
on to the next one. -/
def deliver (s : Session) (w : Worker) (next : Stride Delivery (Option Notification)) : Session :=
  let s := s.publish next.reports
  match next.turn with
  | .ask request delivery => s.putWorker { w with current := some (delivery, .begun request) }
  | .finish none => s.putWorker { w with current := none }
  | .finish (some notification) =>
    (s.putWorker { w with current := none }).note
      (.notified w.owner notification (w.handler notification))

/-- Lets a worker go together with its handler. -/
def dismiss (s : Session) (w : Worker) : Session :=
  ({ s with workers := s.workers.filter fun v => v.serial != w.serial }).note (.released w.owner)

def stepWorker (s : Session) (w : Worker) : Option Session :=
  match w.current with
  | none =>
    if s.isStopped w.serial then some (s.dismiss w)
    else
      (s.subscriptions.take w.serial).map fun (notification, subscriptions) =>
        { s with subscriptions }.deliver w
          (Delivery.start s.transfers.blockTransfer w.template notification)
  | some (delivery, .ended outcome) => some (s.deliver w (delivery.resume outcome))
  | some (delivery, exchange) =>
    (s.connection.step (s.isStopped w.serial) exchange).map fun c =>
      (s.absorb (.worker w.serial) c).putWorker { w with current := some (delivery, c.exchange) }

/-- An empty message that answers a confirmable one. -/
def replyTo (m : Message) (type : MessageType) : Message :=
  { type, code := .empty, id := m.id }

/-- Routes a message: acknowledgements and resets by id to the exchange they answer, all else by token to a
subscription. A confirmable message is acknowledged if there is one, and reset if not. -/
def route (s : Session) (m : Message) : Session :=
  match m.type with
  | .acknowledgement | .reset =>
    s.setExchanges (s.connection.exchanges.complete m).2
  | .confirmable =>
    let (found, subscriptions) := s.subscriptions.tryHandle m
    let type : MessageType := if found then .acknowledgement else .reset
    { s with subscriptions, receiver := .replying (replyTo m type) }
  | .nonConfirmable =>
    let (_, subscriptions) := s.subscriptions.tryHandle m
    { s with subscriptions }

/-- Takes what arrives next; a stop comes first, whatever waits to be received. -/
def listen (s : Session) : Option Session :=
  if s.shutdown then some { s with receiver := .failing .connectionClosed }
  else
    match s.connection.wire.receive with
    | .error e => some { s with receiver := .failing (.communication e) }
    | .ok (.pending, _) => none
    | .ok (.ended, wire) => some { s.setWire wire with receiver := .failing .connectionClosed }
    | .ok (.message m, wire) => some ((s.setWire wire).route m)

def stepReceiver (s : Session) : Option Session :=
  match s.receiver with
  | .listening => s.listen
  | .replying reply =>
    -- A reply that cannot be sent is given up; the receiver goes on in any case.
    match s.connection.wire.send reply with
    | none => none
    | some (.error _) => some { s with receiver := .listening }
    | some (.ok wire) =>
      some ({ s.setWire wire with receiver := .listening }.note (.sent .receiver reply))
  -- The flag is set before the entries are collected, so no exchange slips in between unseen.
  | .failing e => some { s with connection := { s.connection with closed := true }, receiver := .collecting e }
  | .collecting e => some { s with receiver := .ending e s.connection.exchanges.ids }
  | .ending e (id :: ids) =>
    let exchanges := (s.connection.exchanges.resolve id (.error e)).2
    some { s.setExchanges exchanges with receiver := .ending e ids }
  | .ending _ [] => some { s with receiver := .clearing }
  | .clearing => some { s with subscriptions := s.subscriptions.clear, receiver := .closing }
  | .closing =>
    some { s.setPipe s.connection.wire.pipe.close with receiver := .ended }
  | .ended => none

/-- One step of a task, none if it has to wait or is over. -/
def step (s : Session) : Task → Option Session
  | .receiver => s.stepReceiver
  | .operation serial =>
    match s.operations.find? fun o => o.serial == serial with
    | some o => s.stepOperation o
    | none => none
  | .worker serial =>
    match s.workers.find? fun w => w.serial == serial with
    | some w => s.stepWorker w
    | none => none

end Coap.Session
