import Coap.Proofs.SessionFrame

/-! The exchanges that are under way in a session, each under the task that it belongs to, and what
one move of the session changes of them. -/
namespace Coap

/-- The exchange that an operation is in. -/
def Operation.exchange? (o : Operation) : Option Exchange :=
  match o.stage with
  | .running _ _ e => some e
  | _ => none

/-- The exchange that a delivery is waiting for. -/
def Worker.exchange? (w : Worker) : Option Exchange := w.current.map Prod.snd

namespace Session

def worker? (s : Session) (n : Nat) : Option Worker := s.workers.find? fun w => w.serial == n

/-- The exchange that a task is in. -/
def exchangeOf (s : Session) : Task → Option Exchange
  | .receiver => none
  | .operation n => (s.operation? n).bind Operation.exchange?
  | .worker n => (s.worker? n).bind Worker.exchange?

/-- The waiter of the exchange that a task is in. -/
def waiterOf (s : Session) (t : Task) : Option Waiter := (s.exchangeOf t).bind Exchange.waiter?

/-- Whether a task has been told to stop. -/
def isCancelled (s : Session) : Task → Bool
  | .receiver => false
  | .operation n => (s.operation? n).any Operation.cancelled
  | .worker n => s.isStopped n

/-- Only the exchange of one task may be another one. -/
structure Only (task : Task) (s s' : Session) : Prop where
  receiver : s'.receiver = s.receiver
  others : ∀ t, t ≠ task → s'.exchangeOf t = s.exchangeOf t

/-- What a move may do to the exchanges: one of them goes on by a step; a task begins another one, or
none, where its own has ended or it had none; the receiver steps, and all exchanges stay in their
phases; an operation is dropped with its exchange; or something comes from outside that changes
neither exchanges nor the table. -/
inductive Effect (s s' : Session) : Move → Prop
  | exchanged {task : Task} {e : Exchange} {c : Connection.Stepped} (only : Only task s s')
      (before : s.exchangeOf task = some e)
      (step : s.connection.step (s.isCancelled task) e = some c)
      (connection : s'.connection = c.connection)
      (after : s'.exchangeOf task = some c.exchange) : Effect s s' (.step task)
  | turned {task : Task} (own : task ≠ .receiver) (only : Only task s s')
      (before : ∀ e, s.exchangeOf task = some e → ∃ o, e = .ended o)
      (connection : s'.connection = s.connection)
      (after : ∀ e, s'.exchangeOf task = some e → ∃ r, e = .begun r) : Effect s s' (.step task)
  | received (step : s.stepReceiver = some s') (kept : ∀ t, s'.exchangeOf t = s.exchangeOf t) :
      Effect s s' (.step .receiver)
  | dropped {n : Nat} (only : Only (.operation n) s s')
      (exchanges : s'.connection.exchanges = match s.waiterOf (.operation n) with
        | some w => s.connection.exchanges.release w
        | none => s.connection.exchanges)
      (closed : s'.connection.closed = s.connection.closed)
      (wire : s'.connection.wire = s.connection.wire)
      (after : s'.exchangeOf (.operation n) = none) : Effect s s' (.input (.abort n))
  | disturbed {i : Input} (kept : ∀ t, s'.exchangeOf t = s.exchangeOf t)
      (receiver : s'.receiver = s.receiver)
      (exchanges : s'.connection.exchanges = s.connection.exchanges)
      (closed : s'.connection.closed = s.connection.closed)
      (shut : s'.connection.wire.pipe.closed = s.connection.wire.pipe.closed)
      (toPeer : s'.connection.wire.pipe.toPeer = s.connection.wire.pipe.toPeer) :
      Effect s s' (.input i)

variable {s s' s'' : Session} {n : Nat} {o : Operation} {w : Worker} {task : Task}

theorem exchangeOf_of_operations (ho : s'.operations = s.operations) (hw : s'.workers = s.workers)
    (t : Task) : s'.exchangeOf t = s.exchangeOf t := by
  cases t with
  | receiver => rfl
  | operation k =>
    unfold exchangeOf operation?
    rw [ho]
  | worker k =>
    unfold exchangeOf worker?
    rw [hw]

theorem Only.trans (h : Only task s s') (h' : Only task s' s'') : Only task s s'' where
  receiver := h'.receiver.trans h.receiver
  others := fun t ht => (h'.others t ht).trans (h.others t ht)

theorem Only.of_fields (hr : s'.receiver = s.receiver) (ho : s'.operations = s.operations)
    (hw : s'.workers = s.workers) : Only task s s' where
  receiver := hr
  others := fun t _ => exchangeOf_of_operations ho hw t

theorem only_putOperation (s : Session) (o : Operation) :
    Only (.operation o.serial) s (s.putOperation o) where
  receiver := rfl
  others := by
    intro t ht
    cases t with
    | receiver => rfl
    | operation k =>
      have hk : o.serial ≠ k := fun hk => ht (by rw [hk])
      have hsame := find?_replace_ne Operation.serial hk s.operations
      exact congrArg (Option.bind · Operation.exchange?) hsame
    | worker k => rfl

theorem only_finish (s : Session) (o : Operation) (c : Completion) :
    Only (.operation o.serial) s (s.finish o c) where
  receiver := rfl
  others := by
    intro t ht
    cases t with
    | receiver => rfl
    | operation k =>
      have hk : o.serial ≠ k := fun hk => ht (by rw [hk])
      have hsame := find?_filter_ne Operation.serial hk s.operations
      exact congrArg (Option.bind · Operation.exchange?) hsame
    | worker k => rfl

theorem only_putWorker (s : Session) (w : Worker) : Only (.worker w.serial) s (s.putWorker w) where
  receiver := rfl
  others := by
    intro t ht
    cases t with
    | receiver => rfl
    | operation k => rfl
    | worker k =>
      have hk : w.serial ≠ k := fun hk => ht (by rw [hk])
      have hsame := find?_replace_ne Worker.serial hk s.workers
      exact congrArg (Option.bind · Worker.exchange?) hsame

theorem only_dismiss (s : Session) (w : Worker) : Only (.worker w.serial) s (s.dismiss w) where
  receiver := rfl
  others := by
    intro t ht
    cases t with
    | receiver => rfl
    | operation k => rfl
    | worker k =>
      have hk : w.serial ≠ k := fun hk => ht (by rw [hk])
      have hsame := find?_filter_ne Worker.serial hk s.workers
      exact congrArg (Option.bind · Worker.exchange?) hsame

theorem only_absorb (s : Session) (t : Task) (c : Connection.Stepped) :
    Only task s (s.absorb t c) := by
  unfold absorb
  cases c.sent <;> exact .of_fields rfl rfl rfl

theorem connection_absorb (s : Session) (t : Task) (c : Connection.Stepped) :
    (s.absorb t c).connection = c.connection := by
  unfold absorb
  cases c.sent <;> rfl

theorem worker?_absorb (s : Session) (t : Task) (c : Connection.Stepped) (n : Nat) :
    (s.absorb t c).worker? n = s.worker? n := by
  unfold absorb
  cases c.sent <;> rfl

/-! A turn of a task outside its exchanges. -/

/-- A task has come to another exchange that has just begun, or to none. -/
structure Turned (task : Task) (s s' : Session) : Prop where
  only : Only task s s'
  connection : s'.connection = s.connection
  after : ∀ e, s'.exchangeOf task = some e → ∃ r, e = .begun r

/-- A turn after a change that exchanges do not see. -/
theorem Turned.from (s' : Session) (hc : s'.connection = s.connection)
    (hr : s'.receiver = s.receiver) (ho : s'.operations = s.operations)
    (hw : s'.workers = s.workers) (h : Turned task s' s'') : Turned task s s'' where
  only := (Only.of_fields hr ho hw).trans h.only
  connection := h.connection.trans hc
  after := h.after

/-- A turn before something is noted. -/
theorem Turned.note (h : Turned task s s') (e : Event) : Turned task s (s'.note e) where
  only := h.only.trans (Only.of_fields rfl rfl rfl)
  connection := h.connection
  after := h.after

theorem turned_putOperation (s : Session) (o : Operation) {stage : Operation.Stage}
    (h : ∀ e, Operation.exchange? { o with stage } = some e → ∃ r, e = .begun r) :
    Turned (.operation o.serial) s (s.putOperation { o with stage }) where
  only := only_putOperation s { o with stage }
  connection := rfl
  after := by
    intro e he
    have hput := operation?_putOperation_self s { o with stage }
    change ((s.putOperation { o with stage }).operation? o.serial).bind Operation.exchange? = some e
      at he
    rw [hput] at he
    cases hfind : s.operation? o.serial with
    | none =>
      rw [hfind] at he
      cases he
    | some p =>
      rw [hfind] at he
      exact h e he

theorem turned_rest (s : Session) (o : Operation) {stage : Operation.Stage}
    (h : Operation.exchange? { o with stage } = none) :
    Turned (.operation o.serial) s (s.putOperation { o with stage }) := by
  refine turned_putOperation s o ?_
  rw [h]
  intro e he
  cases he

theorem turned_finish (s : Session) (o : Operation) (c : Completion) :
    Turned (.operation o.serial) s (s.finish o c) where
  only := only_finish s o c
  connection := rfl
  after := by
    intro e he
    change ((s.finish o c).operation? o.serial).bind Operation.exchange? = some e at he
    rw [operation?_finish] at he
    cases he

theorem turned_proceed (s : Session) (o : Operation) (purpose : Purpose)
    (next : Stride Transfer (Except ClientError Response)) :
    Turned (.operation o.serial) s (s.proceed o purpose next) := by
  refine Turned.from (s.publish next.reports) rfl rfl rfl rfl ?_
  unfold proceed
  cases next.turn with
  | ask r t =>
    refine turned_putOperation _ o ?_
    intro e he
    cases he
    exact ⟨r, rfl⟩
  | finish result => exact turned_rest _ o rfl

theorem turned_begin (s : Session) (o : Operation) (call : Call) :
    Turned (.operation o.serial) s (s.begin o call) := by
  cases call with
  | request request =>
    cases hm : request.toMessage with
    | error e =>
      rw [begin_request_error hm]
      exact turned_finish s o _
    | ok m =>
      rw [begin_request_ok hm]
      exact (turned_proceed _ o _ _).from { s with tokens := s.tokens.take.2 } rfl rfl rfl rfl
  | observe request handler =>
    unfold begin
    dsimp only
    split
    · exact (turned_finish s o _).note _
    · exact (turned_rest _ o rfl).from { s with tokens := s.tokens.take.2 } rfl rfl rfl rfl
  | stop observation => exact turned_proceed s o _ _
  | shutdown =>
    unfold begin
    dsimp only
    split
    · exact (turned_finish _ o _).from { s with shutdown := true } rfl rfl rfl rfl
    · exact (turned_rest _ o rfl).from { s with shutdown := true, joined := true }
        rfl rfl rfl rfl

/-- A worker that has just been made has no exchange. -/
theorem exchangeOf_enlist {subscriptions : Subscriptions} {k : Nat} (hw : w.current = none)
    (t : Task) :
    exchangeOf { s with subscriptions, workers := s.workers ++ [w], nextSerial := k } t =
      s.exchangeOf t := by
  cases t with
  | receiver => rfl
  | operation k => rfl
  | worker k =>
    unfold exchangeOf worker?
    dsimp only
    rw [List.find?_append]
    -- The new worker is found only under its own number, and there it has no exchange.
    cases s.workers.find? fun v => v.serial == k with
    | some v => rfl
    | none =>
      by_cases hk : w.serial = k
      · simp [hk, Worker.exchange?, hw]
      · simp [hk]

theorem turned_enroll (s : Session) (o : Operation) (request template : Message)
    (handler : Handler) : Turned (.operation o.serial) s (s.enroll o request template handler) := by
  unfold enroll
  cases s.subscriptions.register request.token s.nextSerial with
  | error e => exact (turned_finish s o _).note _
  | ok subscriptions =>
    have hnext := turned_proceed { s with
      subscriptions
      workers := s.workers ++ [{ serial := s.nextSerial, owner := o.serial, template, handler }]
      nextSerial := s.nextSerial + 1 } o (.register request.token template)
        (Transfer.start s.transfers request template)
    refine ⟨⟨hnext.only.receiver, ?_⟩, hnext.connection, hnext.after⟩
    intro t ht
    exact (hnext.only.others t ht).trans (exchangeOf_enlist rfl t)

theorem turned_conclude (s : Session) (o : Operation) (purpose : Purpose)
    (result : Except ClientError Response) :
    Turned (.operation o.serial) s (s.conclude o purpose result) := by
  obtain ⟨subscriptions, c, hconclude, -⟩ := conclude_eq_finish s o purpose result
  rw [hconclude]
  exact (turned_finish _ o c).from { s with subscriptions } rfl rfl rfl rfl

theorem turned_putWorker (s : Session) (w : Worker) {current : Option (Delivery × Exchange)}
    (h : ∀ e, Worker.exchange? { w with current } = some e → ∃ r, e = .begun r) :
    Turned (.worker w.serial) s (s.putWorker { w with current }) where
  only := only_putWorker s { w with current }
  connection := rfl
  after := by
    intro e he
    have hput := find?_replace_self Worker.serial { w with current } s.workers
    change ((s.putWorker { w with current }).worker? w.serial).bind Worker.exchange? = some e at he
    change (s.putWorker { w with current }).worker? w.serial = _ at hput
    rw [hput] at he
    cases hfind : s.workers.find? fun v => v.serial == w.serial with
    | none =>
      rw [hfind] at he
      cases he
    | some v =>
      rw [hfind] at he
      exact h e he

theorem turned_atRest (s : Session) (w : Worker) :
    Turned (.worker w.serial) s (s.putWorker { w with current := none }) := by
  refine turned_putWorker s w ?_
  intro e he
  cases he

theorem turned_deliver (s : Session) (w : Worker) (next : Stride Delivery (Option Notification)) :
    Turned (.worker w.serial) s (s.deliver w next) := by
  refine Turned.from (s.publish next.reports) rfl rfl rfl rfl ?_
  unfold deliver
  cases next.turn with
  | ask r d =>
    refine turned_putWorker _ w ?_
    intro e he
    cases he
    exact ⟨r, rfl⟩
  | finish result =>
    cases result with
    | none => exact turned_atRest _ w
    | some notification => exact (turned_atRest _ w).note _

theorem turned_dismiss (s : Session) (w : Worker) :
    Turned (.worker w.serial) s (s.dismiss w) where
  only := only_dismiss s w
  connection := rfl
  after := by
    intro e he
    have hgone := @find?_filter_self w.serial _ Worker.serial s.workers
    change ((s.dismiss w).worker? w.serial).bind Worker.exchange? = some e at he
    change (s.dismiss w).worker? w.serial = none at hgone
    rw [hgone] at he
    cases he

/-! Every move has one of the effects. -/

theorem exchangeOf_operation (ho : s.operation? n = some o) :
    s.exchangeOf (.operation n) = o.exchange? := by
  change (s.operation? n).bind Operation.exchange? = o.exchange?
  rw [ho, Option.bind_some]

theorem isCancelled_operation (ho : s.operation? n = some o) :
    s.isCancelled (.operation n) = o.cancelled := by
  change (s.operation? n).any Operation.cancelled = o.cancelled
  rw [ho, Option.any_some]

theorem exchangeOf_worker (hw : s.worker? n = some w) : s.exchangeOf (.worker n) = w.exchange? := by
  change (s.worker? n).bind Worker.exchange? = w.exchange?
  rw [hw, Option.bind_some]

theorem worker?_serial (h : s.worker? n = some w) : w.serial = n := by
  simpa using List.find?_some h

/-- An operation that is in an exchange runs a transfer. -/
theorem operation_of_exchangeOf {e : Exchange} (he : s.exchangeOf (.operation n) = some e) :
    ∃ o purpose transfer, s.operation? n = some o ∧ o.stage = .running purpose transfer e := by
  obtain ⟨o, ho, hexchange⟩ := Option.bind_eq_some_iff.mp he
  unfold Operation.exchange? at hexchange
  split at hexchange
  · rename_i purpose transfer e' hstage
    cases hexchange
    exact ⟨o, purpose, transfer, ho, hstage⟩
  · cases hexchange

/-- A worker that is in an exchange delivers a notification. -/
theorem worker_of_exchangeOf {e : Exchange} (he : s.exchangeOf (.worker n) = some e) :
    ∃ w delivery, s.worker? n = some w ∧ w.current = some (delivery, e) := by
  obtain ⟨w, hw, hexchange⟩ := Option.bind_eq_some_iff.mp he
  obtain ⟨⟨delivery, _⟩, hcurrent, rfl⟩ := Option.map_eq_some_iff.mp hexchange
  exact ⟨w, delivery, hw, hcurrent⟩

/-- A worker whose exchange has not ended takes the next step of the exchange. -/
theorem stepWorker_busy {w : Worker} {delivery : Delivery} {e : Exchange}
    (hcurrent : w.current = some (delivery, e)) (hgoing : ∀ r, e ≠ .ended r) :
    s.stepWorker w = (s.connection.step (s.isStopped w.serial) e).map fun c =>
      (s.absorb (.worker w.serial) c).putWorker { w with current := some (delivery, c.exchange) } := by
  unfold stepWorker
  rw [hcurrent]
  cases e with
  | ended r => exact absurd rfl (hgoing r)
  | _ => rfl

theorem step_of_worker? (h : s.worker? n = some w) : s.step (.worker n) = s.stepWorker w := by
  have hfind : (s.workers.find? fun v => v.serial == n) = some w := h
  simp [step, hfind]

theorem step_of_worker?_none (h : s.worker? n = none) : s.step (.worker n) = none := by
  have hfind : (s.workers.find? fun v => v.serial == n) = none := h
  simp [step, hfind]

/-- A step of a worker is one of a worker that is there. -/
theorem worker_of_step (hs : s.step (.worker n) = some s') :
    ∃ w, s.worker? n = some w ∧ s.stepWorker w = some s' := by
  cases hw : s.worker? n with
  | none =>
    rw [step_of_worker?_none hw] at hs
    cases hs
  | some w => exact ⟨w, rfl, (step_of_worker? hw).symm.trans hs⟩

theorem Turned.effect (h : Turned task s s') (own : task ≠ .receiver)
    (before : ∀ e, s.exchangeOf task = some e → ∃ o, e = .ended o) : Effect s s' (.step task) :=
  .turned own h.only before h.connection h.after

theorem effect_stepOperation (ho : s.operation? o.serial = some o)
    (hs : s.stepOperation o = some s') : Effect s s' (.step (.operation o.serial)) := by
  have hown := exchangeOf_operation ho
  -- Outside an exchange that has not ended the operation turns.
  have hturn (hnone : o.exchange? = none) (ht : Turned (.operation o.serial) s s') :
      Effect s s' (.step (.operation o.serial)) := by
    refine ht.effect nofun ?_
    rw [hown, hnone]
    intro e he
    cases he
  unfold stepOperation at hs
  unfold Operation.exchange? at hown hturn
  cases hstage : o.stage with
  | called call =>
    rw [hstage] at hs hturn
    cases hs
    exact hturn rfl (turned_begin s o call)
  | enrolling request template handler =>
    rw [hstage] at hs hturn
    cases hs
    exact hturn rfl (turned_enroll s o request template handler)
  | running purpose transfer exchange =>
    rw [hstage] at hs hown
    cases exchange with
    | ended outcome =>
      cases hs
      refine (turned_proceed s o purpose (transfer.resume outcome)).effect nofun ?_
      intro e he
      rw [hown] at he
      cases he
      exact ⟨outcome, rfl⟩
    | _ =>
      obtain ⟨c, hc, rfl⟩ := Option.map_eq_some_iff.mp hs
      have hcancelled := isCancelled_operation ho
      have hthere := (operation?_absorb s (.operation o.serial) c o.serial).trans ho
      -- The connection goes first; then the operation comes back with its exchange a step further.
      let next : Operation := { o with stage := .running purpose transfer c.exchange }
      have hput : Only (.operation o.serial) _
          ((s.absorb (.operation o.serial) c).putOperation next) := only_putOperation _ next
      refine .exchanged ((only_absorb s _ c).trans hput) hown ?_ (connection_absorb s _ c) ?_
      · rw [hcancelled]
        exact hc
      · exact exchangeOf_operation (@operation?_putOperation _ next _ hthere)
  | concluding purpose result =>
    rw [hstage] at hs hturn
    cases hs
    exact hturn rfl (turned_conclude s o purpose result)
  | joining =>
    rw [hstage] at hs hturn
    dsimp only at hs
    split at hs
    · cases hs
      exact hturn rfl (turned_finish s o _)
    · cases hs

theorem worker?_putWorker {v : Worker} (h : s.worker? w.serial = some v) :
    (s.putWorker w).worker? w.serial = some w := by
  have hput := find?_replace_self Worker.serial w s.workers
  change (s.putWorker w).worker? w.serial = (s.worker? w.serial).map _ at hput
  rw [hput, h, Option.map_some]

theorem effect_stepWorker (hw : s.worker? w.serial = some w) (hs : s.stepWorker w = some s') :
    Effect s s' (.step (.worker w.serial)) := by
  have hown := exchangeOf_worker hw
  unfold stepWorker at hs
  unfold Worker.exchange? at hown
  cases hcurrent : w.current with
  | none =>
    rw [hcurrent] at hs hown
    have hturn (ht : Turned (.worker w.serial) s s') : Effect s s' (.step (.worker w.serial)) := by
      refine ht.effect nofun ?_
      rw [hown]
      intro e he
      cases he
    dsimp only at hs
    split at hs
    · cases hs
      exact hturn (turned_dismiss s w)
    · obtain ⟨⟨notification, subscriptions⟩, -, rfl⟩ := Option.map_eq_some_iff.mp hs
      exact hturn ((turned_deliver _ w _).from { s with subscriptions } rfl rfl rfl rfl)
  | some current =>
    obtain ⟨delivery, exchange⟩ := current
    rw [hcurrent] at hs hown
    cases exchange with
    | ended outcome =>
      cases hs
      refine (turned_deliver s w (delivery.resume outcome)).effect nofun ?_
      intro e he
      rw [hown] at he
      cases he
      exact ⟨outcome, rfl⟩
    | _ =>
      obtain ⟨c, hc, rfl⟩ := Option.map_eq_some_iff.mp hs
      have hthere := (worker?_absorb s (.worker w.serial) c w.serial).trans hw
      let next : Worker := { w with current := some (delivery, c.exchange) }
      have hput : Only (.worker w.serial) _ ((s.absorb (.worker w.serial) c).putWorker next) :=
        only_putWorker _ next
      refine .exchanged ((only_absorb s _ c).trans hput) hown hc (connection_absorb s _ c) ?_
      exact exchangeOf_worker (@worker?_putWorker _ next _ hthere)

theorem workers_route (s : Session) (m : Message) : (s.route m).workers = s.workers := by
  unfold route
  split <;> rfl

theorem workers_stepReceiver (hs : s.stepReceiver = some s') : s'.workers = s.workers := by
  unfold stepReceiver at hs
  cases hphase : s.receiver with
  | listening =>
    simp only [hphase, listen] at hs
    repeat' split at hs
    all_goals cases hs
    any_goals rfl
    exact workers_route _ _
  | replying reply =>
    simp only [hphase] at hs
    split at hs
    all_goals cases hs
    all_goals rfl
  | ending e ids =>
    rw [hphase] at hs
    cases ids <;> cases hs <;> rfl
  | _ =>
    rw [hphase] at hs
    cases hs
    all_goals rfl

/-- The receiver changes no exchange, whatever it does to the table. -/
theorem exchangeOf_stepReceiver (hs : s.stepReceiver = some s') (t : Task) :
    s'.exchangeOf t = s.exchangeOf t := by
  cases t with
  | receiver => rfl
  | operation k =>
    exact congrArg (Option.bind · Operation.exchange?) (same_stepReceiver hs).operation
  | worker k =>
    change (s'.workers.find? fun w => w.serial == k).bind Worker.exchange? = s.exchangeOf (.worker k)
    rw [workers_stepReceiver hs]
    rfl

theorem effect_step (hs : s.step task = some s') : Effect s s' (.step task) := by
  cases task with
  | receiver => exact .received hs (exchangeOf_stepReceiver hs)
  | operation k =>
    obtain ⟨o, ho, hstep⟩ := operation_of_step hs
    obtain rfl := operation?_serial ho
    exact effect_stepOperation ho hstep
  | worker k =>
    obtain ⟨w, hw, hstep⟩ := worker_of_step hs
    obtain rfl := worker?_serial hw
    exact effect_stepWorker hw hstep

theorem operation?_cancel (s : Session) (k n : Nat) : (s.cancel k).operation? n =
    (s.operation? n).map fun o => if o.serial == k then { o with cancelled := true } else o := by
  let mark (o : Operation) : Operation := if o.serial == k then { o with cancelled := true } else o
  have hserial : ((fun o : Operation => o.serial == n) ∘ mark) = fun o => o.serial == n := by
    funext o
    by_cases ho : o.serial = k <;> simp [mark, ho]
  change (s.operations.map mark).find? (fun o => o.serial == n) = (s.operation? n).map mark
  rw [List.find?_map, hserial]
  rfl

theorem exchangeOf_cancel (s : Session) (k : Nat) (t : Task) :
    (s.cancel k).exchangeOf t = s.exchangeOf t := by
  cases t with
  | receiver => rfl
  | worker j => rfl
  | operation j =>
    change ((s.cancel k).operation? j).bind Operation.exchange? =
      (s.operation? j).bind Operation.exchange?
    rw [operation?_cancel]
    cases s.operation? j with
    | none => rfl
    | some o =>
      rw [Option.map_some, Option.bind_some, Option.bind_some]
      split <;> rfl

/-- A new operation has no exchange. -/
theorem exchangeOf_call (s : Session) (c : Call) (cancelled : Bool) (t : Task) :
    (s.call c cancelled).exchangeOf t = s.exchangeOf t := by
  cases t with
  | receiver => rfl
  | worker j => rfl
  | operation j =>
    unfold exchangeOf operation? call
    dsimp only
    rw [List.find?_append]
    cases s.operations.find? fun o => o.serial == j with
    | some o => rfl
    | none =>
      by_cases hj : s.nextSerial = j
      · simp [hj, Operation.exchange?]
      · simp [hj]

theorem effect_abort (s : Session) (k : Nat) : Effect s (s.abort k) (.input (.abort k)) := by
  unfold abort
  cases ho : s.operations.find? fun o => o.serial == k with
  | none =>
    have hnone : s.exchangeOf (.operation k) = none := by
      change (s.operations.find? fun o => o.serial == k).bind Operation.exchange? = none
      rw [ho, Option.bind_none]
    refine .dropped (Only.of_fields rfl rfl rfl) ?_ rfl rfl hnone
    unfold waiterOf
    rw [hnone]
    rfl
  | some o =>
    have hown : s.exchangeOf (.operation k) = o.exchange? := exchangeOf_operation ho
    have hgone :
        (s.operations.filter fun o => o.serial != k).find? (fun o => o.serial == k) = none :=
      find?_filter_self Operation.serial s.operations
    have hwire (e : Exchange) : (s.connection.abandon e).closed = s.connection.closed ∧
        (s.connection.abandon e).wire = s.connection.wire := by
      unfold Connection.abandon
      split <;> exact ⟨rfl, rfl⟩
    refine .dropped ⟨rfl, ?_⟩ ?_ ?_ ?_ ?_
    · intro t ht
      cases t with
      | receiver => rfl
      | worker j => rfl
      | operation j =>
        have hk : k ≠ j := fun hk => ht (by rw [hk])
        have hsame := find?_filter_ne Operation.serial hk s.operations
        exact congrArg (Option.bind · Operation.exchange?) hsame
    · -- Only an operation that is in an exchange has anything to give up in the table.
      unfold waiterOf
      rw [hown]
      obtain ⟨serial, cancelled, stage⟩ := o
      cases stage with
      | running purpose transfer e =>
        change (s.connection.abandon e).exchanges = match e.waiter? with
          | some w => s.connection.exchanges.release w
          | none => s.connection.exchanges
        unfold Connection.abandon
        cases e.waiter? <;> rfl
      | _ => rfl
    · obtain ⟨serial, cancelled, stage⟩ := o
      cases stage with
      | running purpose transfer e => exact (hwire e).1
      | _ => rfl
    · obtain ⟨serial, cancelled, stage⟩ := o
      cases stage with
      | running purpose transfer e => exact (hwire e).2
      | _ => rfl
    · change ((s.operations.filter fun o => o.serial != k).find? fun o => o.serial == k).bind
        Operation.exchange? = none
      rw [hgone, Option.bind_none]

theorem effect_accept (s : Session) (i : Input) : Effect s (s.accept i) (.input i) := by
  cases i with
  | call c cancelled => exact .disturbed (exchangeOf_call s c cancelled) rfl rfl rfl rfl rfl
  | cancel k => exact .disturbed (exchangeOf_cancel s k) rfl rfl rfl rfl rfl
  | abort k => exact effect_abort s k
  | message m =>
    change Effect s ((s.arrive m).toOption.getD s) _
    unfold arrive Pipe.peerSend
    repeat' split
    all_goals exact .disturbed (fun _ => rfl) rfl rfl rfl rfl rfl
  | _ => exact .disturbed (fun _ => rfl) rfl rfl rfl rfl rfl

/-- Every move has one of the effects on the exchanges. -/
theorem effect_of_move {m : Move} (hs : s.move m = some s') : Effect s s' m := by
  cases m with
  | step task => exact effect_step hs
  | input i =>
    cases hs
    exact effect_accept s i

/-- A task takes the next step of its exchange if and only if the connection lets the exchange go on. -/
theorem isSome_step_of_exchangeOf {t : Task} {e : Exchange} (he : s.exchangeOf t = some e)
    (hgoing : ∀ o, e ≠ .ended o) :
    (s.step t).isSome = (s.connection.step (s.isCancelled t) e).isSome := by
  cases t with
  | receiver => cases he
  | operation n =>
    obtain ⟨o, purpose, transfer, ho, hstage⟩ := operation_of_exchangeOf he
    rw [isCancelled_operation ho, step_of_operation? ho, stepOperation_running hstage hgoing,
      Option.isSome_map]
  | worker n =>
    obtain ⟨w, delivery, hw, hcurrent⟩ := worker_of_exchangeOf he
    obtain rfl := worker?_serial hw
    rw [step_of_worker? hw, stepWorker_busy hcurrent hgoing, Option.isSome_map]
    rfl

theorem step_of_exchangeOf {t : Task} {e : Exchange} {c : Connection.Stepped}
    (he : s.exchangeOf t = some e) (hgoing : ∀ o, e ≠ .ended o)
    (hc : s.connection.step (s.isCancelled t) e = some c) : ∃ s', s.step t = some s' := by
  rw [← Option.isSome_iff_exists, isSome_step_of_exchangeOf he hgoing, hc]
  rfl

end Session

end Coap
