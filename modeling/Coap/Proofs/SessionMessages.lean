import Coap.Proofs.MessageOrigins
import Coap.Proofs.TokenGrants

/-! The messages that a session holds and has sent: what is known of the messages that come in with its
calls, and is handed on from message to message, is known of all of them, but for the replies of the
receiver. -/
namespace Coap

/-- What is known of the messages of a session: of a call that has yet to begin, by the operation that
makes it; of the messages of a task; and of the template of an operation's observation. -/
structure Provenance where
  call : Nat → Call → Prop
  message : Task → Message → Prop
  template : Nat → Message → Prop

/-- It is handed on from the messages of a task to those that are made of them. -/
structure Provenance.Lasting (R : Provenance) : Prop where
  message : ∀ t, Inherited (R.message t)
  template : ∀ {n : Nat} {m : Message}, R.template n m → R.message (.operation n) m
  stop : ∀ {n : Nat} {o : Observation}, R.call n (.stop o) →
    R.message (.operation n) o.template ∧
      R.message (.operation n) (o.template.setOption (.observe Session.observeDeregister))

/-- It is known as well of what a move brings in: of a new call, of the messages that begin with a new
token, and of the template of a new worker. -/
structure Provenance.Covers (R : Provenance) (s : Session) (m : Move) : Prop where
  call : ∀ c cancelled, m = .input (.call c cancelled) → R.call s.nextSerial c
  request : ∀ {n : Nat} {token : ByteArray} {c : Call} {a : Message}, (n, token) ∈ s.grants m →
    R.call n c → c.request? = some a → R.message (.operation n) { a with token }
  observation : ∀ {n : Nat} {token : ByteArray} {r : Request} {handler : Handler} {a : Message},
    (n, token) ∈ s.grants m → R.call n (.observe r handler) → r.registration.toMessage = .ok a →
      R.template n ((Message.followUp { a with token }).removeOptions OptionKind.observe.number)
  worker : ∀ w ∈ s.enlists m, R.template w.owner w.template → R.message (.worker w.serial) w.template

variable {P : Message → Prop} {R : Provenance}

def Purpose.Carries (P : Message → Prop) : Purpose → Prop
  | .register _ template => P template
  | .respond | .deregister _ => True

def Completion.Carries (P : Message → Prop) : Completion → Prop
  | .observation o => P o.template
  | .response _ | .stopped | .failure _ => True

def Operation.Stage.Carries (R : Provenance) (n : Nat) : Operation.Stage → Prop
  | .called call => R.call n call
  | .enrolling request template _ => R.message (.operation n) request ∧ R.template n template
  | .running purpose transfer exchange =>
    purpose.Carries (R.template n) ∧ transfer.Carries (R.message (.operation n)) ∧
      exchange.Carries (R.message (.operation n))
  | .concluding purpose _ => purpose.Carries (R.template n)
  | .joining => True

structure Worker.Carries (R : Provenance) (w : Worker) : Prop where
  template : R.template w.owner w.template
  message : R.message (.worker w.serial) w.template
  current : ∀ delivery exchange, w.current = some (delivery, exchange) →
    delivery.Carries (R.message (.worker w.serial)) ∧ exchange.Carries (R.message (.worker w.serial))

theorem Worker.carries_of_resting {w : Worker} (ht : R.template w.owner w.template)
    (hm : R.message (.worker w.serial) w.template) (hc : w.current = none) : w.Carries R where
  template := ht
  message := hm
  current := by
    intro delivery exchange h
    rw [hc] at h
    cases h

/-- An empty message that answers a confirmable one. -/
def Message.IsReply (m : Message) : Prop :=
  ∃ (a : Message) (type : MessageType), a.type = .confirmable ∧
    (type = .acknowledgement ∨ type = .reset) ∧ m = Session.replyTo a type

/-- The reply that is about to be sent. -/
def Receiver.reply? : Receiver → Option Message
  | .replying reply => some reply
  | _ => none

/-- Replies come from the receiver; what else has been sent is known, and it is valid. -/
def Event.Carries (R : Provenance) : Event → Prop
  | .sent .receiver m => m.IsReply
  | .sent t m => R.message t m ∧ m.Valid
  | .finished n c => c.Carries (R.template n)
  | .notified _ _ _ | .released _ => True

namespace Session

/-- All messages of a session are known, but for the replies. -/
structure Carries (R : Provenance) (s : Session) : Prop where
  operations : ∀ o ∈ s.operations, o.stage.Carries R o.serial
  workers : ∀ w ∈ s.workers, w.Carries R
  reply : ∀ m, s.receiver.reply? = some m → m.IsReply
  log : ∀ e ∈ s.log.toList, e.Carries R

variable {s s' : Session} {o : Operation} {w : Worker}

/-- Another receiver brings at most another reply with it. -/
theorem Carries.of_receiver (h : s.Carries R) (ho : s'.operations = s.operations)
    (hw : s'.workers = s.workers) (hl : s'.log = s.log)
    (hr : ∀ m, s'.receiver.reply? = some m → m.IsReply) : s'.Carries R where
  operations := by
    rw [ho]
    exact h.operations
  workers := by
    rw [hw]
    exact h.workers
  reply := hr
  log := by
    rw [hl]
    exact h.log

/-- What messages a session has is in these fields alone. -/
theorem Carries.of_fields (h : s.Carries R) (ho : s'.operations = s.operations)
    (hw : s'.workers = s.workers) (hr : s'.receiver = s.receiver) (hl : s'.log = s.log) :
    s'.Carries R := by
  refine h.of_receiver ho hw hl ?_
  rw [hr]
  exact h.reply

/-! The changes that a step is made of -/

theorem Carries.note (h : s.Carries R) (e : Event) (he : e.Carries R) : (s.note e).Carries R where
  operations := h.operations
  workers := h.workers
  reply := h.reply
  log := by
    intro e' he'
    rw [Session.note, Array.toList_push] at he'
    rcases List.mem_append.mp he' with hold | hnew
    · exact h.log e' hold
    · rw [List.mem_singleton.mp hnew]
      exact he

theorem Carries.putOperation (h : s.Carries R) (ho : o.stage.Carries R o.serial) :
    (s.putOperation o).Carries R where
  operations := by
    intro p hp
    obtain ⟨q, hq, rfl⟩ := List.mem_map.mp hp
    split
    · exact ho
    · exact h.operations q hq
  workers := h.workers
  reply := h.reply
  log := h.log

theorem Carries.finish (h : s.Carries R) (o : Operation) (c : Completion)
    (hc : c.Carries (R.template o.serial)) : (s.finish o c).Carries R := by
  unfold Session.finish
  refine Carries.note ?_ (.finished o.serial c) hc
  exact {
    operations := fun p hp => h.operations p (List.mem_filter.mp hp).1
    workers := h.workers
    reply := h.reply
    log := h.log }

theorem Carries.putWorker (h : s.Carries R) (hw : w.Carries R) : (s.putWorker w).Carries R where
  operations := h.operations
  workers := by
    intro v hv
    obtain ⟨u, hu, rfl⟩ := List.mem_map.mp hv
    split
    · exact hw
    · exact h.workers u hu
  reply := h.reply
  log := h.log

theorem Carries.proceed (h : s.Carries R) (o : Operation) (purpose : Purpose)
    (hpurpose : purpose.Carries (R.template o.serial))
    {next : Stride Transfer (Except ClientError Response)}
    (hnext : next.turn.Carries (R.message (.operation o.serial))
      (Transfer.Carries (R.message (.operation o.serial)))) :
    (s.proceed o purpose next).Carries R := by
  have hpublished : (s.publish next.reports).Carries R := h.of_fields rfl rfl rfl rfl
  unfold Session.proceed
  dsimp only
  split
  · rename_i hturn
    rw [hturn] at hnext
    exact hpublished.putOperation ⟨hpurpose, hnext.2, hnext.1⟩
  · exact hpublished.putOperation hpurpose

theorem Carries.absorb {t : Task} {c : Connection.Stepped} (h : s.Carries R)
    (hc : ∀ m, c.sent = some m → (Event.sent t m).Carries R) : (s.absorb t c).Carries R := by
  have htaken : { s with connection := c.connection }.Carries R := h.of_fields rfl rfl rfl rfl
  unfold Session.absorb
  cases hsent : c.sent with
  | none => exact htaken
  | some m => exact htaken.note (.sent t m) (hc m hsent)

theorem Carries.deliver (h : s.Carries R) (hw : w.Carries R)
    {next : Stride Delivery (Option Notification)}
    (hnext : next.turn.Carries (R.message (.worker w.serial))
      (Delivery.Carries (R.message (.worker w.serial)))) : (s.deliver w next).Carries R := by
  have hpublished : (s.publish next.reports).Carries R := h.of_fields rfl rfl rfl rfl
  have hresting : ({ w with current := none } : Worker).Carries R :=
    Worker.carries_of_resting hw.template hw.message rfl
  unfold Session.deliver
  dsimp only
  split
  · rename_i hturn
    rw [hturn] at hnext
    refine hpublished.putWorker ⟨hw.template, hw.message, ?_⟩
    intro delivery exchange hcurrent
    cases hcurrent
    exact ⟨hnext.2, hnext.1⟩
  · exact hpublished.putWorker hresting
  · exact (hpublished.putWorker hresting).note _ trivial

/-! Steps of the tasks -/

theorem Carries.begin (hR : R.Lasting) (hm : R.Covers s (.step (.operation o.serial))) (h : s.Carries R)
    {call : Call} (ho : s.operation? o.serial = some o) (hstage : o.stage = .called call)
    (hcall : R.call o.serial call) : (s.begin o call).Carries R := by
  have hgrants := grants_of_called ho hstage
  have htaken : { s with tokens := s.tokens.take.2 }.Carries R := h.of_fields rfl rfl rfl rfl
  cases call with
  | request request =>
    cases ha : request.toMessage with
    | error e =>
      rw [begin_request_error ha]
      exact h.finish o _ trivial
    | ok a =>
      have hrequest : (Call.request request).request? = some a := congrArg Except.toOption ha
      have hgrant : (o.serial, s.tokens.take.1) ∈ s.grants (.step (.operation o.serial)) := by
        rw [hgrants, hrequest]
        exact List.mem_singleton_self _
      have hmessage := hm.request hgrant hcall hrequest
      rw [begin_request_ok ha]
      exact htaken.proceed o .respond trivial
        (Transfer.start_carries (hR.message _) s.transfers hmessage ((hR.message _).followUp hmessage))
  | observe request handler =>
    unfold Session.begin
    dsimp only
    split
    · exact (h.finish o (.failure _) trivial).note (.released o.serial) trivial
    · rename_i a ha
      have hrequest : (Call.observe request handler).request? = some a := congrArg Except.toOption ha
      have hgrant : (o.serial, s.tokens.take.1) ∈ s.grants (.step (.operation o.serial)) := by
        rw [hgrants, hrequest]
        exact List.mem_singleton_self _
      exact htaken.putOperation ⟨hm.request hgrant hcall hrequest, hm.observation hgrant hcall ha⟩
  | stop observation =>
    obtain ⟨htemplate, hmessage⟩ := hR.stop hcall
    exact h.proceed o (.deregister observation.token) trivial
      (Transfer.start_carries (hR.message _) s.transfers hmessage htemplate)
  | shutdown =>
    have hstopping : { s with shutdown := true }.Carries R := h.of_fields rfl rfl rfl rfl
    unfold Session.begin
    dsimp only
    split
    · exact hstopping.finish o .stopped trivial
    · have hjoined : { s with shutdown := true, joined := true }.Carries R :=
        h.of_fields rfl rfl rfl rfl
      exact hjoined.putOperation trivial

theorem Carries.enroll (hR : R.Lasting) (hm : R.Covers s (.step (.operation o.serial)))
    (h : s.Carries R) {request template : Message} {handler : Handler}
    (ho : s.operation? o.serial = some o) (hstage : o.stage = .enrolling request template handler)
    (hfree : s.worker? s.nextSerial = none) (hrequest : R.message (.operation o.serial) request)
    (htemplate : R.template o.serial template) : (s.enroll o request template handler).Carries R := by
  unfold Session.enroll
  split
  · exact (h.finish o (.failure _) trivial).note (.released o.serial) trivial
  · rename_i subscriptions hregister
    let worker : Worker := { serial := s.nextSerial, owner := o.serial, template, handler }
    have hworker : worker.Carries R :=
      Worker.carries_of_resting htemplate
        (hm.worker worker (enlists_of_enroll ho hstage hregister hfree) htemplate) rfl
    have hadded : { s with
        subscriptions
        workers := s.workers ++ [worker]
        nextSerial := s.nextSerial + 1 }.Carries R := {
      operations := h.operations
      workers := by
        intro v hv
        rcases List.mem_append.mp hv with hold | hnew
        · exact h.workers v hold
        · rw [List.mem_singleton.mp hnew]
          exact hworker
      reply := h.reply
      log := h.log }
    exact hadded.proceed o (.register request.token template) htemplate
      (Transfer.start_carries (hR.message _) s.transfers hrequest (hR.template htemplate))

theorem Carries.conclude (h : s.Carries R) {purpose : Purpose}
    (hpurpose : purpose.Carries (R.template o.serial)) (result : Except ClientError Response) :
    (s.conclude o purpose result).Carries R := by
  have hgone (token : ByteArray) : (s.unsubscribe token).Carries R := h.of_fields rfl rfl rfl rfl
  cases purpose with
  | respond => cases result <;> exact h.finish o _ trivial
  | deregister token => cases result <;> exact (hgone token).finish o _ trivial
  | register token template =>
    cases result with
    | error e => exact (hgone token).finish o (.failure e) trivial
    | ok response =>
      unfold Session.conclude
      dsimp only
      split
      · rename_i sequence _ _
        have hseeded : { s with
            subscriptions := s.subscriptions.seed token sequence }.Carries R :=
          h.of_fields rfl rfl rfl rfl
        exact hseeded.finish o (.observation _) hpurpose
      · exact (hgone token).finish o (.observation _) hpurpose

theorem Carries.stepOperation (hR : R.Lasting) (hm : R.Covers s (.step (.operation o.serial)))
    (h : s.Carries R) (hfree : s.worker? s.nextSerial = none) (ho : s.operation? o.serial = some o)
    (hs : s.stepOperation o = some s') : s'.Carries R := by
  have hheld : o.stage.Carries R o.serial := h.operations o (List.mem_of_find?_eq_some ho)
  cases hstage : o.stage with
  | called call =>
    rw [hstage] at hheld
    unfold Session.stepOperation at hs
    rw [hstage] at hs
    cases hs
    exact h.begin hR hm ho hstage hheld
  | enrolling request template handler =>
    rw [hstage] at hheld
    unfold Session.stepOperation at hs
    rw [hstage] at hs
    cases hs
    exact h.enroll hR hm ho hstage hfree hheld.1 hheld.2
  | running purpose transfer exchange =>
    rw [hstage] at hheld
    obtain ⟨hpurpose, htransfer, hexchange⟩ := hheld
    by_cases hended : ∃ outcome, exchange = .ended outcome
    · obtain ⟨outcome, rfl⟩ := hended
      unfold Session.stepOperation at hs
      rw [hstage] at hs
      cases hs
      exact h.proceed o purpose hpurpose (Transfer.resume_carries (hR.message _) htransfer outcome)
    · rw [stepOperation_running hstage fun outcome heq => hended ⟨outcome, heq⟩] at hs
      obtain ⟨c, hc, rfl⟩ := Option.map_eq_some_iff.mp hs
      obtain ⟨hafter, hsent⟩ := Connection.step_carries (hR.message _) hc hexchange
      exact (h.absorb hsent).putOperation ⟨hpurpose, htransfer, hafter⟩
  | concluding purpose result =>
    rw [hstage] at hheld
    unfold Session.stepOperation at hs
    rw [hstage] at hs
    cases hs
    exact h.conclude hheld result
  | joining =>
    unfold Session.stepOperation at hs
    rw [hstage] at hs
    dsimp only at hs
    split at hs
    · cases hs
      exact h.finish _ .stopped trivial
    · cases hs

theorem Carries.stepWorker (hR : R.Lasting) (h : s.Carries R) (hw : w.Carries R)
    (hs : s.stepWorker w = some s') : s'.Carries R := by
  cases shift_of_stepWorker hs with
  | dismissed _ _ next =>
    rw [next]
    refine Carries.note ?_ (.released w.owner) trivial
    exact {
      operations := h.operations
      workers := fun v hv => h.workers v (List.mem_filter.mp hv).1
      reply := h.reply
      log := h.log }
  | started notification subscriptions _ _ _ next =>
    have htaken : { s with subscriptions }.Carries R := h.of_fields rfl rfl rfl rfl
    rw [next]
    exact htaken.deliver hw (Delivery.start_carries (hR.message _).next hw.message _ notification)
  | resumed delivery answer busy next =>
    rw [next]
    exact h.deliver hw (Delivery.resume_carries (hR.message _).next (hw.current _ _ busy).1 answer)
  | exchanged delivery e c busy _ step next =>
    obtain ⟨hdelivery, hexchange⟩ := hw.current delivery e busy
    obtain ⟨hafter, hsent⟩ := Connection.step_carries (hR.message _) step hexchange
    rw [next]
    refine (h.absorb hsent).putWorker ⟨hw.template, hw.message, ?_⟩
    intro delivery' exchange' hcurrent
    cases hcurrent
    exact ⟨hdelivery, hafter⟩

/-- The type of the reply that a confirmable message gets: it is acknowledged if there is a
subscription with its token. -/
def replyType (s : Session) (a : Message) : MessageType :=
  if s.subscriptions.isActive a.token then .acknowledgement else .reset

theorem replyType_eq (s : Session) (a : Message) :
    s.replyType a = .acknowledgement ∨ s.replyType a = .reset := by
  unfold replyType
  split
  · exact .inl rfl
  · exact .inr rfl

/-- Only a confirmable message is answered. -/
theorem receiver_route (s : Session) (a : Message) :
    (s.route a).receiver =
      if a.type = .confirmable then .replying (replyTo a (s.replyType a)) else s.receiver := by
  unfold route
  cases a.type <;> rfl

theorem tasks_route (s : Session) (a : Message) :
    (s.route a).operations = s.operations ∧ (s.route a).workers = s.workers := by
  unfold route
  split <;> exact ⟨rfl, rfl⟩

/-- A reply is sent, or given up where sending fails. -/
theorem step_of_replying {reply : Message} (hphase : s.receiver = .replying reply)
    (hs : s.stepReceiver = some s') :
    (∃ e, s.connection.wire.send reply = some (.error e) ∧ s' = { s with receiver := .listening }) ∨
    ∃ wire, s.connection.wire.send reply = some (.ok wire) ∧
      s' = ({ s.setWire wire with receiver := .listening }).note (.sent .receiver reply) := by
  unfold Session.stepReceiver at hs
  simp only [hphase] at hs
  split at hs
  · cases hs
  · rename_i e hsend
    cases hs
    exact .inl ⟨e, hsend, rfl⟩
  · rename_i wire hsend
    cases hs
    exact .inr ⟨wire, hsend, rfl⟩

/-- The receiver replies to confirmable messages only. -/
theorem Carries.stepReceiver (h : s.Carries R) (hs : s.stepReceiver = some s') : s'.Carries R := by
  have hquiet {r : Receiver} (hr : r.reply? = none) (m : Message) (hm : r.reply? = some m) :
      m.IsReply := by
    rw [hr] at hm
    cases hm
  cases reception_of_step hs with
  | routed a wire phase going arrival next =>
    obtain ⟨hoperations, hworkers⟩ := tasks_route (s.setWire wire) a
    rw [next]
    refine h.of_receiver hoperations hworkers (log_route _ a) ?_
    -- Only a confirmable message that is routed makes a reply.
    intro m hm
    rw [receiver_route] at hm
    split at hm
    · rename_i hconfirmable
      cases hm
      exact ⟨a, _, hconfirmable, replyType_eq _ a, rfl⟩
    · exact h.reply m hm
  | replied reply wire log phase next =>
    have hreply : reply.IsReply := h.reply reply (by rw [phase]; rfl)
    have hlistening (wire : Wire) : { s.setWire wire with receiver := .listening }.Carries R :=
      h.of_receiver rfl rfl rfl (hquiet rfl)
    rcases step_of_replying phase hs with ⟨e, -, hnext⟩ | ⟨wire', -, hnext⟩
    · rw [hnext]
      exact hlistening s.connection.wire
    · rw [hnext]
      exact (hlistening wire').note (.sent .receiver reply) hreply
  | stopped e wire phase quiet next | shut e phase next | collected e phase next
  | failed e id ids phase next | drained e phase next | cleared phase next | closed phase next =>
    rw [next]
    exact h.of_receiver rfl rfl rfl (hquiet rfl)

theorem Carries.step (hR : R.Lasting) {t : Task} (hm : R.Covers s (.step t)) (h : s.Carries R)
    (hfree : s.worker? s.nextSerial = none) (hs : s.step t = some s') : s'.Carries R := by
  cases t with
  | receiver => exact h.stepReceiver hs
  | operation n =>
    obtain ⟨o, ho, hstep⟩ := operation_of_step hs
    obtain rfl := operation?_serial ho
    exact h.stepOperation hR hm hfree ho hstep
  | worker n =>
    obtain ⟨w, hw, hstep⟩ := worker_of_step hs
    exact h.stepWorker hR (h.workers w (List.mem_of_find?_eq_some hw)) hstep

/-- What comes from outside adds a call, and leaves all other messages as they are. -/
theorem Carries.accept (h : s.Carries R) {i : Input} (hi : R.Covers s (.input i)) :
    (s.accept i).Carries R := by
  cases i with
  | call c cancelled =>
    exact {
      operations := by
        intro o ho
        rcases List.mem_append.mp ho with hold | hnew
        · exact h.operations o hold
        · rw [List.mem_singleton.mp hnew]
          exact hi.call c cancelled rfl
      workers := h.workers
      reply := h.reply
      log := h.log }
  | cancel n =>
    exact {
      operations := by
        intro o ho
        obtain ⟨p, hp, rfl⟩ := List.mem_map.mp ho
        split
        · exact h.operations p hp
        · exact h.operations p hp
      workers := h.workers
      reply := h.reply
      log := h.log }
  | abort n =>
    change (s.abort n).Carries R
    unfold Session.abort
    split
    · exact h
    · exact {
        operations := fun o ho => h.operations o (List.mem_filter.mp ho).1
        workers := h.workers
        reply := h.reply
        log := h.log }
  | message a =>
    change ((s.arrive a).toOption.getD s).Carries R
    unfold Session.arrive
    split
    · exact h
    · cases s.connection.wire.pipe.peerSend a with
      | error e => exact h
      | ok pipe => exact h.of_fields rfl rfl rfl rfl
  | _ => exact h.of_fields rfl rfl rfl rfl

theorem Carries.move (hR : R.Lasting) {m : Move} (hm : R.Covers s m) (h : s.Carries R)
    (hfree : s.worker? s.nextSerial = none) (hs : s.move m = some s') : s'.Carries R := by
  cases m with
  | step t => exact h.step hR hm hfree hs
  | input i =>
    cases hs
    exact h.accept hm

/-- What is known of all that the moves of a run bring in, is known at its end. -/
theorem carries_run (hR : R.Lasting) {options : ConnectOptions} {pipe : Pipe}
    {messageIds : MessageIds} {tokens : Tokens} {timer : Timer} {past : List Move}
    (hs : (start options pipe messageIds tokens timer).run past = some s)
    (hcovers : ∀ before m after s₁, past = before ++ m :: after →
      (start options pipe messageIds tokens timer).run before = some s₁ → R.Covers s₁ m) :
    s.Carries R := by
  -- The moves are those made so far, so that they are part of what is kept along the run.
  let Covered (past : List Move) : Prop := ∀ before m after s₁, past = before ++ m :: after →
    (start options pipe messageIds tokens timer).run before = some s₁ → R.Covers s₁ m
  have hfirst : (start options pipe messageIds tokens timer).Carries R := by
    constructor
    all_goals
      intro x hx
      cases hx
  refine run_induction (P := fun past s => Covered past → s.Carries R) (fun _ => hfirst) ?_ hs hcovers
  intro past s m s' hpast ih hmove hall
  have hbefore : s.Carries R := by
    apply ih
    intro before m' after s₁ heq
    refine hall before m' (after ++ [m]) s₁ ?_
    rw [heq, List.append_assoc, List.cons_append]
  have hfree : s.worker? s.nextSerial = none :=
    worker?_of_workers_lt (roll_run hpast).1.workers_lt (Nat.le_refl _)
  exact hbefore.move hR (hall past m [] s rfl hpast) hfree hmove

theorem Carries.exchange (h : s.Carries R) {t : Task} {e : Exchange} (he : s.exchangeOf t = some e) :
    e.Carries (R.message t) := by
  cases t with
  | receiver => cases he
  | operation n =>
    obtain ⟨o, purpose, transfer, ho, hrunning⟩ := operation_of_exchangeOf he
    obtain rfl := operation?_serial ho
    have hstage := h.operations o (List.mem_of_find?_eq_some ho)
    rw [hrunning] at hstage
    exact hstage.2.2
  | worker n =>
    obtain ⟨w, delivery, hw, hcurrent⟩ := worker_of_exchangeOf he
    obtain rfl := worker?_serial hw
    exact ((h.workers w (List.mem_of_find?_eq_some hw)).current delivery e hcurrent).2

end Session

/-! One property of all messages -/

/-- The messages that a call leads to have the property. -/
def Call.Carries (P : Message → Prop) : Call → Prop
  | .request r => ∀ (m : Message) (token : ByteArray), r.toMessage = .ok m →
      token.size = Message.maxTokenLength → P { m with token }
  | .stop observation => P observation.template
  | .observe _ _ | .shutdown => True

/-- All messages have the property, and observations have templates that come from registrations. -/
def Provenance.plain (P : Message → Prop) : Provenance where
  call := fun _ c => c.Carries P
  message := fun _ => P
  template := fun _ => Message.IsTemplate

theorem Hereditary.lasting (hP : Hereditary P) : (Provenance.plain P).Lasting where
  message := fun _ => hP.toInherited
  template := hP.template
  stop := fun h => ⟨h, hP.deregistered h⟩

theorem Hereditary.covers (hP : Hereditary P) (s : Session) {m : Move}
    (hcalls : ∀ c cancelled, m = .input (.call c cancelled) → c.Carries P) :
    (Provenance.plain P).Covers s m := by
  have hsize {n : Nat} {token : ByteArray} (h : (n, token) ∈ s.grants m) :
      token.size = Message.maxTokenLength := by
    rw [Session.token_of_grants h]
    exact Tokens.take_size s.tokens
  refine ⟨hcalls, ?_, ?_, fun _ _ htemplate => hP.template htemplate⟩
  · intro n token c a hgrant hcall hrequest
    have hok {x : Except MessageError Message} (hx : x.toOption = some a) : x = .ok a := by
      cases x with
      | error e => cases hx
      | ok b => exact congrArg Except.ok (Option.some.inj hx)
    cases c with
    | request r => exact hcall a token (hok hrequest) (hsize hgrant)
    | observe r handler => exact hP.registered (hok hrequest) (hsize hgrant)
    | _ => cases hrequest
  · intro n token r handler a hgrant _ ha
    exact ⟨r, a, token, ha, hsize hgrant, rfl⟩

/-! Observations are stopped as they were returned -/

theorem hereditary_true : Hereditary fun _ => True where
  registered := fun _ _ => trivial
  numbered := fun _ _ => trivial
  followUp := fun _ => trivial
  unobserved := fun _ => trivial
  deregistered := fun _ => trivial
  part := fun _ _ _ _ => trivial
  next := fun _ _ => trivial

/-- The observation is one that some client has returned. -/
def Observation.IsReturned (o : Observation) : Prop :=
  ∃ (options : ConnectOptions) (pipe : Pipe) (messageIds : MessageIds) (tokens : Tokens)
    (timer : Timer)
    (past : List Move) (s : Session) (n : Nat),
    (Session.start options pipe messageIds tokens timer).run past = some s ∧
      .finished n (.observation o) ∈ s.log.toList

namespace Session

variable {options : ConnectOptions} {pipe : Pipe} {messageIds : MessageIds} {tokens : Tokens}
  {timer : Timer}
  {past : List Move}

/-- What the calls of a run hand on, all messages have at its end. -/
theorem carries_of_calls (hP : Hereditary P)
    (hs : (start options pipe messageIds tokens timer).run past = some s)
    (hcalls : ∀ c cancelled, .input (.call c cancelled) ∈ past → c.Carries P) :
    s.Carries (.plain P) := by
  refine carries_run hP.lasting hs ?_
  intro before m after s₁ heq _
  refine hP.covers s₁ ?_
  rintro c cancelled rfl
  refine hcalls c cancelled ?_
  rw [heq]
  exact List.mem_append_right _ List.mem_cons_self

/-- Nothing has to be known of the calls for what holds of every message. -/
theorem carries_true (hs : (start options pipe messageIds tokens timer).run past = some s) :
    s.Carries (.plain fun _ => True) := by
  refine carries_of_calls hereditary_true hs ?_
  intro c _ _
  cases c <;> simp [Call.Carries]

theorem isTemplate_of_isReturned {o : Observation} (h : o.IsReturned) : o.template.IsTemplate := by
  obtain ⟨options, pipe, messageIds, tokens, timer, past, s, n, hs, hlog⟩ := h
  exact (carries_true hs).log _ hlog

/-- What is passed on from message to message holds of all of them if it holds of the requests, where
observations are stopped as they were returned. -/
theorem carries_of_requests (hP : Hereditary P)
    (hs : (start options pipe messageIds tokens timer).run past = some s)
    (hrequests : ∀ r cancelled, .input (.call (.request r) cancelled) ∈ past →
      (Call.request r).Carries P)
    (hstops : ∀ o cancelled, .input (.call (.stop o) cancelled) ∈ past → o.IsReturned) :
    s.Carries (.plain P) := by
  refine carries_of_calls hP hs ?_
  intro c cancelled hm
  cases c with
  | request r => exact hrequests r cancelled hm
  | stop o => exact hP.template (isTemplate_of_isReturned (hstops o cancelled hm))
  | _ => trivial

/-- An observation that has been accepted. -/
def acceptedMoves : List Move :=
  let answer : Message :=
    { type := .acknowledgement, code := .response .content, id := 0, options := [.observe 5] }
  [observeCall] ++ List.replicate 6 (.step (.operation 0)) ++
    [.input (.message answer), .step .receiver] ++ List.replicate 3 (.step (.operation 0))

/-- What its caller has been told. -/
def acceptedObservation : Observation where
  response := {
    message :=
      { type := .acknowledgement, code := .response .content, id := 0, options := [.observe 5] }
    status := .content
    contentFormat := none
    maxAge := none
    eTag := none
    locationPath := []
    locationQuery := []
    observe := some 5
    size2 := none }
  token := Wire.eightBytes 0
  template := { type := .confirmable, code := .request .get, token := Wire.eightBytes 0 }
  registered := true

theorem acceptedObservation_isReturned : acceptedObservation.IsReturned := by
  have hends : (observingClient.run acceptedMoves).map (fun s => s.log.toList) = some
      [.sent (.operation 0) { acceptedObservation.template with options := [.observe 0] },
        .finished 0 (.observation acceptedObservation)] := rfl
  obtain ⟨s, hs, hlog⟩ := Option.map_eq_some_iff.mp hends
  refine ⟨_, _, _, _, _, acceptedMoves, s, 0, hs, ?_⟩
  rw [hlog]
  exact List.mem_cons_of_mem _ (List.mem_singleton_self _)

end Session

end Coap
