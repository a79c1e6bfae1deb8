import Coap.Proofs.ExchangeTable
import Coap.Proofs.ObservationRoles

/-! What one move does to the table of subscriptions, to the workers and to the tokens, said once. -/
namespace Coap

/-- The request by which an observation is registered. -/
def Request.registration (r : Request) : Request :=
  { r.setMethod .get with observe := some Session.observeRegister }

/-- The message for which a call takes a token, if there is one. -/
def Call.request? : Call → Option Message
  | .request r => r.toMessage.toOption
  | .observe r _ => r.registration.toMessage.toOption
  | .stop _ | .shutdown => none

/-- Whether an operation has yet to begin. -/
def Operation.Stage.isCalled : Operation.Stage → Bool
  | .called _ => true
  | _ => false

/-- Whether a move is a step of a worker. -/
def Move.isWorkers : Move → Bool
  | .step (.worker _) => true
  | _ => false

namespace Subscriptions

variable {s s' : Subscriptions} {token : ByteArray} {serial : Nat} {e : Subscription}
  {f : Subscription → Subscription}

/-- The entry with a serial number. -/
def lookup? (s : Subscriptions) (serial : Nat) : Option Subscription :=
  s.entries.find? fun e => e.serial == serial

theorem serial_of_lookup? (h : s.lookup? serial = some e) : e.serial = serial := by
  simpa using List.find?_some h

theorem mem_of_lookup? (h : s.lookup? serial = some e) : e ∈ s.entries :=
  List.mem_of_find?_eq_some h

theorem holds_eq (s : Subscriptions) (serial : Nat) : s.holds serial = (s.lookup? serial).isSome := by
  rw [Bool.eq_iff_iff]
  unfold holds lookup?
  rw [List.any_eq_true, List.find?_isSome]

theorem lookup?_map (hf : KeepsKeys f) (entries : List Subscription) (serial : Nat) :
    Subscriptions.lookup? ⟨entries.map f⟩ serial = (Subscriptions.lookup? ⟨entries⟩ serial).map f := by
  have hsame : ((fun e : Subscription => e.serial == serial) ∘ f) = fun e => e.serial == serial := by
    funext e
    simp [hf.serial]
  unfold lookup?
  rw [List.find?_map, hsame]

theorem lookup?_modify (hf : KeepsKeys f) (s : Subscriptions) (t : ByteArray) (serial : Nat) :
    (s.modify t f).lookup? serial = (s.lookup? serial).map fun e => if e.token == t then f e else e :=
  lookup?_map (hf.ite _) s.entries serial

/-- No two entries have a key in common. -/
structure Distinct (s : Subscriptions) : Prop where
  serials : (s.entries.map Subscription.serial).Nodup
  tokens : (s.entries.map Subscription.token).Nodup

theorem Distinct.lookup?_eq (h : s.Distinct) (he : e ∈ s.entries) : s.lookup? e.serial = some e :=
  Exchanges.find?_of_key h.serials he

theorem Distinct.map (h : s.Distinct) (hf : KeepsKeys f) :
    Subscriptions.Distinct ⟨s.entries.map f⟩ where
  serials := by
    have hsame : Subscription.serial ∘ f = Subscription.serial := funext hf.serial
    rw [List.map_map, hsame]
    exact h.serials
  tokens := by
    have hsame : Subscription.token ∘ f = Subscription.token := funext hf.token
    rw [List.map_map, hsame]
    exact h.tokens

theorem Distinct.deregister (h : s.Distinct) (t : ByteArray) : (s.deregister t).2.Distinct where
  serials := h.serials.sublist (List.filter_sublist.map _)
  tokens := h.tokens.sublist (List.filter_sublist.map _)

theorem Distinct.register (h : s.Distinct) (hnew : ∀ e ∈ s.entries, e.serial ≠ serial)
    (hregister : s.register token serial = .ok s') : s'.Distinct := by
  obtain ⟨hnone, rfl⟩ := register_eq_ok hregister
  constructor
  · rw [List.map_append]
    refine List.nodup_append.mpr ⟨h.serials, List.nodup_singleton _, ?_⟩
    intro k hk j hj
    obtain ⟨e, he, rfl⟩ := List.mem_map.mp hk
    rw [List.mem_singleton.mp hj]
    exact hnew e he
  · rw [List.map_append]
    refine List.nodup_append.mpr ⟨h.tokens, List.nodup_singleton _, ?_⟩
    intro t ht j hj
    obtain ⟨e, he, rfl⟩ := List.mem_map.mp ht
    rw [List.mem_singleton.mp hj]
    simpa using List.find?_eq_none.mp hnone e he

end Subscriptions

/-- Whether a subscription puts a notification with its token into its queue. -/
def Subscription.takesIn (e : Subscription) (a : Message) : Bool :=
  match a.observeValue with
  | none => true
  | some sequence => Subscriptions.isNewer e.lastSequence sequence

theorem Subscription.queue_accept (e : Subscription) (a : Message) :
    (e.accept a).queue = e.queue ++ if e.takesIn a then [a] else [] := by
  unfold accept takesIn
  cases a.observeValue with
  | none => rfl
  | some sequence =>
    dsimp only
    split
    · rfl
    · exact (List.append_nil _).symm

theorem Subscription.queue_seed (e : Subscription) (sequence : UInt32) :
    (e.seed sequence).queue = e.queue := by
  unfold seed
  split <;> rfl

namespace Session

/-- The message that a move hands to the table of subscriptions. -/
def notices (s : Session) (m : Move) : List Message := (s.routed m).filter fun a => !a.isAnswer

/-- What becomes of the table of subscriptions, apart from a new subscription and from what workers
take. -/
inductive Reshaped (s : Session) (m : Move) : Subscriptions → Prop
  | same (quiet : s.notices m = []) : Reshaped s m s.subscriptions
  | seeded (quiet : s.notices m = []) (token : ByteArray) (sequence : UInt32) :
      Reshaped s m (s.subscriptions.seed token sequence)
  | removed (quiet : s.notices m = []) (token : ByteArray) :
      Reshaped s m (s.subscriptions.deregister token).2
  | handled (a : Message) (notice : s.notices m = [a]) : Reshaped s m (s.subscriptions.tryHandle a).2
  | cleared (quiet : s.notices m = []) : Reshaped s m {}

/-- What a step of a worker may be: its end; the beginning of a delivery; the next turn of one; or a
step of the exchange that a delivery waits for. -/
inductive Shift (s s' : Session) (w : Worker) : Prop
  | dismissed (rest : w.current = none) (stopped : s.isStopped w.serial = true)
      (next : s' = s.dismiss w)
  | started (a : Message) (subscriptions : Subscriptions) (rest : w.current = none)
      (going : s.isStopped w.serial = false)
      (take : s.subscriptions.take w.serial = some (a, subscriptions))
      (next : s' = { s with subscriptions }.deliver w
        (Delivery.start s.transfers.blockTransfer w.template a))
  | resumed (delivery : Delivery) (answer : Outcome) (busy : w.current = some (delivery, .ended answer))
      (next : s' = s.deliver w (delivery.resume answer))
  | exchanged (delivery : Delivery) (e : Exchange) (c : Connection.Stepped)
      (busy : w.current = some (delivery, e)) (going : ∀ answer, e ≠ .ended answer)
      (step : s.connection.step (s.isStopped w.serial) e = some c)
      (next : s' = (s.absorb (.worker w.serial) c).putWorker
        { w with current := some (delivery, c.exchange) })

/-- What a move does to subscriptions and workers: a worker steps; an operation makes a subscription
with its worker; or the table changes in another way and the workers stay as they are. -/
inductive Upkeep (s s' : Session) (m : Move) : Prop
  | worked (w : Worker) (mover : m = .step (.worker w.serial)) (there : s.worker? w.serial = some w)
      (shift : Shift s s' w)
  | made (w : Worker) (token : ByteArray) (mover : m = .step (.operation w.owner))
      (role : s.roleOf w.owner = .granted token) (after : s'.roleOf w.owner = .registering token)
      (serial : w.serial = s.nextSerial) (rest : w.current = none)
      (registered : s.subscriptions.register token s.nextSerial = .ok s'.subscriptions)
      (workers : s'.workers = s.workers ++ [w]) (next : s'.nextSerial = s.nextSerial + 1)
  | aside (mover : m.isWorkers = false) (table : Reshaped s m s'.subscriptions)
      (workers : s'.workers = s.workers)

variable {s s' s'' : Session} {o : Operation} {w : Worker} {m : Move}

/-! Tokens. -/

/-- The token that an operation takes with a move: it does so as it begins with its request. -/
def grants (s : Session) : Move → List (Nat × ByteArray)
  | .step (.operation n) =>
    match s.operation? n with
    | some { stage := .called call, .. } => (call.request?.map fun _ => (n, s.tokens.take.1)).toList
    | _ => []
  | _ => []

theorem grants_of_called {call : Call} (ho : s.operation? o.serial = some o)
    (hstage : o.stage = .called call) : s.grants (.step (.operation o.serial)) =
      (call.request?.map fun _ => (o.serial, s.tokens.take.1)).toList := by
  obtain ⟨serial, cancelled, stage⟩ := o
  cases hstage
  unfold grants
  dsimp only at ho ⊢
  rw [ho]

theorem grants_of_begun (ho : s.operation? o.serial = some o) (hstage : o.stage.isCalled = false) :
    s.grants (.step (.operation o.serial)) = [] := by
  unfold grants
  dsimp only
  rw [ho]
  split
  · rename_i h
    cases h
    cases hstage
  · rfl

/-- What never goes back: a stop of the client, and the count of tokens. -/
structure Onward (taken : Nat) (s s' : Session) : Prop where
  shutdown : s.shutdown = true → s'.shutdown = true
  tokens : s'.tokens = ⟨s.tokens.base, s.tokens.count + taken⟩

variable {k : Nat}

theorem Onward.of_fields (hshutdown : s'.shutdown = s.shutdown) (htokens : s'.tokens = s.tokens) :
    Onward 0 s s' where
  shutdown := fun h => hshutdown.trans h
  tokens := htokens

/-- What follows on it without any of that is all the same. -/
theorem Onward.followed (h : Onward k s s') (hshutdown : s''.shutdown = s'.shutdown)
    (htokens : s''.tokens = s'.tokens) : Onward k s s'' where
  shutdown := fun hs => hshutdown.trans (h.shutdown hs)
  tokens := htokens.trans h.tokens

theorem Onward.base (h : Onward k s s') : s'.tokens.base = s.tokens.base := by
  rw [h.tokens]

theorem Onward.count (h : Onward k s s') : s.tokens.count ≤ s'.tokens.count := by
  rw [h.tokens]
  exact Nat.le_add_right _ _

/-! Steps of an operation. -/

/-- Subscriptions and workers are as they were. -/
structure Beside (taken : Nat) (s s' : Session) : Prop extends Onward taken s s' where
  subscriptions : s'.subscriptions = s.subscriptions
  workers : s'.workers = s.workers

theorem Beside.of_fields (hsubscriptions : s'.subscriptions = s.subscriptions)
    (hworkers : s'.workers = s.workers) (hshutdown : s'.shutdown = s.shutdown)
    (htokens : s'.tokens = s.tokens) : Beside 0 s s' :=
  ⟨.of_fields hshutdown htokens, hsubscriptions, hworkers⟩

theorem beside_proceed (s : Session) (o : Operation) (purpose : Purpose)
    (next : Stride Transfer (Except ClientError Response)) : Beside 0 s (s.proceed o purpose next) := by
  unfold proceed
  cases next.turn <;> exact .of_fields rfl rfl rfl rfl

theorem beside_absorb (s : Session) (t : Task) (c : Connection.Stepped) : Beside 0 s (s.absorb t c) := by
  unfold absorb
  cases c.sent <;> exact .of_fields rfl rfl rfl rfl

theorem beside_begin (s : Session) (o : Operation) (call : Call) :
    Beside call.request?.toList.length s (s.begin o call) := by
  cases call with
  | request request =>
    unfold Call.request?
    dsimp only
    cases hm : request.toMessage with
    | error e =>
      rw [begin_request_error hm]
      exact .of_fields rfl rfl rfl rfl
    | ok a =>
      rw [begin_request_ok hm]
      have hnext := beside_proceed { s with tokens := s.tokens.take.2 } o .respond
        (Transfer.start s.transfers { a with token := s.tokens.take.1 }
          (Message.followUp { a with token := s.tokens.take.1 }))
      exact ⟨⟨hnext.shutdown, hnext.tokens⟩, hnext.subscriptions, hnext.workers⟩
  | observe request handler =>
    unfold begin Call.request? Request.registration
    dsimp only
    split
    · rename_i hm
      rw [hm]
      exact .of_fields rfl rfl rfl rfl
    · rename_i hm
      rw [hm]
      exact ⟨⟨id, rfl⟩, rfl, rfl⟩
  | stop observation => exact beside_proceed s o _ _
  | shutdown =>
    unfold begin
    dsimp only
    split <;> exact ⟨⟨fun _ => rfl, rfl⟩, rfl, rfl⟩

theorem Beside.upkeep (h : Beside k s s') (mover : m.isWorkers = false) (quiet : s.notices m = []) :
    Upkeep s s' m :=
  .aside mover (h.subscriptions ▸ .same quiet) h.workers

theorem upkeep_of_enroll {request template : Message} {handler : Handler}
    (ho : s.operation? o.serial = some o) (hstage : o.stage = .enrolling request template handler) :
    Upkeep s (s.enroll o request template handler) (.step (.operation o.serial)) := by
  unfold enroll
  cases hregister : s.subscriptions.register request.token s.nextSerial with
  | error e => exact .aside rfl (.same rfl) rfl
  | ok subscriptions =>
    let worker : Worker := { serial := s.nextSerial, owner := o.serial, template, handler }
    let enlisted : Session := { s with
      subscriptions, workers := s.workers ++ [worker], nextSerial := s.nextSerial + 1 }
    have hbeside := beside_proceed enlisted o (.register request.token template)
      (Transfer.start s.transfers request template)
    have hrole : s.roleOf o.serial = .granted request.token := by
      rw [roleOf_eq ho]
      unfold Operation.role
      rw [hstage]
    have hthere : enlisted.operation? o.serial = some o := ho
    have hafter : (enlisted.proceed o (.register request.token template)
        (Transfer.start s.transfers request template)).roleOf o.serial = .registering request.token :=
      roleOf_proceed enlisted hthere
    have hserial (next : Stride Transfer (Except ClientError Response)) :
        (enlisted.proceed o (.register request.token template) next).nextSerial = s.nextSerial + 1 := by
      unfold proceed
      cases next.turn <;> rfl
    refine .made worker request.token rfl hrole hafter rfl rfl ?_ hbeside.workers (hserial _)
    exact hregister.trans (congrArg Except.ok hbeside.subscriptions.symm)

theorem upkeep_of_conclude (s : Session) (o : Operation) (purpose : Purpose)
    (result : Except ClientError Response) :
    Upkeep s (s.conclude o purpose result) (.step (.operation o.serial)) := by
  cases purpose with
  | respond => cases result <;> exact .aside rfl (.same rfl) rfl
  | deregister token => cases result <;> exact .aside rfl (.removed rfl token) rfl
  | register token template =>
    cases result with
    | error e => exact .aside rfl (.removed rfl token) rfl
    | ok response =>
      unfold conclude
      dsimp only
      split
      · exact .aside rfl (.seeded rfl token _) rfl
      · exact .aside rfl (.removed rfl token) rfl

theorem upkeep_of_stepOperation (ho : s.operation? o.serial = some o)
    (hs : s.stepOperation o = some s') : Upkeep s s' (.step (.operation o.serial)) := by
  have hbeside {k : Nat} (h : Beside k s s') : Upkeep s s' (.step (.operation o.serial)) :=
    h.upkeep rfl rfl
  unfold stepOperation at hs
  cases hstage : o.stage with
  | called call =>
    rw [hstage] at hs
    cases hs
    exact hbeside (beside_begin s o call)
  | enrolling request template handler =>
    rw [hstage] at hs
    cases hs
    exact upkeep_of_enroll ho hstage
  | running purpose transfer exchange =>
    rw [hstage] at hs
    cases exchange with
    | ended outcome =>
      cases hs
      exact hbeside (beside_proceed s o purpose (transfer.resume outcome))
    | _ =>
      obtain ⟨c, -, rfl⟩ := Option.map_eq_some_iff.mp hs
      have habsorb := beside_absorb s (.operation o.serial) c
      exact hbeside ⟨habsorb.toOnward.followed rfl rfl, habsorb.subscriptions, habsorb.workers⟩
  | concluding purpose result =>
    rw [hstage] at hs
    cases hs
    exact upkeep_of_conclude s o purpose result
  | joining =>
    rw [hstage] at hs
    dsimp only at hs
    split at hs
    · cases hs
      exact hbeside (.of_fields rfl rfl rfl rfl)
    · cases hs

/-! Steps of a worker and of the receiver, and what comes from outside. -/

theorem shift_of_stepWorker (hs : s.stepWorker w = some s') : Shift s s' w := by
  cases hcurrent : w.current with
  | none =>
    unfold stepWorker at hs
    rw [hcurrent] at hs
    dsimp only at hs
    split at hs
    · rename_i hstopped
      exact .dismissed hcurrent hstopped (Option.some.inj hs).symm
    · rename_i hgoing
      obtain ⟨⟨a, subscriptions⟩, htake, hnext⟩ := Option.map_eq_some_iff.mp hs
      exact .started a subscriptions hcurrent (Bool.eq_false_iff.mpr hgoing) htake hnext.symm
  | some current =>
    obtain ⟨delivery, e⟩ := current
    by_cases hended : ∃ answer, e = .ended answer
    · obtain ⟨answer, rfl⟩ := hended
      unfold stepWorker at hs
      rw [hcurrent] at hs
      exact .resumed delivery answer hcurrent (Option.some.inj hs).symm
    · have hgoing : ∀ answer, e ≠ .ended answer := fun answer h => hended ⟨answer, h⟩
      rw [stepWorker_busy hcurrent hgoing] at hs
      obtain ⟨c, hc, hnext⟩ := Option.map_eq_some_iff.mp hs
      exact .exchanged delivery e c hcurrent hgoing hc hnext.symm

theorem notices_of_phase (h : s.receiver ≠ .listening) : s.notices m = [] := by
  unfold notices
  rw [routed_of_phase h]
  rfl

theorem upkeep_of_receiver (hs : s.stepReceiver = some s') : Upkeep s s' (.step .receiver) := by
  have hworkers : s'.workers = s.workers := workers_stepReceiver hs
  have hrest (hphase : s.receiver ≠ .listening) (hnext : s'.subscriptions = s.subscriptions) :
      Upkeep s s' (.step .receiver) :=
    .aside rfl (hnext ▸ .same (notices_of_phase hphase)) hworkers
  cases reception_of_step hs with
  | routed a wire phase going arrival next =>
    have hrouted := routed_of_arrival phase going arrival
    cases ha : a.isAnswer with
    | true =>
      have hquiet : s.notices (.step .receiver) = [] := by
        unfold notices
        rw [hrouted]
        simp [ha]
      rw [route_answer ha] at next
      have hsame : s'.subscriptions = s.subscriptions := by
        rw [next]
        rfl
      exact .aside rfl (hsame ▸ .same hquiet) hworkers
    | false =>
      have hnotice : s.notices (.step .receiver) = [a] := by
        unfold notices
        rw [hrouted]
        simp [ha]
      have hhandled : s'.subscriptions = (s.subscriptions.tryHandle a).2 := by
        rw [next]
        unfold route
        unfold Message.isAnswer at ha
        split
        all_goals simp_all
        all_goals rfl
      exact .aside rfl (hhandled ▸ .handled a hnotice) hworkers
  | stopped e wire phase quiet next =>
    have hquiet : s.notices (.step .receiver) = [] := by
      unfold notices
      rw [routed_of_quiet quiet, List.filter_nil]
    have hsame : s'.subscriptions = s.subscriptions := by
      rw [next]
      rfl
    exact .aside rfl (hsame ▸ .same hquiet) hworkers
  | cleared phase next =>
    have hcleared : s'.subscriptions = {} := by
      rw [next]
      rfl
    exact .aside rfl (hcleared ▸ .cleared (notices_of_phase (by rw [phase]; nofun))) hworkers
  | replied _ _ _ phase next => exact hrest (by rw [phase]; nofun) (by rw [next]; rfl)
  | shut _ phase next => exact hrest (by rw [phase]; nofun) (by rw [next])
  | collected _ phase next => exact hrest (by rw [phase]; nofun) (by rw [next])
  | failed _ _ _ phase next => exact hrest (by rw [phase]; nofun) (by rw [next]; rfl)
  | drained _ phase next => exact hrest (by rw [phase]; nofun) (by rw [next])
  | closed phase next => exact hrest (by rw [phase]; nofun) (by rw [next]; rfl)

theorem beside_accept (s : Session) (i : Input) : Beside 0 s (s.accept i) := by
  cases i with
  | abort k =>
    change Beside 0 s (s.abort k)
    unfold abort
    split <;> exact .of_fields rfl rfl rfl rfl
  | message a =>
    change Beside 0 s ((s.arrive a).toOption.getD s)
    unfold arrive Pipe.peerSend
    repeat' split
    all_goals exact .of_fields rfl rfl rfl rfl
  | dropClient => exact ⟨⟨fun _ => rfl, rfl⟩, rfl, rfl⟩
  | _ => exact .of_fields rfl rfl rfl rfl

/-- Every move does one of these things. -/
theorem upkeep_of_move (hs : s.move m = some s') : Upkeep s s' m := by
  cases m with
  | input i =>
    cases hs
    exact (beside_accept s i).upkeep rfl rfl
  | step task =>
    cases task with
    | receiver => exact upkeep_of_receiver hs
    | operation k =>
      obtain ⟨o, ho, hstep⟩ := operation_of_step hs
      obtain rfl := operation?_serial ho
      exact upkeep_of_stepOperation ho hstep
    | worker k =>
      obtain ⟨w, hw, hstep⟩ := worker_of_step hs
      obtain rfl := worker?_serial hw
      exact .worked w rfl hw (shift_of_stepWorker hstep)

/-! What never goes back. -/

theorem onward_stepOperation (ho : s.operation? o.serial = some o) (hs : s.stepOperation o = some s') :
    Onward (s.grants (.step (.operation o.serial))).length s s' := by
  unfold stepOperation at hs
  -- Once it has begun, an operation takes no token any more.
  have hbegun (hstage : o.stage.isCalled = false) (h : Onward 0 s s') :
      Onward (s.grants (.step (.operation o.serial))).length s s' := by
    rw [grants_of_begun ho hstage]
    exact h
  cases hstage : o.stage with
  | called call =>
    rw [hstage] at hs
    cases hs
    have hnext := (beside_begin s o call).toOnward
    rw [grants_of_called ho hstage]
    cases hcall : call.request? with
    | none =>
      rw [hcall] at hnext
      exact hnext
    | some a =>
      rw [hcall] at hnext
      exact hnext
  | enrolling request template handler =>
    rw [hstage] at hs
    cases hs
    refine hbegun (by rw [hstage]; rfl) ?_
    unfold enroll
    cases s.subscriptions.register request.token s.nextSerial with
    | error e => exact .of_fields rfl rfl
    | ok subscriptions =>
      have hnext := (beside_proceed { s with
        subscriptions
        workers := s.workers ++ [{ serial := s.nextSerial, owner := o.serial, template, handler }]
        nextSerial := s.nextSerial + 1 } o (.register request.token template)
          (Transfer.start s.transfers request template)).toOnward
      exact ⟨hnext.shutdown, hnext.tokens⟩
  | running purpose transfer exchange =>
    refine hbegun (by rw [hstage]; rfl) ?_
    rw [hstage] at hs
    cases exchange with
    | ended outcome =>
      cases hs
      exact (beside_proceed s o purpose (transfer.resume outcome)).toOnward
    | _ =>
      obtain ⟨c, -, rfl⟩ := Option.map_eq_some_iff.mp hs
      exact (beside_absorb s (.operation o.serial) c).toOnward.followed rfl rfl
  | concluding purpose result =>
    refine hbegun (by rw [hstage]; rfl) ?_
    rw [hstage] at hs
    cases hs
    obtain ⟨subscriptions, c, hconclude, -⟩ := conclude_eq_finish s o purpose result
    rw [hconclude]
    exact .of_fields rfl rfl
  | joining =>
    refine hbegun (by rw [hstage]; rfl) ?_
    rw [hstage] at hs
    dsimp only at hs
    split at hs
    · cases hs
      exact .of_fields rfl rfl
    · cases hs

theorem onward_deliver (s : Session) (w : Worker) (next : Stride Delivery (Option Notification)) :
    Onward 0 s (s.deliver w next) := by
  unfold deliver
  cases next.turn with
  | ask request delivery => exact .of_fields rfl rfl
  | finish result => cases result <;> exact .of_fields rfl rfl

theorem Shift.onward (h : Shift s s' w) : Onward 0 s s' := by
  cases h with
  | dismissed _ _ next =>
    rw [next]
    exact .of_fields rfl rfl
  | started a subscriptions _ _ _ next =>
    rw [next]
    have hnext := onward_deliver { s with subscriptions } w
      (Delivery.start s.transfers.blockTransfer w.template a)
    exact ⟨hnext.shutdown, hnext.tokens⟩
  | resumed delivery answer _ next =>
    rw [next]
    exact onward_deliver s w _
  | exchanged delivery e c _ _ _ next =>
    rw [next]
    exact (beside_absorb s (.worker w.serial) c).toOnward.followed rfl rfl

theorem onward_of_reception (h : Reception s s') : Onward 0 s s' := by
  cases h with
  | routed a wire phase going arrival next =>
    rw [next]
    unfold route
    split <;> exact .of_fields rfl rfl
  | stopped _ _ _ _ next => exact .of_fields (by rw [next]; rfl) (by rw [next]; rfl)
  | replied _ _ _ _ next => exact .of_fields (by rw [next]; rfl) (by rw [next]; rfl)
  | shut _ _ next => exact .of_fields (by rw [next]) (by rw [next])
  | collected _ _ next => exact .of_fields (by rw [next]) (by rw [next])
  | failed _ _ _ _ next => exact .of_fields (by rw [next]; rfl) (by rw [next]; rfl)
  | drained _ _ next => exact .of_fields (by rw [next]) (by rw [next])
  | cleared _ next => exact .of_fields (by rw [next]) (by rw [next])
  | closed _ next => exact .of_fields (by rw [next]; rfl) (by rw [next]; rfl)

theorem onward_of_move (hs : s.move m = some s') : Onward (s.grants m).length s s' := by
  cases m with
  | input i =>
    cases hs
    exact (beside_accept s i).toOnward
  | step task =>
    cases task with
    | receiver => exact onward_of_reception (reception_of_step hs)
    | operation k =>
      obtain ⟨o, ho, hstep⟩ := operation_of_step hs
      obtain rfl := operation?_serial ho
      exact onward_stepOperation ho hstep
    | worker k =>
      cases upkeep_of_move hs with
      | worked w _ _ shift => exact shift.onward
      | made w _ mover => cases mover
      | aside mover => cases mover

end Session

end Coap
