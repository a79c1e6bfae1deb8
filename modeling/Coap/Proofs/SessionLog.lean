import Coap.Proofs.SessionExchanges

/-! The log of a session only grows, and every event in it is the work of the task whose step brought
it there. -/
namespace Coap

/-- Whether an event is the work of a move. Notifications and the end of a subscription are those of a
worker, under the number of the operation that made it. -/
def Event.IsBy (s : Session) (m : Move) : Event → Prop
  | .sent t _ => m = .step t
  | .finished n _ => m = .step (.operation n)
  | .notified n _ _ => ∃ w, m = .step (.worker w.serial) ∧ s.worker? w.serial = some w ∧ w.owner = n
  | .released n => m = .step (.operation n) ∨
      ∃ w, m = .step (.worker w.serial) ∧ s.worker? w.serial = some w ∧ w.owner = n

namespace Session

/-- The log has grown, by events of some kind. -/
def Grown (P : Event → Prop) (s s' : Session) : Prop :=
  ∃ added, s'.log.toList = s.log.toList ++ added ∧ ∀ e ∈ added, P e

variable {s s' s'' : Session} {P : Event → Prop} {o : Operation} {m : Move}

theorem Grown.of_log (h : s'.log = s.log) : Grown P s s' := by
  refine ⟨[], ?_, ?_⟩
  · rw [h, List.append_nil]
  · intro e he
    cases he

theorem Grown.of_push {e : Event} (h : s'.log = s.log.push e) (he : P e) : Grown P s s' := by
  refine ⟨[e], ?_, ?_⟩
  · rw [h, Array.toList_push]
  · intro e' he'
    rw [List.mem_singleton.mp he']
    exact he

theorem Grown.trans (h : Grown P s s') (h' : Grown P s' s'') : Grown P s s'' := by
  obtain ⟨first, hfirst, hall⟩ := h
  obtain ⟨later, hlater, hall'⟩ := h'
  refine ⟨first ++ later, ?_, ?_⟩
  · rw [hlater, hfirst, List.append_assoc]
  · intro e he
    rcases List.mem_append.mp he with he | he
    · exact hall e he
    · exact hall' e he

/-! Steps of an operation. -/

theorem log_proceed (s : Session) (o : Operation) (purpose : Purpose)
    (next : Stride Transfer (Except ClientError Response)) :
    (s.proceed o purpose next).log = s.log := by
  unfold proceed
  cases next.turn <;> rfl

theorem log_absorb (s : Session) (t : Task) (c : Connection.Stepped) :
    (s.absorb t c).log = match c.sent with
      | some m => s.log.push (.sent t m)
      | none => s.log := by
  unfold absorb
  cases c.sent <;> rfl

theorem grown_absorb {t : Task} (c : Connection.Stepped) (h : ∀ m, P (.sent t m)) :
    Grown P s (s.absorb t c) := by
  have hlog := log_absorb s t c
  cases hsent : c.sent with
  | none => exact .of_log (by rw [hlog, hsent])
  | some m => exact .of_push (by rw [hlog, hsent]) (h m)

/-- What an operation writes into the log outside its exchanges: that it is over. -/
def Closes (n : Nat) (e : Event) : Prop := (∃ c, e = .finished n c) ∨ e = .released n

theorem grown_finish (s : Session) (o : Operation) (c : Completion) :
    Grown (Closes o.serial) s (s.finish o c) :=
  .of_push rfl (.inl ⟨c, rfl⟩)

/-- An operation whose handler is let go at once. -/
theorem grown_refuse (s : Session) (o : Operation) (e : ClientError) :
    Grown (Closes o.serial) s ((s.finish o (.failure e)).note (.released o.serial)) :=
  (grown_finish s o _).trans (.of_push rfl (.inr rfl))

theorem grown_begin (s : Session) (o : Operation) (call : Call) :
    Grown (Closes o.serial) s (s.begin o call) := by
  cases call with
  | request request =>
    cases hm : request.toMessage with
    | error e =>
      rw [begin_request_error hm]
      exact grown_finish s o _
    | ok m =>
      rw [begin_request_ok hm]
      exact .of_log (log_proceed _ o _ _)
  | observe request handler =>
    unfold begin
    dsimp only
    split
    · exact grown_refuse s o _
    · exact .of_log rfl
  | stop observation => exact .of_log (log_proceed s o _ _)
  | shutdown =>
    unfold begin
    dsimp only
    split
    · exact .of_push rfl (.inl ⟨_, rfl⟩)
    · exact .of_log rfl

theorem grown_enroll (s : Session) (o : Operation) (request template : Message) (handler : Handler) :
    Grown (Closes o.serial) s (s.enroll o request template handler) := by
  unfold enroll
  cases s.subscriptions.register request.token s.nextSerial with
  | error e => exact grown_refuse s o e
  | ok subscriptions => exact .of_log (log_proceed _ o _ _)

theorem grown_conclude (s : Session) (o : Operation) (purpose : Purpose)
    (result : Except ClientError Response) :
    Grown (Closes o.serial) s (s.conclude o purpose result) := by
  obtain ⟨subscriptions, c, hconclude, -⟩ := conclude_eq_finish s o purpose result
  have hlog : (s.conclude o purpose result).log = s.log.push (.finished o.serial c) := by
    rw [hconclude]
    rfl
  exact .of_push hlog (.inl ⟨c, rfl⟩)

theorem grown_stepOperation (hs : s.stepOperation o = some s') :
    Grown (Event.IsBy s (.step (.operation o.serial))) s s' := by
  have hcloses {s' : Session} (h : Grown (Closes o.serial) s s') :
      Grown (Event.IsBy s (.step (.operation o.serial))) s s' := by
    obtain ⟨added, hlog, hall⟩ := h
    refine ⟨added, hlog, ?_⟩
    intro e he
    rcases hall e he with ⟨c, rfl⟩ | rfl
    · exact rfl
    · exact .inl rfl
  obtain ⟨serial, cancelled, stage⟩ := o
  cases stage with
  | called call =>
    cases hs
    exact hcloses (grown_begin s _ call)
  | enrolling request template handler =>
    cases hs
    exact hcloses (grown_enroll s _ request template handler)
  | running purpose transfer exchange =>
    cases exchange with
    | ended outcome =>
      cases hs
      exact .of_log (log_proceed s _ _ _)
    | _ =>
      obtain ⟨c, -, rfl⟩ := Option.map_eq_some_iff.mp hs
      exact (grown_absorb c fun _ => rfl).trans (.of_log rfl)
  | concluding purpose result =>
    cases hs
    exact hcloses (grown_conclude s _ purpose result)
  | joining =>
    unfold stepOperation at hs
    dsimp only at hs
    split at hs
    · cases hs
      exact hcloses (grown_finish s _ _)
    · cases hs

/-! Steps of a worker and of the receiver. -/

theorem log_deliver (s : Session) (w : Worker) (next : Stride Delivery (Option Notification)) :
    (s.deliver w next).log = match next.turn with
      | .finish (some notification) =>
        s.log.push (.notified w.owner notification (w.handler notification))
      | _ => s.log := by
  unfold deliver
  cases next.turn with
  | ask r d => rfl
  | finish result => cases result <;> rfl

theorem grown_deliver (s : Session) {w : Worker} (next : Stride Delivery (Option Notification))
    (h : ∀ n r, P (.notified w.owner n r)) : Grown P s (s.deliver w next) := by
  have hlog := log_deliver s w next
  cases hturn : next.turn with
  | ask r d => exact .of_log (by rw [hlog, hturn])
  | finish result =>
    cases result with
    | none => exact .of_log (by rw [hlog, hturn])
    | some notification => exact .of_push (by rw [hlog, hturn]) (h _ _)

theorem grown_stepWorker {w : Worker} (hw : s.worker? w.serial = some w)
    (hs : s.stepWorker w = some s') : Grown (Event.IsBy s (.step (.worker w.serial))) s s' := by
  have hcalls (n : Notification) (r : Reaction) :
      Event.IsBy s (.step (.worker w.serial)) (.notified w.owner n r) := ⟨w, rfl, hw, rfl⟩
  unfold stepWorker at hs
  cases hcurrent : w.current with
  | none =>
    rw [hcurrent] at hs
    dsimp only at hs
    split at hs
    · cases hs
      exact .of_push rfl (.inr ⟨w, rfl, hw, rfl⟩)
    · obtain ⟨⟨notification, subscriptions⟩, -, rfl⟩ := Option.map_eq_some_iff.mp hs
      exact grown_deliver { s with subscriptions } _ hcalls
  | some current =>
    obtain ⟨delivery, exchange⟩ := current
    rw [hcurrent] at hs
    cases exchange with
    | ended outcome =>
      cases hs
      exact grown_deliver s _ hcalls
    | _ =>
      obtain ⟨c, -, rfl⟩ := Option.map_eq_some_iff.mp hs
      exact (grown_absorb c fun _ => rfl).trans (.of_log rfl)

theorem log_route (s : Session) (a : Message) : (s.route a).log = s.log := by
  unfold route
  split <;> rfl

theorem grown_stepReceiver (hs : s.stepReceiver = some s') :
    Grown (Event.IsBy s (.step .receiver)) s s' := by
  unfold stepReceiver at hs
  cases hphase : s.receiver with
  | listening =>
    simp only [hphase, listen] at hs
    repeat' split at hs
    all_goals cases hs
    any_goals exact .of_log rfl
    exact .of_log (log_route _ _)
  | replying reply =>
    simp only [hphase] at hs
    split at hs
    all_goals cases hs
    · exact .of_log rfl
    · exact .of_push rfl rfl
  | ending e ids =>
    rw [hphase] at hs
    cases ids <;> cases hs <;> exact .of_log rfl
  | _ =>
    rw [hphase] at hs
    cases hs
    all_goals exact .of_log rfl

theorem log_accept (s : Session) (i : Input) : (s.accept i).log = s.log := by
  cases i with
  | abort k =>
    change (s.abort k).log = s.log
    unfold abort
    split <;> rfl
  | message a =>
    change ((s.arrive a).toOption.getD s).log = s.log
    unfold arrive Pipe.peerSend
    repeat' split
    all_goals rfl
  | _ => rfl

/-- What a move adds to the log is its own work. -/
theorem grown_of_move (hs : s.move m = some s') : Grown (Event.IsBy s m) s s' := by
  cases m with
  | input i =>
    cases hs
    exact .of_log (log_accept s i)
  | step task =>
    cases task with
    | receiver => exact grown_stepReceiver hs
    | operation k =>
      obtain ⟨o, ho, hstep⟩ := operation_of_step hs
      obtain rfl := operation?_serial ho
      exact grown_stepOperation hstep
    | worker k =>
      obtain ⟨w, hw, hstep⟩ := worker_of_step hs
      obtain rfl := worker?_serial hw
      exact grown_stepWorker hw hstep

/-- What is read off the log stays as it is under a move that adds nothing of the kind. -/
theorem filterMap_log_eq {α : Type} {f : Event → Option α} (hs : s.move m = some s')
    (hf : ∀ e, Event.IsBy s m e → f e = none) :
    s'.log.toList.filterMap f = s.log.toList.filterMap f := by
  obtain ⟨added, hlog, hall⟩ := grown_of_move hs
  have hnone : added.filterMap f = [] :=
    List.filterMap_eq_nil_iff.mpr fun e he => hf e (hall e he)
  rw [hlog, List.filterMap_append, hnone, List.append_nil]

/-! Steps of an exchange. -/

/-- A step of an exchange adds what it sends to the log, and nothing else. -/
theorem log_of_exchange {t : Task} {e : Exchange} (he : s.exchangeOf t = some e)
    (hgoing : ∀ r, e ≠ .ended r) (hs : s.step t = some s') :
    ∃ c, s.connection.step (s.isCancelled t) e = some c ∧ s'.exchangeOf t = some c.exchange ∧
      s'.log = match c.sent with
        | some m => s.log.push (.sent t m)
        | none => s.log := by
  have hmove : s.move (.step t) = some s' := hs
  cases effect_of_move hmove with
  | received => cases he
  | turned own only before connection after =>
    obtain ⟨r, rfl⟩ := before e he
    exact absurd rfl (hgoing r)
  | @exchanged _ _ c only before step connection after =>
    rw [he] at before
    cases before
    refine ⟨c, step, after, ?_⟩
    cases t with
    | receiver => cases he
    | operation n =>
      obtain ⟨o, purpose, transfer, ho, hstage⟩ := operation_of_exchangeOf he
      obtain rfl := operation?_serial ho
      rw [step_of_operation? ho, stepOperation_running hstage hgoing, ← isCancelled_operation ho,
        step, Option.map_some] at hs
      cases hs
      exact log_absorb s _ c
    | worker n =>
      obtain ⟨w, delivery, hw, hcurrent⟩ := worker_of_exchangeOf he
      obtain rfl := worker?_serial hw
      rw [step_of_worker? hw] at hs
      have hstep : s.connection.step (s.isStopped w.serial) e = some c := step
      rw [stepWorker_busy hcurrent hgoing, hstep, Option.map_some] at hs
      cases hs
      exact log_absorb s _ c

end Session

end Coap
