import Coap.Client.Input

/-! Runs of a session, and what they leave alone: one operation goes on only by its own steps,
whatever the other tasks do and whatever comes from outside. -/
namespace Coap

/-- A move of a session: a step of one of its tasks, or something that comes from outside. -/
inductive Move
  | step (task : Task)
  | input (input : Input)

/-- The request that an event says an operation has sent. -/
def Event.request? (n : Nat) : Event → Option Message
  | .sent (.operation k) m => if k = n then some m else none
  | _ => none

/-- The end that an event says an operation has come to. -/
def Event.completion? (n : Nat) : Event → Option Completion
  | .finished k c => if k = n then some c else none
  | _ => none

/-- The response that a completion brings. -/
def Completion.response? : Completion → Option Response
  | .response r => some r
  | .observation o => some o.response
  | .stopped | .failure _ => none

namespace Session

def move (s : Session) : Move → Option Session
  | .step task => s.step task
  | .input i => some (s.accept i)

/-- A run of moves; none if a task has no step where it is to take one. -/
def run (s : Session) : List Move → Option Session
  | [] => some s
  | m :: rest => (s.move m).bind fun s => s.run rest

/-- An operation that is not over. -/
def operation? (s : Session) (n : Nat) : Option Operation := s.operations.find? fun o => o.serial == n

/-- The requests that an operation has sent so far. -/
def requestsOf (s : Session) (n : Nat) : List Message := s.log.toList.filterMap (Event.request? n)

/-- The ends that an operation has come to so far. -/
def completionsOf (s : Session) (n : Nat) : List Completion :=
  s.log.toList.filterMap (Event.completion? n)

/-- All that concerns an operation is the same in both sessions. -/
structure Same (n : Nat) (s s' : Session) : Prop where
  operation : s'.operation? n = s.operation? n
  requests : s'.requestsOf n = s.requestsOf n
  completions : s'.completionsOf n = s.completionsOf n
  transfers : s'.transfers = s.transfers
  serial : s.nextSerial ≤ s'.nextSerial

variable {n : Nat} {s s' s'' : Session} {o : Operation}

theorem Same.refl (n : Nat) (s : Session) : Same n s s := ⟨rfl, rfl, rfl, rfl, Nat.le_refl _⟩

theorem Same.trans (h : Same n s s') (h' : Same n s' s'') : Same n s s'' where
  operation := h'.operation.trans h.operation
  requests := h'.requests.trans h.requests
  completions := h'.completions.trans h.completions
  transfers := h'.transfers.trans h.transfers
  serial := Nat.le_trans h.serial h'.serial

/-- What concerns an operation is in these fields alone. -/
theorem Same.of_fields (ho : s'.operations = s.operations) (hl : s'.log = s.log)
    (ht : s'.transfers = s.transfers) (hs : s.nextSerial ≤ s'.nextSerial) : Same n s s' where
  operation := by
    unfold operation?
    rw [ho]
  requests := by
    unfold requestsOf
    rw [hl]
  completions := by
    unfold completionsOf
    rw [hl]
  transfers := ht
  serial := hs

/-! Requests and ends come into the log by `note` only. -/

theorem requestsOf_note (s : Session) (n : Nat) (e : Event) :
    (s.note e).requestsOf n = s.requestsOf n ++ (e.request? n).toList := by
  unfold requestsOf note
  rw [Array.toList_push, List.filterMap_append]
  cases h : e.request? n <;> simp [h]

theorem completionsOf_note (s : Session) (n : Nat) (e : Event) :
    (s.note e).completionsOf n = s.completionsOf n ++ (e.completion? n).toList := by
  unfold completionsOf note
  rw [Array.toList_push, List.filterMap_append]
  cases h : e.completion? n <;> simp [h]

theorem same_note {e : Event} (hr : e.request? n = none) (hc : e.completion? n = none) :
    Same n s (s.note e) where
  operation := rfl
  requests := by simp [requestsOf_note, hr]
  completions := by simp [completionsOf_note, hc]
  transfers := rfl
  serial := Nat.le_refl _

/-! Replacing and ending operations. -/

theorem operation?_serial (h : s.operation? n = some o) : o.serial = n := by
  simpa using List.find?_some h

theorem step_of_operation? (h : s.operation? n = some o) :
    s.step (.operation n) = s.stepOperation o := by
  have hfind : (s.operations.find? fun q => q.serial == n) = some o := h
  simp [step, hfind]

theorem step_of_operation?_none (h : s.operation? n = none) : s.step (.operation n) = none := by
  have hfind : (s.operations.find? fun q => q.serial == n) = none := h
  simp [step, hfind]

/-- An operation whose exchange has not ended takes the next step of the exchange. -/
theorem stepOperation_running {purpose : Purpose} {transfer : Transfer} {e : Exchange}
    (hstage : o.stage = .running purpose transfer e) (hgoing : ∀ r, e ≠ .ended r) :
    s.stepOperation o = (s.connection.step o.cancelled e).map fun c =>
      (s.absorb (.operation o.serial) c).putOperation
        { o with stage := .running purpose transfer c.exchange } := by
  unfold stepOperation
  rw [hstage]
  cases e with
  | ended r => exact absurd rfl (hgoing r)
  | _ => rfl

/-- A step of an operation is one of an operation that is there. -/
theorem operation_of_step (hs : s.step (.operation n) = some s') :
    ∃ o, s.operation? n = some o ∧ s.stepOperation o = some s' := by
  cases ho : s.operation? n with
  | none =>
    rw [step_of_operation?_none ho] at hs
    cases hs
  | some o => exact ⟨o, rfl, (step_of_operation? ho).symm.trans hs⟩

/-! Lists of operations or workers, looked up by their serial numbers. -/

section Keyed

variable {α : Type} (key : α → Nat)

theorem find?_replace_self (a : α) (items : List α) :
    ((items.map fun c => if key c == key a then a else c).find? fun c => key c == key a) =
      (items.find? fun c => key c == key a).map fun _ => a := by
  induction items with
  | nil => rfl
  | cons c rest ih =>
    rw [List.map_cons, List.find?_cons, List.find?_cons]
    cases hc : key c == key a with
    | true => simp
    | false => simpa [hc] using ih

/-- A change that keeps all keys is not seen where it changes nothing. -/
theorem find?_map_of_fixed {f : α → α} (hf : ∀ a, key (f a) = key a)
    (hn : ∀ a, key a = n → f a = a) (items : List α) :
    ((items.map f).find? fun a => key a == n) = items.find? fun a => key a == n := by
  induction items with
  | nil => rfl
  | cons a rest ih =>
    rw [List.map_cons, List.find?_cons, List.find?_cons, ih, hf]
    by_cases ha : key a = n
    · rw [hn a ha]
    · rw [beq_eq_false_iff_ne.mpr ha]

theorem find?_replace_ne {a : α} (h : key a ≠ n) (items : List α) :
    ((items.map fun c => if key c == key a then a else c).find? fun c => key c == n) =
      items.find? fun c => key c == n := by
  apply find?_map_of_fixed
  · intro c
    by_cases hc : key c = key a
    · simp [hc]
    · simp [hc]
  · intro c hc
    have hne : key c ≠ key a := fun ha => h (ha.symm.trans hc)
    simp [hne]

theorem find?_filter_ne {k : Nat} (h : k ≠ n) (items : List α) :
    ((items.filter fun a => key a != k).find? fun a => key a == n) =
      items.find? fun a => key a == n := by
  induction items with
  | nil => rfl
  | cons a rest ih =>
    by_cases ha : key a = k
    · simp [ha, h, ih]
    · simp [List.find?_cons, ha, ih]

theorem find?_filter_self (items : List α) :
    ((items.filter fun a => key a != n).find? fun a => key a == n) = none := by
  apply List.find?_eq_none.mpr
  intro a ha
  simpa using (List.mem_filter.mp ha).2

end Keyed

theorem operation?_putOperation_self (s : Session) (o : Operation) :
    (s.putOperation o).operation? o.serial = (s.operation? o.serial).map fun _ => o :=
  find?_replace_self Operation.serial o s.operations

theorem operation?_putOperation (h : s.operation? o.serial = some o') :
    (s.putOperation o).operation? o.serial = some o := by
  rw [operation?_putOperation_self, h, Option.map_some]

theorem operation?_finish (s : Session) (o : Operation) (c : Completion) :
    (s.finish o c).operation? o.serial = none :=
  find?_filter_self Operation.serial s.operations

theorem same_putOperation (h : o.serial ≠ n) : Same n s (s.putOperation o) where
  operation := find?_replace_ne Operation.serial h s.operations
  requests := rfl
  completions := rfl
  transfers := rfl
  serial := Nat.le_refl _

theorem same_finish (h : o.serial ≠ n) (c : Completion) : Same n s (s.finish o c) where
  operation := find?_filter_ne Operation.serial h s.operations
  requests := by
    unfold finish
    rw [requestsOf_note]
    exact List.append_nil _
  completions := by
    unfold finish
    rw [completionsOf_note]
    simp [Event.completion?, h, completionsOf]
  transfers := rfl
  serial := Nat.le_refl _

theorem same_publish (n : Nat) (s : Session) (reports : List Progress) :
    Same n s (s.publish reports) :=
  .of_fields rfl rfl rfl (Nat.le_refl _)

/-! The steps of other operations. -/

theorem operation?_absorb (s : Session) (t : Task) (c : Connection.Stepped) (n : Nat) :
    (s.absorb t c).operation? n = s.operation? n := by
  unfold absorb
  cases c.sent <;> rfl

theorem same_absorb {task : Task} (h : task ≠ .operation n) (c : Connection.Stepped) :
    Same n s (s.absorb task c) := by
  have hfirst : Same n s { s with connection := c.connection } :=
    .of_fields rfl rfl rfl (Nat.le_refl _)
  unfold absorb
  cases c.sent with
  | none => exact hfirst
  | some m =>
    refine hfirst.trans (same_note ?_ rfl)
    cases task with
    | operation k =>
      have hk : k ≠ n := fun hk => h (by rw [hk])
      exact if_neg hk
    | _ => rfl

theorem same_proceed (h : o.serial ≠ n) (purpose : Purpose)
    (next : Stride Transfer (Except ClientError Response)) : Same n s (s.proceed o purpose next) := by
  have hpublish := same_publish n s next.reports
  unfold proceed
  cases next.turn with
  | ask r t => exact hpublish.trans (same_putOperation h)
  | finish result => exact hpublish.trans (same_putOperation h)

theorem begin_request_error {request : Request} {e : MessageError} (h : request.toMessage = .error e)
    (s : Session) (o : Operation) :
    s.begin o (.request request) = s.finish o (.failure (.ofMessage e)) := by
  simp [begin, h]

/-- A request that can be sent gets a fresh token before anything else happens. -/
theorem begin_request_ok {request : Request} {m : Message} (h : request.toMessage = .ok m)
    (s : Session) (o : Operation) :
    s.begin o (.request request) = { s with tokens := s.tokens.take.2 }.proceed o .respond
      (Transfer.start s.transfers { m with token := s.tokens.take.1 }
        (Message.followUp { m with token := s.tokens.take.1 })) := by
  simp [begin, h]

theorem same_tokens (n : Nat) (s : Session) (tokens : Tokens) : Same n s { s with tokens } :=
  .of_fields rfl rfl rfl (Nat.le_refl _)

theorem same_begin (h : o.serial ≠ n) (call : Call) : Same n s (s.begin o call) := by
  cases call with
  | request request =>
    cases hm : request.toMessage with
    | error e =>
      rw [begin_request_error hm]
      exact same_finish h _
    | ok m =>
      rw [begin_request_ok hm]
      exact (same_tokens n s _).trans (same_proceed h _ _)
  | observe request handler =>
    unfold begin
    dsimp only
    split
    · exact (same_finish h _).trans (same_note rfl rfl)
    · exact (same_tokens n s _).trans (same_putOperation h)
  | stop observation => exact same_proceed h _ _
  | shutdown =>
    unfold begin
    dsimp only
    split
    · refine Same.trans ?_ (same_finish h _)
      exact .of_fields rfl rfl rfl (Nat.le_refl _)
    · refine Same.trans ?_ (same_putOperation h)
      exact .of_fields rfl rfl rfl (Nat.le_refl _)

theorem same_enroll (h : o.serial ≠ n) (request template : Message) (handler : Handler) :
    Same n s (s.enroll o request template handler) := by
  unfold enroll
  cases s.subscriptions.register request.token s.nextSerial with
  | error e => exact (same_finish h _).trans (same_note rfl rfl)
  | ok subscriptions =>
    refine Same.trans ?_ (same_proceed h _ _)
    exact .of_fields rfl rfl rfl (Nat.le_succ _)

/-- An operation ends with its result, whatever becomes of its subscription. -/
theorem conclude_eq_finish (s : Session) (o : Operation) (purpose : Purpose)
    (result : Except ClientError Response) :
    ∃ subscriptions c, s.conclude o purpose result = { s with subscriptions }.finish o c ∧
      match result with
      | .error e => c = .failure e
      | .ok r => c.response? = some r := by
  cases purpose with
  | respond => cases result <;> exact ⟨_, _, rfl, rfl⟩
  | deregister token => cases result <;> exact ⟨_, _, rfl, rfl⟩
  | register token template =>
    cases result with
    | error e => exact ⟨_, _, rfl, rfl⟩
    | ok response =>
      -- A registration that was accepted keeps its subscription.
      unfold conclude
      dsimp only
      split
      · exact ⟨_, _, rfl, rfl⟩
      · exact ⟨_, _, rfl, rfl⟩

theorem same_conclude (h : o.serial ≠ n) (purpose : Purpose) (result : Except ClientError Response) :
    Same n s (s.conclude o purpose result) := by
  obtain ⟨subscriptions, c, hconclude, -⟩ := conclude_eq_finish s o purpose result
  have hfirst : Same n s { s with subscriptions } := .of_fields rfl rfl rfl (Nat.le_refl _)
  rw [hconclude]
  exact hfirst.trans (same_finish h c)

theorem same_stepOperation (h : o.serial ≠ n) (hs : s.stepOperation o = some s') : Same n s s' := by
  obtain ⟨serial, cancelled, stage⟩ := o
  cases stage with
  | called call =>
    cases hs
    exact same_begin h call
  | enrolling request template handler =>
    cases hs
    exact same_enroll h request template handler
  | running purpose transfer exchange =>
    cases exchange with
    | ended outcome =>
      cases hs
      exact same_proceed h purpose (transfer.resume outcome)
    | _ =>
      obtain ⟨c, -, rfl⟩ := Option.map_eq_some_iff.mp hs
      have htask : Task.operation serial ≠ .operation n := by simpa using h
      exact (same_absorb htask c).trans (same_putOperation h)
  | concluding purpose result =>
    cases hs
    exact same_conclude h purpose result
  | joining =>
    unfold stepOperation at hs
    dsimp only at hs
    split at hs
    · cases hs
      exact same_finish h _
    · cases hs

/-! Workers, the receiver, and what comes from outside. -/

theorem same_putWorker (n : Nat) (s : Session) (w : Worker) : Same n s (s.putWorker w) :=
  .of_fields rfl rfl rfl (Nat.le_refl _)

theorem same_deliver (n : Nat) (s : Session) (w : Worker)
    (next : Stride Delivery (Option Notification)) : Same n s (s.deliver w next) := by
  have hpublish := same_publish n s next.reports
  unfold deliver
  cases next.turn with
  | ask r delivery => exact hpublish.trans (same_putWorker n _ _)
  | finish result =>
    cases result with
    | none => exact hpublish.trans (same_putWorker n _ _)
    | some notification => exact (hpublish.trans (same_putWorker n _ _)).trans (same_note rfl rfl)

theorem same_dismiss (n : Nat) (s : Session) (w : Worker) : Same n s (s.dismiss w) := by
  refine Same.trans ?_ (same_note rfl rfl)
  exact .of_fields rfl rfl rfl (Nat.le_refl _)

theorem same_stepWorker {w : Worker} (hs : s.stepWorker w = some s') : Same n s s' := by
  obtain ⟨serial, owner, template, handler, current⟩ := w
  cases current with
  | none =>
    unfold stepWorker at hs
    dsimp only at hs
    split at hs
    · cases hs
      exact same_dismiss n s _
    · obtain ⟨⟨notification, subscriptions⟩, -, rfl⟩ := Option.map_eq_some_iff.mp hs
      refine Same.trans ?_ (same_deliver n _ _ _)
      exact .of_fields rfl rfl rfl (Nat.le_refl _)
  | some current =>
    obtain ⟨delivery, exchange⟩ := current
    cases exchange with
    | ended outcome =>
      cases hs
      exact same_deliver n s _ (delivery.resume outcome)
    | _ =>
      obtain ⟨c, -, rfl⟩ := Option.map_eq_some_iff.mp hs
      have htask : Task.worker serial ≠ .operation n := by simp
      exact (same_absorb htask c).trans (same_putWorker n _ _)

theorem same_route (n : Nat) (s : Session) (m : Message) : Same n s (s.route m) := by
  unfold route
  split <;> exact .of_fields rfl rfl rfl (Nat.le_refl _)

theorem same_listen (hs : s.listen = some s') : Same n s s' := by
  unfold listen at hs
  split at hs
  · cases hs
    exact .of_fields rfl rfl rfl (Nat.le_refl _)
  split at hs
  · cases hs
    exact .of_fields rfl rfl rfl (Nat.le_refl _)
  · cases hs
  · cases hs
    exact .of_fields rfl rfl rfl (Nat.le_refl _)
  · cases hs
    refine Same.trans ?_ (same_route n _ _)
    exact .of_fields rfl rfl rfl (Nat.le_refl _)

/-- Whatever phase the receiver is in, it changes the table and the wire, but no operation. -/
theorem same_stepReceiver (hs : s.stepReceiver = some s') : Same n s s' := by
  unfold stepReceiver at hs
  cases hphase : s.receiver with
  | listening =>
    rw [hphase] at hs
    exact same_listen hs
  | replying reply =>
    simp only [hphase] at hs
    split at hs
    · cases hs
    · cases hs
      exact .of_fields rfl rfl rfl (Nat.le_refl _)
    · cases hs
      refine Same.trans ?_ (same_note rfl rfl)
      exact .of_fields rfl rfl rfl (Nat.le_refl _)
  | ended =>
    rw [hphase] at hs
    cases hs
  | ending e ids =>
    rw [hphase] at hs
    cases ids <;>
      · cases hs
        exact .of_fields rfl rfl rfl (Nat.le_refl _)
  | failing _ | collecting _ | clearing | closing =>
    rw [hphase] at hs
    cases hs
    exact .of_fields rfl rfl rfl (Nat.le_refl _)

/-- A step of another task leaves an operation alone. -/
theorem same_step {task : Task} (h : task ≠ .operation n) (hs : s.step task = some s') : Same n s s' := by
  cases task with
  | receiver => exact same_stepReceiver hs
  | operation k =>
    obtain ⟨o, ho, hstep⟩ := operation_of_step hs
    have hk : o.serial = k := operation?_serial ho
    have hne : o.serial ≠ n := fun hn => h (by rw [← hk, hn])
    exact same_stepOperation hne hstep
  | worker k =>
    unfold step at hs
    dsimp only at hs
    split at hs
    · exact same_stepWorker hs
    · cases hs

/-- Whether an input stops an operation. -/
def stops (n : Nat) : Input → Bool
  | .cancel k | .abort k => k == n
  | _ => false

theorem same_call (h : s.nextSerial ≠ n) (c : Call) (cancelled : Bool) :
    Same n s (s.call c cancelled) where
  operation := by
    unfold operation? call
    rw [List.find?_append]
    simp [h]
  requests := rfl
  completions := rfl
  transfers := rfl
  serial := Nat.le_succ _

theorem same_cancel {k : Nat} (h : k ≠ n) (s : Session) : Same n s (s.cancel k) where
  operation := by
    apply find?_map_of_fixed Operation.serial
    · intro q
      by_cases hq : q.serial = k
      · simp [hq]
      · simp [hq]
    · intro q hq
      have hne : q.serial ≠ k := fun hk => h (hk.symm.trans hq)
      simp [hne]
  requests := rfl
  completions := rfl
  transfers := rfl
  serial := Nat.le_refl _

/-- An operation that is dropped is over. -/
theorem operation?_abort_self (s : Session) (n : Nat) : (s.abort n).operation? n = none := by
  unfold abort
  split
  · assumption
  · exact find?_filter_self Operation.serial s.operations

theorem same_abort {k : Nat} (h : k ≠ n) (s : Session) : Same n s (s.abort k) := by
  unfold abort
  split
  · exact .refl n s
  · exact {
      operation := find?_filter_ne Operation.serial h s.operations
      requests := rfl
      completions := rfl
      transfers := rfl
      serial := Nat.le_refl _ }

theorem same_arrive (n : Nat) (s : Session) (m : Message) :
    Same n s ((s.arrive m).toOption.getD s) := by
  unfold arrive
  split
  · exact .refl n s
  · cases s.connection.wire.pipe.peerSend m with
    | error e => exact .refl n s
    | ok pipe => exact .of_fields rfl rfl rfl (Nat.le_refl _)

/-- What comes from outside leaves an operation alone, unless it stops the operation or begins it.
-/
theorem same_accept {i : Input} (h : stops n i = false) (hn : s.nextSerial ≠ n) :
    Same n s (s.accept i) := by
  cases i with
  | call c cancelled => exact same_call hn c cancelled
  | cancel k => exact same_cancel (by simpa [stops] using h) s
  | abort k => exact same_abort (by simpa [stops] using h) s
  | message m => exact same_arrive n s m
  | _ => exact .of_fields rfl rfl rfl (Nat.le_refl _)

/-- Whether a move is one that an operation makes, or that stops it. -/
def concerns (n : Nat) : Move → Bool
  | .step task => task == .operation n
  | .input i => stops n i

theorem same_move {m : Move} (h : concerns n m = false) (hn : s.nextSerial ≠ n)
    (hs : s.move m = some s') : Same n s s' := by
  cases m with
  | step task => exact same_step (by simpa [concerns] using h) hs
  | input i =>
    cases hs
    exact same_accept h hn

/-- There is always another operation that a move does not concern. -/
theorem exists_not_concerned (s : Session) (m : Move) : ∃ n, concerns n m = false ∧ s.nextSerial ≠ n := by
  have hfar (k : Nat) : (k == k + s.nextSerial + 1) = false := by
    simp
    omega
  cases m with
  | step task =>
    cases task with
    | operation k =>
      refine ⟨k + s.nextSerial + 1, ?_, by omega⟩
      simp [concerns]
      omega
    | _ => exact ⟨s.nextSerial + 1, rfl, by omega⟩
  | input i =>
    cases i with
    | cancel k => exact ⟨k + s.nextSerial + 1, hfar k, by omega⟩
    | abort k => exact ⟨k + s.nextSerial + 1, hfar k, by omega⟩
    | _ => exact ⟨s.nextSerial + 1, rfl, by omega⟩

/-- No move changes the settings or gives a serial number back. -/
theorem kept_move {m : Move} (hs : s.move m = some s') :
    s'.transfers = s.transfers ∧ s.nextSerial ≤ s'.nextSerial := by
  obtain ⟨n, hn, hne⟩ := exists_not_concerned s m
  have hsame := same_move hn hne hs
  exact ⟨hsame.transfers, hsame.serial⟩

/-- Nothing is known of an operation that has not been called. -/
structure Fresh (s : Session) (n : Nat) : Prop where
  operation : s.operation? n = none
  requests : s.requestsOf n = []
  completions : s.completionsOf n = []

theorem Fresh.of_same (h : s.Fresh n) (hs : Same n s s') : s'.Fresh n where
  operation := hs.operation.trans h.operation
  requests := hs.requests.trans h.requests
  completions := hs.completions.trans h.completions

theorem fresh_cancel (h : s.Fresh n) (k : Nat) : (s.cancel k).Fresh n where
  operation := by
    apply List.find?_eq_none.mpr
    intro o ho
    obtain ⟨q, hq, rfl⟩ := List.mem_map.mp ho
    have hne := List.find?_eq_none.mp h.operation q hq
    by_cases hk : q.serial = k
    · simpa [hk] using hne
    · simpa [hk] using hne
  requests := h.requests
  completions := h.completions

theorem fresh_move {m : Move} (h : s.Fresh n) (hs : s.move m = some s') (hn : s'.nextSerial ≤ n) :
    s'.Fresh n := by
  have hle := (kept_move hs).2
  cases m with
  | step task =>
    by_cases ht : task = .operation n
    · subst ht
      change s.step (.operation n) = some s' at hs
      rw [step_of_operation?_none h.operation] at hs
      cases hs
    · exact h.of_same (same_step ht hs)
  | input i =>
    cases hs
    cases i with
    | cancel k => exact fresh_cancel h k
    | abort k =>
      by_cases hk : k = n
      · subst hk
        have hop : (s.operations.find? fun o => o.serial == k) = none := h.operation
        have hsame : s.abort k = s := by simp [abort, hop]
        change (s.abort k).Fresh k
        rw [hsame]
        exact h
      · exact h.of_same (same_abort hk s)
    | call c cancelled =>
      have hne : s.nextSerial ≠ n := fun he => Nat.not_succ_le_self n (he ▸ hn)
      exact h.of_same (same_call hne c cancelled)
    | message m => exact h.of_same (same_arrive n s m)
    | _ => exact h.of_same (.of_fields rfl rfl rfl (Nat.le_refl _))

/-- In whatever state a session gets into, nothing is known of operations to come, and its settings
are the first ones. -/
theorem fresh_run {moves : List Move} (h : ∀ n, s.nextSerial ≤ n → s.Fresh n)
    (hs : s.run moves = some s') :
    (∀ n, s'.nextSerial ≤ n → s'.Fresh n) ∧ s'.transfers = s.transfers := by
  induction moves generalizing s with
  | nil =>
    cases hs
    exact ⟨h, rfl⟩
  | cons m rest ih =>
    obtain ⟨s₁, hs₁, hrest⟩ := Option.bind_eq_some_iff.mp hs
    obtain ⟨ht, hle⟩ := kept_move hs₁
    have hfresh (n : Nat) (hn : s₁.nextSerial ≤ n) : s₁.Fresh n :=
      fresh_move (h n (Nat.le_trans hle hn)) hs₁ hn
    obtain ⟨hfresh', ht'⟩ := ih hfresh hrest
    exact ⟨hfresh', ht'.trans ht⟩

theorem fresh_start (options : ConnectOptions) (pipe : Pipe) (messageIds : MessageIds)
    (tokens : Tokens) (timer : Timer) (n : Nat) :
    (start options pipe messageIds tokens timer).Fresh n := ⟨rfl, rfl, rfl⟩

end Session

end Coap
