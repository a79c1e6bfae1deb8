import Coap.Proofs.NotificationOrder
import Coap.Proofs.RefusedAnswers

/-! The next step of an operation that has been cancelled: what it makes of the exchange under way, how
near it brings the operation to its end, and what it leaves as it is. -/
namespace Coap

/-- What the next step makes of an exchange that has been cancelled. The tables of outstanding
exchanges before and after it are those of the two connections. -/
inductive Exchange.Halts (c c' : Connection) : Exchange → Exchange → Prop
  | unbegun {r : Message} (same : c'.exchanges = c.exchanges) :
      Halts c c' (.begun r) (.ended (.error .cancelled))
  /-- There is no id for it. -/
  | exhausted {r : Message} (same : c'.exchanges = c.exchanges) :
      Halts c c' (.checked r) (.ended (.error .noMessageIdAvailable))
  | registered {r : Message} {w : Waiter} (register : c.exchanges.register w.id = .ok (w, c'.exchanges)) :
      Halts c c' (.checked r) (.registered { r with id := w.id } w)
  | shut {r : Message} {w : Waiter} (closed : c.closed = true)
      (released : c'.exchanges = c.exchanges.release w) :
      Halts c c' (.registered r w) (.ended (.error .connectionClosed))
  | passed {r : Message} {w : Waiter} (closed : c.closed = false) (same : c'.exchanges = c.exchanges) :
      Halts c c' (.registered r w) (.sending r w)
  /-- A message that has not been sent is not sent any more, whether it has been answered or not. -/
  | unsent {r : Message} {w : Waiter} (released : c'.exchanges = c.exchanges.release w) :
      Halts c c' (.sending r w) (.ended (.error .cancelled))
  | unanswered {w : Waiter} {deadline : Nat} (undecided : c.exchanges.Undecided w)
      (released : c'.exchanges = c.exchanges.release w) :
      Halts c c' (.waiting w deadline) (.ended (.error .cancelled))
  | answered {w : Waiter} {deadline : Nat} {outcome : Outcome} (decided : c.exchanges.Decided w outcome)
      (released : c'.exchanges = c.exchanges.release w) :
      Halts c c' (.waiting w deadline) (.ended (outcome.bind Exchange.judge))

/-- Two connections with the same wire and time, both open or both closed. -/
structure Connection.Quiet (c c' : Connection) : Prop where
  wire : c'.wire = c.wire
  closed : c'.closed = c.closed
  clock : c'.clock = c.clock
  timeout : c'.timeout = c.timeout

namespace Connection

variable {c : Connection} {cancelled : Bool} {e : Exchange} {c' : Stepped}

theorem Advance.quiet (h : c.Advance cancelled e c') (hsent : c'.sent = none) :
    c.Quiet c'.connection := by
  cases h with
  | sent => cases hsent
  | _ => exact ⟨rfl, rfl, rfl, rfl⟩

/-- An exchange that has been cancelled never waits. -/
theorem step_of_cancelled (c : Connection) (hgoing : ∀ r, e ≠ .ended r) : ∃ c', c.step true e = some c' := by
  cases e with
  | begun r => exact ⟨_, rfl⟩
  | checked r =>
    unfold step
    dsimp only
    split <;> exact ⟨_, rfl⟩
  | registered r w =>
    unfold step
    dsimp only
    split <;> exact ⟨_, rfl⟩
  | sending r w => exact ⟨_, rfl⟩
  | waiting w deadline =>
    have hfetch : ∃ found, c.exchanges.fetch w true (deadline ≤ c.clock) = some found := by
      unfold Exchanges.fetch
      repeat' split
      all_goals first | exact ⟨_, rfl⟩ | contradiction
    obtain ⟨found, hfound⟩ := hfetch
    unfold step
    dsimp only
    rw [hfound]
    exact ⟨_, rfl⟩
  | ended r => exact absurd rfl (hgoing r)

theorem halts_of_step (h : c.step true e = some c')
    (hsettled : ∀ w, e.waiter? = some w → c.exchanges.Undecided w ∨ ∃ r, c.exchanges.Decided w r) :
    e.Halts c c'.connection c'.exchange := by
  cases e with
  | begun r =>
    cases h
    exact .unbegun rfl
  | sending r w =>
    cases h
    exact .unsent rfl
  | ended r => cases h
  | waiting w deadline =>
    rcases hsettled w rfl with hundecided | ⟨r, hdecided⟩
    · unfold step at h
      dsimp only at h
      rw [Exchanges.fetch_of_undecided hundecided] at h
      cases h
      exact .unanswered hundecided rfl
    · rw [step_of_decided hdecided] at h
      cases h
      exact .answered hdecided rfl
  | checked r =>
    cases advance_of_step h with
    | exhausted => exact .exhausted rfl
    | registered register => exact .registered register
  | registered r w =>
    cases advance_of_step h with
    | shut closed => exact .shut closed rfl
    | passed closed => exact .passed closed rfl

end Connection

/-- The token of the subscription that an operation is about. -/
def Role.token? : Role → Option ByteArray
  | .granted token | .registering token | .stopping token => some token
  | .apart | .asking => none

namespace Operation.Stage

/-- The stages of a shutdown, which nothing cancels. -/
def IsShutdown : Stage → Prop
  | .called .shutdown | .joining => True
  | _ => False

/-- The most steps that an operation takes from a stage to its end once it has been cancelled. -/
def stepsLeft : Stage → Nat
  | .concluding _ _ => 1
  | .running _ _ (.ended (.error _)) => 2
  | .running _ _ (.begun _) | .running _ _ (.sending _ _) => 3
  | .running _ _ (.ended (.ok _)) | .running _ _ (.registered _ _) | .enrolling _ _ _ => 4
  | .running _ _ (.checked _) | .running _ _ (.waiting _ _) | .called _ | .joining => 5

/-- What the next step of an operation that has been cancelled makes of its stage, if it does not end
the operation. -/
inductive Halts (c c' : Connection) : Stage → Stage → Prop
  | granted {request : Request} {r template : Message} {handler : Handler} :
      Halts c c' (.called (.observe request handler)) (.enrolling r template handler)
  | begun {call : Call} {purpose : Purpose} {transfer : Transfer} {r : Message} :
      Halts c c' (.called call) (.running purpose transfer (.begun r))
  /-- The payload has too many blocks. -/
  | oversized {call : Call} {purpose : Purpose} {e : ClientError} :
      Halts c c' (.called call) (.concluding purpose (.error e))
  | enrolled {request template : Message} {handler : Handler} {purpose : Purpose} {transfer : Transfer}
      {r : Message} : Halts c c' (.enrolling request template handler) (.running purpose transfer (.begun r))
  | overfull {request template : Message} {handler : Handler} {purpose : Purpose} {e : ClientError} :
      Halts c c' (.enrolling request template handler) (.concluding purpose (.error e))
  | exchanged {purpose : Purpose} {transfer : Transfer} {e e' : Exchange} (exchange : e.Halts c c' e') :
      Halts c c' (.running purpose transfer e) (.running purpose transfer e')
  /-- The response that an exchange has ended with is used, and asks for another exchange. -/
  | asks {purpose : Purpose} {transfer next : Transfer} {m r : Message}
      (turn : (transfer.resume (.ok m)).turn = .ask r next) :
      Halts c c' (.running purpose transfer (.ended (.ok m))) (.running purpose next (.begun r))
  | answers {purpose : Purpose} {transfer : Transfer} {outcome : Outcome}
      {result : Except ClientError Response} (turn : (transfer.resume outcome).turn = .finish result) :
      Halts c c' (.running purpose transfer (.ended outcome)) (.concluding purpose result)

/-- With what a step ends an operation. -/
inductive Ends : Stage → Completion → Prop
  /-- The request is not valid. -/
  | refused {call : Call} {e : ClientError} : Ends (.called call) (.failure e)
  /-- The token is in use. -/
  | declined {request template : Message} {handler : Handler} {e : ClientError} :
      Ends (.enrolling request template handler) (.failure e)
  | failed {purpose : Purpose} {e : ClientError} : Ends (.concluding purpose (.error e)) (.failure e)
  | responded {purpose : Purpose} {r : Response} {c : Completion} (response : c.response? = some r) :
      Ends (.concluding purpose (.ok r)) c

/-- Stages from which an operation that has been cancelled can only end with that: an exchange is to
begin, has not been sent yet, or has ended so. -/
inductive Lost : Stage → Prop
  | begun {purpose : Purpose} {transfer : Transfer} {r : Message} :
      Lost (.running purpose transfer (.begun r))
  | sending {purpose : Purpose} {transfer : Transfer} {r : Message} {w : Waiter} :
      Lost (.running purpose transfer (.sending r w))
  | ended {purpose : Purpose} {transfer : Transfer} :
      Lost (.running purpose transfer (.ended (.error .cancelled)))
  | concluding {purpose : Purpose} : Lost (.concluding purpose (.error .cancelled))

variable {c c' : Connection} {stage stage' : Stage}

theorem stepsLeft_pos (stage : Stage) : 0 < stage.stepsLeft := by
  unfold stepsLeft
  split <;> decide

theorem stepsLeft_le (stage : Stage) : stage.stepsLeft ≤ 5 := by
  unfold stepsLeft
  split <;> decide

theorem Halts.stepsLeft_lt (h : stage.Halts c c' stage') : stage'.stepsLeft < stage.stepsLeft := by
  cases h with
  | exchanged exchange =>
    cases exchange with
    | @answered w deadline outcome =>
      -- A response may lead on to another exchange, an error may not.
      cases outcome.bind Exchange.judge <;> simp [stepsLeft]
    | _ => simp [stepsLeft]
  | @answers purpose transfer outcome result =>
    cases outcome <;> simp [stepsLeft]
  | _ => simp [stepsLeft]

theorem Halts.not_isShutdown (h : stage.Halts c c' stage') : ¬ stage'.IsShutdown := by
  cases h <;> exact id

theorem Lost.halts (h : stage.Lost) (hnext : stage.Halts c c' stage') : stage'.Lost := by
  cases h with
  | begun =>
    cases hnext with
    | exchanged exchange =>
      cases exchange
      exact .ended
  | sending =>
    cases hnext with
    | exchanged exchange =>
      cases exchange
      exact .ended
  | ended =>
    cases hnext with
    | exchanged exchange => cases exchange
    | answers turn =>
      rw [Transfer.resume_error] at turn
      cases turn
      exact .concluding
  | concluding => cases hnext

theorem Lost.ends {completion : Completion} (h : stage.Lost) (hend : stage.Ends completion) :
    completion = .failure .cancelled := by
  cases h <;> cases hend
  rfl

end Operation.Stage

namespace Session

/-- What the next step of an operation does that has been cancelled: it brings the operation nearer to
its end, or to its end. Neither sends anything. -/
inductive Stops (s s' : Session) (n : Nat) (o : Operation) : Prop
  | goes (stage : Operation.Stage) (operation : s'.operation? n = some { o with stage })
      (next : o.stage.Halts s.connection s'.connection stage) (record : s'.recordOf n = s.recordOf n)
  | ends (c : Completion) (operation : s'.operation? n = none) (result : o.stage.Ends c)
      (record : s'.recordOf n = (s.requestsOf n, s.completionsOf n ++ [c]))

/-- The subscriptions of other tokens are as they were, and whether the client is to stop. -/
structure Aside (role : Role) (s s' : Session) : Prop where
  subscriptions : ∀ e, role.token? ≠ some e.token →
    (e ∈ s'.subscriptions.entries ↔ e ∈ s.subscriptions.entries)
  shutdown : s'.shutdown = s.shutdown

/-- All that does not belong to the operation `n` is as it was: other operations with what they have
sent and ended with, workers, outstanding exchanges, subscriptions, and the connection. -/
structure Spares (n : Nat) (role : Role) (s s' : Session) : Prop extends Aside role s s' where
  operations : ∀ k, k ≠ n → s'.operation? k = s.operation? k ∧ s'.recordOf k = s.recordOf k
  workers : ∀ k w, s.worker? k = some w → s'.worker? k = some w
  exchanges : ∀ t w, t ≠ .operation n → s.waiterOf t = some w →
    s'.waiterOf t = some w ∧ Exchanges.Alike w s.connection.exchanges s'.connection.exchanges
  connection : s.connection.Quiet s'.connection
  receiver : s'.receiver = s.receiver

variable {s s₁ s' : Session} {o : Operation} {n : Nat} {purpose : Purpose}

/-! What a step makes of the operation itself. -/

theorem recordOf_finish (s : Session) (o : Operation) (c : Completion) :
    (s.finish o c).recordOf o.serial =
      (s.requestsOf o.serial, s.completionsOf o.serial ++ [c]) :=
  recordOf_of_end (s := s) rfl

/-! An operation whose handler is let go with it. -/

theorem operation?_released (s : Session) (o : Operation) (c : Completion) :
    ((s.finish o c).note (.released o.serial)).operation? o.serial = none :=
  operation?_finish s o c

theorem recordOf_released (s : Session) (o : Operation) (c : Completion) :
    ((s.finish o c).note (.released o.serial)).recordOf o.serial =
      (s.requestsOf o.serial, s.completionsOf o.serial ++ [c]) := by
  rw [← recordOf_finish s o c]
  unfold recordOf
  rw [requestsOf_note, completionsOf_note]
  exact congrArg₂ Prod.mk (List.append_nil _) (List.append_nil _)

theorem stops_of_proceed {next : Stride Transfer (Except ClientError Response)}
    (hthere : s₁.operation? o.serial = some o) (hlog : s₁.log = s.log)
    (hask : ∀ r transfer, next.turn = .ask r transfer →
      o.stage.Halts s.connection (s₁.proceed o purpose next).connection (.running purpose transfer (.begun r)))
    (hfinish : ∀ result, next.turn = .finish result →
      o.stage.Halts s.connection (s₁.proceed o purpose next).connection (.concluding purpose result)) :
    Stops s (s₁.proceed o purpose next) o.serial o := by
  obtain ⟨stage, hnext, hstage⟩ := @operation?_proceed _ _ s₁ purpose next hthere
  refine .goes stage hnext ?_ (recordOf_of_log ((log_proceed s₁ o purpose next).trans hlog) _)
  rw [hstage]
  cases hturn : next.turn with
  | ask r transfer => exact hask r transfer hturn
  | finish result => exact hfinish result hturn

theorem stops_of_begin {call : Call} (ho : s.operation? o.serial = some o)
    (hstage : o.stage = .called call) (hgoing : ¬ o.stage.IsShutdown) :
    Stops s (s.begin o call) o.serial o := by
  -- A transfer that is over at once has failed.
  have hnext {s₁ : Session} {purpose : Purpose} {settings : TransferSettings} {request followUp : Message}
      (hthere : s₁.operation? o.serial = some o) (hlog : s₁.log = s.log) :
      Stops s (s₁.proceed o purpose (Transfer.start settings request followUp)) o.serial o := by
    refine stops_of_proceed hthere hlog ?_ ?_
    · intro r transfer _
      rw [hstage]
      exact .begun
    · intro result hturn
      obtain ⟨e, rfl⟩ := Transfer.error_of_start hturn
      rw [hstage]
      exact .oversized
  cases call with
  | request request =>
    cases hm : request.toMessage with
    | error e =>
      rw [begin_request_error hm]
      refine .ends _ (operation?_finish s o _) ?_ (recordOf_finish s o _)
      rw [hstage]
      exact .refused
    | ok m =>
      rw [begin_request_ok hm]
      exact hnext ho rfl
  | observe request handler =>
    unfold begin
    dsimp only
    split
    · refine .ends _ (operation?_released s o _) ?_ (recordOf_released s o _)
      rw [hstage]
      exact .refused
    · refine .goes _ (operation?_putOperation ho) ?_ rfl
      rw [hstage]
      exact .granted
  | stop observation => exact hnext ho rfl
  | shutdown =>
    rw [hstage] at hgoing
    exact absurd trivial hgoing

theorem stops_of_enroll {request template : Message} {handler : Handler}
    (ho : s.operation? o.serial = some o) (hstage : o.stage = .enrolling request template handler) :
    Stops s (s.enroll o request template handler) o.serial o := by
  unfold enroll
  cases s.subscriptions.register request.token s.nextSerial with
  | error e =>
    refine .ends _ (operation?_released s o _) ?_ (recordOf_released s o _)
    rw [hstage]
    exact .declined
  | ok subscriptions =>
    refine stops_of_proceed (by exact ho) rfl ?_ ?_
    · intro r transfer _
      rw [hstage]
      exact .enrolled
    · intro result hturn
      obtain ⟨e, rfl⟩ := Transfer.error_of_start hturn
      rw [hstage]
      exact .overfull

theorem stops_of_stepOperation (ho : s.operation? o.serial = some o) (hcancelled : o.cancelled = true)
    (hgoing : ¬ o.stage.IsShutdown)
    (hsettled : ∀ w, s.waiterOf (.operation o.serial) = some w →
      s.connection.exchanges.Undecided w ∨ ∃ r, s.connection.exchanges.Decided w r)
    (hs : s.stepOperation o = some s') : Stops s s' o.serial o := by
  cases hstage : o.stage with
  | called call =>
    unfold stepOperation at hs
    rw [hstage] at hs
    cases hs
    exact stops_of_begin ho hstage hgoing
  | enrolling request template handler =>
    unfold stepOperation at hs
    rw [hstage] at hs
    cases hs
    exact stops_of_enroll ho hstage
  | running purpose transfer e =>
    by_cases hended : ∃ outcome, e = .ended outcome
    · obtain ⟨outcome, rfl⟩ := hended
      unfold stepOperation at hs
      rw [hstage] at hs
      cases hs
      refine stops_of_proceed ho rfl ?_ ?_
      · intro r next hturn
        rw [hstage]
        cases outcome with
        | error e =>
          rw [Transfer.resume_error] at hturn
          cases hturn
        | ok m => exact .asks hturn
      · intro result hturn
        rw [hstage]
        exact .answers hturn
    · rw [stepOperation_running hstage fun r h => hended ⟨r, h⟩] at hs
      obtain ⟨c, hc, rfl⟩ := Option.map_eq_some_iff.mp hs
      rw [hcancelled] at hc
      have hthere := (operation?_absorb s (.operation o.serial) c o.serial).trans ho
      have hlog := log_absorb s (.operation o.serial) c
      rw [sent_of_cancelled hc] at hlog
      let next : Operation := { o with stage := .running purpose transfer c.exchange }
      refine .goes _ (@operation?_putOperation _ next _ hthere) ?_ (recordOf_of_log hlog _)
      rw [hstage]
      refine .exchanged ?_
      have hconnection : ((s.absorb (.operation o.serial) c).putOperation next).connection =
          c.connection := connection_absorb s _ c
      rw [hconnection]
      refine Connection.halts_of_step hc fun w hw => hsettled w ?_
      rw [waiterOf, exchangeOf_operation ho, Operation.exchange?, hstage]
      exact hw
  | concluding purpose result =>
    unfold stepOperation at hs
    rw [hstage] at hs
    cases hs
    obtain ⟨subscriptions, c, hconclude, hresult⟩ := conclude_eq_finish s o purpose result
    rw [hconclude]
    refine .ends c (operation?_finish { s with subscriptions } o c) ?_
      (recordOf_finish { s with subscriptions } o c)
    rw [hstage]
    cases result with
    | error e =>
      obtain rfl : c = .failure e := hresult
      exact .failed
    | ok response => exact .responded hresult
  | joining =>
    rw [hstage] at hgoing
    exact absurd trivial hgoing

/-- An operation that has been cancelled never waits. -/
theorem goes_of_cancelled (ho : s.operation? n = some o) (hcancelled : o.cancelled = true)
    (hgoing : ¬ o.stage.IsShutdown) : ∃ s', s.step (.operation n) = some s' := by
  rw [step_of_operation? ho]
  cases hstage : o.stage with
  | running purpose transfer e =>
    by_cases hended : ∃ outcome, e = .ended outcome
    · obtain ⟨outcome, rfl⟩ := hended
      unfold stepOperation
      rw [hstage]
      exact ⟨_, rfl⟩
    · have hrunning : ∀ r, e ≠ .ended r := fun r h => hended ⟨r, h⟩
      obtain ⟨c, hc⟩ := Connection.step_of_cancelled s.connection hrunning
      rw [stepOperation_running hstage hrunning, hcancelled, hc]
      exact ⟨_, rfl⟩
  | joining =>
    rw [hstage] at hgoing
    exact absurd trivial hgoing
  | _ =>
    unfold stepOperation
    rw [hstage]
    exact ⟨_, rfl⟩

/-! What a step leaves as it is. -/

theorem Aside.of_fields {role : Role} (hsubscriptions : s'.subscriptions = s.subscriptions)
    (hshutdown : s'.shutdown = s.shutdown) : Aside role s s' where
  subscriptions := fun e _ => by rw [hsubscriptions]
  shutdown := hshutdown

theorem shutdown_proceed (s : Session) (o : Operation) (purpose : Purpose)
    (next : Stride Transfer (Except ClientError Response)) :
    (s.proceed o purpose next).shutdown = s.shutdown := by
  unfold proceed
  cases next.turn <;> rfl

theorem aside_begin (s : Session) (o : Operation) {call : Call} (hgoing : call ≠ .shutdown) (role : Role) :
    Aside role s (s.begin o call) := by
  refine .of_fields (beside_begin s o call).subscriptions ?_
  cases call with
  | request request =>
    cases hm : request.toMessage with
    | error e =>
      rw [begin_request_error hm]
      rfl
    | ok m =>
      rw [begin_request_ok hm]
      exact shutdown_proceed _ o _ _
  | observe request handler =>
    unfold begin
    dsimp only
    split <;> rfl
  | stop observation => exact shutdown_proceed s o _ _
  | shutdown => exact absurd rfl hgoing

theorem aside_enroll (s : Session) (o : Operation) (request template : Message) (handler : Handler) :
    Aside (.granted request.token) s (s.enroll o request template handler) := by
  unfold enroll
  cases hregister : s.subscriptions.register request.token s.nextSerial with
  | error e => exact .of_fields rfl rfl
  | ok subscriptions =>
    dsimp only
    refine ⟨?_, shutdown_proceed _ o _ _⟩
    intro e he
    obtain ⟨-, rfl⟩ := Subscriptions.register_eq_ok hregister
    rw [(beside_proceed _ o _ _).subscriptions]
    have hne : e ≠ { token := request.token, serial := s.nextSerial } := by
      rintro rfl
      exact he rfl
    simp [hne]

theorem entries_deregister (s : Subscriptions) {token : ByteArray} {e : Subscription}
    (h : some token ≠ some e.token) : e ∈ (s.deregister token).2.entries ↔ e ∈ s.entries := by
  have hne : e.token ≠ token := fun ht => h (by rw [ht])
  unfold Subscriptions.deregister
  simp [hne]

theorem entries_seed (s : Subscriptions) {token : ByteArray} (sequence : UInt32) {e : Subscription}
    (h : some token ≠ some e.token) : e ∈ (s.seed token sequence).entries ↔ e ∈ s.entries := by
  have hne : e.token ≠ token := fun ht => h (by rw [ht])
  have hkeys := Subscriptions.keepsKeys_seed sequence
  unfold Subscriptions.seed Subscriptions.modify
  rw [List.mem_map]
  constructor
  · rintro ⟨d, hd, hde⟩
    by_cases ht : d.token = token
    · rw [if_pos (beq_iff_eq.mpr ht)] at hde
      have htoken : (d.seed sequence).token = d.token := hkeys.token d
      change d.seed sequence = e at hde
      rw [hde] at htoken
      exact absurd (htoken.trans ht) hne
    · rw [if_neg (by simpa using ht)] at hde
      rw [← hde]
      exact hd
  · intro he
    exact ⟨e, he, if_neg (by simpa using hne)⟩

theorem aside_conclude (s : Session) (o : Operation) (purpose : Purpose)
    (result : Except ClientError Response) : Aside purpose.role s (s.conclude o purpose result) := by
  have hgone (token : ByteArray) (c : Completion) (role : Role) (hrole : role.token? = some token) :
      Aside role s ((s.unsubscribe token).finish o c) := by
    refine ⟨fun e he => ?_, rfl⟩
    rw [hrole] at he
    exact entries_deregister s.subscriptions he
  cases purpose with
  | respond => cases result <;> exact .of_fields rfl rfl
  | deregister token => cases result <;> exact hgone token _ _ rfl
  | register token template =>
    cases result with
    | error e => exact hgone token _ _ rfl
    | ok response =>
      unfold conclude
      dsimp only
      split
      · exact ⟨fun e he => entries_seed s.subscriptions _ he, rfl⟩
      · exact hgone token _ _ rfl

theorem aside_of_stepOperation (hgoing : ¬ o.stage.IsShutdown) (hs : s.stepOperation o = some s') :
    Aside o.role s s' := by
  unfold stepOperation at hs
  unfold Operation.role
  cases hstage : o.stage with
  | called call =>
    rw [hstage] at hs hgoing
    cases hs
    refine aside_begin s o ?_ _
    rintro rfl
    exact hgoing trivial
  | enrolling request template handler =>
    rw [hstage] at hs
    cases hs
    exact aside_enroll s o request template handler
  | running purpose transfer e =>
    rw [hstage] at hs
    cases e with
    | ended outcome =>
      cases hs
      exact .of_fields (beside_proceed s o _ _).subscriptions (shutdown_proceed s o _ _)
    | _ =>
      obtain ⟨c, -, rfl⟩ := Option.map_eq_some_iff.mp hs
      refine .of_fields (beside_absorb s _ c).subscriptions ?_
      change (s.absorb (.operation o.serial) c).shutdown = s.shutdown
      unfold absorb
      cases c.sent <;> rfl
  | concluding purpose result =>
    rw [hstage] at hs
    cases hs
    exact aside_conclude s o purpose result
  | joining =>
    rw [hstage] at hgoing
    exact absurd trivial hgoing

/-- The workers that are there stay as they are under a step of an operation. -/
theorem worker?_of_operation (hs : s.step (.operation n) = some s') {k : Nat} {w : Worker}
    (hw : s.worker? k = some w) : s'.worker? k = some w := by
  have hmove : s.move (.step (.operation n)) = some s' := hs
  unfold worker? at hw ⊢
  cases upkeep_of_move hmove with
  | worked _ mover => cases mover
  | made v token _ _ _ _ _ _ workers _ => rw [workers, List.find?_append, hw, Option.some_or]
  | aside _ _ workers => rw [workers, hw]

/-- A step of an operation leaves the outstanding exchanges of all other tasks. -/
theorem alike_of_operation (hseated : s.Seated) (hs : s.step (.operation n) = some s') {t : Task}
    {w : Waiter} (ht : t ≠ .operation n) (hw : s.waiterOf t = some w) :
    s'.waiterOf t = some w ∧ Exchanges.Alike w s.connection.exchanges s'.connection.exchanges := by
  have hmove : s.move (.step (.operation n)) = some s' := hs
  have hwaiter (u : Task) (hu : u ≠ .operation n) : s'.waiterOf u = s.waiterOf u := by
    refine waiterOf_of_exchangeOf (exchangeOf_of_other hmove ?_ (fun _ _ => nofun))
    intro heq
    exact hu (Move.step.inj heq).symm
  refine ⟨(hwaiter t ht).trans hw, ?_⟩
  obtain ⟨⟨live, hlive, hmem⟩, hsingle⟩ := hseated
  have hseat : w ∈ live := (hmem w).mpr ⟨t, hw⟩
  cases tableMove_of_move hmove with
  | kept _ exchanges _ =>
    rw [exchanges]
    exact ⟨Iff.rfl, rfl⟩
  | registered _ _ _ _ register _ _ => exact Exchanges.alike_register hlive hseat register
  | released task v _ own exchanges gone _ =>
    -- The waiter that is released is the operation's own.
    have htask : task = .operation n := by
      by_contra hne
      rw [hwaiter task hne, own] at gone
      cases gone
    have hne : w ≠ v := by
      rintro rfl
      exact ht ((hsingle t task w hw own).trans htask)
    rw [exchanges]
    exact Exchanges.alike_release hlive hseat ((hmem v).mpr ⟨task, own⟩) hne
  | answered _ mover => cases mover
  | failed _ _ _ mover => cases mover

/-- A step of an operation that has been cancelled leaves all that belongs to others. -/
theorem spares_of_step (hseated : s.Seated) (ho : s.operation? n = some o)
    (hcancelled : o.cancelled = true) (hgoing : ¬ o.stage.IsShutdown)
    (hs : s.step (.operation n) = some s') : Spares n o.role s s' := by
  have hmove : s.move (.step (.operation n)) = some s' := hs
  have haside : Aside o.role s s' :=
    aside_of_stepOperation hgoing ((step_of_operation? ho).symm.trans hs)
  have hconnection : s.connection.Quiet s'.connection ∧ s'.receiver = s.receiver := by
    cases effect_of_move hmove with
    | exchanged only before step connection after =>
      rw [isCancelled_operation ho, hcancelled] at step
      rw [connection]
      exact ⟨(Connection.advance_of_step step).quiet (sent_of_cancelled step), only.receiver⟩
    | turned own only before connection after =>
      rw [connection]
      exact ⟨⟨rfl, rfl, rfl, rfl⟩, only.receiver⟩
  refine { haside with
    operations := ?_
    workers := fun k w => worker?_of_operation hs
    exchanges := fun t w => alike_of_operation hseated hs
    connection := hconnection.1
    receiver := hconnection.2 }
  intro k hk
  have htask : Task.operation n ≠ .operation k := fun h => hk (Task.operation.inj h).symm
  refine ⟨(same_step htask hs).operation, recordOf_of_other hmove ?_⟩
  intro heq
  exact htask (Move.step.inj heq)

end Session

end Coap
