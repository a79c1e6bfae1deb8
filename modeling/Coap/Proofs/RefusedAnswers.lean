import Coap.Proofs.ExchangeOwners
import Coap.Proofs.SubscriptionBooks

/-! Answers that are no response: an exchange that waits for its answer fails with one of them, the
operation that it belongs to fails with the same error, and nothing of the message is kept. A reset with
a response code counts as a response. -/
namespace Coap

/-- What is wrong with an answer that is no response. -/
def Message.refusal (a : Message) : Violation :=
  if a.type = .reset then .reset a.id else .unexpectedCode a.code

theorem Exchange.judge_of_no_response {a : Message} (h : ∀ status, a.code ≠ .response status) :
    judge a = .error (.protocolViolation a.refusal) := by
  unfold judge Message.refusal
  split
  · rename_i status hcode
    exact absurd hcode (h status)
  · split <;> rfl

/-- A wait that has its result ends with it, whatever else has happened. -/
theorem Connection.step_of_decided {c : Connection} {w : Waiter} {r : Outcome}
    (h : c.exchanges.Decided w r) (cancelled : Bool) (deadline : Nat) :
    c.step cancelled (.waiting w deadline) = some {
      connection := { c with exchanges := c.exchanges.release w }
      exchange := .ended (r.bind Exchange.judge) } := by
  unfold step
  dsimp only
  rw [Exchanges.fetch_of_decided h]

/-- A delivery whose exchange has failed is dropped, without a report and without a call. -/
theorem Delivery.resume_error (d : Delivery) (e : ClientError) :
    d.resume (.error e) = { turn := .finish none } := rfl

/-- How far an operation that was running has come, by its stage and its own steps since then, with the
error `e`: it still waits, its exchange has failed, or it is about to end. -/
inductive Operation.Stage.Sinks (purpose : Purpose) (transfer : Transfer) (exchange : Exchange)
    (e : ClientError) : Operation.Stage → Nat → Prop
  | waits : Sinks purpose transfer exchange e (.running purpose transfer exchange) 0
  | refused : Sinks purpose transfer exchange e (.running purpose transfer (.ended (.error e))) 1
  | concludes : Sinks purpose transfer exchange e (.concluding purpose (.error e)) 2

theorem Operation.Stage.Sinks.le {purpose : Purpose} {transfer : Transfer} {exchange : Exchange}
    {e : ClientError} {stage : Operation.Stage} {steps : Nat}
    (h : stage.Sinks purpose transfer exchange e steps) : steps ≤ 2 := by
  cases h <;> decide

/-- On the way to its end an operation puts nothing more together. -/
theorem Operation.Stage.Sinks.transfer_eq {purpose purpose' : Purpose} {transfer transfer' : Transfer}
    {exchange exchange' : Exchange} {e : ClientError} {steps : Nat}
    (h : Sinks purpose transfer exchange e (.running purpose' transfer' exchange') steps) :
    transfer' = transfer := by
  cases h <;> rfl

namespace Session

/-- What an operation has sent and what it has ended with. -/
def recordOf (s : Session) (n : Nat) : List Message × List Completion :=
  (s.requestsOf n, s.completionsOf n)

/-- How an operation that was running in `before` stands after the run `later`, if its exchange fails
with `e`: it is on its way to its end, it has failed, or it has been dropped. -/
inductive Failing (before : Session) (n : Nat) (purpose : Purpose) (transfer : Transfer)
    (exchange : Exchange) (e : ClientError) (later : List Move) (s : Session) : Prop
  | underway (o : Operation) (operation : s.operation? n = some o)
      (stage : o.stage.Sinks purpose transfer exchange e
        (later.countP (Move.isStepOf (.operation n))))
      (record : s.recordOf n = before.recordOf n)
  | failed (operation : s.operation? n = none)
      (steps : later.countP (Move.isStepOf (.operation n)) = 3)
      (record : s.recordOf n = (before.requestsOf n, before.completionsOf n ++ [.failure e]))
  | dropped (operation : s.operation? n = none)
      (steps : later.countP (Move.isStepOf (.operation n)) ≤ 2)
      (drop : .input (.abort n) ∈ later) (record : s.recordOf n = before.recordOf n)

/-- After the run `later`, which began in `before`: the operation has failed with `e`, or does so by its
next steps, unless it is dropped. -/
structure Fails (before : Session) (n : Nat) (e : ClientError) (later : List Move) (s : Session) :
    Prop where
  /-- It sends nothing more. -/
  requests : s.requestsOf n = before.requestsOf n
  /-- It ends with the error, if it ends. -/
  completions : s.completionsOf n = before.completionsOf n ∨
    s.completionsOf n = before.completionsOf n ++ [.failure e]
  /-- As long as it is not over it can go on, and it reports no progress. -/
  goes : (s.operation? n).isSome = true →
    ∃ s', s.step (.operation n) = some s' ∧ s'.feed = s.feed
  /-- Its third step is the last one. -/
  steps : later.countP (Move.isStepOf (.operation n)) ≤ 3
  ends : later.countP (Move.isStepOf (.operation n)) = 3 →
    s.completionsOf n = before.completionsOf n ++ [.failure e]
  /-- It is over only when it has failed or has been dropped. -/
  gone : s.operation? n = none →
    s.completionsOf n = before.completionsOf n ++ [.failure e] ∨ .input (.abort n) ∈ later
  /-- What has been put together so far stays as it is. -/
  transfer : ∀ o p purpose purpose' transfer transfer' exchange exchange',
    before.operation? n = some o → o.stage = .running purpose transfer exchange →
    s.operation? n = some p → p.stage = .running purpose' transfer' exchange' → transfer' = transfer

/-- After the run `later`: a worker whose exchange fails with `e` has dropped the notification that it
was delivering after two steps of its own. Neither of them calls the handler or reports progress. -/
structure Discards (k : Nat) (e : ClientError) (later : List Move) (s : Session) : Prop where
  fails : later.countP (Move.isStepOf (.worker k)) = 0 → ∃ s', s.step (.worker k) = some s' ∧
    s'.exchangeOf (.worker k) = some (.ended (.error e)) ∧ s'.log = s.log ∧ s'.feed = s.feed
  drops : later.countP (Move.isStepOf (.worker k)) = 1 → ∃ s', s.step (.worker k) = some s' ∧
    s'.exchangeOf (.worker k) = none ∧ s'.log = s.log ∧ s'.feed = s.feed

variable {before s s' : Session} {past later : List Move} {m : Move} {t : Task} {n k : Nat}
  {o : Operation} {purpose : Purpose} {transfer : Transfer} {exchange : Exchange} {w : Waiter}
  {deadline : Nat} {r : Outcome} {e : ClientError} {a : Message}

/-! Steps of an operation whose exchange fails. -/

theorem step_of_decided_operation (ho : s.operation? n = some o)
    (hstage : o.stage = .running purpose transfer (.waiting w deadline))
    (hd : s.connection.exchanges.Decided w r) :
    ∃ s', s.step (.operation n) = some s' ∧
      s'.operation? n = some { o with
        stage := .running purpose transfer (.ended (r.bind Exchange.judge)) } ∧
      s'.log = s.log ∧ s'.feed = s.feed := by
  obtain rfl := operation?_serial ho
  let p : Operation := { o with
    stage := .running purpose transfer (.ended (r.bind Exchange.judge)) }
  rw [step_of_operation? ho, stepOperation_running hstage (by simp),
    Connection.step_of_decided hd, Option.map_some]
  exact ⟨_, rfl, @operation?_putOperation _ p o ho, rfl, rfl⟩

theorem step_of_refused_operation (ho : s.operation? n = some o)
    (hstage : o.stage = .running purpose transfer (.ended (.error e))) :
    ∃ s', s.step (.operation n) = some s' ∧
      s'.operation? n = some { o with stage := .concluding purpose (.error e) } ∧
      s'.log = s.log ∧ s'.feed = s.feed := by
  obtain rfl := operation?_serial ho
  let p : Operation := { o with stage := .concluding purpose (.error e) }
  have hstep : s.stepOperation o = some (s.proceed o purpose (transfer.resume (.error e))) := by
    unfold stepOperation
    rw [hstage]
  rw [step_of_operation? ho, hstep, Transfer.resume_error]
  exact ⟨_, rfl, @operation?_putOperation _ p o ho, rfl, rfl⟩

/-- Whatever an operation was for, a failure ends it. -/
theorem step_of_concluding_operation (ho : s.operation? n = some o)
    (hstage : o.stage = .concluding purpose (.error e)) :
    ∃ s', s.step (.operation n) = some s' ∧ s'.operation? n = none ∧
      s'.log = s.log.push (.finished n (.failure e)) ∧ s'.feed = s.feed := by
  obtain rfl := operation?_serial ho
  obtain ⟨subscriptions, c, hconclude, hc⟩ := conclude_eq_finish s o purpose (.error e)
  obtain rfl : c = .failure e := hc
  have hstep : s.stepOperation o = some (s.conclude o purpose (.error e)) := by
    unfold stepOperation
    rw [hstage]
  rw [step_of_operation? ho, hstep, hconclude]
  exact ⟨_, rfl, operation?_finish { s with subscriptions } o _, rfl, rfl⟩

theorem waiterOf_of_stage (ho : s.operation? n = some o)
    (hstage : o.stage = .running purpose transfer (.waiting w deadline)) :
    s.waiterOf (.operation n) = some w := by
  rw [waiterOf, exchangeOf_operation ho, Operation.exchange?, hstage]
  rfl

/-! The record of an operation. -/

theorem recordOf_of_log (h : s'.log = s.log) (n : Nat) : s'.recordOf n = s.recordOf n := by
  unfold recordOf requestsOf completionsOf
  rw [h]

theorem recordOf_of_end {c : Completion} (h : s'.log = s.log.push (.finished n c)) :
    s'.recordOf n = (s.requestsOf n, s.completionsOf n ++ [c]) := by
  have hrecord : s'.recordOf n = (s.note (.finished n c)).recordOf n := recordOf_of_log h n
  have hcompletion : (Event.finished n c).completion? n = some c := if_pos rfl
  rw [hrecord, recordOf, requestsOf_note, completionsOf_note, hcompletion]
  exact congrArg (Prod.mk · _) (List.append_nil _)

theorem recordOf_of_other (hs : s.move m = some s') (hm : m ≠ .step (.operation n)) :
    s'.recordOf n = s.recordOf n := by
  have hrequests : s'.requestsOf n = s.requestsOf n := by
    apply filterMap_log_eq hs
    intro event hby
    cases event with
    | sent task message =>
      cases task with
      | operation j =>
        refine if_neg fun hj => hm ?_
        rw [← hj]
        exact hby
      | _ => rfl
    | _ => rfl
  have hcompletions : s'.completionsOf n = s.completionsOf n := by
    apply filterMap_log_eq hs
    intro event hby
    cases event with
    | finished j c =>
      refine if_neg fun hj => hm ?_
      rw [← hj]
      exact hby
    | _ => rfl
  unfold recordOf
  rw [hrequests, hcompletions]

/-! Runs of a task whose exchange fails. -/

theorem countP_own (later : List Move) (t : Task) :
    (later ++ [Move.step t]).countP (Move.isStepOf t) = later.countP (Move.isStepOf t) + 1 := by
  rw [List.countP_append, List.countP_singleton, if_pos (Move.isStepOf_step t)]

theorem countP_other (later : List Move) (hm : m ≠ .step t) :
    (later ++ [m]).countP (Move.isStepOf t) = later.countP (Move.isStepOf t) := by
  rw [List.countP_append, List.countP_singleton,
    if_neg fun h => hm (Move.eq_of_isStepOf h), Nat.add_zero]

/-- An exchange that has been answered keeps its answer for as long as it is there. -/
theorem decided_of_answered {options : ConnectOptions} {pipe : Pipe} {messageIds : MessageIds}
    {tokens : Tokens} {timer : Timer}
    (hbefore : (start options pipe messageIds tokens timer).run past = some before)
    (ha : (answersTo (start options pipe messageIds tokens timer) w past).head? = some a)
    (hlater : before.run later = some s) (hw : s.waiterOf t = some w) :
    s.connection.exchanges.Decided w (.ok a) := by
  let first := start options pipe messageIds tokens timer
  have hkept : Kept first (past ++ later) s := kept_run (run_append hbefore hlater)
  -- Later answers do not change which one was the first.
  have hanswer : (answersTo first w (past ++ later)).head? = some a := by
    unfold answersTo at ha ⊢
    rw [along_append _ hbefore, List.head?_append, ha]
    rfl
  rcases hkept.ledger.accounted t w hw with ⟨-, hnone⟩ | ⟨b, hd, hfirst⟩ | ⟨_, -, hnone, -⟩
  · rw [hnone] at hanswer
    cases hanswer
  · rw [hanswer] at hfirst
    cases hfirst
    exact hd
  · rw [hnone] at hanswer
    cases hanswer

/-- Each step of its own brings the operation further towards its failure. -/
theorem Failing.step (h : Failing before n purpose transfer (.waiting w deadline) e later s)
    (hd : s.waiterOf (.operation n) = some w → s.connection.exchanges.Decided w r)
    (hr : r.bind Exchange.judge = .error e) (hs : s.step (.operation n) = some s') :
    Failing before n purpose transfer (.waiting w deadline) e (later ++ [.step (.operation n)]) s' := by
  have hcount := countP_own later (.operation n)
  cases h with
  | underway o operation stage record =>
    generalize hstage : o.stage = current at stage
    generalize hsteps : later.countP (Move.isStepOf (.operation n)) = steps at stage hcount
    cases stage with
    | waits =>
      -- The answer is there, and the wait ends with it whatever else has happened.
      obtain ⟨s₁, hs₁, hnext, hlog, -⟩ :=
        step_of_decided_operation operation hstage (hd (waiterOf_of_stage operation hstage))
      cases hs.symm.trans hs₁
      rw [hr] at hnext
      exact .underway _ hnext (hcount ▸ .refused) ((recordOf_of_log hlog n).trans record)
    | refused =>
      obtain ⟨s₁, hs₁, hnext, hlog, -⟩ := step_of_refused_operation operation hstage
      cases hs.symm.trans hs₁
      exact .underway _ hnext (hcount ▸ .concludes) ((recordOf_of_log hlog n).trans record)
    | concludes =>
      obtain ⟨s₁, hs₁, hgone, hlog, -⟩ := step_of_concluding_operation operation hstage
      cases hs.symm.trans hs₁
      obtain ⟨hrequests, hcompletions⟩ := Prod.mk.inj record
      have hend := recordOf_of_end hlog
      rw [hrequests, hcompletions] at hend
      exact .failed hgone hcount hend
  | failed operation steps record =>
    rw [step_of_operation?_none operation] at hs
    cases hs
  | dropped operation steps drop record =>
    rw [step_of_operation?_none operation] at hs
    cases hs

/-- Moves of others leave the operation as it stands, unless they drop it. -/
theorem Failing.other (h : Failing before n purpose transfer exchange e later s)
    (hn : n ≠ s.nextSerial) (hm : m ≠ .step (.operation n)) (hs : s.move m = some s') :
    Failing before n purpose transfer exchange e (later ++ [m]) s' := by
  have hcount := countP_other later hm
  have hrecord := recordOf_of_other hs hm
  cases h with
  | underway o operation stage record =>
    by_cases hdrop : m = .input (.abort n)
    · subst hdrop
      cases hs
      have hlast : Move.input (.abort n) ∈ later ++ [.input (.abort n)] :=
        List.mem_append_right _ (List.mem_singleton_self _)
      exact .dropped (operation?_abort_self s n) (hcount ▸ stage.le) hlast (hrecord.trans record)
    · obtain ⟨q, hq, hstage⟩ := operation?_of_other operation hm hdrop hs
      rw [← hstage, ← hcount] at stage
      exact .underway q hq stage (hrecord.trans record)
  | failed operation steps record =>
    exact .failed (gone_of_move operation hn hs) (hcount.trans steps) (hrecord.trans record)
  | dropped operation steps drop record =>
    exact .dropped (gone_of_move operation hn hs) (hcount ▸ steps) (List.mem_append_left _ drop)
      (hrecord.trans record)

/-- An operation that has its serial number keeps it. -/
theorem lt_nextSerial_of_run {options : ConnectOptions} {pipe : Pipe} {messageIds : MessageIds}
    {tokens : Tokens} {timer : Timer}
    (hbefore : (start options pipe messageIds tokens timer).run past = some before)
    (hthere : (before.operation? n).isSome = true) (hlater : before.run later = some s) :
    n < s.nextSerial := by
  have hfirst : n < before.nextSerial := by
    by_contra hle
    rw [(unknown_run hbefore n (Nat.le_of_not_lt hle)).operation] at hthere
    cases hthere
  refine run_induction (P := fun _ s => n < s.nextSerial) hfirst ?_ hlater
  intro _ s m s' _ hlt hs
  exact Nat.lt_of_lt_of_le hlt (kept_move hs).2

theorem failing_of_run {options : ConnectOptions} {pipe : Pipe} {messageIds : MessageIds}
    {tokens : Tokens} {timer : Timer}
    (hbefore : (start options pipe messageIds tokens timer).run past = some before)
    (ho : before.operation? n = some o)
    (hstage : o.stage = .running purpose transfer (.waiting w deadline))
    (ha : (answersTo (start options pipe messageIds tokens timer) w past).head? = some a)
    (hjudge : Exchange.judge a = .error e) (hlater : before.run later = some s) :
    Failing before n purpose transfer (.waiting w deadline) e later s := by
  have hthere : (before.operation? n).isSome = true := by
    rw [ho]
    rfl
  -- Along the rest of the run only its own steps and a drop change how the operation stands.
  refine run_induction (P := Failing before n purpose transfer (.waiting w deadline) e) ?_ ?_ hlater
  · refine .underway o ho ?_ rfl
    rw [hstage]
    exact .waits
  · intro later s m s' hrun h hs
    by_cases hm : m = .step (.operation n)
    · subst hm
      exact h.step (decided_of_answered hbefore ha hrun) hjudge hs
    · have hlt := lt_nextSerial_of_run hbefore hthere hrun
      exact h.other (Nat.ne_of_lt hlt) hm hs

/-- Until it has failed or has been dropped the operation can go on. -/
theorem Failing.goes (h : Failing before n purpose transfer (.waiting w deadline) e later s)
    (hd : s.waiterOf (.operation n) = some w → s.connection.exchanges.Decided w r)
    (hthere : (s.operation? n).isSome = true) :
    ∃ s', s.step (.operation n) = some s' ∧ s'.feed = s.feed := by
  cases h with
  | underway o operation stage record =>
    generalize hstage : o.stage = current at stage
    generalize later.countP (Move.isStepOf (.operation n)) = steps at stage
    cases stage with
    | waits =>
      obtain ⟨s', hs, -, -, hfeed⟩ :=
        step_of_decided_operation operation hstage (hd (waiterOf_of_stage operation hstage))
      exact ⟨s', hs, hfeed⟩
    | refused =>
      obtain ⟨s', hs, -, -, hfeed⟩ := step_of_refused_operation operation hstage
      exact ⟨s', hs, hfeed⟩
    | concludes =>
      obtain ⟨s', hs, -, -, hfeed⟩ := step_of_concluding_operation operation hstage
      exact ⟨s', hs, hfeed⟩
  | failed operation steps record =>
    rw [operation] at hthere
    cases hthere
  | dropped operation steps drop record =>
    rw [operation] at hthere
    cases hthere

theorem Failing.fails (h : Failing before n purpose transfer (.waiting w deadline) e later s)
    (hd : s.waiterOf (.operation n) = some w → s.connection.exchanges.Decided w r)
    (ho : before.operation? n = some o)
    (hstage : o.stage = .running purpose transfer (.waiting w deadline)) :
    Fails before n e later s := by
  have hgoes := h.goes hd
  cases h with
  | underway p operation stage record =>
    have hle := stage.le
    obtain ⟨hrequests, hcompletions⟩ := Prod.mk.inj record
    refine ⟨hrequests, .inl hcompletions, hgoes, by omega, by omega, ?_, ?_⟩
    · intro hgone
      rw [operation] at hgone
      cases hgone
    · intro o' p' purpose₁ purpose₂ transfer₁ transfer₂ x₁ x₂ ho' hstage' hp' hstage₂
      cases ho.symm.trans ho'
      cases hstage.symm.trans hstage'
      cases operation.symm.trans hp'
      rw [hstage₂] at stage
      exact stage.transfer_eq
  | failed operation steps record =>
    obtain ⟨hrequests, hcompletions⟩ := Prod.mk.inj record
    refine ⟨hrequests, .inr hcompletions, hgoes, Nat.le_of_eq steps, fun _ => hcompletions,
      fun _ => .inl hcompletions, ?_⟩
    intro o' p' purpose₁ purpose₂ transfer₁ transfer₂ x₁ x₂ ho' hstage' hp'
    rw [operation] at hp'
    cases hp'
  | dropped operation steps drop record =>
    obtain ⟨hrequests, hcompletions⟩ := Prod.mk.inj record
    refine ⟨hrequests, .inl hcompletions, hgoes, by omega, by omega, fun _ => .inr drop, ?_⟩
    intro o' p' purpose₁ purpose₂ transfer₁ transfer₂ x₁ x₂ ho' hstage' hp'
    rw [operation] at hp'
    cases hp'

/-! A worker whose exchange fails. -/

theorem step_of_decided_worker (he : s.exchangeOf (.worker k) = some (.waiting w deadline))
    (hd : s.connection.exchanges.Decided w r) :
    ∃ s', s.step (.worker k) = some s' ∧
      s'.exchangeOf (.worker k) = some (.ended (r.bind Exchange.judge)) ∧
      s'.log = s.log ∧ s'.feed = s.feed := by
  obtain ⟨v, delivery, hv, hcurrent⟩ := worker_of_exchangeOf he
  obtain rfl := worker?_serial hv
  let u : Worker := { v with current := some (delivery, .ended (r.bind Exchange.judge)) }
  rw [step_of_worker? hv, stepWorker_busy hcurrent (by simp), Connection.step_of_decided hd,
    Option.map_some]
  exact ⟨_, rfl, exchangeOf_worker (@worker?_putWorker _ u v hv), rfl, rfl⟩

theorem step_of_refused_worker (he : s.exchangeOf (.worker k) = some (.ended (.error e))) :
    ∃ s', s.step (.worker k) = some s' ∧ s'.exchangeOf (.worker k) = none ∧ s'.log = s.log ∧
      s'.feed = s.feed := by
  obtain ⟨v, delivery, hv, hcurrent⟩ := worker_of_exchangeOf he
  obtain rfl := worker?_serial hv
  let u : Worker := { v with current := none }
  have hstep : s.stepWorker v = some (s.deliver v (delivery.resume (.error e))) := by
    unfold stepWorker
    rw [hcurrent]
  rw [step_of_worker? hv, hstep, Delivery.resume_error]
  exact ⟨_, rfl, exchangeOf_worker (@worker?_putWorker _ u v hv), rfl, rfl⟩

/-- A worker stays in an exchange that has been answered until its own next step ends it. -/
theorem exchangeOf_of_run {options : ConnectOptions} {pipe : Pipe} {messageIds : MessageIds}
    {tokens : Tokens} {timer : Timer}
    (hbefore : (start options pipe messageIds tokens timer).run past = some before)
    (he : before.exchangeOf (.worker k) = some (.waiting w deadline))
    (ha : (answersTo (start options pipe messageIds tokens timer) w past).head? = some a)
    (hlater : before.run later = some s) :
    (later.countP (Move.isStepOf (.worker k)) = 0 →
      s.exchangeOf (.worker k) = some (.waiting w deadline)) ∧
    (later.countP (Move.isStepOf (.worker k)) = 1 →
      s.exchangeOf (.worker k) = some (.ended (Exchange.judge a))) := by
  refine run_induction (P := fun later s =>
    (later.countP (Move.isStepOf (.worker k)) = 0 →
      s.exchangeOf (.worker k) = some (.waiting w deadline)) ∧
    (later.countP (Move.isStepOf (.worker k)) = 1 →
      s.exchangeOf (.worker k) = some (.ended (Exchange.judge a)))) ⟨fun _ => he, nofun⟩ ?_ hlater
  intro later s m s' hrun h hs
  by_cases hm : m = .step (.worker k)
  · subst hm
    rw [countP_own]
    refine ⟨nofun, fun hcount => ?_⟩
    have hwaiting := h.1 (Nat.succ.inj hcount)
    have hd := decided_of_answered hbefore ha hrun (waiterOf_eq hwaiting)
    obtain ⟨s₁, hs₁, hended, -⟩ := step_of_decided_worker hwaiting hd
    cases Option.some.inj (hs.symm.trans hs₁)
    exact hended
  · rw [countP_other later hm, exchangeOf_of_other hs hm nofun]
    exact h

theorem discards_of_run {options : ConnectOptions} {pipe : Pipe} {messageIds : MessageIds}
    {tokens : Tokens} {timer : Timer}
    (hbefore : (start options pipe messageIds tokens timer).run past = some before)
    (he : before.exchangeOf (.worker k) = some (.waiting w deadline))
    (ha : (answersTo (start options pipe messageIds tokens timer) w past).head? = some a)
    (hjudge : Exchange.judge a = .error e) (hlater : before.run later = some s) :
    Discards k e later s := by
  obtain ⟨hwaiting, hended⟩ := exchangeOf_of_run hbefore he ha hlater
  constructor
  · intro hcount
    have hd := decided_of_answered hbefore ha hlater (waiterOf_eq (hwaiting hcount))
    obtain ⟨s', hs, hexchange, hrest⟩ := step_of_decided_worker (hwaiting hcount) hd
    exact ⟨s', hs, hexchange.trans (congrArg (some ∘ Exchange.ended) hjudge), hrest⟩
  · intro hcount
    have hfailed := hended hcount
    rw [hjudge] at hfailed
    exact step_of_refused_worker hfailed

/-- An exchange that waits, and whose first answer is no response, fails with the violation by the next
step of its task. The operation that it belongs to fails with the same error, whatever else happens,
and a worker drops the notification that it was delivering; nothing of the answer goes anywhere. -/
theorem refused_answers_fail {options : ConnectOptions} {pipe : Pipe} {messageIds : MessageIds}
    {tokens : Tokens} {timer : Timer}
    (hs : (start options pipe messageIds tokens timer).run past = some s)
    (he : s.exchangeOf t = some (.waiting w deadline))
    (ha : (answersTo (start options pipe messageIds tokens timer) w past).head? = some a)
    (hcode : ∀ status, a.code ≠ .response status) :
    (∃ s', s.step t = some s' ∧
      s'.exchangeOf t = some (.ended (.error (.protocolViolation a.refusal))) ∧ s'.log = s.log ∧
      s'.feed = s.feed) ∧
    ∀ later s', s.run later = some s' →
      (∀ n, t = .operation n → Fails s n (.protocolViolation a.refusal) later s') ∧
      ∀ k, t = .worker k → Discards k (.protocolViolation a.refusal) later s' := by
  have hjudge := Exchange.judge_of_no_response hcode
  have hrun : s.run [] = some s := rfl
  have hd : s.connection.exchanges.Decided w (.ok a) :=
    decided_of_answered hs ha hrun (waiterOf_eq he)
  constructor
  · cases t with
    | receiver => cases he
    | operation n =>
      obtain ⟨o, purpose, transfer, ho, hstage⟩ := operation_of_exchangeOf he
      obtain ⟨s', hstep, hnext, hrest⟩ := step_of_decided_operation ho hstage hd
      refine ⟨s', hstep, ?_, hrest⟩
      rw [exchangeOf_operation hnext]
      exact congrArg (some ∘ Exchange.ended) hjudge
    | worker k =>
      obtain ⟨s', hstep, hnext, hrest⟩ := step_of_decided_worker he hd
      exact ⟨s', hstep, hnext.trans (congrArg (some ∘ Exchange.ended) hjudge), hrest⟩
  · intro later s' hlater
    constructor
    · rintro n rfl
      obtain ⟨o, purpose, transfer, ho, hstage⟩ := operation_of_exchangeOf he
      have hfailing := failing_of_run hs ho hstage ha hjudge hlater
      exact hfailing.fails (decided_of_answered hs ha hlater) ho hstage
    · rintro k rfl
      exact discards_of_run hs he ha hjudge hlater

/-- A request that waits for its answer and is answered by one message. -/
def answeredMoves (a : Message) : List Move :=
  [tidyCall] ++ List.replicate 5 (.step (.operation 0)) ++ [.input (.message a), .step .receiver]

/-- A request that an empty acknowledgement answers fails. -/
theorem empty_acknowledgement_is_refused :
    ∃ s, tidyClient.run (answeredMoves { type := .acknowledgement, code := .empty, id := 0 }) = some s ∧
      ∀ later s', s.run later = some s' →
        Fails s 0 (.protocolViolation (.unexpectedCode .empty)) later s' := by
  let a : Message := { type := .acknowledgement, code := .empty, id := 0 }
  have hends : (tidyClient.run (answeredMoves a)).bind (fun s => s.exchangeOf (.operation 0)) =
      some (.waiting ⟨0, 0⟩ (Timer.exact.wake 0 1)) := rfl
  obtain ⟨s, hs, he⟩ := Option.bind_eq_some_iff.mp hends
  have ha : (answersTo tidyClient ⟨0, 0⟩ (answeredMoves a)).head? = some a := rfl
  have hcode : ∀ status, a.code ≠ .response status := nofun
  refine ⟨s, hs, fun later s' hlater => ?_⟩
  exact ((refused_answers_fail hs he ha hcode).2 later s' hlater).1 0 rfl

/-- A reset with a response code is taken for the response. -/
theorem reset_with_response_code_is_accepted :
    ¬ ∀ (options : ConnectOptions) (pipe : Pipe) (messageIds : MessageIds) (tokens : Tokens)
      (past : List Move) (s : Session) (n : Nat) (w : Waiter) (deadline : Nat) (a : Message),
      (start options pipe messageIds tokens).run past = some s →
      s.exchangeOf (.operation n) = some (.waiting w deadline) →
      (answersTo (start options pipe messageIds tokens) w past).head? = some a →
      (a.type = .reset ∨ ∀ status, a.code ≠ .response status) →
      ∀ later s', s.run later = some s' →
        ∀ c ∈ s'.completionsOf n, ∃ v, c = .failure (.protocolViolation v) := by
  intro h
  let a : Message := { type := .reset, code := .response .content, id := 0, payload := ⟨#[1]⟩ }
  have hends : (tidyClient.run (answeredMoves a)).bind (fun s => s.exchangeOf (.operation 0)) =
      some (.waiting ⟨0, 0⟩ (Timer.exact.wake 0 1)) := rfl
  obtain ⟨s, hs, he⟩ := Option.bind_eq_some_iff.mp hends
  have ha : (answersTo tidyClient ⟨0, 0⟩ (answeredMoves a)).head? = some a := rfl
  -- The payload of the reset is what the caller gets.
  have hresponds : ((tidyClient.run (answeredMoves a)).bind fun s =>
      s.run (List.replicate 3 (.step (.operation 0)))).map (fun s =>
        (s.completionsOf 0).map payloadOf) = some [some ⟨#[1]⟩] := rfl
  rw [hs, Option.bind_some] at hresponds
  obtain ⟨s', hs', hpayloads⟩ := Option.map_eq_some_iff.mp hresponds
  have hpayload : some ⟨#[1]⟩ ∈ (s'.completionsOf 0).map payloadOf := by
    rw [hpayloads]
    exact List.mem_singleton_self _
  obtain ⟨c, hc, hresponse⟩ := List.mem_map.mp hpayload
  obtain ⟨v, rfl⟩ := h _ _ _ _ _ s 0 _ _ a hs he ha (.inl rfl) _ s' hs' c hc
  cases hresponse

end Session

end Coap
