import Coap.Proofs.CancelledSteps

/-! An operation from the moment at which it is cancelled, whatever else goes on beside it: nothing more
is sent for it, it comes to its end within a few steps, and others do not notice. -/
namespace Coap

/-- A kind of stages that cancelled operations do not leave, and what they end with from there. -/
structure Operation.Stage.Closed (P : Stage → Prop) (Q : Completion → Prop) : Prop where
  next : ∀ {c c' : Connection} {stage stage' : Stage}, P stage → stage.Halts c c' stage' → P stage'
  ends : ∀ {stage : Stage} {completion : Completion}, P stage → stage.Ends completion → Q completion

namespace Session

/-- After the run `later` of an operation that had been cancelled before it: nothing has been sent for
it since, and after at most five steps of its own it has ended in one of the ways `Q`, unless it has
been dropped. -/
structure Halted (Q : Completion → Prop) (before : Session) (n : Nat) (later : List Move) (s : Session) :
    Prop where
  requests : s.requestsOf n = before.requestsOf n
  steps : later.countP (Move.isStepOf (.operation n)) ≤ 5
  ends : later.countP (Move.isStepOf (.operation n)) = 5 → s.operation? n = none
  unended : (s.operation? n).isSome = true → s.completionsOf n = before.completionsOf n
  outcome : s.operation? n = none →
    (∃ c, Q c ∧ s.completionsOf n = before.completionsOf n ++ [c]) ∨
    s.completionsOf n = before.completionsOf n ∧ .input (.abort n) ∈ later

/-- How such an operation stands: on its way to its end, at its end, or dropped. -/
inductive Halting (P : Operation.Stage → Prop) (Q : Completion → Prop) (before : Session) (n : Nat)
    (later : List Move) (s : Session) : Prop
  | going (o : Operation) (operation : s.operation? n = some o) (cancelled : o.cancelled = true)
      (call : ¬ o.stage.IsShutdown) (kind : P o.stage)
      (steps : later.countP (Move.isStepOf (.operation n)) + o.stage.stepsLeft ≤ 5)
      (record : s.recordOf n = before.recordOf n)
  | finished (c : Completion) (operation : s.operation? n = none) (result : Q c)
      (steps : later.countP (Move.isStepOf (.operation n)) ≤ 5)
      (record : s.recordOf n = (before.requestsOf n, before.completionsOf n ++ [c]))
  | dropped (operation : s.operation? n = none)
      (steps : later.countP (Move.isStepOf (.operation n)) ≤ 5) (drop : .input (.abort n) ∈ later)
      (record : s.recordOf n = before.recordOf n)

variable {before s s' : Session} {past later : List Move} {m : Move} {t : Task} {n : Nat}
  {o : Operation} {w : Waiter} {P : Operation.Stage → Prop} {Q : Completion → Prop}

/-- Moves of others leave an operation as it is that has been cancelled, unless they drop it. -/
theorem operation?_of_cancelled (ho : s.operation? n = some o) (hcancelled : o.cancelled = true)
    (hn : n ≠ s.nextSerial) (hm : m ≠ .step (.operation n)) (hdrop : m ≠ .input (.abort n))
    (hs : s.move m = some s') : s'.operation? n = some o := by
  cases hconcerns : concerns n m with
  | false => exact (same_move hconcerns hn.symm hs).operation.trans ho
  | true =>
    cases m with
    | step task => exact absurd (congrArg Move.step (eq_of_beq hconcerns)) hm
    | input i =>
      cases i with
      | cancel k =>
        -- To be cancelled once more changes nothing.
        cases hs
        obtain ⟨serial, cancelled, stage⟩ := o
        cases hcancelled
        change (s.cancel k).operation? n = _
        rw [operation?_cancel, ho, Option.map_some]
        exact congrArg some (ite_self _)
      | abort k => exact absurd (congrArg (Move.input ∘ Input.abort) (eq_of_beq hconcerns)) hdrop
      | _ => cases hconcerns

/-- An outstanding exchange has no result yet, or one. -/
theorem settled_of_run {options : ConnectOptions} {pipe : Pipe} {messageIds : MessageIds}
    {tokens : Tokens} {timer : Timer}
    (hs : (start options pipe messageIds tokens timer).run past = some s)
    (hw : s.waiterOf t = some w) :
    s.connection.exchanges.Undecided w ∨ ∃ r, s.connection.exchanges.Decided w r := by
  rcases (kept_run hs).ledger.accounted t w hw with ⟨hundecided, -⟩ | ⟨a, hdecided, -⟩ | ⟨e, hdecided, -⟩
  · exact .inl hundecided
  · exact .inr ⟨_, hdecided⟩
  · exact .inr ⟨_, hdecided⟩

/-- What the next step of a cancelled operation does, after every run of a client. -/
theorem stops_of_run {options : ConnectOptions} {pipe : Pipe} {messageIds : MessageIds}
    {tokens : Tokens} {timer : Timer}
    (hrun : (start options pipe messageIds tokens timer).run past = some s)
    (ho : s.operation? n = some o) (hcancelled : o.cancelled = true) (hcall : ¬ o.stage.IsShutdown)
    (hs : s.step (.operation n) = some s') : Stops s s' n o := by
  obtain rfl := operation?_serial ho
  exact stops_of_stepOperation ho hcancelled hcall (fun w => settled_of_run hrun)
    ((step_of_operation? ho).symm.trans hs)

/-- Each step of its own brings the operation nearer to its end. -/
theorem Halting.step (h : Halting P Q before n later s) (hclosed : Operation.Stage.Closed P Q)
    (hstops : ∀ o, s.operation? n = some o → o.cancelled = true → ¬ o.stage.IsShutdown → Stops s s' n o)
    (hs : s.step (.operation n) = some s') : Halting P Q before n (later ++ [.step (.operation n)]) s' := by
  have hcount := countP_own later (.operation n)
  cases h with
  | going o operation cancelled call kind steps record =>
    cases hstops o operation cancelled call with
    | goes stage next halts same =>
      have hless := halts.stepsLeft_lt
      refine .going _ next cancelled halts.not_isShutdown (hclosed.next kind halts) ?_ (same.trans record)
      change _ + stage.stepsLeft ≤ 5
      omega
    | ends c gone result ended =>
      have hpos := o.stage.stepsLeft_pos
      obtain ⟨hrequests, hcompletions⟩ := Prod.mk.inj record
      rw [hrequests, hcompletions] at ended
      exact .finished c gone (hclosed.ends kind result) (by omega) ended
  | finished c operation result steps record =>
    rw [step_of_operation?_none operation] at hs
    cases hs
  | dropped operation steps drop record =>
    rw [step_of_operation?_none operation] at hs
    cases hs

theorem Halting.other (h : Halting P Q before n later s) (hn : n ≠ s.nextSerial)
    (hm : m ≠ .step (.operation n)) (hs : s.move m = some s') :
    Halting P Q before n (later ++ [m]) s' := by
  have hcount := countP_other later hm
  have hrecord := recordOf_of_other hs hm
  cases h with
  | going o operation cancelled call kind steps record =>
    by_cases hdrop : m = .input (.abort n)
    · subst hdrop
      cases hs
      have hlast : Move.input (.abort n) ∈ later ++ [.input (.abort n)] :=
        List.mem_append_right _ (List.mem_singleton_self _)
      exact .dropped (operation?_abort_self s n) (by omega) hlast (hrecord.trans record)
    · rw [← hcount] at steps
      exact .going o (operation?_of_cancelled operation cancelled hn hm hdrop hs) cancelled call kind steps
        (hrecord.trans record)
  | finished c operation result steps record =>
    exact .finished c (gone_of_move operation hn hs) result (hcount ▸ steps) (hrecord.trans record)
  | dropped operation steps drop record =>
    exact .dropped (gone_of_move operation hn hs) (hcount ▸ steps) (List.mem_append_left _ drop)
      (hrecord.trans record)

theorem halting_of_run {options : ConnectOptions} {pipe : Pipe} {messageIds : MessageIds}
    {tokens : Tokens} {timer : Timer}
    (hbefore : (start options pipe messageIds tokens timer).run past = some before)
    (ho : before.operation? n = some o) (hcancelled : o.cancelled = true)
    (hcall : ¬ o.stage.IsShutdown) (hclosed : Operation.Stage.Closed P Q) (hkind : P o.stage)
    (hlater : before.run later = some s) : Halting P Q before n later s := by
  have hthere : (before.operation? n).isSome = true := by
    rw [ho]
    rfl
  refine run_induction (P := Halting P Q before n) ?_ ?_ hlater
  · exact .going o ho hcancelled hcall hkind (by simpa using o.stage.stepsLeft_le) rfl
  · intro later s m s' hrun h hs
    by_cases hm : m = .step (.operation n)
    · subst hm
      refine h.step hclosed ?_ hs
      intro o ho hcancelled hcall
      exact stops_of_run (run_append hbefore hrun) ho hcancelled hcall hs
    · have hlt := lt_nextSerial_of_run hbefore hthere hrun
      exact h.other (Nat.ne_of_lt hlt) hm hs

theorem Halting.halted (h : Halting P Q before n later s) : Halted Q before n later s := by
  cases h with
  | going o operation cancelled call kind steps record =>
    have hpos := o.stage.stepsLeft_pos
    obtain ⟨hrequests, hcompletions⟩ := Prod.mk.inj record
    refine ⟨hrequests, by omega, by omega, fun _ => hcompletions, ?_⟩
    rw [operation]
    nofun
  | finished c operation result steps record =>
    obtain ⟨hrequests, hcompletions⟩ := Prod.mk.inj record
    refine ⟨hrequests, steps, fun _ => operation, ?_, fun _ => .inl ⟨c, result, hcompletions⟩⟩
    rw [operation]
    nofun
  | dropped operation steps drop record =>
    obtain ⟨hrequests, hcompletions⟩ := Prod.mk.inj record
    exact ⟨hrequests, steps, fun _ => operation, fun _ => hcompletions,
      fun _ => .inr ⟨hcompletions, drop⟩⟩

/-- That an operation is cancelled concerns nobody else. -/
theorem spares_cancel (s : Session) (n : Nat) (role : Role) : Spares n role s (s.cancel n) where
  subscriptions := fun _ _ => Iff.rfl
  shutdown := rfl
  operations := by
    intro k hk
    refine ⟨?_, rfl⟩
    rw [operation?_cancel]
    cases ho : s.operation? k with
    | none => rfl
    | some o =>
      have hne : o.serial ≠ n := by
        rw [operation?_serial ho]
        exact hk
      rw [Option.map_some, if_neg (by simpa using hne)]
  workers := fun _ _ => id
  exchanges := by
    intro t w _ hw
    exact ⟨(waiterOf_of_exchangeOf (exchangeOf_cancel s n t)).trans hw, Iff.rfl, rfl⟩
  connection := ⟨rfl, rfl, rfl, rfl⟩
  receiver := rfl

theorem closed_any : Operation.Stage.Closed (fun _ => True) fun _ => True :=
  ⟨fun _ _ => trivial, fun _ _ => trivial⟩

theorem closed_lost : Operation.Stage.Closed Operation.Stage.Lost fun c => c = .failure .cancelled :=
  ⟨Operation.Stage.Lost.halts, Operation.Stage.Lost.ends⟩

/-- The cancellation of a request, of an observation or of its end, at any stage and after any run, and
all that may follow. Nothing more is sent for the operation, and it ends by its next five steps at the
latest; it never has to wait. What its next step makes of it is told by `Stops`: an exchange without a
result ends as cancelled and leaves no entry, a response that has been delivered is used, and one that
has come before the request was sent is not. Once there is no response left to use, and before any
further exchange, it can only end as cancelled. Nothing that belongs to others changes, neither by the
cancellation nor by these steps. -/
theorem cancellation_stops_an_operation {options : ConnectOptions} {pipe : Pipe}
    {messageIds : MessageIds} {tokens : Tokens} {timer : Timer}
    (hs : (start options pipe messageIds tokens timer).run past = some s)
    (ho : s.operation? n = some o) (hcall : ¬ o.stage.IsShutdown) :
    Spares n o.role s (s.cancel n) ∧
    ∀ later s₁, (s.cancel n).run later = some s₁ →
      Halted (fun _ => True) (s.cancel n) n later s₁ ∧
      ∀ o₁, s₁.operation? n = some o₁ →
        (∃ s₂, s₁.step (.operation n) = some s₂ ∧ Stops s₁ s₂ n o₁ ∧ Spares n o₁.role s₁ s₂) ∧
        (o₁.stage.Lost → ∀ rest s₂, s₁.run rest = some s₂ →
          Halted (fun c => c = .failure .cancelled) s₁ n rest s₂) := by
  refine ⟨spares_cancel s n o.role, ?_⟩
  intro later s₁ hlater
  have hfired : (start options pipe messageIds tokens timer).run (past ++ [.input (.cancel n)]) =
      some (s.cancel n) := by
    rw [run_concat, hs]
    rfl
  have hcancel : (s.cancel n).operation? n = some { o with cancelled := true } := by
    rw [operation?_cancel, ho, Option.map_some, if_pos (beq_iff_eq.mpr (operation?_serial ho))]
  have hhalting := halting_of_run hfired hcancel rfl hcall closed_any trivial hlater
  refine ⟨hhalting.halted, ?_⟩
  intro o₁ ho₁
  cases hhalting with
  | finished c operation =>
    rw [operation] at ho₁
    cases ho₁
  | dropped operation =>
    rw [operation] at ho₁
    cases ho₁
  | going o₂ operation cancelled call =>
    obtain rfl : o₂ = o₁ := Option.some.inj (operation.symm.trans ho₁)
    have hrun := run_append hfired hlater
    constructor
    · obtain ⟨s₂, hs₂⟩ := goes_of_cancelled operation cancelled call
      exact ⟨s₂, hs₂, stops_of_run hrun operation cancelled call hs₂,
        spares_of_step (kept_run hrun).seated operation cancelled call hs₂⟩
    · intro hlost rest s₂ hrest
      exact (halting_of_run hrun operation cancelled call closed_lost hlost hrest).halted

/-- The error that a completion brings. -/
def errorOf : Completion → Option ClientError
  | .failure e => some e
  | _ => none

/-- A request that waits for its answer is cancelled, and ends so with its next three steps. -/
theorem waiting_request_is_cancelled :
    ∃ s o, tidyClient.run ([tidyCall] ++ List.replicate 5 (.step (.operation 0))) = some s ∧
      s.operation? 0 = some o ∧ ¬ o.stage.IsShutdown ∧
      (∀ later s₁, (s.cancel 0).run later = some s₁ → Halted (fun _ => True) (s.cancel 0) 0 later s₁) ∧
      ((s.cancel 0).run (List.replicate 3 (.step (.operation 0)))).map (fun s =>
        (s.completionsOf 0).map errorOf) = some [some .cancelled] := by
  let moves := [tidyCall] ++ List.replicate 5 (.step (.operation 0))
  have hends : (tidyClient.run moves).bind (fun s => s.exchangeOf (.operation 0)) =
      some (.waiting ⟨0, 0⟩ (Timer.exact.wake 0 1)) := rfl
  obtain ⟨s, hs, he⟩ := Option.bind_eq_some_iff.mp hends
  obtain ⟨o, purpose, transfer, ho, hstage⟩ := operation_of_exchangeOf he
  have hcall : ¬ o.stage.IsShutdown := by
    rw [hstage]
    exact id
  have hthree : ((tidyClient.run moves).bind fun s =>
      (s.cancel 0).run (List.replicate 3 (.step (.operation 0)))).map (fun s =>
        (s.completionsOf 0).map errorOf) = some [some .cancelled] := rfl
  rw [hs, Option.bind_some] at hthree
  refine ⟨s, o, hs, ho, hcall, ?_, hthree⟩
  intro later s₁ hlater
  exact ((cancellation_stops_an_operation hs ho hcall).2 later s₁ hlater).1

/-- A request that is about to be sent when the server goes away. -/
def forsakenMoves : List Move :=
  [tidyCall] ++ List.replicate 3 (.step (.operation 0)) ++
    [.input .dropPeer, .step .receiver, .step .receiver]

/-- Two ways in which an exchange that has been cancelled ends differently. A response that comes while
the request is held back is not used; and an exchange that is past its check, and has no result, does
not see the cancellation before it sees that the connection is closed. -/
theorem cancellation_may_come_first_or_late :
    (¬ ∀ (options : ConnectOptions) (pipe : Pipe) (messageIds : MessageIds) (tokens : Tokens)
      (past : List Move) (s : Session) (n : Nat) (w : Waiter) (a : Message),
      (start options pipe messageIds tokens).run past = some s →
      s.isCancelled (.operation n) = true → s.waiterOf (.operation n) = some w →
      s.connection.exchanges.Decided w (.ok a) → Exchange.judge a = .ok a →
      ∀ s' outcome, s.step (.operation n) = some s' →
        s'.exchangeOf (.operation n) = some (.ended outcome) → outcome = .ok a) ∧
    ¬ ∀ (options : ConnectOptions) (pipe : Pipe) (messageIds : MessageIds) (tokens : Tokens)
      (past : List Move) (s : Session) (n : Nat) (w : Waiter),
      (start options pipe messageIds tokens).run past = some s →
      s.isCancelled (.operation n) = true → s.waiterOf (.operation n) = some w →
      s.connection.exchanges.Undecided w →
      ∀ s' outcome, s.step (.operation n) = some s' →
        s'.exchangeOf (.operation n) = some (.ended outcome) → outcome = .error .cancelled := by
  constructor
  · intro h
    let moves := heldMoves ++ [.input (.cancel 0)]
    let a : Message := { type := .acknowledgement, code := .response .content, id := 0 }
    have hends : (tidyClient.run moves).map (fun s => (s.isCancelled (.operation 0),
        s.waiterOf (.operation 0), s.connection.exchanges.pending,
        s.connection.exchanges.slot 0)) = some (true, some ⟨0, 0⟩, [], [.ok a]) := rfl
    have hnext : (tidyClient.run moves).bind (fun s => (s.step (.operation 0)).bind fun s' =>
        s'.exchangeOf (.operation 0)) = some (.ended (.error .cancelled)) := rfl
    obtain ⟨s, hs, hfacts⟩ := Option.map_eq_some_iff.mp hends
    obtain ⟨hcancelled, hwaiter, hpending, hslot⟩ : s.isCancelled (.operation 0) = true ∧
        s.waiterOf (.operation 0) = some ⟨0, 0⟩ ∧ s.connection.exchanges.pending = [] ∧
        s.connection.exchanges.slot 0 = [.ok a] := by
      simpa only [Prod.mk.injEq] using hfacts
    have hdecided : s.connection.exchanges.Decided ⟨0, 0⟩ (.ok a) := by
      refine ⟨?_, hslot⟩
      rw [hpending]
      exact List.not_mem_nil
    rw [hs, Option.bind_some] at hnext
    obtain ⟨s', hs', he⟩ := Option.bind_eq_some_iff.mp hnext
    cases h _ _ _ _ moves s 0 ⟨0, 0⟩ a hs hcancelled hwaiter hdecided rfl s' _ hs' he
  · intro h
    let moves := forsakenMoves ++ [.input (.cancel 0)]
    have hends : (tidyClient.run moves).map (fun s => (s.isCancelled (.operation 0),
        s.waiterOf (.operation 0), s.connection.exchanges.pending,
        s.connection.exchanges.slot 0)) = some (true, some ⟨0, 0⟩, [⟨0, 0⟩], []) := rfl
    have hnext : (tidyClient.run moves).bind (fun s => (s.step (.operation 0)).bind fun s' =>
        s'.exchangeOf (.operation 0)) = some (.ended (.error .connectionClosed)) := rfl
    obtain ⟨s, hs, hfacts⟩ := Option.map_eq_some_iff.mp hends
    obtain ⟨hcancelled, hwaiter, hpending, hslot⟩ : s.isCancelled (.operation 0) = true ∧
        s.waiterOf (.operation 0) = some ⟨0, 0⟩ ∧ s.connection.exchanges.pending = [⟨0, 0⟩] ∧
        s.connection.exchanges.slot 0 = [] := by
      simpa only [Prod.mk.injEq] using hfacts
    have hundecided : s.connection.exchanges.Undecided ⟨0, 0⟩ := by
      refine ⟨?_, hslot⟩
      rw [hpending]
      exact List.mem_singleton_self _
    rw [hs, Option.bind_some] at hnext
    obtain ⟨s', hs', he⟩ := Option.bind_eq_some_iff.mp hnext
    cases h _ _ _ _ moves s 0 ⟨0, 0⟩ hs hcancelled hwaiter hundecided s' _ hs' he

end Session

end Coap
