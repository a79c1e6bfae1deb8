import Coap.Proofs.ClosingExchanges
import Coap.Proofs.SubscriptionTable

/-! Subscriptions after they have been cleared at the end of a connection: whatever observe operation
makes another one takes it away again, unless it is dropped before it can. -/
namespace Coap

/-- Whether an exchange is bound to end with an error on a closed connection, or has done so. -/
def Exchange.Doomed : Exchange → Prop
  | .begun _ | .checked _ | .registered _ _ | .ended (.error _) => True
  | .sending _ _ | .waiting _ _ | .ended (.ok _) => False

theorem Connection.Advance.doomed {c : Connection} {cancelled : Bool} {e : Exchange}
    {c' : Connection.Stepped} (h : c.Advance cancelled e c') (hclosed : c.closed = true)
    (he : e.Doomed) : c'.exchange.Doomed := by
  cases h with
  | passed hopen =>
    rw [hclosed] at hopen
    cases hopen
  | refused | checked | exhausted | registered _ | shut _ => trivial
  | stopped _ | unsent _ | sent _ | fetched _ => exact he.elim

/-! Transfers of an observe operation. -/

theorem Upload.error_of_start {template : Message} {payload : ByteArray} {size : BlockSize}
    {result : Outcome} (h : start template payload size = .finish result) :
    ∃ e, result = .error e := by
  unfold start turn at h
  repeat' split at h
  all_goals cases h
  all_goals exact ⟨_, rfl⟩

namespace Transfer

/-- A transfer that makes no request has failed. -/
theorem error_of_start {settings : TransferSettings} {request followUp : Message}
    {result : Except ClientError Response}
    (h : (start settings request followUp).turn = .finish result) : ∃ e, result = .error e := by
  unfold start at h
  dsimp only at h
  split at h
  · unfold ofUpload at h
    dsimp only at h
    cases hupload : Upload.start { request with payload := ByteArray.empty } request.payload
        settings.blockSize with
    | ask r u =>
      rw [hupload] at h
      cases h
    | finish outcome =>
      obtain ⟨e, rfl⟩ := Upload.error_of_start hupload
      rw [hupload] at h
      cases h
      exact ⟨e, rfl⟩
  · cases h

/-- Whatever a transfer is at, a failed exchange is the end of it, without a report. -/
theorem resume_error (t : Transfer) (e : ClientError) :
    t.resume (.error e) = { turn := .finish (.error e) } := by
  unfold resume
  cases t.stage <;> rfl

end Transfer

/-- The token whose subscription an observe operation has made and answers for. -/
def Operation.registering? (o : Operation) : Option ByteArray :=
  match o.stage with
  | .running (.register token _) _ _ | .concluding (.register token _) _ => some token
  | _ => none

/-- Whether an operation is bound to take the subscription of a token away. -/
def Operation.Undoes (token : ByteArray) (o : Operation) : Prop :=
  match o.stage with
  | .running (.register t _) _ e => t = token ∧ e.Doomed
  | .concluding (.register t _) (.error _) => t = token
  | _ => False

theorem Operation.Undoes.registering {token : ByteArray} {o : Operation} (h : o.Undoes token) :
    o.registering? = some token := by
  obtain ⟨serial, cancelled, stage⟩ := o
  cases stage with
  | running purpose t e =>
    cases purpose with
    | register t' template =>
      obtain ⟨rfl, -⟩ := h
      rfl
    | _ => exact h.elim
  | concluding purpose result =>
    cases purpose with
    | register t' template =>
      cases result with
      | error e =>
        cases h
        rfl
      | ok r => exact h.elim
    | _ => exact h.elim
  | _ => exact h.elim

/-- Such an operation is not at rest. -/
theorem Operation.Undoes.busy {token : ByteArray} {o : Operation} (h : o.Undoes token) :
    o.exchange?.isSome = true ∨ ∃ purpose result, o.stage = .concluding purpose result := by
  obtain ⟨serial, cancelled, stage⟩ := o
  cases stage with
  | running purpose t e => exact .inl rfl
  | concluding purpose result => exact .inr ⟨purpose, result, rfl⟩
  | _ => exact h.elim

namespace Session

variable {s s' : Session} {m : Move} {n : Nat} {o p : Operation} {token : ByteArray}
  {failed : List ClientError}

/-! Where subscriptions come from. -/

theorem subscriptions_proceed (s : Session) (o : Operation) (purpose : Purpose)
    (next : Stride Transfer (Except ClientError Response)) :
    (s.proceed o purpose next).subscriptions = s.subscriptions := by
  unfold proceed
  cases next.turn <;> rfl

theorem subscriptions_begin (s : Session) (o : Operation) (call : Call) :
    (s.begin o call).subscriptions = s.subscriptions := by
  cases call with
  | request request =>
    cases hm : request.toMessage with
    | error e =>
      rw [begin_request_error hm]
      rfl
    | ok m =>
      rw [begin_request_ok hm, subscriptions_proceed]
  | observe request handler =>
    unfold begin
    dsimp only
    split <;> rfl
  | stop observation => exact subscriptions_proceed s o _ _
  | shutdown =>
    unfold begin
    dsimp only
    split <;> rfl

theorem subscriptions_absorb (s : Session) (t : Task) (c : Connection.Stepped) :
    (s.absorb t c).subscriptions = s.subscriptions := by
  unfold absorb
  cases c.sent <;> rfl

theorem active_of_conclude {purpose : Purpose} {result : Except ClientError Response}
    (h : (s.conclude o purpose result).subscriptions.isActive token = true) :
    s.subscriptions.isActive token = true := by
  have hgone {t : ByteArray} (h : (s.unsubscribe t).subscriptions.isActive token = true) :
      s.subscriptions.isActive token = true := (Subscriptions.isActive_deregister_iff.mp h).1
  cases purpose with
  | respond => cases result <;> exact h
  | deregister t => cases result <;> exact hgone h
  | register t template =>
    cases result with
    | error e => exact hgone h
    | ok response =>
      unfold conclude at h
      dsimp only at h
      split at h
      · change (s.subscriptions.seed t _).isActive token = true at h
        unfold Subscriptions.seed at h
        rwa [Subscriptions.isActive_modify (Subscriptions.keepsKeys_seed _)] at h
      · exact hgone h

theorem subscriptions_deliver (s : Session) (w : Worker)
    (next : Stride Delivery (Option Notification)) :
    (s.deliver w next).subscriptions = s.subscriptions := by
  unfold deliver
  cases next.turn with
  | ask r d => rfl
  | finish result => cases result <;> rfl

/-- A worker takes from a queue at most, and makes no subscription and ends none. -/
theorem isActive_stepWorker {w : Worker} (hs : s.stepWorker w = some s') (token : ByteArray) :
    s'.subscriptions.isActive token = s.subscriptions.isActive token := by
  unfold stepWorker at hs
  cases hcurrent : w.current with
  | none =>
    rw [hcurrent] at hs
    dsimp only at hs
    split at hs
    · cases hs
      rfl
    · obtain ⟨⟨notification, subscriptions⟩, htake, rfl⟩ := Option.map_eq_some_iff.mp hs
      dsimp only
      rw [subscriptions_deliver]
      obtain ⟨rest, rfl⟩ := Subscriptions.take_eq_some htake
      have hkeeps := (Subscriptions.keepsKeys_queue rest).ite fun e => e.serial == w.serial
      exact Subscriptions.isActive_entries_map hkeeps s.subscriptions token
  | some current =>
    obtain ⟨delivery, exchange⟩ := current
    rw [hcurrent] at hs
    cases exchange with
    | ended outcome =>
      cases hs
      rw [subscriptions_deliver]
    | _ =>
      obtain ⟨c, -, rfl⟩ := Option.map_eq_some_iff.mp hs
      change ((s.absorb _ c).subscriptions).isActive token = _
      rw [subscriptions_absorb]

/-- An operation outside the making of a subscription makes none. -/
theorem active_of_stepOperation (hs : s.stepOperation o = some s')
    (hstage : ∀ request template handler, o.stage ≠ .enrolling request template handler)
    (h : s'.subscriptions.isActive token = true) : s.subscriptions.isActive token = true := by
  obtain ⟨serial, cancelled, stage⟩ := o
  cases stage with
  | called call =>
    cases hs
    rwa [subscriptions_begin] at h
  | enrolling request template handler => exact absurd rfl (hstage request template handler)
  | running purpose transfer exchange =>
    cases exchange with
    | ended outcome =>
      cases hs
      rwa [subscriptions_proceed] at h
    | _ =>
      obtain ⟨c, -, rfl⟩ := Option.map_eq_some_iff.mp hs
      change ((s.absorb _ c).subscriptions).isActive token = true at h
      rwa [subscriptions_absorb] at h
  | concluding purpose result =>
    cases hs
    exact active_of_conclude h
  | joining =>
    unfold stepOperation at hs
    dsimp only at hs
    split at hs
    · cases hs
      exact h
    · cases hs

theorem subscriptions_accept (s : Session) (i : Input) :
    (s.accept i).subscriptions = s.subscriptions := by
  cases i with
  | abort k =>
    change (s.abort k).subscriptions = _
    unfold abort
    split <;> rfl
  | message m =>
    change ((s.arrive m).toOption.getD s).subscriptions = _
    unfold arrive Pipe.peerSend
    repeat' split
    all_goals rfl
  | _ => rfl

/-! What becomes of an observe operation once the connection is closed. -/

theorem operation?_proceed (s : Session) {purpose : Purpose}
    {next : Stride Transfer (Except ClientError Response)} (ho : s.operation? o.serial = some p) :
    ∃ stage, (s.proceed o purpose next).operation? o.serial = some { o with stage } ∧
      stage = match next.turn with
        | .ask request transfer => .running purpose transfer (.begun request)
        | .finish result => .concluding purpose result := by
  unfold proceed
  cases next.turn with
  | ask r t =>
    let q : Operation := { o with stage := .running purpose t (.begun r) }
    exact ⟨_, @operation?_putOperation (s.publish next.reports) q p ho, rfl⟩
  | finish result =>
    let q : Operation := { o with stage := .concluding purpose result }
    exact ⟨_, @operation?_putOperation (s.publish next.reports) q p ho, rfl⟩

/-- A subscription that is made on a closed connection is bound to be taken away. -/
theorem undoes_of_enroll {request template : Message} {handler : Handler}
    (ho : s.operation? o.serial = some o)
    (h : (s.enroll o request template handler).subscriptions.isActive token = true) :
    s.subscriptions.isActive token = true ∨ ∃ q,
      (s.enroll o request template handler).operation? o.serial = some q ∧ q.Undoes token := by
  unfold enroll at h ⊢
  cases hregister : s.subscriptions.register request.token s.nextSerial with
  | error e =>
    rw [hregister] at h
    exact .inl h
  | ok subscriptions =>
    rw [hregister] at h
    dsimp only at h ⊢
    rw [subscriptions_proceed] at h
    rcases (Subscriptions.isActive_register_iff hregister).mp h with hold | hnew
    · exact .inl hold
    · subst hnew
      right
      let worker : Worker := { serial := s.nextSerial, owner := o.serial, template, handler }
      have hthere : operation? { s with
          subscriptions, workers := s.workers ++ [worker], nextSerial := s.nextSerial + 1 } o.serial =
          some o := ho
      obtain ⟨stage, hnext, hstage⟩ := operation?_proceed _ hthere
      refine ⟨_, hnext, ?_⟩
      rw [hstage]
      -- The request that would confirm it has only begun, or has already failed.
      cases hturn : (Transfer.start s.transfers request template).turn with
      | ask r t => exact ⟨rfl, trivial⟩
      | finish result =>
        obtain ⟨e, rfl⟩ := Transfer.error_of_start hturn
        rfl

/-- An operation that is bound to take a subscription away stays so until it has done it. -/
theorem undoes_of_stepOperation (hclosed : s.connection.closed = true)
    (ho : s.operation? o.serial = some o) (hu : o.Undoes token) (hs : s.stepOperation o = some s')
    (h : s'.subscriptions.isActive token = true) :
    ∃ q, s'.operation? o.serial = some q ∧ q.Undoes token := by
  obtain ⟨serial, cancelled, stage⟩ := o
  cases stage with
  | running purpose transfer exchange =>
    cases purpose with
    | register t template =>
      obtain ⟨rfl, hdoomed⟩ := hu
      cases exchange with
      | ended outcome =>
        cases outcome with
        | ok a => exact hdoomed.elim
        | error e =>
          cases hs
          obtain ⟨stage, hnext, hstage⟩ := @operation?_proceed _ _ s (.register t template)
            (transfer.resume (.error e)) ho
          rw [Transfer.resume_error] at hstage
          subst hstage
          exact ⟨_, hnext, rfl⟩
      | _ =>
        -- The exchange goes a step further, and on a closed connection it stays doomed.
        obtain ⟨c, hc, rfl⟩ := Option.map_eq_some_iff.mp hs
        let q : Operation :=
          { serial, cancelled, stage := .running (.register t template) transfer c.exchange }
        have hthere := operation?_absorb s (.operation serial) c serial
        have hnext := @operation?_putOperation (s.absorb (.operation serial) c) q _ (hthere.trans ho)
        exact ⟨q, hnext, rfl, (Connection.advance_of_step hc).doomed hclosed hdoomed⟩
    | _ => exact hu.elim
  | concluding purpose result =>
    cases purpose with
    | register t template =>
      cases result with
      | ok r => exact hu.elim
      | error e =>
        -- The subscription has just been taken away.
        cases hu
        cases hs
        exact absurd rfl (Subscriptions.isActive_deregister_iff.mp h).2
    | _ => exact hu.elim
  | _ => exact hu.elim

/-- A move of others leaves an operation in its stage. -/
theorem operation?_of_other (ho : s.operation? n = some o) (hm : m ≠ .step (.operation n))
    (hdrop : m ≠ .input (.abort n)) (hs : s.move m = some s') :
    ∃ q, s'.operation? n = some q ∧ q.stage = o.stage := by
  have hsame (h : s'.operation? n = s.operation? n) :
      ∃ q, s'.operation? n = some q ∧ q.stage = o.stage :=
    ⟨o, h.trans ho, rfl⟩
  cases m with
  | step task =>
    have hne : task ≠ .operation n := fun ht => hm (by rw [ht])
    exact hsame (same_step hne hs).operation
  | input i =>
    cases hs
    cases i with
    | call c cancelled =>
      refine hsame ?_
      have hfind : (s.operations.find? fun o => o.serial == n) = some o := ho
      change (s.call c cancelled).operation? n = _
      unfold operation? call
      rw [List.find?_append, hfind]
      rfl
    | cancel k =>
      have hmarked := operation?_cancel s k n
      rw [ho] at hmarked
      refine ⟨_, hmarked, ?_⟩
      dsimp only
      split <;> rfl
    | abort k => exact hsame (same_abort (fun hk => hdrop (by rw [hk])) s).operation
    | message a => exact hsame (same_arrive n s a).operation
    | _ => exact hsame rfl

/-! What is left of subscriptions after they have been cleared. -/

/-- The token of an observe operation that a move drops midway, after the subscriptions have been
cleared and while there is one under its token. -/
def orphans (s : Session) (m : Move) : List ByteArray :=
  match m, s.receiver with
  | .input (.abort n), .closing | .input (.abort n), .ended =>
    ((s.operation? n).bind Operation.registering?).toList.filter s.subscriptions.isActive
  | _, _ => []

/-- An operation is bound to take the subscription of a token away, or the one that was has been
dropped. -/
def Covered (orphaned : List ByteArray) (token : ByteArray) (s : Session) : Prop :=
  token ∈ orphaned ∨ ∃ n o, s.operation? n = some o ∧ o.Undoes token

/-- After they have been cleared, only subscriptions that are covered are there. -/
def Tended (orphaned : List ByteArray) (s : Session) : Prop :=
  match s.receiver with
  | .closing | .ended => ∀ token, s.subscriptions.isActive token = true → s.Covered orphaned token
  | _ => True

variable {orphaned : List ByteArray}

/-- While a subscription is there it stays with its operation, or the operation is dropped. -/
theorem Covered.move (h : s.Covered orphaned token) (hclosed : s.connection.closed = true)
    (hphase : s.receiver = .closing ∨ s.receiver = .ended) (hs : s.move m = some s')
    (hbefore : s.subscriptions.isActive token = true)
    (hactive : s'.subscriptions.isActive token = true) :
    s'.Covered (orphaned ++ s.orphans m) token := by
  rcases h with horphan | ⟨n, o, ho, hu⟩
  · exact .inl (List.mem_append_left _ horphan)
  obtain rfl := operation?_serial ho
  by_cases hown : m = .step (.operation o.serial)
  · subst hown
    have hstep : s.stepOperation o = some s' := by
      rw [← step_of_operation? ho]
      exact hs
    obtain ⟨q, hq, hu'⟩ := undoes_of_stepOperation hclosed ho hu hstep hactive
    exact .inr ⟨_, q, hq, hu'⟩
  by_cases hdrop : m = .input (.abort o.serial)
  · -- The operation goes, and leaves its subscription behind.
    subst hdrop
    have htoken : token ∈ ((s.operation? o.serial).bind Operation.registering?).toList.filter
        s.subscriptions.isActive := by
      rw [ho, Option.bind_some, hu.registering]
      exact List.mem_filter.mpr ⟨List.mem_singleton_self token, hbefore⟩
    refine .inl (List.mem_append_right _ ?_)
    unfold orphans
    rcases hphase with hphase | hphase
    · rw [hphase]
      exact htoken
    · rw [hphase]
      exact htoken
  · obtain ⟨q, hq, hstage⟩ := operation?_of_other ho hown hdrop hs
    refine .inr ⟨_, q, hq, ?_⟩
    unfold Operation.Undoes at hu ⊢
    rw [hstage]
    exact hu

/-- What a move of a task or from outside makes of one subscription. -/
theorem covered_of_move (hclosed : s.connection.closed = true) (hs : s.move m = some s')
    (hm : m ≠ .step .receiver) (hphase : s.receiver = .closing ∨ s.receiver = .ended)
    (h : s.subscriptions.isActive token = true → s.Covered orphaned token)
    (hactive : s'.subscriptions.isActive token = true) :
    s'.Covered (orphaned ++ s.orphans m) token := by
  have hold (hbefore : s.subscriptions.isActive token = true) :
      s'.Covered (orphaned ++ s.orphans m) token :=
    (h hbefore).move hclosed hphase hs hbefore hactive
  -- Only an observe operation that makes its subscription brings one that was not there.
  cases m with
  | input i =>
    have haccept : s' = s.accept i := (Option.some.inj hs).symm
    rw [haccept, subscriptions_accept] at hactive
    exact hold hactive
  | step task =>
    cases task with
    | receiver => exact absurd rfl hm
    | worker k =>
      obtain ⟨w, -, hstep⟩ := worker_of_step hs
      rw [isActive_stepWorker hstep] at hactive
      exact hold hactive
    | operation k =>
      obtain ⟨o, ho, hstep⟩ := operation_of_step hs
      obtain rfl := operation?_serial ho
      by_cases henroll : ∃ request template handler, o.stage = .enrolling request template handler
      · obtain ⟨request, template, handler, hstage⟩ := henroll
        have hnext : s' = s.enroll o request template handler := by
          unfold stepOperation at hstep
          rw [hstage] at hstep
          exact (Option.some.inj hstep).symm
        subst hnext
        rcases undoes_of_enroll ho hactive with hbefore | ⟨q, hq, hu⟩
        · exact hold hbefore
        · exact .inr ⟨_, q, hq, hu⟩
      · refine hold (active_of_stepOperation hstep ?_ hactive)
        intro request template handler hstage
        exact henroll ⟨request, template, handler, hstage⟩

theorem Tended.move (h : Tended orphaned s) (hphase : Phase failed s) (hs : s.move m = some s') :
    Tended (orphaned ++ s.orphans m) s' := by
  unfold Phase at hphase
  unfold Tended at h ⊢
  by_cases hm : m = .step .receiver
  · subst hm
    cases reception_of_step hs with
    | routed a wire phase going arrival next =>
      rcases receiver_of_route phase next with hopen | ⟨reply, hopen⟩ <;> rw [hopen] <;> trivial
    | cleared phase next =>
      rw [next]
      intro token hactive
      cases hactive
    | closed phase next =>
      rw [phase] at h
      have hreceiver : s'.receiver = .ended := by rw [next]
      have hsubscriptions : s'.subscriptions = s.subscriptions := by
        rw [next]
        rfl
      rw [hreceiver]
      intro token hactive
      rw [hsubscriptions] at hactive
      rcases h token hactive with horphan | ⟨n, o, ho, hu⟩
      · exact .inl (List.mem_append_left _ horphan)
      · exact .inr ⟨n, o, (same_stepReceiver hs).operation.trans ho, hu⟩
    | stopped _ _ _ _ next => rw [next]; trivial
    | replied _ _ _ _ next => rw [next]; trivial
    | shut _ _ next => rw [next]; trivial
    | collected _ _ next => rw [next]; trivial
    | failed _ _ _ _ next => rw [next]; trivial
    | drained _ _ next => rw [next]; trivial
  · obtain ⟨hreceiver, -⟩ := receiver_of_move hs hm
    rw [hreceiver]
    cases hphase' : s.receiver with
    | closing =>
      rw [hphase'] at h hphase
      exact fun token => covered_of_move hphase.1 hs hm (.inl hphase') (h token)
    | ended =>
      rw [hphase'] at h hphase
      exact fun token => covered_of_move hphase.1 hs hm (.inr hphase') (h token)
    | _ => trivial

end Session

end Coap
