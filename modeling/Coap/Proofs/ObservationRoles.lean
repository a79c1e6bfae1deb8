import Coap.Proofs.ClosingSubscriptions
import Coap.Proofs.SessionLog

/-! The part that each operation plays for a subscription, and what one move changes of these parts,
of the subscriptions that are there and of the results that operations have returned. -/
namespace Coap

/-- What an operation is about to do, or is responsible for. -/
inductive Role
  /-- Nothing that has to do with a subscription; also that of an operation that is over. -/
  | apart
  /-- It is asked to observe, and has no token yet. -/
  | asking
  /-- It has a token, and will make a subscription under it. -/
  | granted (token : ByteArray)
  /-- It has made the subscription, and waits for the server to accept it. -/
  | registering (token : ByteArray)
  /-- It is asked to stop the observation with a token. -/
  | stopping (token : ByteArray)

def Call.role : Call → Role
  | .observe _ _ => .asking
  | .stop o => .stopping o.token
  | .request _ | .shutdown => .apart

def Purpose.role : Purpose → Role
  | .respond => .apart
  | .register token _ => .registering token
  | .deregister token => .stopping token

def Operation.role (o : Operation) : Role :=
  match o.stage with
  | .called call => call.role
  | .enrolling request _ _ => .granted request.token
  | .running purpose _ _ | .concluding purpose _ => purpose.role
  | .joining => .apart

/-- The token whose subscription is in the hands of an operation when it ends. -/
def Role.subject? : Role → Option ByteArray
  | .registering token | .stopping token => some token
  | .apart | .asking | .granted _ => none

/-- The observation that an operation has come to. -/
def Completion.observation? : Completion → Option Observation
  | .observation o => some o
  | .response _ | .stopped | .failure _ => none

/-- The operation that an event says is over, and its result. -/
def Event.end? : Event → Option (Nat × Completion)
  | .finished n c => some (n, c)
  | _ => none

/-- Whether a move is a new call, or drops an operation. -/
def Move.callsOrDrops : Move → Bool
  | .input (.call _ _) | .input (.abort _) => true
  | _ => false

namespace Session

def roleOf (s : Session) (n : Nat) : Role := ((s.operation? n).map Operation.role).getD .apart

/-- What operations have returned so far, in their order. -/
def returned (s : Session) : List (Nat × Completion) := s.log.toList.filterMap Event.end?

/-- Two sessions with the same subscriptions as far as tokens tell. -/
def SameActive (s s' : Session) : Prop :=
  ∀ t, s'.subscriptions.isActive t = s.subscriptions.isActive t

/-- The subscription of one token is gone, and all others are as they were. -/
def Without (token : ByteArray) (s s' : Session) : Prop :=
  ∀ t, s'.subscriptions.isActive t = true ↔ s.subscriptions.isActive t = true ∧ t ≠ token

/-- What the end of an operation means for subscriptions, by its part. -/
inductive Conclusion (s s' : Session) : Role → Completion → Prop
  | aside {role : Role} {c : Completion} (result : c.observation? = none)
      (part : role.subject? = none) (active : SameActive s s') : Conclusion s s' role c
  | confirmed {token : ByteArray} {o : Observation} (own : o.token = token)
      (registered : o.registered = true) (active : SameActive s s') :
      Conclusion s s' (.registering token) (.observation o)
  | withdrawn {token : ByteArray} {c : Completion}
      (result : ∀ o, c.observation? = some o → o.token = token ∧ o.registered = false)
      (active : Without token s s') : Conclusion s s' (.registering token) c
  | stopped {token : ByteArray} {c : Completion} (result : c.observation? = none)
      (active : Without token s s') : Conclusion s s' (.stopping token) c

/-- What a move does to the parts of operations, to subscriptions and to results: nothing; a new call;
an operation gets its token, makes its subscription, ends or is dropped; or the receiver clears all
subscriptions. -/
inductive Booking (s s' : Session) (m : Move) : Prop
  | kept (mover : m.callsOrDrops = false) (roles : ∀ k, s'.roleOf k = s.roleOf k)
      (active : SameActive s s') (returned : s'.returned = s.returned)
  | called (call : Call) (cancelled : Bool) (mover : m = .input (.call call cancelled))
      (serial : s'.nextSerial = s.nextSerial + 1) (role : s'.roleOf s.nextSerial = call.role)
      (others : ∀ k, k ≠ s.nextSerial → s'.roleOf k = s.roleOf k) (active : SameActive s s')
      (returned : s'.returned = s.returned)
  | granted (n : Nat) (mover : m = .step (.operation n)) (before : s.roleOf n = .asking)
      (after : s'.roleOf n = .granted s.tokens.take.1)
      (others : ∀ k, k ≠ n → s'.roleOf k = s.roleOf k) (tokens : s'.tokens = s.tokens.take.2)
      (active : SameActive s s') (returned : s'.returned = s.returned)
  | subscribed (n : Nat) (token : ByteArray) (mover : m = .step (.operation n))
      (before : s.roleOf n = .granted token)
      (after : s'.roleOf n = .registering token)
      (others : ∀ k, k ≠ n → s'.roleOf k = s.roleOf k)
      (active : ∀ t, s'.subscriptions.isActive t = true ↔
        s.subscriptions.isActive t = true ∨ t = token)
      (returned : s'.returned = s.returned)
  | ended (n : Nat) (c : Completion) (mover : m = .step (.operation n))
      (there : (s.operation? n).isSome = true) (gone : s'.operation? n = none)
      (others : ∀ k, k ≠ n → s'.roleOf k = s.roleOf k)
      (conclusion : Conclusion s s' (s.roleOf n) c) (returned : s'.returned = s.returned ++ [(n, c)])
  | dropped (n : Nat) (mover : m = .input (.abort n)) (gone : s'.operation? n = none)
      (others : ∀ k, k ≠ n → s'.roleOf k = s.roleOf k) (active : SameActive s s')
      (returned : s'.returned = s.returned)
  | cleared (mover : m = .step .receiver) (phase : s.receiver = .clearing)
      (roles : ∀ k, s'.roleOf k = s.roleOf k) (returned : s'.returned = s.returned)

variable {s s' : Session} {n : Nat} {o p : Operation} {m : Move}

/-! Parts and results. -/

theorem roleOf_eq (ho : s.operation? n = some o) : s.roleOf n = o.role := by
  unfold roleOf
  rw [ho]
  rfl

theorem roleOf_gone (ho : s.operation? n = none) : s.roleOf n = .apart := by
  unfold roleOf
  rw [ho]
  rfl

theorem roleOf_same (h : s'.operation? n = s.operation? n) : s'.roleOf n = s.roleOf n := by
  unfold roleOf
  rw [h]

theorem roleOf_proceed (s : Session) {purpose : Purpose}
    {next : Stride Transfer (Except ClientError Response)} (ho : s.operation? o.serial = some p) :
    (s.proceed o purpose next).roleOf o.serial = purpose.role := by
  obtain ⟨stage, hnext, hstage⟩ := @operation?_proceed o p s purpose next ho
  rw [roleOf_eq hnext, hstage]
  cases next.turn <;> rfl

theorem returned_of_log (h : s'.log = s.log) : s'.returned = s.returned := by
  unfold returned
  rw [h]

theorem returned_note (s : Session) (e : Event) :
    (s.note e).returned = s.returned ++ e.end?.toList := by
  unfold returned note
  rw [Array.toList_push, List.filterMap_append]
  cases h : e.end? <;> simp [h]

/-- A move that is no operation's returns nothing. -/
theorem returned_of_other (hs : s.move m = some s') (hm : ∀ n, m ≠ .step (.operation n)) :
    s'.returned = s.returned := by
  refine filterMap_log_eq hs ?_
  intro e hby
  cases e with
  | finished n c => exact absurd hby (hm n)
  | _ => rfl

theorem returned_finish (s : Session) (o : Operation) (c : Completion) :
    (s.finish o c).returned = s.returned ++ [(o.serial, c)] :=
  returned_note { s with operations := s.operations.filter fun p => p.serial != o.serial } _

/-- An operation whose handler is let go at once. -/
theorem returned_refuse (s : Session) (o : Operation) (c : Completion) :
    ((s.finish o c).note (.released o.serial)).returned = s.returned ++ [(o.serial, c)] := by
  rw [returned_note, returned_finish]
  exact List.append_nil _

/-! Steps of an operation. -/

theorem roles_of_step (hs : s.step (.operation n) = some s') (k : Nat) (hk : k ≠ n) :
    s'.roleOf k = s.roleOf k := by
  have hne : Task.operation n ≠ .operation k := fun h => hk (Task.operation.inj h).symm
  exact roleOf_same (same_step hne hs).operation

theorem booking_of_kept (ho : s.operation? o.serial = some o)
    (hs : s.step (.operation o.serial) = some s') (hrole : s'.roleOf o.serial = o.role)
    (hactive : SameActive s s') (hlog : s'.log = s.log) :
    Booking s s' (.step (.operation o.serial)) := by
  refine .kept rfl ?_ hactive (returned_of_log hlog)
  intro k
  by_cases hk : k = o.serial
  · rw [hk, hrole, roleOf_eq ho]
  · exact roles_of_step hs k hk

theorem booking_of_end {c : Completion} (ho : s.operation? o.serial = some o)
    (hs : s.step (.operation o.serial) = some s') (hgone : s'.operation? o.serial = none)
    (hreturned : s'.returned = s.returned ++ [(o.serial, c)])
    (hconclusion : Conclusion s s' o.role c) : Booking s s' (.step (.operation o.serial)) := by
  rw [← roleOf_eq ho] at hconclusion
  have hthere : (s.operation? o.serial).isSome = true := by
    rw [ho]
    rfl
  exact .ended o.serial c rfl hthere hgone (roles_of_step hs) hconclusion hreturned

theorem sameActive_of_eq (h : s'.subscriptions = s.subscriptions) : SameActive s s' := by
  intro t
  rw [h]

theorem booking_of_begin {call : Call} (ho : s.operation? o.serial = some o)
    (hstage : o.stage = .called call) (hs : s.step (.operation o.serial) = some s')
    (hnext : s' = s.begin o call) : Booking s s' (.step (.operation o.serial)) := by
  have hrole : o.role = call.role := by
    unfold Operation.role
    rw [hstage]
  have hactive : SameActive s s' := sameActive_of_eq (by rw [hnext, subscriptions_begin])
  -- A call that ends here has asked for nothing yet.
  have hends {c : Completion} (hgone : s'.operation? o.serial = none)
      (hreturned : s'.returned = s.returned ++ [(o.serial, c)]) (hresult : c.observation? = none)
      (hpart : call.role.subject? = none) : Booking s s' (.step (.operation o.serial)) := by
    refine booking_of_end ho hs hgone hreturned ?_
    rw [hrole]
    exact .aside hresult hpart hactive
  cases call with
  | request request =>
    cases hm : request.toMessage with
    | error e =>
      rw [begin_request_error hm] at hnext
      subst hnext
      exact hends (operation?_finish s o _) (returned_finish s o _) rfl rfl
    | ok a =>
      rw [begin_request_ok hm] at hnext
      subst hnext
      refine booking_of_kept ho hs ?_ hactive (log_proceed _ o _ _)
      rw [hrole]
      exact roleOf_proceed { s with tokens := s.tokens.take.2 } ho
  | observe request handler =>
    unfold begin at hnext
    dsimp only at hnext
    split at hnext
    · rename_i e _
      subst hnext
      exact hends (operation?_finish s o (.failure (.ofMessage e))) (returned_refuse s o _) rfl rfl
    · subst hnext
      refine .granted o.serial rfl ?_ ?_ (roles_of_step hs) rfl hactive (returned_of_log rfl)
      · rw [roleOf_eq ho, hrole]
        rfl
      · rw [roleOf_eq (@operation?_putOperation { s with tokens := s.tokens.take.2 }
          { o with stage := .enrolling _ _ handler } o ho)]
        rfl
  | stop observation =>
    subst hnext
    refine booking_of_kept ho hs ?_ hactive (log_proceed s o _ _)
    rw [hrole]
    exact roleOf_proceed s ho
  | shutdown =>
    unfold begin at hnext
    dsimp only at hnext
    split at hnext
    · subst hnext
      exact hends (operation?_finish _ o _) (returned_finish { s with shutdown := true } o _) rfl rfl
    · subst hnext
      refine booking_of_kept ho hs ?_ hactive rfl
      rw [hrole, roleOf_eq (@operation?_putOperation { s with shutdown := true, joined := true }
        { o with stage := .joining } o ho)]
      rfl

theorem booking_of_enroll {request template : Message} {handler : Handler}
    (ho : s.operation? o.serial = some o) (hstage : o.stage = .enrolling request template handler)
    (hs : s.step (.operation o.serial) = some s') (hnext : s' = s.enroll o request template handler) :
    Booking s s' (.step (.operation o.serial)) := by
  have hrole : o.role = .granted request.token := by
    unfold Operation.role
    rw [hstage]
  unfold enroll at hnext
  cases hregister : s.subscriptions.register request.token s.nextSerial with
  | error e =>
    rw [hregister] at hnext
    subst hnext
    have hgone := operation?_finish s o (.failure e)
    refine booking_of_end ho hs hgone (returned_refuse s o _) ?_
    rw [hrole]
    exact .aside rfl rfl (sameActive_of_eq rfl)
  | ok subscriptions =>
    rw [hregister] at hnext
    dsimp only at hnext
    subst hnext
    let worker : Worker := { serial := s.nextSerial, owner := o.serial, template, handler }
    have hthere : operation? { s with
        subscriptions, workers := s.workers ++ [worker], nextSerial := s.nextSerial + 1 } o.serial =
        some o := ho
    refine .subscribed o.serial request.token rfl ((roleOf_eq ho).trans hrole)
      (roleOf_proceed _ hthere) (roles_of_step hs) ?_ (returned_of_log (log_proceed _ o _ _))
    intro t
    rw [subscriptions_proceed]
    exact Subscriptions.isActive_register_iff hregister

theorem booking_of_conclude {purpose : Purpose} {result : Except ClientError Response}
    (ho : s.operation? o.serial = some o) (hstage : o.stage = .concluding purpose result)
    (hs : s.step (.operation o.serial) = some s') (hnext : s' = s.conclude o purpose result) :
    Booking s s' (.step (.operation o.serial)) := by
  have hrole : o.role = purpose.role := by
    unfold Operation.role
    rw [hstage]
  have hwithout {s' : Session} {token : ByteArray}
      (h : s'.subscriptions = (s.subscriptions.deregister token).2) : Without token s s' := by
    intro t
    rw [h]
    exact Subscriptions.isActive_deregister_iff
  -- Whatever the purpose, the operation is over with the one result.
  have hends {s₁ : Session} {c : Completion} (hfinish : s' = s₁.finish o c) (hlog : s₁.log = s.log)
      (hconclusion : Conclusion s s' purpose.role c) : Booking s s' (.step (.operation o.serial)) := by
    refine booking_of_end ho hs ?_ ?_ (hrole ▸ hconclusion)
    · rw [hfinish]
      exact operation?_finish s₁ o c
    · rw [hfinish, returned_finish, returned_of_log hlog]
  cases purpose with
  | respond =>
    cases result with
    | ok r => exact hends hnext rfl (.aside rfl rfl (sameActive_of_eq (by rw [hnext]; rfl)))
    | error e => exact hends hnext rfl (.aside rfl rfl (sameActive_of_eq (by rw [hnext]; rfl)))
  | deregister token =>
    cases result with
    | ok r => exact hends hnext rfl (.stopped rfl (hwithout (by rw [hnext]; rfl)))
    | error e => exact hends hnext rfl (.stopped rfl (hwithout (by rw [hnext]; rfl)))
  | register token template =>
    cases result with
    | error e =>
      refine hends hnext rfl (.withdrawn ?_ (hwithout (by rw [hnext]; rfl)))
      intro observation hresult
      cases hresult
    | ok response =>
      unfold conclude at hnext
      dsimp only at hnext
      split at hnext
      · refine hends hnext rfl (.confirmed rfl rfl ?_)
        intro t
        rw [hnext]
        exact Subscriptions.isActive_modify (Subscriptions.keepsKeys_seed _) s.subscriptions token t
      · refine hends hnext rfl (.withdrawn ?_ (hwithout (by rw [hnext]; rfl)))
        intro observation hresult
        cases hresult
        exact ⟨rfl, rfl⟩

theorem booking_of_stepOperation (ho : s.operation? o.serial = some o)
    (hs : s.stepOperation o = some s') : Booking s s' (.step (.operation o.serial)) := by
  have hstep : s.step (.operation o.serial) = some s' := (step_of_operation? ho).trans hs
  cases hstage : o.stage with
  | called call =>
    unfold stepOperation at hs
    rw [hstage] at hs
    exact booking_of_begin ho hstage hstep (Option.some.inj hs).symm
  | enrolling request template handler =>
    unfold stepOperation at hs
    rw [hstage] at hs
    exact booking_of_enroll ho hstage hstep (Option.some.inj hs).symm
  | concluding purpose result =>
    unfold stepOperation at hs
    rw [hstage] at hs
    exact booking_of_conclude ho hstage hstep (Option.some.inj hs).symm
  | joining =>
    unfold stepOperation at hs
    rw [hstage] at hs
    dsimp only at hs
    split at hs
    · cases hs
      refine booking_of_end ho hstep (operation?_finish s o _) (returned_finish s o _) ?_
      have hrole : o.role = .apart := by
        unfold Operation.role
        rw [hstage]
      rw [hrole]
      exact .aside rfl rfl (sameActive_of_eq rfl)
    · cases hs
  | running purpose transfer exchange =>
    have hrole : o.role = purpose.role := by
      unfold Operation.role
      rw [hstage]
    by_cases hended : ∃ outcome, exchange = .ended outcome
    · obtain ⟨outcome, rfl⟩ := hended
      have hnext : s' = s.proceed o purpose (transfer.resume outcome) := by
        unfold stepOperation at hs
        rw [hstage] at hs
        exact (Option.some.inj hs).symm
      subst hnext
      refine booking_of_kept ho hstep ?_ ?_ (log_proceed s o _ _)
      · rw [hrole]
        exact roleOf_proceed s ho
      · exact sameActive_of_eq (subscriptions_proceed s o _ _)
    · have hgoing : ∀ outcome, exchange ≠ .ended outcome := fun outcome h => hended ⟨outcome, h⟩
      rw [stepOperation_running hstage hgoing] at hs
      obtain ⟨c, -, rfl⟩ := Option.map_eq_some_iff.mp hs
      let next : Operation := { o with stage := .running purpose transfer c.exchange }
      have hthere := (operation?_absorb s (.operation o.serial) c o.serial).trans ho
      refine .kept rfl ?_ (sameActive_of_eq (subscriptions_absorb s _ c)) ?_
      · intro k
        by_cases hk : k = o.serial
        · have hput := @operation?_putOperation (s.absorb (.operation o.serial) c) next o hthere
          rw [hk, roleOf_eq hput, roleOf_eq ho, hrole]
          rfl
        · exact roles_of_step hstep k hk
      · -- What the exchange sends is in the log, but it is no result.
        have hlog := log_absorb s (.operation o.serial) c
        unfold returned
        change (s.absorb _ c).log.toList.filterMap Event.end? = _
        rw [hlog]
        cases c.sent with
        | none => rfl
        | some a =>
          dsimp only
          rw [Array.toList_push, List.filterMap_append]
          exact List.append_nil _

/-! Steps of the others, and what comes from outside. -/

theorem booking_of_receiver (hs : s.move (.step .receiver) = some s') :
    Booking s s' (.step .receiver) := by
  have hroles (k : Nat) : s'.roleOf k = s.roleOf k :=
    roleOf_same (same_stepReceiver hs).operation
  have hreturned : s'.returned = s.returned := returned_of_other hs nofun
  have hkept (h : s'.subscriptions = s.subscriptions) : Booking s s' (.step .receiver) :=
    .kept rfl hroles (sameActive_of_eq h) hreturned
  cases reception_of_step hs with
  | routed a wire phase going arrival next =>
    refine .kept rfl hroles ?_ hreturned
    intro t
    have hmodify := Subscriptions.isActive_modify (Subscriptions.keepsKeys_accept a) s.subscriptions
      a.token t
    rw [next]
    unfold route
    split
    · rfl
    · rfl
    · exact hmodify
    · exact hmodify
  | cleared phase next => exact .cleared rfl phase hroles hreturned
  | stopped e wire phase quiet next => exact hkept (by rw [next]; rfl)
  | replied reply wire log phase next => exact hkept (by rw [next]; rfl)
  | shut e phase next => exact hkept (by rw [next])
  | collected e phase next => exact hkept (by rw [next])
  | failed e id ids phase next => exact hkept (by rw [next]; rfl)
  | drained e phase next => exact hkept (by rw [next])
  | closed phase next => exact hkept (by rw [next]; rfl)

theorem roleOf_cancel (s : Session) (k n : Nat) : (s.cancel k).roleOf n = s.roleOf n := by
  unfold roleOf
  rw [operation?_cancel]
  cases s.operation? n with
  | none => rfl
  | some o =>
    rw [Option.map_some, Option.map_some, Option.map_some]
    split <;> rfl

theorem booking_of_accept (s : Session) (i : Input) (hnew : s.operation? s.nextSerial = none) :
    Booking s (s.accept i) (.input i) := by
  have hactive : SameActive s (s.accept i) := sameActive_of_eq (subscriptions_accept s i)
  have hreturned : (s.accept i).returned = s.returned := returned_of_log (log_accept s i)
  cases i with
  | call call cancelled =>
    refine .called call cancelled rfl rfl ?_ ?_ hactive hreturned
    · have hfind : (s.operations.find? fun o => o.serial == s.nextSerial) = none := hnew
      have hthere : (s.call call cancelled).operation? s.nextSerial =
          some { serial := s.nextSerial, cancelled, stage := .called call } := by
        change List.find? _ (s.operations ++ [_]) = _
        rw [List.find?_append, hfind]
        simp
      exact roleOf_eq hthere
    · intro k hk
      exact roleOf_same (same_call (Ne.symm hk) call cancelled).operation
  | cancel k => exact .kept rfl (roleOf_cancel s k) hactive hreturned
  | abort k =>
    refine .dropped k rfl (operation?_abort_self s k) ?_ hactive hreturned
    intro j hj
    exact roleOf_same (same_abort (Ne.symm hj) s).operation
  | message a => exact .kept rfl (fun k => roleOf_same (same_arrive k s a).operation) hactive hreturned
  | _ => exact .kept rfl (fun _ => rfl) hactive hreturned

/-- Every move does one of these things. -/
theorem booking_of_move (hnew : s.operation? s.nextSerial = none) (hs : s.move m = some s') :
    Booking s s' m := by
  cases m with
  | input i =>
    cases hs
    exact booking_of_accept s i hnew
  | step task =>
    cases task with
    | receiver => exact booking_of_receiver hs
    | operation k =>
      obtain ⟨o, ho, hstep⟩ := operation_of_step hs
      obtain rfl := operation?_serial ho
      exact booking_of_stepOperation ho hstep
    | worker k =>
      have hne (n : Nat) : Task.worker k ≠ .operation n := nofun
      obtain ⟨w, -, hstep⟩ := worker_of_step hs
      refine .kept rfl (fun n => roleOf_same (same_step (hne n) hs).operation) ?_ ?_
      · exact isActive_stepWorker hstep
      · exact returned_of_other hs fun n h => hne n (Move.step.inj h)

end Session

end Coap
