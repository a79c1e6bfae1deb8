import Coap.Proofs.SessionFrame

/-! What handlers make of their calls has no bearing on anything else. A session without its handlers and
without their reactions takes the same moves as the session itself, so that handlers may react as they
like, and in a different way each time. -/
namespace Coap

/-! Everything without its handlers and reactions. -/

/-- A handler that takes whatever comes. -/
def Handler.mute : Handler := fun _ => .handled

def Call.mute : Call → Call
  | .observe asked _ => .observe asked Handler.mute
  | .request asked => .request asked
  | .stop observation => .stop observation
  | .shutdown => .shutdown

def Operation.Stage.mute : Operation.Stage → Operation.Stage
  | .called call => .called call.mute
  | .enrolling request template _ => .enrolling request template Handler.mute
  | .running purpose transfer exchange => .running purpose transfer exchange
  | .concluding purpose result => .concluding purpose result
  | .joining => .joining

def Operation.mute (o : Operation) : Operation := { o with stage := o.stage.mute }

def Worker.mute (w : Worker) : Worker := { w with handler := Handler.mute }

def Event.mute : Event → Event
  | .notified n notification _ => .notified n notification .handled
  | .sent t m => .sent t m
  | .finished n c => .finished n c
  | .released n => .released n

def Input.mute : Input → Input
  | .call asked cancelled => .call asked.mute cancelled
  | i => i

def Move.mute : Move → Move
  | .step task => .step task
  | .input i => .input i.mute

namespace Session

def mute (s : Session) : Session :=
  { s with
    operations := s.operations.map Operation.mute
    workers := s.workers.map Worker.mute
    log := s.log.map Event.mute }

/-- A run in which after each move the handlers, and what they have made of their calls, may turn out to
be any others. -/
inductive Reacts : Session → List Move → Session → Prop
  | done {s s' : Session} (same : s'.mute = s.mute) : Reacts s [] s'
  | move {s s₁ s₂ s' : Session} {m : Move} {rest : List Move} (step : s.move m = some s₁)
      (same : s₂.mute = s₁.mute) (later : Reacts s₂ rest s') : Reacts s (m :: rest) s'

variable {s s' t : Session} {o : Operation} {w : Worker} {m : Move} {moves : List Move}

/-! Each step, with and without. -/

theorem mute_note (s : Session) (e : Event) : (s.note e).mute = s.mute.note e.mute := by
  unfold note mute
  dsimp only
  rw [Array.map_push]

theorem mute_putOperation (s : Session) (o : Operation) :
    (s.putOperation o).mute = s.mute.putOperation o.mute := by
  have hmap : (s.operations.map fun p => if p.serial == o.serial then o else p).map Operation.mute =
      (s.operations.map Operation.mute).map fun p => if p.serial == o.serial then o.mute else p := by
    rw [List.map_map, List.map_map]
    refine List.map_congr_left fun p _ => ?_
    change Operation.mute (if p.serial == o.serial then o else p) =
      if p.serial == o.serial then o.mute else p.mute
    split <;> rfl
  unfold putOperation mute
  dsimp only
  rw [hmap]
  rfl

theorem mute_finish (s : Session) (o : Operation) (c : Completion) :
    (s.finish o c).mute = s.mute.finish o.mute c := by
  have hfilter : (s.operations.filter fun p => p.serial != o.serial).map Operation.mute =
      (s.operations.map Operation.mute).filter fun p => p.serial != o.serial := by
    rw [List.filter_map]
    rfl
  unfold finish
  rw [mute_note]
  unfold mute
  dsimp only
  rw [hfilter]
  rfl

theorem mute_putWorker (s : Session) (w : Worker) :
    (s.putWorker w).mute = s.mute.putWorker w.mute := by
  have hmap : (s.workers.map fun v => if v.serial == w.serial then w else v).map Worker.mute =
      (s.workers.map Worker.mute).map fun v => if v.serial == w.serial then w.mute else v := by
    rw [List.map_map, List.map_map]
    refine List.map_congr_left fun v _ => ?_
    change Worker.mute (if v.serial == w.serial then w else v) =
      if v.serial == w.serial then w.mute else v.mute
    split <;> rfl
  unfold putWorker mute
  dsimp only
  rw [hmap]
  rfl

theorem mute_proceed (s : Session) (o : Operation) (purpose : Purpose)
    (next : Stride Transfer (Except ClientError Response)) :
    (s.proceed o purpose next).mute = s.mute.proceed o.mute purpose next := by
  unfold proceed
  cases next.turn with
  | ask request transfer => exact mute_putOperation (s.publish next.reports) _
  | finish result => exact mute_putOperation (s.publish next.reports) _

theorem mute_begin (s : Session) (o : Operation) (call : Call) :
    (s.begin o call).mute = s.mute.begin o.mute call.mute := by
  cases call with
  | request request =>
    cases hm : request.toMessage with
    | error e =>
      rw [begin_request_error hm]
      unfold Call.mute
      rw [begin_request_error hm]
      exact mute_finish s o _
    | ok a =>
      rw [begin_request_ok hm]
      unfold Call.mute
      rw [begin_request_ok hm]
      exact mute_proceed { s with tokens := s.tokens.take.2 } o _ _
  | observe request handler =>
    unfold begin Call.mute
    dsimp only
    split
    · rw [mute_note, mute_finish]
      rfl
    · exact mute_putOperation { s with tokens := s.tokens.take.2 } _
  | stop observation => exact mute_proceed s o _ _
  | shutdown =>
    unfold begin Call.mute
    dsimp only
    change mute (if s.joined then _ else _) = if s.joined then _ else _
    split
    · exact mute_finish { s with shutdown := true } o _
    · exact mute_putOperation { s with shutdown := true, joined := true } _

theorem mute_enroll (s : Session) (o : Operation) (request template : Message) (handler : Handler) :
    (s.enroll o request template handler).mute =
      s.mute.enroll o.mute request template Handler.mute := by
  have hregister : s.mute.subscriptions.register request.token s.mute.nextSerial =
      s.subscriptions.register request.token s.nextSerial := rfl
  unfold enroll
  rw [hregister]
  cases s.subscriptions.register request.token s.nextSerial with
  | error e =>
    dsimp only
    rw [mute_note, mute_finish]
    rfl
  | ok subscriptions =>
    dsimp only
    rw [mute_proceed]
    unfold mute
    dsimp only
    rw [List.map_append]
    rfl

theorem mute_conclude (s : Session) (o : Operation) (purpose : Purpose)
    (result : Except ClientError Response) :
    (s.conclude o purpose result).mute = s.mute.conclude o.mute purpose result := by
  cases purpose with
  | respond => cases result <;> exact mute_finish s o _
  | deregister token => cases result <;> exact mute_finish (s.unsubscribe token) o _
  | register token template =>
    cases result with
    | error e => exact mute_finish (s.unsubscribe token) o _
    | ok response =>
      unfold conclude
      dsimp only
      split
      · exact mute_finish { s with subscriptions := s.subscriptions.seed token _ } o _
      · exact mute_finish (s.unsubscribe token) o _

theorem mute_absorb (s : Session) (t : Task) (c : Connection.Stepped) :
    (s.absorb t c).mute = s.mute.absorb t c := by
  unfold absorb
  cases c.sent with
  | none => rfl
  | some a => exact mute_note { s with connection := c.connection } _

theorem mute_stepOperation (s : Session) (o : Operation) :
    (s.stepOperation o).map mute = s.mute.stepOperation o.mute := by
  obtain ⟨serial, cancelled, stage⟩ := o
  cases stage with
  | called call => exact congrArg some (mute_begin s _ call)
  | enrolling request template handler => exact congrArg some (mute_enroll s _ request template handler)
  | running purpose transfer exchange =>
    cases exchange with
    | ended outcome => exact congrArg some (mute_proceed s _ purpose _)
    | _ =>
      unfold stepOperation
      change ((s.connection.step cancelled _).map _).map mute = (s.connection.step cancelled _).map _
      rw [Option.map_map]
      refine Option.map_congr fun c _ => ?_
      change mute ((s.absorb _ c).putOperation _) = (s.mute.absorb _ c).putOperation _
      rw [mute_putOperation, mute_absorb]
      rfl
  | concluding purpose result => exact congrArg some (mute_conclude s _ purpose result)
  | joining =>
    have hreceiver : s.mute.receiver = s.receiver := rfl
    unfold stepOperation
    dsimp only [Operation.mute, Operation.Stage.mute]
    rw [hreceiver]
    cases s.receiver with
    | ended => exact congrArg some (mute_finish s _ _)
    | _ => rfl

theorem mute_deliver (s : Session) (w : Worker) (next : Stride Delivery (Option Notification)) :
    (s.deliver w next).mute = s.mute.deliver w.mute next := by
  unfold deliver
  cases next.turn with
  | ask request delivery => exact mute_putWorker (s.publish next.reports) _
  | finish result =>
    cases result with
    | none => exact mute_putWorker (s.publish next.reports) _
    | some notification =>
      dsimp only
      rw [mute_note, mute_putWorker]
      rfl

theorem mute_dismiss (s : Session) (w : Worker) : (s.dismiss w).mute = s.mute.dismiss w.mute := by
  have hfilter : (s.workers.filter fun v => v.serial != w.serial).map Worker.mute =
      (s.workers.map Worker.mute).filter fun v => v.serial != w.serial := by
    rw [List.filter_map]
    rfl
  unfold dismiss
  rw [mute_note]
  unfold mute
  dsimp only
  rw [hfilter]
  rfl

theorem mute_stepWorker (s : Session) (w : Worker) :
    (s.stepWorker w).map mute = s.mute.stepWorker w.mute := by
  obtain ⟨serial, owner, template, handler, current⟩ := w
  cases current with
  | none =>
    unfold stepWorker
    change Option.map mute (if s.isStopped serial then _ else _) = if s.isStopped serial then _ else _
    split
    · exact congrArg some (mute_dismiss s _)
    · change ((s.subscriptions.take serial).map _).map mute = (s.subscriptions.take serial).map _
      rw [Option.map_map]
      refine Option.map_congr fun taken _ => ?_
      exact mute_deliver { s with subscriptions := taken.2 } _ _
  | some current =>
    obtain ⟨delivery, exchange⟩ := current
    cases exchange with
    | ended outcome => exact congrArg some (mute_deliver s _ _)
    | _ =>
      unfold stepWorker
      change ((s.connection.step (s.isStopped serial) _).map _).map mute =
        (s.connection.step (s.isStopped serial) _).map _
      rw [Option.map_map]
      refine Option.map_congr fun c _ => ?_
      change mute ((s.absorb _ c).putWorker _) = (s.mute.absorb _ c).putWorker _
      rw [mute_putWorker, mute_absorb]
      rfl

theorem mute_route (s : Session) (a : Message) : (s.route a).mute = s.mute.route a := by
  unfold route
  split <;> rfl

theorem mute_listen (s : Session) : s.listen.map mute = s.mute.listen := by
  have hwire : s.mute.connection.wire = s.connection.wire := rfl
  have hshutdown : s.mute.shutdown = s.shutdown := rfl
  unfold listen
  rw [hwire, hshutdown]
  split
  · rfl
  · split
    · rfl
    · rfl
    · rfl
    · exact congrArg some (mute_route (s.setWire _) _)

theorem mute_stepReceiver (s : Session) : s.stepReceiver.map mute = s.mute.stepReceiver := by
  have hreceiver : s.mute.receiver = s.receiver := rfl
  have hwire : s.mute.connection.wire = s.connection.wire := rfl
  unfold stepReceiver
  rw [hreceiver, hwire]
  cases s.receiver with
  | listening => exact mute_listen s
  | replying reply =>
    dsimp only
    cases s.connection.wire.send reply with
    | none => rfl
    | some sent =>
      cases sent with
      | error e => rfl
      | ok wire => exact congrArg some (mute_note { s.setWire wire with receiver := .listening } _)
  | ending e ids => cases ids <;> rfl
  | _ => rfl

theorem mute_find?_operation (s : Session) (n : Nat) :
    (s.mute.operations.find? fun o => o.serial == n) =
      (s.operations.find? fun o => o.serial == n).map Operation.mute := by
  unfold mute
  rw [List.find?_map]
  rfl

theorem mute_find?_worker (s : Session) (n : Nat) :
    (s.mute.workers.find? fun w => w.serial == n) =
      (s.workers.find? fun w => w.serial == n).map Worker.mute := by
  unfold mute
  rw [List.find?_map]
  rfl

theorem mute_step (s : Session) (t : Task) : (s.step t).map mute = s.mute.step t := by
  unfold step
  cases t with
  | receiver => exact mute_stepReceiver s
  | operation serial =>
    dsimp only
    rw [mute_find?_operation]
    cases s.operations.find? fun o => o.serial == serial with
    | none => rfl
    | some o => exact mute_stepOperation s o
  | worker serial =>
    dsimp only
    rw [mute_find?_worker]
    cases s.workers.find? fun w => w.serial == serial with
    | none => rfl
    | some w => exact mute_stepWorker s w

/-! What comes from outside, with and without. -/

theorem mute_call (s : Session) (c : Call) (cancelled : Bool) :
    (s.call c cancelled).mute = s.mute.call c.mute cancelled := by
  unfold call mute
  dsimp only
  rw [List.map_append]
  rfl

theorem mute_cancel (s : Session) (n : Nat) : (s.cancel n).mute = s.mute.cancel n := by
  let mark (o : Operation) : Operation := if o.serial == n then { o with cancelled := true } else o
  have hmap : (s.operations.map mark).map Operation.mute =
      (s.operations.map Operation.mute).map mark := by
    rw [List.map_map, List.map_map]
    refine List.map_congr_left fun o _ => ?_
    change Operation.mute (if o.serial == n then { o with cancelled := true } else o) =
      if o.serial == n then { o.mute with cancelled := true } else o.mute
    split <;> rfl
  exact congrArg (fun operations => { s.mute with operations }) hmap

theorem mute_abort (s : Session) (n : Nat) : (s.abort n).mute = s.mute.abort n := by
  have hfilter : (s.operations.filter fun o => o.serial != n).map Operation.mute =
      (s.operations.map Operation.mute).filter fun o => o.serial != n := by
    rw [List.filter_map]
    rfl
  unfold abort
  rw [mute_find?_operation]
  cases s.operations.find? fun o => o.serial == n with
  | none => rfl
  | some o =>
    obtain ⟨serial, cancelled, stage⟩ := o
    unfold mute
    dsimp only [Option.map]
    rw [hfilter]
    cases stage <;> rfl

theorem mute_isGone (s : Session) : s.mute.isGone = s.isGone := by
  unfold isGone mute
  simp

theorem mute_message (s : Session) (a : Message) :
    ((s.arrive a).toOption.getD s).mute = (s.mute.arrive a).toOption.getD s.mute := by
  have hpipe : s.mute.connection.wire.pipe = s.connection.wire.pipe := rfl
  unfold arrive
  rw [mute_isGone, hpipe]
  split
  · rfl
  · cases s.connection.wire.pipe.peerSend a <;> rfl

theorem mute_accept (s : Session) (i : Input) : (s.accept i).mute = s.mute.accept i.mute := by
  cases i with
  | call c cancelled => exact mute_call s c cancelled
  | cancel n => exact mute_cancel s n
  | abort n => exact mute_abort s n
  | message a => exact mute_message s a
  | _ => rfl

/-- Without its handlers a session takes the same moves, to the same session without handlers. -/
theorem mute_move (s : Session) (m : Move) : (s.move m).map mute = s.mute.move m.mute := by
  cases m with
  | step t => exact mute_step s t
  | input i => exact congrArg some (mute_accept s i)

/-- A run in which handlers react as they like is, without handlers, the run in which they do not. -/
theorem Reacts.mute_run (h : Reacts s moves s') :
    ∃ t, s.run moves = some t ∧ s'.mute = t.mute := by
  suffices hany : ∀ r : Session, r.mute = s.mute → ∃ t, r.run moves = some t ∧ s'.mute = t.mute from
    hany s rfl
  -- The induction is over all sessions that differ in their handlers only.
  induction h with
  | done same => exact fun r hr => ⟨r, rfl, same.trans hr.symm⟩
  | move step same later ih =>
    rename_i s s₁ s₂ s' m rest
    intro r hr
    have hmute : (r.move m).map mute = some s₁.mute := by
      rw [mute_move, hr, ← mute_move, step]
      rfl
    obtain ⟨r₁, hr₁, hsame⟩ := Option.map_eq_some_iff.mp hmute
    obtain ⟨t, ht, hs'⟩ := ih r₁ (hsame.trans same.symm)
    refine ⟨t, ?_, hs'⟩
    unfold run
    rw [hr₁]
    exact ht

end Session

end Coap
