import Coap.Proofs.SessionMessages

/-! The log of a session and its wire agree: what the log says has been sent is what the transport has
taken, in the same order. -/
namespace Coap

/-- The message that an event says has been sent. -/
def Event.sent? : Event → Option Message
  | .sent _ m => some m
  | _ => none

namespace Wire

theorem toPeer_send {w w' : Wire} {m : Message} (h : w.send m = some (.ok w')) :
    w'.pipe.toPeer = w.pipe.toPeer ++ [m] := by
  unfold send Pipe.send at h
  split at h
  · cases h
  split at h
  · cases h
  split at h
  · cases h
  · cases h
    rfl

/-- Receiving takes nothing from what has been sent. -/
theorem toPeer_receive {w w' : Wire} {a : Arrival} (h : w.receive = .ok (a, w')) :
    w'.pipe.toPeer = w.pipe.toPeer := by
  have hpipe : w.pipe.receive.2.toPeer = w.pipe.toPeer := by
    unfold Pipe.receive
    split
    · rfl
    · split <;> rfl
  unfold receive at h
  split at h
  · cases h
  · cases h
    exact hpipe

end Wire

/-- A step of an exchange hands at most one message to the transport. -/
theorem Connection.toPeer_step {c : Connection} {cancelled : Bool} {e : Exchange}
    {stepped : Connection.Stepped} (hs : c.step cancelled e = some stepped) :
    stepped.connection.wire.pipe.toPeer = c.wire.pipe.toPeer ++ stepped.sent.toList := by
  cases advance_of_step hs with
  | sent send => exact Wire.toPeer_send send
  | _ => exact (List.append_nil _).symm

namespace Session

/-- All messages that have been sent so far. -/
def sentMessages (s : Session) : List Message := s.log.toList.filterMap Event.sent?

/-- The wire and the log have both grown by the messages `added`. -/
structure Sends (added : List Message) (s s' : Session) : Prop where
  wire : s'.connection.wire.pipe.toPeer = s.connection.wire.pipe.toPeer ++ added
  log : s'.sentMessages = s.sentMessages ++ added

variable {s s' : Session} {o : Operation} {w : Worker} {m : Move}

theorem Sends.nothing (hwire : s'.connection.wire.pipe.toPeer = s.connection.wire.pipe.toPeer)
    (hlog : s'.sentMessages = s.sentMessages) : Sends [] s s' where
  wire := by rw [hwire, List.append_nil]
  log := by rw [hlog, List.append_nil]

theorem sentMessages_of_log (h : s'.log = s.log) : s'.sentMessages = s.sentMessages := by
  unfold sentMessages
  rw [h]

theorem sentMessages_of_push {e : Event} (h : s'.log = s.log.push e) :
    s'.sentMessages = s.sentMessages ++ e.sent?.toList := by
  unfold sentMessages
  rw [h, Array.toList_push, List.filterMap_append]
  cases he : e.sent? <;> simp [he]

theorem sentMessages_of_grown {Q : Event → Prop} (h : Grown Q s s')
    (hnone : ∀ e, Q e → e.sent? = none) : s'.sentMessages = s.sentMessages := by
  obtain ⟨added, hlog, hall⟩ := h
  have hadded : added.filterMap Event.sent? = [] :=
    List.filterMap_eq_nil_iff.mpr fun e he => hnone e (hall e he)
  unfold sentMessages
  rw [hlog, List.filterMap_append, hadded, List.append_nil]

/-! A turn of a task outside its exchanges sends nothing -/

theorem sent?_of_closes {n : Nat} {e : Event} (h : Closes n e) : e.sent? = none := by
  rcases h with ⟨c, rfl⟩ | rfl
  · rfl
  · rfl

theorem sentMessages_of_operation (hs : s.stepOperation o = some s')
    (hidle : ∀ e, o.exchange? = some e → ∃ r, e = .ended r) : s'.sentMessages = s.sentMessages := by
  obtain ⟨serial, cancelled, stage⟩ := o
  have hcloses {s' : Session} (h : Grown (Closes serial) s s') : s'.sentMessages = s.sentMessages :=
    sentMessages_of_grown h fun _ => sent?_of_closes
  cases stage with
  | called call =>
    cases hs
    exact hcloses (grown_begin s _ call)
  | enrolling request template handler =>
    cases hs
    exact hcloses (grown_enroll s _ request template handler)
  | running purpose transfer exchange =>
    obtain ⟨outcome, rfl⟩ := hidle exchange rfl
    cases hs
    exact sentMessages_of_log (log_proceed s _ _ _)
  | concluding purpose result =>
    cases hs
    exact hcloses (grown_conclude s _ purpose result)
  | joining =>
    unfold stepOperation at hs
    dsimp only at hs
    split at hs
    · cases hs
      exact hcloses (grown_finish s _ _)
    · cases hs

theorem sentMessages_of_worker (hs : s.stepWorker w = some s')
    (hidle : ∀ e, w.exchange? = some e → ∃ r, e = .ended r) : s'.sentMessages = s.sentMessages := by
  have hdeliver (s : Session) (next : Stride Delivery (Option Notification)) :
      (s.deliver w next).sentMessages = s.sentMessages := by
    have hcalls : Grown (fun e => ∃ n r, e = .notified w.owner n r) s (s.deliver w next) :=
      grown_deliver s next fun n r => ⟨n, r, rfl⟩
    refine sentMessages_of_grown hcalls ?_
    rintro e ⟨n, r, rfl⟩
    rfl
  unfold stepWorker at hs
  cases hcurrent : w.current with
  | none =>
    rw [hcurrent] at hs
    dsimp only at hs
    split at hs
    · cases hs
      exact (sentMessages_of_push rfl).trans (List.append_nil _)
    · obtain ⟨⟨notification, subscriptions⟩, -, rfl⟩ := Option.map_eq_some_iff.mp hs
      exact hdeliver { s with subscriptions } _
  | some current =>
    obtain ⟨delivery, exchange⟩ := current
    obtain ⟨outcome, rfl⟩ := hidle exchange (by rw [Worker.exchange?, hcurrent, Option.map_some])
    rw [hcurrent] at hs
    cases hs
    exact hdeliver s _

/-- While it listens the receiver sends nothing. -/
theorem quiet_of_listening (hphase : s.receiver = .listening) (hs : s.stepReceiver = some s') :
    s'.connection.wire.pipe.toPeer = s.connection.wire.pipe.toPeer ∧ s'.log = s.log := by
  have hroute (s : Session) (a : Message) : (s.route a).connection.wire = s.connection.wire := by
    unfold route
    split <;> rfl
  simp only [stepReceiver, hphase, listen] at hs
  split at hs
  · cases hs
    exact ⟨rfl, rfl⟩
  split at hs
  · cases hs
    exact ⟨rfl, rfl⟩
  · cases hs
  · rename_i wire hreceive
    cases hs
    exact ⟨Wire.toPeer_receive hreceive, rfl⟩
  · rename_i a wire hreceive
    cases hs
    refine ⟨?_, log_route _ a⟩
    rw [hroute]
    exact Wire.toPeer_receive hreceive

/-- Of the steps of the receiver only one sends anything. -/
theorem sends_of_receiver (hs : s.stepReceiver = some s') : ∃ added, Sends added s s' := by
  have hquiet (hwire : s'.connection.wire.pipe.toPeer = s.connection.wire.pipe.toPeer)
      (hlog : s'.log = s.log) : ∃ added, Sends added s s' :=
    ⟨[], .nothing hwire (sentMessages_of_log hlog)⟩
  cases reception_of_step hs with
  | routed a wire phase going arrival next =>
    obtain ⟨hwire, hlog⟩ := quiet_of_listening phase hs
    exact hquiet hwire hlog
  | stopped e wire phase quiet next =>
    obtain ⟨hwire, hlog⟩ := quiet_of_listening phase hs
    exact hquiet hwire hlog
  | replied reply wire log phase next =>
    rcases step_of_replying phase hs with ⟨e, -, rfl⟩ | ⟨wire', hsend, rfl⟩
    · exact hquiet rfl rfl
    · refine ⟨[reply], Wire.toPeer_send hsend, ?_⟩
      exact @sentMessages_of_push s _ (.sent .receiver reply) rfl
  | shut e phase next | collected e phase next
  | failed e id ids phase next | drained e phase next | cleared phase next | closed phase next =>
    subst next
    exact hquiet rfl rfl

/-- Whatever a move sends is added to the wire and to the log. -/
theorem sends_of_move (hs : s.move m = some s') : ∃ added, Sends added s s' := by
  cases effect_of_move hs with
  | received step _ => exact sends_of_receiver step
  | @exchanged task e c only before step connection after =>
    have hgoing : ∀ r, e ≠ .ended r := by
      rintro r rfl
      cases step
    obtain ⟨c', hc', -, hlog⟩ := log_of_exchange before hgoing hs
    obtain rfl : c = c' := Option.some.inj (step.symm.trans hc')
    refine ⟨c.sent.toList, ?_, ?_⟩
    · rw [connection]
      exact Connection.toPeer_step step
    · cases hsent : c.sent with
      | none =>
        rw [hsent] at hlog
        rw [sentMessages_of_log hlog]
        exact (List.append_nil _).symm
      | some a =>
        rw [hsent] at hlog
        exact sentMessages_of_push hlog
  | @turned task own only before connection after =>
    have hwire : s'.connection.wire.pipe.toPeer = s.connection.wire.pipe.toPeer := by rw [connection]
    refine ⟨[], .nothing hwire ?_⟩
    cases task with
    | receiver => exact absurd rfl own
    | operation n =>
      obtain ⟨o, ho, hstep⟩ := operation_of_step hs
      rw [exchangeOf_operation ho] at before
      exact sentMessages_of_operation hstep before
    | worker n =>
      obtain ⟨w, hw, hstep⟩ := worker_of_step hs
      rw [exchangeOf_worker hw] at before
      exact sentMessages_of_worker hstep before
  | dropped only exchanges closed wire after =>
    cases hs
    exact ⟨[], .nothing (by rw [wire]) (sentMessages_of_log (log_accept s _))⟩
  | disturbed kept receiver exchanges closed shut toPeer =>
    cases hs
    exact ⟨[], .nothing toPeer (sentMessages_of_log (log_accept s _))⟩

/-- What the transport has taken along a run is what the log says has been sent. -/
theorem toPeer_of_run {options : ConnectOptions} {pipe : Pipe} {messageIds : MessageIds}
    {tokens : Tokens} {timer : Timer} {past : List Move}
    (hs : (start options pipe messageIds tokens timer).run past = some s) :
    s.connection.wire.pipe.toPeer = pipe.toPeer ++ s.sentMessages := by
  have hfirst : (start options pipe messageIds tokens timer).connection.wire.pipe.toPeer =
      pipe.toPeer ++ (start options pipe messageIds tokens timer).sentMessages :=
    (List.append_nil _).symm
  refine run_induction
    (P := fun _ s => s.connection.wire.pipe.toPeer = pipe.toPeer ++ s.sentMessages) hfirst ?_ hs
  intro _ s m s' _ h hmove
  obtain ⟨added, hwire, hsent⟩ := sends_of_move hmove
  rw [hwire, hsent, h, List.append_assoc]

end Session

end Coap
