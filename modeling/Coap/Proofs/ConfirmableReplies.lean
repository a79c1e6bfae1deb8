import Coap.Proofs.WireLog

/-! Replies to confirmable messages: each confirmable message that is received gets one, an
acknowledgement if there is a subscription with its token and a reset if not, and nothing else gets
any. -/
namespace Coap

/-- Whether a message is an acknowledgement or a reset without a code. -/
def Message.isEmptyReply (m : Message) : Bool := decide (m.code = .empty) && m.isAnswer

/-! Requests have codes -/

/-- What is made of a message with a code has a code as well. -/
theorem hereditary_coded : Hereditary fun m => m.code ≠ .empty where
  registered := by
    intro request m token hm _ hcode
    have hget : m.code = .request .get := Request.code_of_toMessage hm
    change m.code = .empty at hcode
    rw [hget] at hcode
    cases hcode
  toInherited := inherited_header fun code _ => code ≠ .empty
  unobserved := fun h => h
  deregistered := fun h => h

/-- The reply that an event says has been sent. -/
def Event.reply? : Event → Option Message
  | .sent .receiver m => some m
  | _ => none

/-- Of all that has been sent, what the receiver has sent are the empty replies. -/
theorem filter_isEmptyReply {events : List Event}
    (h : ∀ e ∈ events, e.Carries (.plain fun m => m.code ≠ .empty)) :
    (events.filterMap Event.sent?).filter Message.isEmptyReply = events.filterMap Event.reply? := by
  have hcoded {m : Message} (hm : m.code ≠ .empty) : (some m).filter Message.isEmptyReply = none := by
    simp [Message.isEmptyReply, hm]
  rw [List.filter_filterMap]
  apply List.filterMap_congr
  intro e he
  have hcarries := h e he
  cases e with
  | sent t m =>
    cases t with
    | receiver =>
      obtain ⟨a, type, -, htype, rfl⟩ := hcarries
      rcases htype with rfl | rfl
      · rfl
      · rfl
    | operation n => exact hcoded hcarries.1
    | worker n => exact hcoded hcarries.1
  | _ => rfl

namespace Session

/-- The reply to a message that is routed, if it is a confirmable one. -/
def dueReply (s : Session) (a : Message) : Option Message :=
  match a.type with
  | .confirmable => some {
      type := if s.subscriptions.isActive a.token then .acknowledgement else .reset
      code := .empty
      id := a.id
      token := ByteArray.empty
      options := []
      payload := ByteArray.empty }
  | .nonConfirmable | .acknowledgement | .reset => none

/-- The replies to the messages that a move routes. -/
def dues (s : Session) (m : Move) : List Message := (s.routed m).filterMap s.dueReply

/-- The reply that a move hands to the transport, and whether the transport takes it. -/
def attempts (s : Session) : Move → List (Message × Bool)
  | .step .receiver =>
    match s.receiver.reply? with
    | none => []
    | some reply =>
      match s.connection.wire.send reply with
      | none => []
      | some (.error _) => [(reply, false)]
      | some (.ok _) => [(reply, true)]
  | _ => []

/-- Those replies that the transport has taken. -/
def taken (attempts : List (Message × Bool)) : List Message :=
  (attempts.filter Prod.snd).map Prod.fst

variable {s s' : Session} {m : Move}

theorem dueReply_eq (s : Session) (a : Message) :
    s.dueReply a = if a.type = .confirmable then some (replyTo a (s.replyType a)) else none := by
  unfold dueReply
  cases a.type <;> rfl

/-- Only the receiver replies. -/
theorem idle_of_other (s : Session) (h : m ≠ .step .receiver) : s.dues m = [] ∧ s.attempts m = [] := by
  cases m with
  | input i => exact ⟨rfl, rfl⟩
  | step t =>
    cases t with
    | receiver => exact absurd rfl h
    | operation n => exact ⟨rfl, rfl⟩
    | worker n => exact ⟨rfl, rfl⟩

theorem attempts_of_quiet (h : s.receiver.reply? = none) : s.attempts m = [] := by
  unfold attempts
  split
  · rw [h]
  · rfl

/-- What a move hands to the transport, and what it leaves to be handed on, are the reply that was
there before and the ones that it makes due. -/
theorem dues_of_move (hs : s.move m = some s') :
    s.receiver.reply?.toList ++ s.dues m =
      (s.attempts m).map Prod.fst ++ s'.receiver.reply?.toList := by
  -- Other moves do neither; of the steps of the receiver, routing makes a reply due and replying
  -- hands it on.
  by_cases hm : m = .step .receiver
  · subst hm
    have hs : s.stepReceiver = some s' := hs
    -- Where nothing is routed and there was no reply, there is none afterwards.
    have hrest (hbefore : s.receiver.reply? = none) (hafter : s'.receiver.reply? = none)
        (hrouted : s.routed (.step .receiver) = []) :
        s.receiver.reply?.toList ++ s.dues (.step .receiver) =
          (s.attempts (.step .receiver)).map Prod.fst ++ s'.receiver.reply?.toList := by
      unfold dues
      rw [attempts_of_quiet hbefore, hbefore, hafter, hrouted]
      rfl
    cases reception_of_step hs with
    | routed a wire phase going arrival next =>
      have hbefore : s.receiver.reply? = none := by
        rw [phase]
        rfl
      have hafter : s'.receiver.reply? = s.dueReply a := by
        have hsame : (s.setWire wire).receiver = s.receiver := rfl
        rw [next, receiver_route, dueReply_eq, hsame]
        split
        · rfl
        · exact hbefore
      unfold dues
      rw [attempts_of_quiet hbefore, hbefore, hafter, routed_of_arrival phase going arrival]
      cases hdue : s.dueReply a <;> simp [hdue]
    | replied reply wire log phase next =>
      have hafter : s'.receiver.reply? = none := by
        rw [next]
        rfl
      have hattempt : (s.attempts (.step .receiver)).map Prod.fst = [reply] := by
        unfold attempts
        rw [phase]
        rcases step_of_replying phase hs with ⟨e, hsend, -⟩ | ⟨wire', hsend, -⟩
        · simp only [Receiver.reply?, hsend]
          rfl
        · simp only [Receiver.reply?, hsend]
          rfl
      have hrouted : s.routed (.step .receiver) = [] := routed_of_phase (by rw [phase]; nofun)
      unfold dues
      rw [hattempt, hafter, hrouted, phase]
      rfl
    | stopped e wire phase quiet next =>
      exact hrest (by rw [phase]; rfl) (by rw [next]; rfl) (routed_of_quiet quiet)
    | shut e phase next | collected e phase next | failed e id ids phase next
    | drained e phase next | cleared phase next | closed phase next =>
      exact hrest (by rw [phase]; rfl) (by rw [next]; rfl) (routed_of_phase (by rw [phase]; nofun))
  · have hreceiver : s'.receiver = s.receiver := (receiver_of_move hs hm).1
    obtain ⟨hdues, hattempts⟩ := idle_of_other s hm
    rw [hdues, hattempts, hreceiver, List.append_nil]
    rfl

/-- The receiver sends the replies that the transport takes, and nothing else. -/
theorem replies_of_move (hs : s.move m = some s') :
    s'.log.toList.filterMap Event.reply? =
      s.log.toList.filterMap Event.reply? ++ taken (s.attempts m) := by
  by_cases hm : m = .step .receiver
  · subst hm
    have hs : s.stepReceiver = some s' := hs
    have hquiet (hbefore : s.receiver.reply? = none) (hlog : s'.log = s.log) :
        s'.log.toList.filterMap Event.reply? =
          s.log.toList.filterMap Event.reply? ++ taken (s.attempts (.step .receiver)) := by
      rw [attempts_of_quiet hbefore, hlog]
      exact (List.append_nil _).symm
    cases reception_of_step hs with
    | replied reply wire log phase next =>
      rcases step_of_replying phase hs with ⟨e, hsend, rfl⟩ | ⟨wire', hsend, rfl⟩
      · have hattempts : s.attempts (.step .receiver) = [(reply, false)] := by
          simp only [attempts, phase, Receiver.reply?, hsend]
        rw [hattempts]
        exact (List.append_nil _).symm
      · have hattempts : s.attempts (.step .receiver) = [(reply, true)] := by
          simp only [attempts, phase, Receiver.reply?, hsend]
        rw [hattempts]
        exact (congrArg _ Array.toList_push).trans List.filterMap_append
    | routed a wire phase going arrival next =>
      exact hquiet (by rw [phase]; rfl) (quiet_of_listening phase hs).2
    | stopped e wire phase quiet next =>
      exact hquiet (by rw [phase]; rfl) (quiet_of_listening phase hs).2
    | shut e phase next | collected e phase next | failed e id ids phase next
    | drained e phase next | cleared phase next | closed phase next =>
      exact hquiet (by rw [phase]; rfl) (by subst next; rfl)
  · have hnone : taken (s.attempts m) = [] := by
      rw [(idle_of_other s hm).2]
      rfl
    rw [hnone, List.append_nil]
    apply filterMap_log_eq hs
    intro e he
    cases e with
    | sent t a =>
      cases t with
      | receiver => exact absurd he hm
      | _ => rfl
    | _ => rfl

/-- Only a network that holds sends back keeps a reply from being sent or given up. -/
theorem step_of_reply {reply : Message} (h : s.receiver.reply? = some reply)
    (hheld : s.connection.wire.held = false) : (s.step .receiver).isSome = true := by
  have hsend : ∃ result, s.connection.wire.send reply = some result := by
    unfold Wire.send
    rw [hheld]
    cases s.connection.wire.sendFault with
    | none => exact ⟨_, rfl⟩
    | some e => exact ⟨_, rfl⟩
  obtain ⟨result, hresult⟩ := hsend
  change s.stepReceiver.isSome = true
  unfold stepReceiver
  cases hphase : s.receiver with
  | replying m =>
    rw [hphase] at h
    cases h
    dsimp only
    rw [hresult]
    cases result with
    | error e => rfl
    | ok wire => rfl
  | _ =>
    rw [hphase] at h
    cases h

/-- The replies that are due along a run, in the order in which their messages are received. -/
def duesOf (first : Session) (past : List Move) : List Message := along dues first past

/-- The replies that are handed to the transport along a run. -/
def attemptsOf (first : Session) (past : List Move) : List (Message × Bool) :=
  along attempts first past

theorem taken_append (before after : List (Message × Bool)) :
    taken (before ++ after) = taken before ++ taken after := by
  unfold taken
  rw [List.filter_append, List.map_append]

theorem dues_run {first : Session} {past : List Move} (hquiet : first.receiver.reply? = none)
    (hs : first.run past = some s) :
    duesOf first past = (attemptsOf first past).map Prod.fst ++ s.receiver.reply?.toList := by
  refine run_induction (P := fun past s =>
    duesOf first past = (attemptsOf first past).map Prod.fst ++ s.receiver.reply?.toList) ?_ ?_ hs
  · rw [hquiet]
    rfl
  · intro past s m s' hpast h hmove
    have hdues : duesOf first (past ++ [m]) = duesOf first past ++ s.dues m :=
      along_concat dues hpast m
    have hattempts : attemptsOf first (past ++ [m]) = attemptsOf first past ++ s.attempts m :=
      along_concat attempts hpast m
    calc duesOf first (past ++ [m])
        = (attemptsOf first past).map Prod.fst ++ (s.receiver.reply?.toList ++ s.dues m) := by
          rw [hdues, h, List.append_assoc]
      _ = (attemptsOf first past).map Prod.fst ++
            ((s.attempts m).map Prod.fst ++ s'.receiver.reply?.toList) := by rw [dues_of_move hmove]
      _ = (attemptsOf first (past ++ [m])).map Prod.fst ++ s'.receiver.reply?.toList := by
          rw [hattempts, List.map_append, List.append_assoc]

theorem replies_run {first : Session} {past : List Move} (hs : first.run past = some s) :
    s.log.toList.filterMap Event.reply? =
      first.log.toList.filterMap Event.reply? ++ taken (attemptsOf first past) := by
  refine run_induction (P := fun past s => s.log.toList.filterMap Event.reply? =
    first.log.toList.filterMap Event.reply? ++ taken (attemptsOf first past)) ?_ ?_ hs
  · exact (List.append_nil _).symm
  · intro past s m s' hpast h hmove
    have hattempts : attemptsOf first (past ++ [m]) = attemptsOf first past ++ s.attempts m :=
      along_concat attempts hpast m
    rw [replies_of_move hmove, h, hattempts, taken_append, List.append_assoc]

/-- Each confirmable message that is received gets one reply, in the order in which the messages are
received: an empty acknowledgement with its id if there is a subscription with its token at that
moment, and an empty reset if not. A reply is handed to the transport before anything else is
received, and only the network can hold it back. The empty acknowledgements and resets on the wire are
those replies that the transport has taken, and no others, where requests have codes and observations
are stopped as they were returned. -/
theorem confirmable_messages_are_answered_once {options : ConnectOptions} {pipe : Pipe}
    {messageIds : MessageIds} {tokens : Tokens} {timer : Timer} {past : List Move}
    (hs : (start options pipe messageIds tokens timer).run past = some s)
    (hcoded : ∀ r cancelled, .input (.call (.request r) cancelled) ∈ past → r.message.code ≠ .empty)
    (hstops : ∀ o cancelled, .input (.call (.stop o) cancelled) ∈ past → o.IsReturned) :
    let first := start options pipe messageIds tokens timer
    duesOf first past = (attemptsOf first past).map Prod.fst ++ s.receiver.reply?.toList ∧
    s.connection.wire.pipe.toPeer.filter Message.isEmptyReply =
      pipe.toPeer.filter Message.isEmptyReply ++ taken (attemptsOf first past) ∧
    (s.receiver.reply?.isSome = true →
      s.connection.wire.held = true ∨ (s.step .receiver).isSome = true) := by
  intro first
  refine ⟨dues_run rfl hs, ?_, ?_⟩
  · have hcarries : s.Carries (.plain fun m => m.code ≠ .empty) := by
      refine carries_of_requests hereditary_coded hs ?_ hstops
      intro r cancelled hmove m token hm _ hempty
      exact hcoded r cancelled hmove ((Request.code_of_toMessage hm).symm.trans hempty)
    rw [toPeer_of_run hs, List.filter_append]
    unfold sentMessages
    rw [filter_isEmptyReply hcarries.log, replies_run hs]
    rfl
  · intro hreply
    obtain ⟨reply, hreply⟩ := Option.isSome_iff_exists.mp hreply
    cases hheld : s.connection.wire.held with
    | true => exact .inl rfl
    | false =>
      exact .inr (step_of_reply hreply hheld)

/-- Messages that come to a client with one observation, the confirmable ones twice so that the
second is stale, and one whose reply the transport refuses. -/
def arrivingMoves : List Move :=
  let notice (type : MessageType) (id : UInt16) (token : ByteArray) : Message :=
    { type, code := .response .content, id, token, options := [.observe 6] }
  let taking (m : Message) (steps : Nat) : List Move :=
    .input (.message m) :: List.replicate steps (.step .receiver)
  taking (notice .confirmable 7 (Wire.eightBytes 0)) 2 ++
    taking (notice .confirmable 8 (Wire.eightBytes 0)) 2 ++
    taking (notice .confirmable 9 (Wire.eightBytes 5)) 2 ++
    taking (notice .nonConfirmable 10 (Wire.eightBytes 0)) 1 ++
    taking (notice .reset 11 (Wire.eightBytes 5)) 1 ++ [.input (.failSends (some .closed))] ++
    taking (notice .confirmable 12 (Wire.eightBytes 5)) 2

/-- Of four replies that are due, to a fresh notification, a stale one and two messages that nobody
waits for, the transport takes three. -/
theorem arriving_messages_are_answered : ∃ s, observingClient.run (acceptedMoves ++ arrivingMoves) = some s ∧
    (duesOf observingClient (acceptedMoves ++ arrivingMoves)).map (fun m => (m.type, m.id)) =
      [(.acknowledgement, 7), (.acknowledgement, 8), (.reset, 9), (.reset, 12)] ∧
    (s.connection.wire.pipe.toPeer.filter Message.isEmptyReply).map (fun m => (m.type, m.id)) =
      [(.acknowledgement, 7), (.acknowledgement, 8), (.reset, 9)] := by
  have hends : (observingClient.run (acceptedMoves ++ arrivingMoves)).isSome = true := rfl
  obtain ⟨s, hs⟩ := Option.isSome_iff_exists.mp hends
  have hcalls (c : Call) (cancelled : Bool)
      (hc : .input (.call c cancelled) ∈ acceptedMoves ++ arrivingMoves) :
      .input (.call c cancelled) = observeCall := by
    simpa [acceptedMoves, arrivingMoves, observeCall] using hc
  obtain ⟨-, hwire, -⟩ := confirmable_messages_are_answered_once hs
    (fun r cancelled hr => nomatch hcalls _ _ hr) (fun o cancelled ho => nomatch hcalls _ _ ho)
  refine ⟨s, hs, rfl, ?_⟩
  rw [hwire]
  rfl

end Session

end Coap
