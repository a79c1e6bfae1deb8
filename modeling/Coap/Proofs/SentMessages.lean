import Coap.Proofs.SessionMessages

/-! Everything that is handed to the transport is a valid message, and a request that could be sent
at all leads to valid messages only. -/
namespace Coap

theorem Message.Valid.removeOptions {m : Message} (h : m.Valid) (number : UInt16) :
    (m.removeOptions number).Valid where
  token := h.token
  data := h.data
  options := fun o ho => h.options o (List.mem_filter.mp ho).1

theorem deregistration_encodes : (MessageOption.observe Session.observeDeregister).Encodes :=
  MessageOption.encodes_iff_inLimits.mpr (by decide)

/-- A valid request stays valid, whatever is made of it. -/
theorem hereditary_valid : Hereditary Message.Valid where
  registered := fun hm htoken =>
    (Session.valid_of_toMessage hm).withToken (Nat.le_of_eq htoken)
  numbered := fun id h => h.numbered id
  followUp := fun h => h.followUp
  unobserved := fun h => h.removeOptions _
  deregistered := fun h => h.setOption deregistration_encodes
  part := fun h hpayload htemplate hr => Upload.request_valid h hpayload htemplate hr
  next := fun h hr => Download.request_valid h hr

namespace Session

/-- The message that a task is about to hand to the transport. -/
def outgoing (s : Session) : Task → Option Message
  | .receiver => s.receiver.reply?
  | t => match s.exchangeOf t with
    | some (.sending request _) => some request
    | _ => none

theorem valid_of_isReply {m : Message} (h : m.IsReply) : m.Valid := by
  obtain ⟨a, type, -, -, rfl⟩ := h
  refine ⟨Nat.zero_le _, fun _ => rfl, ?_⟩
  intro o ho
  cases ho

/-- Whatever a task is about to hand to the transport, or has sent, passes the check for messages.
If observations are stopped only as they were returned, the check finds nothing wrong with any message
that comes to it: none of the changes made to a request that could be sent, or to the template of an
observation, has made it invalid. -/
theorem only_valid_messages_are_sent {options : ConnectOptions} {pipe : Pipe}
    {messageIds : MessageIds} {tokens : Tokens} {timer : Timer} {past : List Move} {s : Session}
    (hs : (start options pipe messageIds tokens timer).run past = some s) :
    (∀ t m, s.outgoing t = some m → m.validate = .ok ()) ∧
    (∀ t m, .sent t m ∈ s.log.toList → m.validate = .ok ()) ∧
    ((∀ o cancelled, .input (.call (.stop o) cancelled) ∈ past → o.IsReturned) →
      ∀ t m, s.exchangeOf t = some (.begun m) → m.validate = .ok ()) := by
  have hcarries := carries_true hs
  refine ⟨?_, ?_, ?_⟩
  · intro t m hm
    apply Message.validate_eq_ok_iff.mpr
    have hexchange {t : Task} (hm : (match s.exchangeOf t with
        | some (.sending request _) => some request
        | _ => none) = some m) : m.Valid := by
      split at hm
      · rename_i he
        cases hm
        exact (hcarries.exchange he).2
      · cases hm
    cases t with
    | receiver => exact valid_of_isReply (hcarries.reply m hm)
    | operation n => exact hexchange hm
    | worker n => exact hexchange hm
  · intro t m hm
    apply Message.validate_eq_ok_iff.mpr
    have hevent := hcarries.log _ hm
    cases t with
    | receiver => exact valid_of_isReply hevent
    | operation n => exact hevent.2
    | worker n => exact hevent.2
  · intro hstops t m he
    have hvalid : s.Carries (.plain Message.Valid) := by
      refine carries_of_requests hereditary_valid hs ?_ hstops
      intro r _ _ m token hm htoken
      exact (valid_of_toMessage hm).withToken (Nat.le_of_eq htoken)
    exact Message.validate_eq_ok_iff.mpr (hvalid.exchange he)

/-- The message by which the observation is stopped is found to be valid. -/
theorem stopping_sends_a_valid_message :
    ∃ s m, observingClient.run (acceptedMoves ++
        [.input (.call (.stop acceptedObservation) false), .step (.operation 2)]) = some s ∧
      s.exchangeOf (.operation 2) = some (.begun m) ∧
      m = { acceptedObservation.template with options := [.observe 1] } ∧ m.validate = .ok () := by
  have hends : (observingClient.run (acceptedMoves ++
      [.input (.call (.stop acceptedObservation) false), .step (.operation 2)])).map
        (fun s => s.exchangeOf (.operation 2)) =
      some (some (.begun { acceptedObservation.template with options := [.observe 1] })) := rfl
  obtain ⟨s, hs, he⟩ := Option.map_eq_some_iff.mp hends
  obtain ⟨-, -, hbegun⟩ := only_valid_messages_are_sent hs
  refine ⟨s, _, hs, he, rfl, hbegun ?_ (.operation 2) _ he⟩
  intro o cancelled ho
  have hstop : o = acceptedObservation ∧ cancelled = false := by
    simpa [acceptedMoves, observeCall] using ho
  rw [hstop.1]
  exact acceptedObservation_isReturned

end Session

end Coap
