import Coap.Proofs.Conversation
import Coap.Proofs.SessionFrame

/-! A request of a caller, in a session where anything else may go on at the same time, to an honest
server: the server gets the payload that the caller gave, and the caller gets the body that the
server has. -/
namespace Coap

namespace Session

/-- The exchange that an operation is in. -/
def exchange? (s : Session) (n : Nat) : Option Exchange :=
  match s.operation? n with
  | some { stage := .running _ _ exchange, .. } => some exchange
  | _ => none

/-- Whether a move leaves the exchange of an operation to the server: once its request has been
found valid, it ends with the answer to the requests so far, and in no other way. -/
def leaves (n : Nat) (server : List Message → Message) (s s' : Session) : Bool :=
  match s.exchange? n, s'.exchange? n with
  | some (.begun _), _ | some (.ended _), _ => true
  | some _, some (.ended (.ok answer)) => answer = server (s.requestsOf n)
  | some _, some (.ended (.error _)) => false
  | _, _ => true

/-- Whether a move stops an operation. -/
def isStop (n : Nat) : Move → Bool
  | .input i => stops n i
  | .step _ => false

/-- A run in which an operation is not stopped, and its exchanges are left to the server. -/
def servedRun (n : Nat) (server : List Message → Message) (s : Session) : List Move → Option Session
  | [] => some s
  | m :: rest => (s.move m).bind fun s' =>
    if !isStop n m && leaves n server s s' then s'.servedRun n server rest else none

/-- The number of steps that an operation takes in a run. -/
def stepsOf (n : Nat) (moves : List Move) : Nat :=
  moves.countP fun m => match m with
    | .step task => task == .operation n
    | .input _ => false

/-- Whether an operation has to wait: until its message may be sent, or until it has been answered.
-/
inductive Waits (s : Session) (n : Nat) : Prop
  | held {r : Message} {w : Waiter} :
      s.exchange? n = some (.sending r w) → s.connection.wire.held = true → Waits s n
  | unanswered {w : Waiter} {deadline : Nat} :
      s.exchange? n = some (.waiting w deadline) →
      s.connection.exchanges.fetch w false (deadline ≤ s.connection.clock) = none → Waits s n

end Session

/-- Where an exchange for the request `r` stands after the requests `sent`: its phase, the requests
with its own one as soon as that has been sent, and the number of steps so far. -/
inductive Stands (server : List Message → Message) (r : Message) (sent : List Message) :
    Exchange → List Message → Nat → Prop
  | begun : Stands server r sent (.begun r) sent 0
  | checked : Stands server r sent (.checked r) sent 1
  | registered (w : Waiter) : Stands server r sent (.registered { r with id := w.id } w) sent 2
  | sending (w : Waiter) : Stands server r sent (.sending { r with id := w.id } w) sent 3
  | waiting (id : UInt16) (w : Waiter) (deadline : Nat) :
      Stands server r sent (.waiting w deadline) (sent ++ [{ r with id }]) 4
  | ended (id : UInt16) :
      Stands server r sent (.ended (.ok (server (sent ++ [{ r with id }])))) (sent ++ [{ r with id }]) 5

variable {server : List Message → Message} {r : Message} {sent requests : List Message}

theorem Stands.steps_le {e : Exchange} {k : Nat} (h : Stands server r sent e requests k) : k ≤ 5 := by
  cases h <;> decide

/-- A step of an exchange with a valid request that is left to the server. -/
theorem stands_step {c : Connection} {c' : Connection.Stepped} {e : Exchange} {k : Nat} (hr : r.Valid)
    (h : Stands server r sent e requests k) (hs : c.step false e = some c')
    (hleft : ∀ outcome, c'.exchange = .ended outcome → (∀ q, e ≠ .begun q) →
      outcome = .ok (server requests)) :
    Stands server r sent c'.exchange (requests ++ c'.sent.toList) (k + 1) := by
  cases h with
  | begun =>
    have hvalid := Message.validate_eq_ok_iff.mpr hr
    simp only [Connection.step, hvalid] at hs
    cases hs
    simpa using Stands.checked
  | checked =>
    unfold Connection.step at hs
    dsimp only at hs
    split at hs
    · cases hs
      cases hleft _ rfl (by simp)
    · cases hs
      simpa using Stands.registered _
  | registered w =>
    unfold Connection.step at hs
    dsimp only at hs
    split at hs
    · cases hs
      cases hleft _ rfl (by simp)
    · cases hs
      simpa using Stands.sending w
  | sending w =>
    simp only [Connection.step, Bool.false_eq_true, if_false] at hs
    split at hs
    · cases hs
    · cases hs
      cases hleft _ rfl (by simp)
    · cases hs
      exact .waiting w.id w _
  | waiting id w deadline =>
    unfold Connection.step at hs
    dsimp only at hs
    split at hs
    · cases hs
    · cases hs
      rw [hleft _ rfl (by simp)]
      simpa using Stands.ended id
  | ended id => cases hs

namespace Session

/-- Where an operation stands that is to send the request `m` to an honest server, after some steps
of its own. -/
inductive Attends (request : Request) (m : Message) (body : ByteArray)
    (server : List Message → Message) (s : Session) (n : Nat) : Nat → Prop
  | called :
      s.operation? n = some { serial := n, stage := .called (.request request) } →
      s.requestsOf n = [] → s.completionsOf n = [] → Attends request m body server s n 0
  | exchanging {token : ByteArray} {t : Transfer} {r : Message} {sent : List Message} {e : Exchange}
      {k : Nat} :
      token.size = Message.maxTokenLength →
      Conversing s.transfers { m with token } body server t r sent →
      Stands server r sent e (s.requestsOf n) k →
      s.operation? n = some { serial := n, stage := .running .respond t e } →
      s.completionsOf n = [] → Attends request m body server s n (1 + 6 * sent.length + k)
  | concluding {response : Response} :
      s.operation? n = some { serial := n, stage := .concluding .respond (.ok response) } →
      Delivered m.payload body server (s.requestsOf n) response →
      s.completionsOf n = [] →
      Attends request m body server s n (1 + 6 * (s.requestsOf n).length)
  | finished {response : Response} :
      s.operation? n = none → Delivered m.payload body server (s.requestsOf n) response →
      s.completionsOf n = [.response response] →
      Attends request m body server s n (2 + 6 * (s.requestsOf n).length)

variable {request : Request} {m : Message} {body : ByteArray} {server : List Message → Message}
  {s s' : Session} {n k : Nat}

theorem Attends.of_same (h : Attends request m body server s n k) (hs : Same n s s') :
    Attends request m body server s' n k := by
  cases h with
  | called ho hr hc =>
    exact .called (hs.operation.trans ho) (hs.requests.trans hr) (hs.completions.trans hc)
  | exchanging ht hconv hstands ho hc =>
    rw [← hs.transfers] at hconv
    rw [← hs.requests] at hstands
    exact .exchanging ht hconv hstands (hs.operation.trans ho) (hs.completions.trans hc)
  | concluding ho hd hc =>
    rw [← hs.requests] at hd ⊢
    exact .concluding (hs.operation.trans ho) hd (hs.completions.trans hc)
  | finished ho hd hc =>
    rw [← hs.requests] at hd ⊢
    exact .finished (hs.operation.trans ho) hd (hs.completions.trans hc)

theorem exchange?_of_operation? {o : Operation} {purpose : Purpose} {t : Transfer} {e : Exchange}
    (ho : s.operation? n = some o) (hstage : o.stage = .running purpose t e) :
    s.exchange? n = some e := by
  unfold exchange?
  rw [ho]
  cases o
  cases hstage
  rfl

/-- An exchange that is left to the server ends with its answer. -/
theorem outcome_of_leaves {e : Exchange} {outcome : Outcome} (h : leaves n server s s' = true)
    (he : s.exchange? n = some e) (he' : s'.exchange? n = some (.ended outcome))
    (hbegun : ∀ q, e ≠ .begun q) (hended : ∀ o, e ≠ .ended o) :
    outcome = .ok (server (s.requestsOf n)) := by
  unfold leaves at h
  rw [he, he'] at h
  cases e with
  | begun q => exact absurd rfl (hbegun q)
  | ended o => exact absurd rfl (hended o)
  | _ =>
    cases outcome with
    | ok answer => simpa using h
    | error e => cases h

/-- The operation after a turn of its transfer that leads on. -/
theorem attends_proceed {token : ByteArray} {o p : Operation}
    {next : Stride Transfer (Except ClientError Response)}
    (htoken : token.size = Message.maxTokenLength) (hserial : o.serial = n)
    (hcancelled : o.cancelled = false) (ho : s.operation? n = some p) (hc : s.completionsOf n = [])
    (hleads : Leads s.transfers { m with token } body server (s.requestsOf n) next.turn) :
    Attends request m body server (s.proceed o .respond next) n
      (1 + 6 * (s.requestsOf n).length) := by
  subst hserial
  have hput (stage : Operation.Stage) :
      ((s.publish next.reports).putOperation { o with stage }).operation? o.serial =
        some { serial := o.serial, stage } := by
    have hsame := (same_publish o.serial s next.reports).operation
    have hput := @operation?_putOperation (s.publish next.reports) { o with stage } p (hsame.trans ho)
    rw [← hcancelled]
    exact hput
  unfold proceed
  generalize next.turn = turn at hleads
  cases hleads with
  | on hconv =>
    exact @Attends.exchanging request m body server ((s.publish next.reports).putOperation _) o.serial
      token _ _ _ _ _ htoken hconv .begun (hput _) hc
  | home hdelivered =>
    exact @Attends.concluding request m body server ((s.publish next.reports).putOperation _) o.serial
      _ (hput _) hdelivered hc

/-- What a step of its exchange changes of an operation. -/
theorem absorb_putOperation {o p : Operation} {c : Connection.Stepped}
    (hs : s' = (s.absorb (.operation n) c).putOperation o) (hserial : o.serial = n)
    (ho : s.operation? n = some p) :
    s'.operation? n = some o ∧ s'.requestsOf n = s.requestsOf n ++ c.sent.toList ∧
      s'.completionsOf n = s.completionsOf n ∧ s'.transfers = s.transfers := by
  subst hs hserial
  have hop := operation?_absorb s (.operation o.serial) c o.serial
  refine ⟨operation?_putOperation (hop.trans ho), ?_⟩
  unfold absorb
  cases c.sent with
  | none => exact ⟨(List.append_nil _).symm, rfl, rfl⟩
  | some q =>
    let event : Event := .sent (.operation o.serial) q
    have hr := requestsOf_note { s with connection := c.connection } o.serial event
    have hc := completionsOf_note { s with connection := c.connection } o.serial event
    have hq : event.request? o.serial = some q := if_pos rfl
    rw [hq] at hr
    exact ⟨hr, hc.trans (List.append_nil _), rfl⟩

/-- A step of the operation's own exchange. -/
theorem attends_exchange {token : ByteArray} {t : Transfer} {r : Message} {sent : List Message}
    {e : Exchange} {c : Connection.Stepped} (hm : m.Valid)
    (htoken : token.size = Message.maxTokenLength)
    (hconv : Conversing s.transfers { m with token } body server t r sent)
    (hstands : Stands server r sent e (s.requestsOf n) k)
    (ho : s.operation? n = some { serial := n, stage := .running .respond t e })
    (hc : s.completionsOf n = []) (hstep : s.connection.step false e = some c)
    (hs : s' = (s.absorb (.operation n) c).putOperation
      { serial := n, stage := .running .respond t c.exchange })
    (hleft : leaves n server s s' = true) :
    Attends request m body server s' n (1 + 6 * sent.length + k + 1) := by
  have hvalid : r.Valid := hconv.valid (hm.withToken (Nat.le_of_eq htoken))
  obtain ⟨ho', hreq, hcom, htra⟩ := absorb_putOperation hs rfl ho
  have he : s.exchange? n = some e := exchange?_of_operation? ho rfl
  have he' : s'.exchange? n = some c.exchange := exchange?_of_operation? ho' rfl
  have hnext := stands_step hvalid hstands hstep fun outcome hended hbegun => by
    rw [hended] at he'
    refine outcome_of_leaves hleft he he' hbegun ?_
    rintro o rfl
    cases hstep
  rw [← hreq] at hnext
  rw [← htra] at hconv
  exact .exchanging htoken hconv hnext ho' (hcom.trans hc)

/-- The first step makes the first request, under a token of its own. -/
theorem attends_begin (hrequest : request.toMessage = .ok m) (terms : Terms s.transfers m body server)
    (ho : s.operation? n = some { serial := n, stage := .called (.request request) })
    (hr : s.requestsOf n = []) (hc : s.completionsOf n = []) :
    Attends request m body server
      (s.begin { serial := n, stage := .called (.request request) } (.request request)) n 1 := by
  rw [begin_request_ok hrequest]
  have hnone : Session.requestsOf { s with tokens := s.tokens.take.2 } n = [] := hr
  have hlead := leads_of_start (terms.withToken s.tokens.take.1)
  rw [← hr] at hlead
  have hnext := @attends_proceed request m body server { s with tokens := s.tokens.take.2 } n
    s.tokens.take.1 { serial := n, stage := .called (.request request) } _ _
    (Tokens.take_size _) rfl rfl ho hc hlead
  rw [hnone] at hnext
  exact hnext

/-- The answer to a request is taken up by the transfer. -/
theorem attends_answer {token : ByteArray} {t : Transfer} {r : Message} {sent : List Message}
    {outcome : Outcome} (terms : Terms s.transfers m body server)
    (htoken : token.size = Message.maxTokenLength)
    (hconv : Conversing s.transfers { m with token } body server t r sent)
    (hstands : Stands server r sent (.ended outcome) (s.requestsOf n) k)
    (ho : s.operation? n = some { serial := n, stage := .running .respond t (.ended outcome) })
    (hc : s.completionsOf n = []) :
    Attends request m body server (s.proceed
      { serial := n, stage := .running .respond t (.ended outcome) } .respond (t.resume outcome)) n
      (1 + 6 * sent.length + k + 1) := by
  generalize hreq : s.requestsOf n = requests at hstands
  cases hstands with
  | ended id =>
    have hlead := hconv.leads (terms.withToken token) id
    rw [← hreq] at hlead
    have hnext := @attends_proceed request m body server s n token
      { serial := n, stage := .running .respond t (.ended (.ok (server (sent ++ [{ r with id }])))) }
      _ _ htoken rfl rfl ho hc hlead
    rw [hreq, List.length_append, List.length_singleton] at hnext
    have hcount : 1 + 6 * (sent.length + 1) = 1 + 6 * sent.length + 5 + 1 := by omega
    rw [hcount] at hnext
    exact hnext

/-- The last step tells the caller. -/
theorem attends_conclude {response : Response}
    (hd : Delivered m.payload body server (s.requestsOf n) response) (hc : s.completionsOf n = []) :
    Attends request m body server (s.finish
      { serial := n, stage := .concluding .respond (.ok response) } (.response response)) n
      (2 + 6 * (s.requestsOf n).length) := by
  let o : Operation := { serial := n, stage := .concluding .respond (.ok response) }
  have hreq : (s.finish o (.response response)).requestsOf n = s.requestsOf n := by
    unfold finish
    rw [requestsOf_note]
    exact List.append_nil _
  have hcom : (s.finish o (.response response)).completionsOf n = [.response response] := by
    have hnew : Event.completion? n (.finished o.serial (.response response)) =
        some (.response response) := if_pos rfl
    unfold finish
    rw [completionsOf_note, hnew]
    exact congrArg (· ++ [Completion.response response]) hc
  have hnext := @Attends.finished request m body server (s.finish o (.response response)) n response
    (operation?_finish s o _) (by rw [hreq]; exact hd) hcom
  rw [hreq] at hnext
  exact hnext

/-- Each step of the operation itself brings it on. -/
theorem attends_step (hm : m.Valid) (hrequest : request.toMessage = .ok m)
    (terms : Terms s.transfers m body server) (h : Attends request m body server s n k)
    (hs : s.step (.operation n) = some s') (hleft : leaves n server s s' = true) :
    Attends request m body server s' n (k + 1) := by
  cases h with
  | called ho hr hc =>
    rw [step_of_operation? ho] at hs
    cases hs
    exact attends_begin hrequest terms ho hr hc
  | @exchanging token t r sent e k htoken hconv hstands ho hc =>
    rw [step_of_operation? ho] at hs
    by_cases hended : ∃ outcome, e = .ended outcome
    · obtain ⟨outcome, rfl⟩ := hended
      cases hs
      exact attends_answer terms htoken hconv hstands ho hc
    · rw [stepOperation_running rfl fun outcome he => hended ⟨outcome, he⟩] at hs
      obtain ⟨c, hc', hs'⟩ := Option.map_eq_some_iff.mp hs
      exact attends_exchange hm htoken hconv hstands ho hc hc' hs'.symm hleft
  | @concluding response ho hd hc =>
    rw [step_of_operation? ho] at hs
    cases hs
    have hcount : 1 + 6 * (s.requestsOf n).length + 1 = 2 + 6 * (s.requestsOf n).length := by omega
    rw [hcount]
    exact attends_conclude hd hc
  | finished ho =>
    rw [step_of_operation?_none ho] at hs
    cases hs

/-- An exchange that has not ended goes on, unless it waits for the network. -/
theorem step_or_waits (c : Connection) (e : Exchange) (hended : ∀ outcome, e ≠ .ended outcome) :
    (c.step false e).isSome = true ∨ (∃ r w, e = .sending r w ∧ c.wire.held = true) ∨
      ∃ w deadline, e = .waiting w deadline ∧
        c.exchanges.fetch w false (deadline ≤ c.clock) = none := by
  cases e with
  | begun r =>
    refine .inl ?_
    simp only [Connection.step, Bool.false_eq_true, if_false]
    cases r.validate <;> rfl
  | checked r =>
    refine .inl ?_
    unfold Connection.step
    dsimp only
    split <;> rfl
  | registered r w =>
    refine .inl ?_
    unfold Connection.step
    dsimp only
    split <;> rfl
  | sending r w =>
    cases hheld : c.wire.held with
    | true => exact .inr (.inl ⟨r, w, rfl, rfl⟩)
    | false =>
      refine .inl ?_
      have hsend : ∃ result, c.wire.send r = some result := by
        unfold Wire.send
        rw [hheld]
        cases c.wire.sendFault <;> exact ⟨_, rfl⟩
      obtain ⟨result, hresult⟩ := hsend
      simp only [Connection.step, hresult, Bool.false_eq_true, if_false]
      cases result <;> rfl
  | waiting w deadline =>
    cases hfetch : c.exchanges.fetch w false (deadline ≤ c.clock) with
    | none => exact .inr (.inr ⟨w, deadline, rfl, hfetch⟩)
    | some result =>
      refine .inl ?_
      simp [Connection.step, hfetch]
  | ended outcome => exact absurd rfl (hended outcome)

/-- An operation that is not over can go on, unless it waits for the network. -/
theorem goes_on {o : Operation} (ho : s.operation? n = some o)
    (h : Attends request m body server s n k) : s.Waits n ∨ (s.step (.operation n)).isSome = true := by
  rw [step_of_operation? ho]
  cases h with
  | called ho' =>
    cases ho.symm.trans ho'
    exact .inr rfl
  | @exchanging token t r sent e k _ _ _ ho' =>
    cases ho.symm.trans ho'
    have he := exchange?_of_operation? ho rfl
    by_cases hended : ∃ outcome, e = .ended outcome
    · obtain ⟨outcome, rfl⟩ := hended
      exact .inr rfl
    · rw [stepOperation_running rfl fun outcome he => hended ⟨outcome, he⟩, Option.isSome_map]
      rcases step_or_waits s.connection e fun outcome he => hended ⟨outcome, he⟩ with
        hsome | ⟨r, w, rfl, hheld⟩ | ⟨w, deadline, rfl, hnone⟩
      · exact .inr hsome
      · exact .inl (.held he hheld)
      · exact .inl (.unanswered he hnone)
  | concluding ho' =>
    cases ho.symm.trans ho'
    exact .inr rfl
  | finished ho' => cases ho.symm.trans ho'

theorem Attends.steps_le (h : Attends request m body server s n k) :
    k ≤ 6 * exchangeBound m.payload body + 2 := by
  cases h with
  | called => exact Nat.zero_le _
  | exchanging _ hconv hstands _ _ =>
    have hlt := hconv.length_lt
    have hphase := hstands.steps_le
    change _ < exchangeBound m.payload body at hlt
    omega
  | concluding _ hd _ =>
    have hle := hd.length
    omega
  | finished _ hd _ =>
    have hle := hd.length
    omega

theorem Attends.response_of_none (h : Attends request m body server s n k)
    (ho : s.operation? n = none) :
    ∃ response, s.completionsOf n = [.response response] ∧
      Delivered m.payload body server (s.requestsOf n) response := by
  cases h with
  | finished _ hd hc => exact ⟨_, hc, hd⟩
  | called ho' => cases ho.symm.trans ho'
  | exchanging _ _ _ ho' => cases ho.symm.trans ho'
  | concluding ho' => cases ho.symm.trans ho'

theorem Attends.completions_of_some {o : Operation} (h : Attends request m body server s n k)
    (ho : s.operation? n = some o) : s.completionsOf n = [] := by
  cases h with
  | finished ho' => cases ho.symm.trans ho'
  | called _ _ hc => exact hc
  | exchanging _ _ _ _ hc => exact hc
  | concluding _ _ hc => exact hc

theorem stepsOf_cons (n : Nat) (mv : Move) (rest : List Move) :
    stepsOf n (mv :: rest) = stepsOf n [mv] + stepsOf n rest := by
  unfold stepsOf
  rw [List.countP_cons, List.countP_singleton]
  exact Nat.add_comm _ _

/-- Every move of a run that serves the operation brings it on, or leaves it where it stands. -/
theorem attends_move {mv : Move} (hm : m.Valid) (hrequest : request.toMessage = .ok m)
    (terms : Terms s.transfers m body server) (hn : n < s.nextSerial)
    (h : Attends request m body server s n k) (hs : s.move mv = some s')
    (hstop : isStop n mv = false) (hleft : leaves n server s s' = true) :
    Attends request m body server s' n (k + stepsOf n [mv]) := by
  by_cases hown : mv = .step (.operation n)
  · subst hown
    have hone : stepsOf n [.step (.operation n)] = 1 := by simp [stepsOf]
    rw [hone]
    exact attends_step hm hrequest terms h hs hleft
  · have hnone : stepsOf n [mv] = 0 ∧ concerns n mv = false := by
      cases mv with
      | step task =>
        have ht : task ≠ .operation n := fun ht => hown (by rw [ht])
        simp [stepsOf, concerns, ht]
      | input i => exact ⟨rfl, hstop⟩
    rw [hnone.1]
    exact h.of_same (same_move hnone.2 (by omega) hs)

theorem attends_run {moves : List Move} (hm : m.Valid) (hrequest : request.toMessage = .ok m)
    (terms : Terms s.transfers m body server) (hn : n < s.nextSerial)
    (h : Attends request m body server s n k) (hs : s.servedRun n server moves = some s') :
    Attends request m body server s' n (k + stepsOf n moves) := by
  induction moves generalizing s k with
  | nil =>
    cases hs
    exact h
  | cons mv rest ih =>
    obtain ⟨s₁, hs₁, hrest⟩ := Option.bind_eq_some_iff.mp hs
    by_cases hserved : (!isStop n mv && leaves n server s s₁) = true
    · rw [if_pos hserved] at hrest
      obtain ⟨hstop, hleft⟩ : isStop n mv = false ∧ leaves n server s s₁ = true := by
        simpa using hserved
      obtain ⟨htransfers, hserial⟩ := kept_move hs₁
      have hnext := attends_move hm hrequest terms hn h hs₁ hstop hleft
      rw [← htransfers] at terms
      rw [stepsOf_cons, ← Nat.add_assoc]
      exact ih terms (Nat.lt_of_lt_of_le hn hserial) hnext hrest
    · rw [if_neg hserved] at hrest
      cases hrest

/-- Only a valid message is made of a request. -/
theorem valid_of_toMessage (h : request.toMessage = .ok m) : m.Valid :=
  (Request.toMessage_eq_ok_iff.mp h).2

/-- A request for a payload and a body of at most 16 * 2^20 bytes, called in whatever state a
session can be, to an honest server. Where the server answers every request, the transfer ends with
a response, under whatever token: the server has then assembled exactly the payload, and the
response is the concluding answer with exactly the body. In the session the same holds whatever else
goes on. The operation takes a bounded number of steps; it can take the next one unless it waits for
the network; and it ends only once, with such a response. Without block transfer all of this holds
of a server that answers whole. -/
theorem request_is_transparent {options : ConnectOptions} {pipe : Pipe} {messageIds : MessageIds}
    {tokens : Tokens} {timer : Timer} {before moves : List Move} {s s' : Session}
    {request : Request} {m : Message}
    {body : ByteArray} {server : List Message → Message}
    (hs : (start options pipe messageIds tokens timer).run before = some s)
    (hrequest : request.toMessage = .ok m)
    (hplain1 : m.numbered OptionKind.block1.number = [])
    (hplain2 : m.numbered OptionKind.block2.number = [])
    (hpayload : m.payload.size ≤ 16 * 2 ^ 20) (hbody : body.size ≤ 16 * 2 ^ 20)
    (hserver : Honest body server) (hblocks : options.blockTransfer = true ∨ AnswersWhole server)
    (hrun : (s.call (.request request) false).servedRun s.nextSerial server moves = some s') :
    (∀ token : ByteArray, ∃ requests response,
      converse server (exchangeBound m.payload body) []
          (Transfer.start s.transfers { m with token } (Message.followUp { m with token })).turn =
        (requests, some (.ok response)) ∧ Delivered m.payload body server requests response) ∧
    stepsOf s.nextSerial moves ≤ 6 * exchangeBound m.payload body + 2 ∧
    ((∃ response, s'.completionsOf s.nextSerial = [.response response] ∧
        Delivered m.payload body server (s'.requestsOf s.nextSerial) response) ∨
      s'.completionsOf s.nextSerial = [] ∧
        (s'.Waits s.nextSerial ∨ (s'.step (.operation s.nextSerial)).isSome = true)) := by
  have hvalid := valid_of_toMessage hrequest
  obtain ⟨hfresh, htransfers⟩ := fresh_run
    (fun n _ => fresh_start options pipe messageIds tokens timer n) hs
  have hnew := hfresh s.nextSerial (Nat.le_refl _)
  have hcalled : Attends request m body server (s.call (.request request) false) s.nextSerial 0 := by
    refine .called ?_ hnew.requests hnew.completions
    unfold operation? call
    have hnone : (s.operations.find? fun o => o.serial == s.nextSerial) = none := hnew.operation
    rw [List.find?_append, hnone]
    simp
  have hsettings : s.transfers.blockTransfer = true ∨ AnswersWhole server := by
    rw [htransfers]
    exact hblocks
  have terms : Terms s.transfers m body server :=
    ⟨hplain1, hplain2, hpayload, hbody, hserver, hsettings⟩
  have hcallterms : Terms (s.call (.request request) false).transfers m body server := terms
  have hend := attends_run hvalid hrequest hcallterms (Nat.lt_succ_self _) hcalled hrun
  rw [Nat.zero_add] at hend
  refine ⟨?_, hend.steps_le, ?_⟩
  · intro token
    have hlead := leads_of_start (terms.withToken token)
    exact converse_of_leads (terms.withToken token) hlead _ (Nat.le_add_left _ _)
  · cases ho : s'.operation? s.nextSerial with
    | none => exact .inl (hend.response_of_none ho)
    | some o => exact .inr ⟨hend.completions_of_some ho, goes_on ho hend⟩

/-- The moves by which operation 0 brings a request to the server and takes the answer. -/
def exchangeMoves (answer : Message) : List Move :=
  List.replicate 4 (.step (.operation 0)) ++ [.input (.message answer), .step .receiver] ++
    List.replicate 2 (.step (.operation 0))

def sampleOptions : ConnectOptions :=
  { host := "", port := 0, timeout := 1, blockSize := .s16, blockTransfer := true, credentials := none }

def sampleRequest : Request :=
  { message := { type := .confirmable, code := .request .put, payload := ⟨Array.replicate 17 1⟩ } }

def sampleBody : ByteArray := ⟨Array.replicate 17 7⟩

/-- Two blocks up, and two blocks down. -/
def sampleMoves : List Move :=
  let answer : Message :=
    { type := .acknowledgement, code := .response .content, token := Wire.eightBytes 0 }
  .step (.operation 0) :: (exchangeMoves { answer with code := .response .continue } ++
    exchangeMoves
      { answer with id := 1, options := [.block2 8], payload := sampleBody.extract 0 16 } ++
    exchangeMoves
      { answer with id := 2, options := [.block2 16], payload := sampleBody.extract 16 17 }) ++
    [.step (.operation 0)]

/-- A run to the end of a request with 17 bytes to a server with a body of 17 bytes, in blocks of
16. -/
theorem sample_is_transparent :
    ∃ s', ((start sampleOptions {} { next := 0 } { base := 0 }).call (.request sampleRequest) false).servedRun
        0 (blockServer sampleBody .s16) sampleMoves = some s' ∧
      stepsOf 0 sampleMoves ≤ 6 * exchangeBound sampleRequest.message.payload sampleBody + 2 ∧
      ∃ response, s'.completionsOf 0 = [.response response] ∧
        Delivered sampleRequest.message.payload sampleBody (blockServer sampleBody .s16)
          (s'.requestsOf 0) response := by
  have hone : (((start sampleOptions {} { next := 0 } { base := 0 }).call
      (.request sampleRequest) false).servedRun 0 (blockServer sampleBody .s16) sampleMoves).map
        (fun s => (s.completionsOf 0).length) = some 1 := rfl
  obtain ⟨s', hs', hlength⟩ := Option.map_eq_some_iff.mp hone
  obtain ⟨-, hsteps, hend⟩ := @request_is_transparent sampleOptions {} { next := 0 } { base := 0 }
    .exact [] sampleMoves _ s' sampleRequest sampleRequest.message sampleBody _ rfl rfl rfl rfl
    (by decide) (by decide) (blockServer_honest sampleBody .s16) (.inl rfl) hs'
  refine ⟨s', hs', hsteps, ?_⟩
  rcases hend with hdone | ⟨hnone, -⟩
  · exact hdone
  · change s'.completionsOf 0 = [] at hnone
    rw [hnone] at hlength
    cases hlength

end Session

end Coap
