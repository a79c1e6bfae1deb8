import Coap.Proofs.CancelledSteps
import Coap.Proofs.FeedReports
import Coap.Proofs.TokenOwners
import Coap.Proofs.TransferScripts

/-! What each operation of a session sends and publishes, whatever else goes on: the messages of the
transfer that its call begins, in their order, up to the ids that they are given on the way, and the
reports of this transfer on the answers that the operation has got. -/
namespace Coap

/-- The message before it has been given an id. -/
def Message.unnumbered (m : Message) : Message := { m with id := 0 }

/-- The terms of an observation: its registration under the token, without the payload and the options
that belong to the registration itself. -/
def Message.observationTemplate (m : Message) (token : ByteArray) : Message :=
  (Message.followUp { m with token }).removeOptions OptionKind.observe.number

/-- What an operation is to do: the request that it makes, the message in whose terms it asks for
further blocks, and what becomes of the response. -/
structure Plan where
  purpose : Purpose
  request : Message
  further : Message

namespace Plan

variable {calls calls' : List (Nat × Call)} {grants grants' : List (Nat × ByteArray)} {n : Nat} {p : Plan}

/-- The plan of an operation comes from its call, and from the token that it has been given. -/
inductive IsOf (calls : List (Nat × Call)) (grants : List (Nat × ByteArray)) (n : Nat) : Plan → Prop
  | request {r : Request} {a : Message} {token : ByteArray} (call : (n, .request r) ∈ calls)
      (grant : (n, token) ∈ grants) (message : r.toMessage = .ok a) :
      IsOf calls grants n ⟨.respond, { a with token }, Message.followUp { a with token }⟩
  | observe {r : Request} {handler : Handler} {a : Message} {token : ByteArray}
      (call : (n, .observe r handler) ∈ calls) (grant : (n, token) ∈ grants)
      (message : r.registration.toMessage = .ok a) :
      IsOf calls grants n
        ⟨.register token (a.observationTemplate token), { a with token }, a.observationTemplate token⟩
  | stop {o : Observation} (call : (n, .stop o) ∈ calls) :
      IsOf calls grants n
        ⟨.deregister o.token, o.template.setOption (.observe Session.observeDeregister), o.template⟩

theorem IsOf.mono (h : p.IsOf calls grants n) (hcalls : calls ⊆ calls') (hgrants : grants ⊆ grants') :
    p.IsOf calls' grants' n := by
  cases h with
  | request call grant message => exact .request (hcalls call) (hgrants grant) message
  | observe call grant message => exact .observe (hcalls call) (hgrants grant) message
  | stop call => exact .stop (hcalls call)

theorem IsOf.called (h : p.IsOf calls grants n) : ∃ call, (n, call) ∈ calls := by
  cases h with
  | request call _ _ => exact ⟨_, call⟩
  | observe call _ _ => exact ⟨_, call⟩
  | stop call => exact ⟨_, call⟩

/-- The transfer that is to be run. -/
def transfer (p : Plan) (settings : TransferSettings) : Stride Transfer (Except ClientError Response) :=
  Transfer.start settings p.request p.further

/-- The requests of the transfer under some answers. -/
def requests (p : Plan) (settings : TransferSettings) (answers : List Outcome) : List Message :=
  ((p.transfer settings).run Transfer.resume answers).requests

/-- The reports of the transfer under some answers. -/
def reports (p : Plan) (settings : TransferSettings) (answers : List Outcome) : List Progress :=
  ((p.transfer settings).run Transfer.resume answers).reports

/-- The messages are the first ones of the transfer, if it is answered in some way. -/
def Allows (p : Plan) (settings : TransferSettings) (sent : List Message) : Prop :=
  ∃ answers, sent.map Message.unnumbered <+: (p.requests settings answers).map Message.unnumbered

end Plan

/-- What an exchange for the request `r` has sent so far, up to the id. -/
inductive Exchange.Brings (r : Message) : Exchange → List Message → Prop
  | begun : Brings r (.begun r) []
  | checked : Brings r (.checked r) []
  | registered (id : UInt16) (w : Waiter) : Brings r (.registered { r with id } w) []
  | sending (id : UInt16) (w : Waiter) : Brings r (.sending { r with id } w) []
  | waiting (w : Waiter) (deadline : Nat) : Brings r (.waiting w deadline) [r]
  | ended (outcome : Outcome) : Brings r (.ended outcome) [r]
  | unsent (e : ClientError) : Brings r (.ended (.error e)) []

/-- The stage of an operation after a turn of its transfer. -/
def Purpose.after (purpose : Purpose) (next : Stride Transfer (Except ClientError Response)) :
    Operation.Stage :=
  match next.turn with
  | .ask request transfer => .running purpose transfer (.begun request)
  | .finish result => .concluding purpose result

/-- The stage is one of the plan: on the way to it the plan has sent the messages `sent`, gone on with
the answers `heard`, and published the reports `told`. -/
inductive Operation.Stage.Follows (settings : TransferSettings) (p : Plan) (sent : List Message)
    (heard : List Outcome) (told : List Progress) : Operation.Stage → Prop
  | enrolling {handler : Handler} (purpose : p.purpose = .register p.request.token p.further)
      (nothing : sent = [] ∧ heard = [] ∧ told = []) :
      Follows settings p sent heard told (.enrolling p.request p.further handler)
  | running {earlier last : List Message} {r : Message} {t : Transfer} {e : Exchange}
      (turn : (p.transfer settings).turnAfter Transfer.resume heard = .ask r t)
      (requests : p.requests settings heard = earlier ++ [r]) (brings : e.Brings r last)
      (upTo : sent.map Message.unnumbered = (earlier ++ last).map Message.unnumbered)
      (reports : p.reports settings heard = told) :
      Follows settings p sent heard told (.running p.purpose t e)
  | concluding {result : Except ClientError Response} (allowed : p.Allows settings sent)
      (reports : p.reports settings heard = told) :
      Follows settings p sent heard told (.concluding p.purpose result)

section Follows

variable {settings : TransferSettings} {p : Plan} {sent : List Message} {heard : List Outcome}
  {told : List Progress} {purpose : Purpose} {t : Transfer} {e : Exchange} {r : Message}
  {last : List Message}

theorem Exchange.Brings.isPrefix_sent (h : e.Brings r last) : last <+: [r] := by
  cases h with
  | waiting | ended => exact List.prefix_refl _
  | begun | checked | registered | sending | unsent => exact List.nil_prefix

/-- A step of an exchange sends its request, if it has not been sent yet, or nothing. -/
theorem Exchange.Brings.step {c : Connection} {cancelled : Bool} {c' : Connection.Stepped}
    (h : e.Brings r last) (hs : c.step cancelled e = some c') :
    ∃ last', c'.exchange.Brings r last' ∧
      last'.map Message.unnumbered = (last ++ c'.sent.toList).map Message.unnumbered := by
  cases Connection.advance_of_step hs with
  | refused =>
    cases h
    exact ⟨[], .unsent _, rfl⟩
  | checked =>
    cases h
    exact ⟨[], .checked, rfl⟩
  | exhausted =>
    cases h
    exact ⟨[], .unsent _, rfl⟩
  | registered _ =>
    cases h
    exact ⟨[], .registered _ _, rfl⟩
  | shut _ =>
    cases h
    exact ⟨[], .unsent _, rfl⟩
  | passed _ =>
    cases h
    exact ⟨[], .sending _ _, rfl⟩
  | stopped _ =>
    cases h
    exact ⟨[], .unsent _, rfl⟩
  | unsent _ =>
    cases h
    exact ⟨[], .unsent _, rfl⟩
  | sent _ =>
    cases h
    exact ⟨[r], .waiting _ _, rfl⟩
  | fetched _ =>
    cases h
    exact ⟨[r], .ended _, rfl⟩

namespace Operation.Stage

theorem Follows.allows {stage : Operation.Stage} (h : stage.Follows settings p sent heard told) :
    p.Allows settings sent := by
  cases h with
  | enrolling _ nothing =>
    rw [nothing.1]
    exact ⟨[], List.nil_prefix⟩
  | @running earlier last r t e _ requests brings upTo _ =>
    -- Whether or not the latest request has been sent, all before it have.
    refine ⟨heard, ?_⟩
    rw [upTo, requests]
    exact ((List.prefix_append_right_inj earlier).mpr brings.isPrefix_sent).map _
  | concluding allowed _ => exact allowed

theorem Follows.reports {stage : Operation.Stage} (h : stage.Follows settings p sent heard told) :
    heard = [] ∧ told = [] ∨ p.reports settings heard = told := by
  cases h with
  | enrolling _ nothing => exact .inl nothing.2
  | running _ _ _ _ reports => exact .inr reports
  | concluding _ reports => exact .inr reports

/-- The plan begins with the first turn of its transfer. -/
theorem follows_start (settings : TransferSettings) (p : Plan) :
    (p.purpose.after (p.transfer settings)).Follows settings p [] [] (p.transfer settings).reports := by
  have hreports : p.reports settings [] = (p.transfer settings).reports := Stride.reports_nil _ _
  unfold Purpose.after
  cases hturn : (p.transfer settings).turn with
  | ask r t =>
    have hafter : (p.transfer settings).turnAfter Transfer.resume [] = .ask r t := hturn
    have hrequests : p.requests settings [] = [] ++ [r] := by
      unfold Plan.requests
      rw [Stride.run_of_ask_nil hturn, List.nil_append]
    exact .running hafter hrequests .begun rfl hreports
  | finish result => exact .concluding ⟨[], List.nil_prefix⟩ hreports

theorem Follows.exchange {c : Connection} {cancelled : Bool} {c' : Connection.Stepped}
    (h : Follows settings p sent heard told (.running purpose t e))
    (hs : c.step cancelled e = some c') :
    Follows settings p (sent ++ c'.sent.toList) heard told (.running purpose t c'.exchange) := by
  cases h with
  | @running earlier last r _ _ turn requests brings upTo reports =>
    obtain ⟨last', hbrings, hlast⟩ := brings.step hs
    refine .running turn requests hbrings ?_ reports
    calc
      (sent ++ c'.sent.toList).map Message.unnumbered =
          (earlier ++ last).map Message.unnumbered ++ c'.sent.toList.map Message.unnumbered := by
        rw [List.map_append, upTo]
      _ = earlier.map Message.unnumbered ++ (last ++ c'.sent.toList).map Message.unnumbered := by
        rw [List.map_append, List.append_assoc, List.map_append]
      _ = (earlier ++ last').map Message.unnumbered := by rw [← hlast, List.map_append]

/-- An answer leads to the next turn of the transfer. A request that has not been sent has failed, and
is the last one. -/
theorem Follows.answer {outcome : Outcome}
    (h : Follows settings p sent heard told (.running purpose t (.ended outcome))) :
    (purpose.after (t.resume outcome)).Follows settings p sent (heard ++ [outcome])
      (told ++ (t.resume outcome).reports) := by
  cases h with
  | @running earlier last r _ _ turn requests brings upTo reports =>
    have hturn := Stride.turnAfter_concat turn outcome
    have hrequests : p.requests settings (heard ++ [outcome]) =
        earlier ++ [r] ++ (t.resume outcome).turn.request?.toList := by
      rw [← requests]
      exact Stride.requests_concat turn outcome
    have hreports : p.reports settings (heard ++ [outcome]) = told ++ (t.resume outcome).reports := by
      rw [← reports]
      exact Stride.reports_concat turn outcome
    unfold Purpose.after
    cases hnext : (t.resume outcome).turn with
    | ask r' t' =>
      rw [hnext] at hturn hrequests
      -- There is a next request only if this one has been sent.
      cases brings with
      | ended => exact .running hturn hrequests .begun (by rw [upTo, List.append_nil]) hreports
      | unsent e =>
        rw [Transfer.resume_error] at hnext
        cases hnext
    | finish result =>
      refine .concluding ⟨heard ++ [outcome], ?_⟩ hreports
      rw [upTo, hrequests, List.append_assoc]
      refine List.IsPrefix.map _ ((List.prefix_append_right_inj earlier).mpr ?_)
      exact brings.isPrefix_sent.trans (List.prefix_append _ _)

end Operation.Stage

end Follows

/-- An operation either has yet to begin what it was called for, or follows the plan of its call. -/
inductive Operation.Stage.IsDue (calls : List (Nat × Call)) (grants : List (Nat × ByteArray))
    (settings : TransferSettings) (n : Nat) (sent : List Message) (heard : List Outcome)
    (told : List Progress) : Operation.Stage → Prop
  | called {call : Call} (made : (n, call) ∈ calls) (nothing : sent = [] ∧ heard = [] ∧ told = []) :
      IsDue calls grants settings n sent heard told (.called call)
  | joining (made : (n, .shutdown) ∈ calls) (nothing : sent = [] ∧ heard = [] ∧ told = []) :
      IsDue calls grants settings n sent heard told .joining
  | planned {p : Plan} {stage : Operation.Stage} (plan : p.IsOf calls grants n)
      (follows : stage.Follows settings p sent heard told) :
      IsDue calls grants settings n sent heard told stage

section IsDue

variable {calls calls' : List (Nat × Call)} {grants grants' : List (Nat × ByteArray)} {n : Nat}
  {settings : TransferSettings} {sent : List Message} {heard : List Outcome} {told : List Progress}
  {stage : Operation.Stage}

theorem Operation.Stage.IsDue.mono (h : stage.IsDue calls grants settings n sent heard told)
    (hcalls : calls ⊆ calls') (hgrants : grants ⊆ grants') :
    stage.IsDue calls' grants' settings n sent heard told := by
  cases h with
  | called made nothing => exact .called (hcalls made) nothing
  | joining made nothing => exact .joining (hcalls made) nothing
  | planned plan follows => exact .planned (plan.mono hcalls hgrants) follows

theorem Operation.Stage.IsDue.allows (h : stage.IsDue calls grants settings n sent heard told) :
    sent = [] ∨ ∃ p : Plan, p.IsOf calls grants n ∧ p.Allows settings sent := by
  cases h with
  | called _ nothing => exact .inl nothing.1
  | joining _ nothing => exact .inl nothing.1
  | planned plan follows => exact .inr ⟨_, plan, follows.allows⟩

theorem Operation.Stage.IsDue.reports (h : stage.IsDue calls grants settings n sent heard told) :
    heard = [] ∧ told = [] ∨
      ∃ p : Plan, p.IsOf calls grants n ∧ p.reports settings heard = told := by
  cases h with
  | called _ nothing => exact .inl nothing.2
  | joining _ nothing => exact .inl nothing.2
  | planned plan follows => exact follows.reports.imp_right fun hreports => ⟨_, plan, hreports⟩

end IsDue

namespace Session

/-- What an operation has sent is the beginning of its plan, what it has published are the reports of
its plan on the answers that it has gone on with, and an observation that it has returned is the one
that it was to register. -/
structure Acts (calls : List (Nat × Call)) (grants : List (Nat × ByteArray)) (heard : List Outcome)
    (told : List Progress) (s : Session) (n : Nat) : Prop where
  stage : ∀ o, s.operation? n = some o →
    o.stage.IsDue calls grants s.transfers n (s.requestsOf n) heard told
  going : ∀ o, s.operation? n = some o → s.completionsOf n = []
  sent : s.requestsOf n = [] ∨ ∃ p : Plan, p.IsOf calls grants n ∧ p.Allows s.transfers (s.requestsOf n)
  reports : heard = [] ∧ told = [] ∨
    ∃ p : Plan, p.IsOf calls grants n ∧ p.reports s.transfers heard = told
  ends : ∀ x, .observation x ∈ s.completionsOf n →
    ∃ p : Plan, p.IsOf calls grants n ∧ p.purpose = .register x.token x.template

variable {calls calls' : List (Nat × Call)} {grants grants' : List (Nat × ByteArray)} {n : Nat}
  {heard heard' : List Outcome} {told told' : List Progress} {first s s' : Session} {o : Operation}
  {m : Move} {past : List Move}

theorem Acts.mono (h : Acts calls grants heard told s n) (hcalls : calls ⊆ calls')
    (hgrants : grants ⊆ grants') : Acts calls' grants' heard told s n where
  stage := fun o ho => (h.stage o ho).mono hcalls hgrants
  going := h.going
  sent := h.sent.imp_right fun ⟨p, hp, hallows⟩ => ⟨p, hp.mono hcalls hgrants, hallows⟩
  reports := h.reports.imp_right fun ⟨p, hp, hreports⟩ => ⟨p, hp.mono hcalls hgrants, hreports⟩
  ends := fun x hx => (h.ends x hx).imp fun _ ⟨hp, hpurpose⟩ => ⟨hp.mono hcalls hgrants, hpurpose⟩

theorem Acts.of_same (h : Acts calls grants heard told s n) (hs : Same n s s') :
    Acts calls grants heard told s' n where
  stage := by
    rw [hs.operation, hs.requests, hs.transfers]
    exact h.stage
  going := by
    rw [hs.operation, hs.completions]
    exact h.going
  sent := by
    rw [hs.requests, hs.transfers]
    exact h.sent
  reports := by
    rw [hs.transfers]
    exact h.reports
  ends := by
    rw [hs.completions]
    exact h.ends

/-! Steps of the operation itself. -/

theorem begin_observe_error {r : Request} {handler : Handler} {e : MessageError}
    (h : r.registration.toMessage = .error e) (s : Session) (o : Operation) :
    s.begin o (.observe r handler) =
      (s.finish o (.failure (.ofMessage e))).note (.released o.serial) := by
  unfold Request.registration at h
  simp [begin, h]

/-- A registration gets a fresh token before its subscription is made. -/
theorem begin_observe_ok {r : Request} {handler : Handler} {a : Message}
    (h : r.registration.toMessage = .ok a) (s : Session) (o : Operation) :
    s.begin o (.observe r handler) = { s with tokens := s.tokens.take.2 }.putOperation
      { o with
        stage := .enrolling { a with token := s.tokens.take.1 }
          (a.observationTemplate s.tokens.take.1) handler } := by
  unfold Request.registration at h
  simp [begin, h, Message.observationTemplate]

/-- The operation goes on to another stage. -/
theorem Acts.goes {q : Operation} (h : Acts calls grants heard told s n) (hs : s.move m = some s')
    (hbefore : s.operation? n = some q) (hthere : s'.operation? n = some o)
    (hdue : o.stage.IsDue calls grants s.transfers n (s'.requestsOf n) heard' told')
    (hends : s'.completionsOf n = s.completionsOf n) : Acts calls grants heard' told' s' n where
  stage := by
    intro p hp
    cases hthere.symm.trans hp
    rwa [(kept_move hs).1]
  going := fun _ _ => hends.trans (h.going q hbefore)
  sent := by
    rw [(kept_move hs).1]
    exact hdue.allows
  reports := by
    rw [(kept_move hs).1]
    exact hdue.reports
  ends := by
    rw [hends]
    exact h.ends

/-- The operation goes on with its transfer. -/
theorem Acts.proceed {s₁ : Session} {p : Plan} {next : Stride Transfer (Except ClientError Response)}
    (h : Acts calls grants heard told s o.serial) (hplan : p.IsOf calls grants o.serial)
    (hs : s.move m = some (s₁.proceed o p.purpose next)) (hbefore : s.operation? o.serial = some o)
    (hthere : s₁.operation? o.serial = some o) (hlog : s₁.log = s.log)
    (hfollows : (p.purpose.after next).Follows s.transfers p (s.requestsOf o.serial) heard' told') :
    Acts calls grants heard' told' (s₁.proceed o p.purpose next) o.serial := by
  obtain ⟨stage, hnext, hstage⟩ := @operation?_proceed _ _ s₁ p.purpose next hthere
  obtain rfl : stage = p.purpose.after next := hstage
  obtain ⟨hrequests, hcompletions⟩ := Prod.mk.inj
    (recordOf_of_log ((log_proceed s₁ o p.purpose next).trans hlog) o.serial)
  refine h.goes hs hbefore hnext (.planned hplan ?_) hcompletions
  rw [hrequests]
  exact hfollows

/-- The operation ends. -/
theorem Acts.over {c : Completion} (h : Acts calls grants heard told s n) (hs : s.move m = some s')
    (hgone : s'.operation? n = none)
    (hrecord : s'.recordOf n = (s.requestsOf n, s.completionsOf n ++ [c]))
    (hend : ∀ x, c = .observation x →
      ∃ p : Plan, p.IsOf calls grants n ∧ p.purpose = .register x.token x.template) :
    Acts calls grants heard told s' n := by
  obtain ⟨hrequests, hcompletions⟩ := Prod.mk.inj hrecord
  refine ⟨?_, ?_, ?_, ?_, ?_⟩
  · intro o ho
    cases hgone.symm.trans ho
  · intro o ho
    cases hgone.symm.trans ho
  · rw [hrequests, (kept_move hs).1]
    exact h.sent
  · rw [(kept_move hs).1]
    exact h.reports
  · intro x hx
    rw [hcompletions] at hx
    rcases List.mem_append.mp hx with hx | hx
    · exact h.ends x hx
    · exact hend x (List.mem_singleton.mp hx).symm

/-- Only a registration returns an observation, with the token and the template that it has had. -/
theorem conclude_returns (s : Session) (o : Operation) (purpose : Purpose)
    (result : Except ClientError Response) :
    ∃ subscriptions c, s.conclude o purpose result = { s with subscriptions }.finish o c ∧
      ∀ x, c = .observation x → purpose = .register x.token x.template := by
  have hfailed (e : ClientError) (x : Observation) (hx : Completion.failure e = .observation x) :
      purpose = .register x.token x.template := by
    cases hx
  have hresponded (r : Response) (x : Observation) (hx : Completion.response r = .observation x) :
      purpose = .register x.token x.template := by
    cases hx
  cases purpose with
  | respond =>
    cases result with
    | error e => exact ⟨_, _, rfl, hfailed e⟩
    | ok r => exact ⟨_, _, rfl, hresponded r⟩
  | deregister token =>
    cases result with
    | error e => exact ⟨_, _, rfl, hfailed e⟩
    | ok r => exact ⟨_, _, rfl, hresponded r⟩
  | register token template =>
    cases result with
    | error e => exact ⟨_, _, rfl, hfailed e⟩
    | ok response =>
      have hreturned (registered : Bool) (x : Observation)
          (hx : .observation { response, token, template, registered } = Completion.observation x) :
          Purpose.register token template = .register x.token x.template := by
        cases hx
        rfl
      unfold conclude
      dsimp only
      split
      · exact ⟨_, _, rfl, hreturned true⟩
      · exact ⟨_, _, rfl, hreturned false⟩

/-- The operation begins what it was called for. -/
theorem Acts.begin {call : Call} (h : Acts calls grants [] [] s o.serial)
    (ho : s.operation? o.serial = some o) (hstage : o.stage = .called call)
    (hmade : (o.serial, call) ∈ calls) (hnothing : s.requestsOf o.serial = [])
    (hs : s.move (.step (.operation o.serial)) = some (s.begin o call)) :
    ∃ more, (s.begin o call).reports = s.reports ++ more ∧
      Acts calls (grants ++ s.grants (.step (.operation o.serial))) [] more (s.begin o call)
        o.serial := by
  have hgrant {a : Message} (hrequest : call.request? = some a) : (o.serial, s.tokens.take.1) ∈
      grants ++ s.grants (.step (.operation o.serial)) := by
    rw [grants_of_called ho hstage, hrequest]
    exact List.mem_append_right _ (List.mem_singleton_self _)
  have hnext := h.mono (List.Subset.refl calls)
    (List.subset_append_left grants (s.grants (.step (.operation o.serial))))
  have hplanned (p : Plan) : (p.purpose.after (p.transfer s.transfers)).Follows s.transfers p
      (s.requestsOf o.serial) [] (p.transfer s.transfers).reports := by
    rw [hnothing]
    exact Operation.Stage.follows_start s.transfers p
  have hquiet : s.reports = s.reports ++ [] := (List.append_nil _).symm
  cases call with
  | request r =>
    cases ha : r.toMessage with
    | error e =>
      rw [begin_request_error ha] at hs ⊢
      refine ⟨[], hquiet, ?_⟩
      exact hnext.over hs (operation?_finish s o _) (recordOf_finish s o _) fun x hx => by cases hx
    | ok a =>
      have hplan := Plan.IsOf.request hmade (hgrant (congrArg Except.toOption ha)) ha
      rw [begin_request_ok ha] at hs ⊢
      exact ⟨_, reports_proceed _ o _ _, hnext.proceed hplan hs ho ho rfl (hplanned _)⟩
  | observe r handler =>
    cases ha : r.registration.toMessage with
    | error e =>
      rw [begin_observe_error ha] at hs ⊢
      refine ⟨[], hquiet, ?_⟩
      exact hnext.over hs (operation?_released s o _) (recordOf_released s o _) fun x hx => by cases hx
    | ok a =>
      have hplan := Plan.IsOf.observe hmade (hgrant (congrArg Except.toOption ha)) ha
      rw [begin_observe_ok ha] at hs ⊢
      refine ⟨[], hquiet, ?_⟩
      exact hnext.goes hs ho (operation?_putOperation (s := { s with tokens := s.tokens.take.2 }) ho)
        (.planned hplan (.enrolling rfl ⟨hnothing, rfl, rfl⟩)) rfl
  | stop x =>
    exact ⟨_, reports_proceed s o _ _, hnext.proceed (.stop hmade) hs ho ho rfl (hplanned _)⟩
  | shutdown =>
    unfold Session.begin at hs ⊢
    dsimp only at hs ⊢
    split at hs
    · rename_i hjoined
      rw [if_pos hjoined]
      refine ⟨[], hquiet, ?_⟩
      exact hnext.over hs (operation?_finish { s with shutdown := true } o _)
        (recordOf_finish { s with shutdown := true } o _) fun x hx => by cases hx
    · rename_i hjoined
      rw [if_neg hjoined]
      refine ⟨[], hquiet, ?_⟩
      exact hnext.goes hs ho
        (operation?_putOperation (s := { s with shutdown := true, joined := true }) ho)
        (.joining hmade ⟨hnothing, rfl, rfl⟩) rfl

theorem Acts.enroll {request template : Message} {handler : Handler}
    (h : Acts calls grants heard told s o.serial) (ho : s.operation? o.serial = some o)
    (hstage : o.stage = .enrolling request template handler)
    (hs : s.move (.step (.operation o.serial)) = some (s.enroll o request template handler)) :
    ∃ more, (s.enroll o request template handler).reports = s.reports ++ more ∧
      Acts calls grants heard (told ++ more) (s.enroll o request template handler) o.serial := by
  have hdue := h.stage o ho
  rw [hstage] at hdue
  cases hdue with
  | @planned p _ plan follows =>
    cases follows with
    | enrolling purpose nothing =>
      obtain ⟨hsent, rfl, rfl⟩ := nothing
      unfold Session.enroll at hs ⊢
      cases hregister : s.subscriptions.register p.request.token s.nextSerial with
      | error e =>
        rw [hregister] at hs
        refine ⟨[], (List.append_nil _).symm, ?_⟩
        exact h.over hs (operation?_released s o _) (recordOf_released s o _) fun x hx => by cases hx
      | ok subscriptions =>
        rw [hregister] at hs
        rw [← purpose] at hs ⊢
        refine ⟨_, reports_proceed _ o _ _, h.proceed plan hs ho ho rfl ?_⟩
        rw [hsent]
        exact Operation.Stage.follows_start s.transfers p

/-- An operation hears nothing unless its exchange has ended. -/
theorem hears_of_operation (ho : s.operation? o.serial = some o)
    (hnone : ∀ outcome, o.exchange? ≠ some (.ended outcome)) : s.hears (.operation o.serial) m = [] :=
  hears_of_going (exchangeOf_operation ho ▸ hnone)

/-- The exchange of an operation goes on, or its outcome goes to the transfer. -/
theorem Acts.running {purpose : Purpose} {transfer : Transfer} {e : Exchange}
    (h : Acts calls grants heard told s o.serial) (ho : s.operation? o.serial = some o)
    (hstage : o.stage = .running purpose transfer e) (hstep : s.stepOperation o = some s')
    (hs : s.move (.step (.operation o.serial)) = some s') :
    ∃ more, s'.reports = s.reports ++ more ∧
      Acts calls grants (heard ++ s.hears (.operation o.serial) (.step (.operation o.serial)))
        (told ++ more) s' o.serial := by
  have hexchange : o.exchange? = some e := by
    unfold Operation.exchange?
    rw [hstage]
  have hdue := h.stage o ho
  rw [hstage] at hdue
  cases hdue with
  | @planned p _ plan follows =>
    obtain rfl : purpose = p.purpose := by
      cases follows
      rfl
    by_cases hended : ∃ outcome, e = .ended outcome
    · obtain ⟨outcome, rfl⟩ := hended
      unfold stepOperation at hstep
      rw [hstage] at hstep
      cases hstep
      rw [hears_of_ended ((exchangeOf_operation ho).trans hexchange)]
      exact ⟨_, reports_proceed s o _ _, h.proceed plan hs ho ho rfl follows.answer⟩
    · have hgoing : ∀ outcome, e ≠ .ended outcome := fun outcome he => hended ⟨outcome, he⟩
      rw [stepOperation_running hstage hgoing] at hstep
      obtain ⟨c, hc, hnext⟩ := Option.map_eq_some_iff.mp hstep
      obtain ⟨hthere, hrequests, hcompletions, -⟩ := absorb_putOperation hnext.symm rfl ho
      have hsame : s'.reports = s.reports ++ [] := by
        rw [← hnext, List.append_nil]
        exact reports_absorb s (.operation o.serial) c
      rw [hears_of_operation ho fun outcome he =>
        hgoing outcome (Option.some.inj (hexchange.symm.trans he))]
      refine ⟨[], hsame, ?_⟩
      rw [List.append_nil, List.append_nil]
      refine h.goes hs ho hthere (.planned plan ?_) hcompletions
      rw [hrequests]
      exact follows.exchange hc

/-- A transfer that is over gives what its plan was for. -/
theorem Acts.conclude {purpose : Purpose} {result : Except ClientError Response}
    (h : Acts calls grants heard told s o.serial) (ho : s.operation? o.serial = some o)
    (hstage : o.stage = .concluding purpose result)
    (hs : s.move (.step (.operation o.serial)) = some (s.conclude o purpose result)) :
    (s.conclude o purpose result).reports = s.reports ∧
      Acts calls grants heard told (s.conclude o purpose result) o.serial := by
  have hdue := h.stage o ho
  rw [hstage] at hdue
  cases hdue with
  | @planned p _ plan follows =>
    obtain rfl : purpose = p.purpose := by
      cases follows
      rfl
    obtain ⟨subscriptions, c, hconclude, hreturns⟩ := conclude_returns s o p.purpose result
    rw [hconclude] at hs ⊢
    refine ⟨rfl, ?_⟩
    exact h.over hs (operation?_finish { s with subscriptions } o c)
      (recordOf_finish { s with subscriptions } o c) fun x hx => ⟨p, plan, hreturns x hx⟩

/-- Each step of the operation is one of its plan: what it is due to do next is known from its stage. -/
theorem Acts.step (h : Acts calls grants heard told s n) (hs : s.step (.operation n) = some s') :
    ∃ more, s'.reports = s.reports ++ more ∧
      Acts calls (grants ++ s.grants (.step (.operation n)))
        (heard ++ s.hears (.operation n) (.step (.operation n))) (told ++ more) s' n := by
  obtain ⟨o, ho, hstep⟩ := operation_of_step hs
  obtain rfl := operation?_serial ho
  have hmove : s.move (.step (.operation o.serial)) = some s' := hs
  cases hstage : o.stage with
  | called call =>
    have hbegin : s.begin o call = s' := by
      unfold stepOperation at hstep
      rw [hstage] at hstep
      exact Option.some.inj hstep
    have hdue := h.stage o ho
    rw [hstage] at hdue
    rw [hears_of_operation ho (by simp [Operation.exchange?, hstage]), List.append_nil]
    subst hbegin
    cases hdue with
    | called made nothing =>
      obtain ⟨hsent, rfl, rfl⟩ := nothing
      exact h.begin ho hstage made hsent hmove
    | planned plan follows => cases follows
  | enrolling request template handler =>
    rw [grants_of_begun ho (by rw [hstage]; rfl), List.append_nil,
      hears_of_operation ho (by simp [Operation.exchange?, hstage]), List.append_nil]
    unfold stepOperation at hstep
    rw [hstage] at hstep
    cases hstep
    exact h.enroll ho hstage hmove
  | running purpose transfer e =>
    rw [grants_of_begun ho (by rw [hstage]; rfl), List.append_nil]
    exact h.running ho hstage hstep hmove
  | concluding purpose result =>
    rw [grants_of_begun ho (by rw [hstage]; rfl), List.append_nil,
      hears_of_operation ho (by simp [Operation.exchange?, hstage]), List.append_nil]
    unfold stepOperation at hstep
    rw [hstage] at hstep
    cases hstep
    obtain ⟨hsame, hnext⟩ := h.conclude ho hstage hmove
    refine ⟨[], ?_, ?_⟩
    · rw [hsame, List.append_nil]
    · rwa [List.append_nil]
  | joining =>
    rw [grants_of_begun ho (by rw [hstage]; rfl), List.append_nil,
      hears_of_operation ho (by simp [Operation.exchange?, hstage]), List.append_nil]
    unfold stepOperation at hstep
    rw [hstage] at hstep
    dsimp only at hstep
    split at hstep
    · cases hstep
      refine ⟨[], (List.append_nil _).symm, ?_⟩
      rw [List.append_nil]
      exact h.over hmove (operation?_finish s o .stopped) (recordOf_finish s o .stopped)
        fun x hx => by cases hx
    · cases hstep

/-! Whole runs. -/

variable {options : ConnectOptions} {pipe : Pipe} {messageIds : MessageIds} {tokens : Tokens}
  {timer : Timer}

/-- A move makes at most one call, under the next number. -/
theorem calls_cases (s : Session) (m : Move) : s.calls m = [] ∨
    ∃ call, s.calls m = [(s.nextSerial, call)] ∧
      ∀ s', s.move m = some s' → s.nextSerial < s'.nextSerial := by
  unfold calls
  split
  · rename_i call cancelled
    refine .inr ⟨call, rfl, ?_⟩
    intro s' hs
    cases hs
    exact Nat.lt_succ_self _
  · exact .inl rfl

/-- Each operation has been called for once. -/
theorem calls_run (hs : (start options pipe messageIds tokens timer).run past = some s) :
    (∀ c ∈ callsMade (start options pipe messageIds tokens timer) past, c.1 < s.nextSerial) ∧
    ((callsMade (start options pipe messageIds tokens timer) past).map Prod.fst).Nodup := by
  let first := start options pipe messageIds tokens timer
  refine run_induction (P := fun past s => (∀ c ∈ callsMade first past, c.1 < s.nextSerial) ∧
    ((callsMade first past).map Prod.fst).Nodup) ⟨?_, List.nodup_nil⟩ ?_ hs
  · intro c hc
    cases hc
  intro past s m s' hpast ⟨hlt, hnodup⟩ hmove
  have hle := (kept_move hmove).2
  unfold callsMade
  rw [along_concat calls hpast m]
  rcases calls_cases s m with hnone | ⟨call, hone, hnext⟩
  · rw [hnone, List.append_nil]
    exact ⟨fun c hc => Nat.lt_of_lt_of_le (hlt c hc) hle, hnodup⟩
  · rw [hone]
    refine ⟨?_, ?_⟩
    · intro c hc
      rcases List.mem_append.mp hc with hc | hc
      · exact Nat.lt_of_lt_of_le (hlt c hc) hle
      · rw [List.mem_singleton.mp hc]
        exact hnext s' hmove
    · rw [List.map_append]
      -- All earlier calls have smaller numbers.
      refine List.nodup_append.mpr ⟨hnodup, List.nodup_singleton _, ?_⟩
      intro j hj k hk
      obtain ⟨c, hc, rfl⟩ := List.mem_map.mp hj
      rw [List.mem_singleton.mp hk]
      exact Nat.ne_of_lt (hlt c hc)

theorem operation?_call_self {call : Call} {cancelled : Bool} (h : s.operation? s.nextSerial = none) :
    (s.call call cancelled).operation? s.nextSerial =
      some { serial := s.nextSerial, cancelled, stage := .called call } := by
  unfold operation? at h ⊢
  unfold Session.call
  rw [List.find?_append, h]
  simp

/-- A call begins with nothing sent, heard or published. -/
theorem Acts.call (h : Acts calls grants heard told s s.nextSerial) (hnew : s.Fresh s.nextSerial)
    (hbelow : ∀ c ∈ calls, c.1 < s.nextSerial) (call : Call) (cancelled : Bool) :
    Acts (calls ++ [(s.nextSerial, call)]) grants heard told (s.call call cancelled)
      s.nextSerial := by
  -- An operation with a plan has been called for before.
  have hquiet : heard = [] ∧ told = [] := by
    refine h.reports.resolve_right ?_
    rintro ⟨p, hp, -⟩
    obtain ⟨_, hcall⟩ := hp.called
    exact Nat.lt_irrefl _ (hbelow _ hcall)
  refine ⟨?_, fun _ _ => hnew.completions, .inl hnew.requests, .inl hquiet, ?_⟩
  · intro o ho
    rw [operation?_call_self hnew.operation] at ho
    cases ho
    exact .called (List.mem_append_right _ (List.mem_singleton_self _)) ⟨hnew.requests, hquiet⟩
  · intro x hx
    change _ ∈ s.completionsOf s.nextSerial at hx
    rw [hnew.completions] at hx
    cases hx

/-- A cancellation leaves each operation at its stage. -/
theorem Acts.cancel (h : Acts calls grants heard told s n) (k : Nat) :
    Acts calls grants heard told (s.cancel k) n := by
  have hstages (o : Operation) (ho : (s.cancel k).operation? n = some o) :
      ∃ p, s.operation? n = some p ∧ o.stage = p.stage := by
    rw [operation?_cancel] at ho
    obtain ⟨p, hp, rfl⟩ := Option.map_eq_some_iff.mp ho
    refine ⟨p, hp, ?_⟩
    split <;> rfl
  refine ⟨?_, ?_, h.sent, h.reports, h.ends⟩
  · intro o ho
    obtain ⟨p, hp, hsame⟩ := hstages o ho
    rw [hsame]
    exact h.stage p hp
  · intro o ho
    obtain ⟨p, hp, -⟩ := hstages o ho
    exact h.going p hp

/-- An operation that is aborted is gone, and leaves what it has done. -/
theorem Acts.abort (h : Acts calls grants heard told s n) :
    Acts calls grants heard told (s.abort n) n := by
  obtain ⟨hrequests, hcompletions⟩ := Prod.mk.inj (recordOf_of_log (log_accept s (.abort n)) n)
  have htransfers := (kept_move (s := s) (m := .input (.abort n)) rfl).1
  change (s.abort n).requestsOf n = _ at hrequests
  change (s.abort n).completionsOf n = _ at hcompletions
  change (s.abort n).transfers = _ at htransfers
  refine ⟨?_, ?_, ?_, ?_, ?_⟩
  · intro o ho
    cases (operation?_abort_self s n).symm.trans ho
  · intro o ho
    cases (operation?_abort_self s n).symm.trans ho
  · rw [hrequests, htransfers]
    exact h.sent
  · rw [htransfers]
    exact h.reports
  · rw [hcompletions]
    exact h.ends

/-- Only its own call, its own steps and its own cancellation or abort reach an operation. -/
theorem Acts.move (h : Acts calls grants heard told s n)
    (hfresh : ∀ k, s.nextSerial ≤ k → s.Fresh k) (hbelow : ∀ c ∈ calls, c.1 < s.nextSerial)
    (hs : s.move m = some s') :
    Acts (calls ++ s.calls m) (grants ++ s.grants m) (heard ++ s.hears (.operation n) m)
      (told ++ s.publishes (.operation n) m) s' n := by
  have hold : Acts (calls ++ s.calls m) (grants ++ s.grants m) heard told s n :=
    h.mono (List.subset_append_left _ _) (List.subset_append_left _ _)
  have hother (hm : m ≠ .step (.operation n))
      (hnext : Acts (calls ++ s.calls m) (grants ++ s.grants m) heard told s' n) :
      Acts (calls ++ s.calls m) (grants ++ s.grants m) (heard ++ s.hears (.operation n) m)
        (told ++ s.publishes (.operation n) m) s' n := by
    rwa [hears_of_other hm, publishes_of_other hm, List.append_nil, List.append_nil]
  cases m with
  | step task =>
    by_cases ht : task = .operation n
    · subst ht
      have hnone : s.calls (.step (.operation n)) = [] := rfl
      have hstep : s.step (.operation n) = some s' := hs
      obtain ⟨more, hmore, hnext⟩ := h.step hstep
      rw [hnone, List.append_nil, publishes_of_step hstep hmore]
      exact hnext
    · exact hother (fun hm => ht (Move.step.inj hm)) (hold.of_same (same_step ht hs))
  | input i =>
    refine hother nofun ?_
    cases hs
    cases i with
    | call call cancelled =>
      by_cases hn : s.nextSerial = n
      · subst hn
        have hgrants : grants ++ s.grants (.input (.call call cancelled)) = grants := List.append_nil _
        rw [hgrants]
        exact h.call (hfresh _ (Nat.le_refl _)) hbelow call cancelled
      · exact hold.of_same (same_call hn call cancelled)
    | cancel k => exact hold.cancel k
    | abort k =>
      by_cases hk : k = n
      · subst hk
        exact hold.abort
      · exact hold.of_same (same_abort hk s)
    | message a => exact hold.of_same (same_arrive n s a)
    | _ => exact hold.of_same (.of_fields rfl rfl rfl (Nat.le_refl _))

/-- In every run, each operation sends the messages of the transfer that its call begins, one after the
other and none besides, and publishes the reports of this transfer. -/
theorem acts_run (hs : (start options pipe messageIds tokens timer).run past = some s) (n : Nat) :
    Acts (callsMade (start options pipe messageIds tokens timer) past)
      (grantsOf (start options pipe messageIds tokens timer) past)
      (heardBy (start options pipe messageIds tokens timer) (.operation n) past)
      (publishedBy (start options pipe messageIds tokens timer) (.operation n) past) s n := by
  let first := start options pipe messageIds tokens timer
  have hfirst : Acts (callsMade first []) (grantsOf first []) (heardBy first (.operation n) [])
      (publishedBy first (.operation n) []) first n := by
    refine ⟨?_, ?_, .inl rfl, .inl ⟨rfl, rfl⟩, ?_⟩
    · intro o ho
      cases ho
    · intro o ho
      cases ho
    · intro x hx
      cases hx
  refine run_induction (P := fun past s => Acts (callsMade first past) (grantsOf first past)
    (heardBy first (.operation n) past) (publishedBy first (.operation n) past) s n) hfirst ?_ hs
  intro past s m s' hpast h hmove
  rw [publishedBy_concat hpast]
  unfold callsMade grantsOf heardBy
  rw [along_concat calls hpast m, along_concat grants hpast m,
    along_concat (hears (.operation n)) hpast m]
  exact h.move (unknown_run hpast) (calls_run hpast).1 hmove

/-- An operation has one call. -/
theorem call_eq (hs : (start options pipe messageIds tokens timer).run past = some s)
    {call call' : Call}
    (h : (n, call) ∈ callsMade (start options pipe messageIds tokens timer) past)
    (h' : (n, call') ∈ callsMade (start options pipe messageIds tokens timer) past) : call = call' :=
  (Prod.mk.inj (List.inj_on_of_nodup_map (calls_run hs).2 h h' rfl)).2

/-- An operation has one token. -/
theorem token_eq (hs : (start options pipe messageIds tokens timer).run past = some s)
    {t t' : ByteArray}
    (h : (n, t) ∈ grantsOf (start options pipe messageIds tokens timer) past)
    (h' : (n, t') ∈ grantsOf (start options pipe messageIds tokens timer) past) : t = t' :=
  (Prod.mk.inj (List.inj_on_of_nodup_map (takers_run hs).single h h' rfl)).2

end Session

end Coap
