import Coap.Proofs.ConfirmableReplies
import Coap.Proofs.NotificationFetches
import Mathlib.Data.List.Infix

/-! The messages that are made of the request for an observation: those by which it is registered,
those that ask for further blocks of the response or of a notification, and the one by which it is
stopped. -/
namespace Coap

namespace Message

/-- The message registers an observation under the token. -/
structure Registers (token : ByteArray) (r : Message) : Prop where
  code : r.code = .request .get
  token : r.token = token
  observe : r.numbered OptionKind.observe.number = [.observe 0]

/-- The message asks for a block of what the registration `a` has led to. -/
structure AsksOn (a : Message) (token : ByteArray) (r : Message) : Prop where
  code : r.code = .request .get
  token : r.token = token
  payload : r.payload = ByteArray.empty
  options : ∃ value, r.options = a.otherThan [OptionKind.observe.number, OptionKind.block2.number,
    OptionKind.block1.number, OptionKind.size1.number] ++ [.block2 value]

/-- The message ends the observation that the registration `a` has begun. -/
structure Deregisters (a : Message) (token : ByteArray) (r : Message) : Prop where
  code : r.code = .request .get
  token : r.token = token
  payload : r.payload = ByteArray.empty
  options : r.options = a.otherThan [OptionKind.observe.number, OptionKind.block1.number,
    OptionKind.size1.number] ++ [.observe 1]

variable {a q r : Message} {token : ByteArray}

theorem Registers.congr (h : q.Registers token) (hsame : r.unnumbered = q.unnumbered) : r.Registers token where
  code := (congrArg Message.code hsame).trans h.code
  token := (congrArg Message.token hsame).trans h.token
  observe := (congrArg (fun m => m.numbered OptionKind.observe.number) hsame).trans h.observe

theorem AsksOn.congr (h : AsksOn a token q) (hsame : r.unnumbered = q.unnumbered) :
    AsksOn a token r where
  code := (congrArg Message.code hsame).trans h.code
  token := (congrArg Message.token hsame).trans h.token
  payload := (congrArg Message.payload hsame).trans h.payload
  options := h.options.imp fun _ hoptions => (congrArg Message.options hsame).trans hoptions

theorem Deregisters.congr (h : Deregisters a token q) (hsame : r.unnumbered = q.unnumbered) :
    Deregisters a token r where
  code := (congrArg Message.code hsame).trans h.code
  token := (congrArg Message.token hsame).trans h.token
  payload := (congrArg Message.payload hsame).trans h.payload
  options := (congrArg Message.options hsame).trans h.options

/-- Whatever Observe options a request has been given, its registration has the one that asks for an
observation. -/
theorem registers_of_registration {request : Request} (h : request.registration.toMessage = .ok a)
    (token : ByteArray) : Registers token { a with token } where
  code := Request.code_of_toMessage h
  token := rfl
  observe := by
    rw [(Request.toMessage_eq_ok_iff.mp h).1]
    exact numbered_setOption_self _ (.observe Session.observeRegister)

theorem options_observationTemplate (a : Message) (token : ByteArray) :
    (a.observationTemplate token).options = a.otherThan [OptionKind.observe.number,
      OptionKind.size1.number, OptionKind.block1.number] := by
  have hblock : (a.removeOptions OptionKind.block1.number).options =
      a.otherThan [OptionKind.block1.number] := by
    unfold removeOptions otherThan
    apply List.filter_congr
    intro o _
    rw [Bool.eq_iff_iff]
    simp
  change (((a.removeOptions OptionKind.block1.number).options.filter _).filter _) = _
  rw [hblock, filter_otherThan, filter_otherThan]

/-- An option that is set on the template comes after what is left of the registration's. -/
theorem options_of_setOption (a : Message) (token : ByteArray) (o : MessageOption) :
    ((a.observationTemplate token).setOption o).options = a.otherThan [o.number,
      OptionKind.observe.number, OptionKind.size1.number, OptionKind.block1.number] ++ [o] := by
  change ((a.observationTemplate token).options.filter _) ++ [o] = _
  rw [options_observationTemplate, filter_otherThan]

theorem asksOn_of_fetches {request : Request} (h : request.registration.toMessage = .ok a)
    (hr : (a.observationTemplate token).Fetches r) : AsksOn a token r := by
  obtain ⟨value, rfl⟩ := hr
  refine ⟨Request.code_of_toMessage h, rfl, rfl, value, ?_⟩
  rw [options_of_setOption]
  refine congrArg (· ++ [_]) (otherThan_congr (fun n => ?_) a)
  simp only [List.mem_cons, List.not_mem_nil, or_false]
  tauto

theorem deregisters_of_template {request : Request} (h : request.registration.toMessage = .ok a)
    (token : ByteArray) : Deregisters a token
      ((a.observationTemplate token).setOption (.observe Session.observeDeregister)) where
  code := Request.code_of_toMessage h
  token := rfl
  payload := rfl
  options := by
    rw [options_of_setOption]
    refine congrArg (· ++ [_]) (otherThan_congr (fun n => ?_) a)
    simp only [List.mem_cons, List.not_mem_nil, or_false]
    tauto

end Message

/-- What begins as two lists put together do begins as the first one does, and goes on as the second
one does once the first one is over. -/
theorem exists_append_of_prefix {α β : Type} {f : α → β} {sent : List α} {first second : List β}
    (h : sent.map f <+: first ++ second) : ∃ parts more, sent = parts ++ more ∧
      parts.map f <+: first ∧ more.map f <+: second ∧ (more ≠ [] → parts.map f = first) := by
  have hfirst : (sent.take first.length).map f <+: first := by
    have htake := h.take first.length
    rwa [List.take_left, ← List.map_take] at htake
  refine ⟨sent.take first.length, sent.drop first.length, (List.take_append_drop _ _).symm, hfirst, ?_, ?_⟩
  · have hdrop := h.drop first.length
    rwa [List.drop_left, ← List.map_drop] at hdrop
  · intro hmore
    apply hfirst.eq_of_length
    have hlt : first.length < sent.length := List.drop_eq_nil_iff.not.mp hmore |> Nat.lt_of_not_le
    rw [List.length_map, List.length_take, Nat.min_eq_left (Nat.le_of_lt hlt)]

namespace Session

/-- What an observation sends from its registration to its end, for the operation `n` that the caller has
called with a request for which `a` registers, and that has been given the token. -/
structure Observes (first : Session) (past : List Move) (s : Session) (n : Nat) (a : Message)
    (token : ByteArray) : Prop where
  /-- The token is the only one of the operation, and no other operation has it until so many have been
  given that the count has come round. -/
  own : ∀ t, (n, t) ∈ grantsOf first past → t = token
  fresh : (grantsOf first past).length ≤ UInt64.size → ∀ k, (k, token) ∈ grantsOf first past → k = n
  /-- The operation sends the registration, whole or block by block, and after all of it requests for
  further blocks of the response. -/
  registration : ∃ answers parts further, s.requestsOf n = parts ++ further ∧
    parts.map Message.unnumbered <+:
      (Transfer.opening s.transfers { a with token } answers).map Message.unnumbered ∧
    (further ≠ [] → parts.map Message.unnumbered =
      (Transfer.opening s.transfers { a with token } answers).map Message.unnumbered) ∧
    (∀ r ∈ parts, r.Registers token) ∧ ∀ r ∈ further, a.AsksOn token r
  /-- The worker of the subscription sends requests for further blocks of notifications. -/
  notifications : ∀ w ∈ enlistments first past, w.owner = n →
    ∀ r ∈ s.sentBy (.worker w.serial), a.AsksOn token r
  /-- An operation that is to stop the observation which has been returned sends the end of the
  observation first. No step of it changes another subscription, and whatever it returns, the one under
  the token is gone then. -/
  stops : ∀ x k, (n, .observation x) ∈ s.returned → (k, .stop x) ∈ callsMade first past →
    (∀ r, (s.requestsOf k).head? = some r → a.Deregisters token r) ∧
    ∀ s', s.step (.operation k) = some s' →
      (∀ e, e.token ≠ token → (e ∈ s'.subscriptions.entries ↔ e ∈ s.subscriptions.entries)) ∧
      ∀ c, s'.completionsOf k = s.completionsOf k ++ [c] → s'.subscriptions.isActive token = false
  /-- What is gone after the observation has been returned, does not come back. -/
  stays : ∀ x, (n, .observation x) ∈ s.returned → s.subscriptions.isActive token = false →
    ∀ later s', s.run later = some s' → (grantsOf first (past ++ later)).length ≤ UInt64.size →
      s'.subscriptions.isActive token = false

variable {options : ConnectOptions} {pipe : Pipe} {messageIds : MessageIds} {tokens : Tokens}
  {timer : Timer}
  {s s' : Session} {past : List Move} {n k : Nat} {request : Request} {handler : Handler} {a : Message}
  {token : ByteArray} {x : Observation} {m : Move}

theorem mem_completionsOf {c : Completion} : c ∈ s.completionsOf n ↔ (n, c) ∈ s.returned := by
  rw [mem_returned]
  unfold completionsOf
  rw [List.mem_filterMap]
  constructor
  · rintro ⟨e, he, hend⟩
    cases e with
    | finished j d =>
      obtain ⟨rfl, hd⟩ := Option.ite_none_right_eq_some.mp hend
      cases hd
      exact he
    | _ => cases hend
  · intro h
    exact ⟨_, h, if_pos rfl⟩

/-- The plan of an operation that is to observe. -/
theorem plan_of_observe (hs : (start options pipe messageIds tokens timer).run past = some s)
    (hcall : (n, .observe request handler) ∈
      callsMade (start options pipe messageIds tokens timer) past)
    (ha : request.registration.toMessage = .ok a) {p : Plan}
    (hp : p.IsOf (callsMade (start options pipe messageIds tokens timer) past)
      (grantsOf (start options pipe messageIds tokens timer) past) n) :
    ∃ token, (n, token) ∈ grantsOf (start options pipe messageIds tokens timer) past ∧
      p = ⟨.register token (a.observationTemplate token), { a with token },
        a.observationTemplate token⟩ := by
  cases hp with
  | request call => cases call_eq hs call hcall
  | stop call => cases call_eq hs call hcall
  | observe call grant message =>
    cases call_eq hs call hcall
    cases message.symm.trans ha
    exact ⟨_, grant, rfl⟩

/-- The plan of an operation that is to stop an observation. -/
theorem plan_of_stop (hs : (start options pipe messageIds tokens timer).run past = some s)
    (hcall : (k, .stop x) ∈ callsMade (start options pipe messageIds tokens timer) past) {p : Plan}
    (hp : p.IsOf (callsMade (start options pipe messageIds tokens timer) past)
      (grantsOf (start options pipe messageIds tokens timer) past) k) :
    p = ⟨.deregister x.token, x.template.setOption (.observe observeDeregister), x.template⟩ := by
  cases hp with
  | request call => cases call_eq hs call hcall
  | observe call => cases call_eq hs call hcall
  | stop call =>
    cases call_eq hs call hcall
    rfl

/-- An observation that has been returned has the token and the terms of its registration. -/
theorem terms_of_returned (hs : (start options pipe messageIds tokens timer).run past = some s)
    (hcall : (n, .observe request handler) ∈
      callsMade (start options pipe messageIds tokens timer) past)
    (ha : request.registration.toMessage = .ok a) (hx : (n, .observation x) ∈ s.returned) :
    (n, x.token) ∈ grantsOf (start options pipe messageIds tokens timer) past ∧
      x.template = a.observationTemplate x.token := by
  obtain ⟨p, hp, hpurpose⟩ := (acts_run hs n).ends x (mem_completionsOf.mpr hx)
  obtain ⟨token, hgrant, rfl⟩ := plan_of_observe hs hcall ha hp
  obtain ⟨rfl, htemplate⟩ := Purpose.register.inj hpurpose
  exact ⟨hgrant, htemplate.symm⟩

/-- What an operation has sent is the beginning of its opening and of what comes after it. -/
theorem requests_of_plan {p : Plan} {settings : TransferSettings} {sent : List Message}
    (h : p.Allows settings sent) : ∃ answers parts further, sent = parts ++ further ∧
      parts.map Message.unnumbered <+:
        (Transfer.opening settings p.request answers).map Message.unnumbered ∧
      (further ≠ [] → parts.map Message.unnumbered =
        (Transfer.opening settings p.request answers).map Message.unnumbered) ∧
      ∀ r ∈ further, ∃ q, p.further.Fetches q ∧ r.unnumbered = q.unnumbered := by
  obtain ⟨answers, hprefix⟩ := h
  -- Under these answers the transfer sends its opening first.
  obtain ⟨later, hrequests, hfetches⟩ :=
    Transfer.requests_of_start settings p.request p.further answers
  have hall : p.requests settings answers = Transfer.opening settings p.request answers ++ later :=
    hrequests
  rw [hall, List.map_append] at hprefix
  obtain ⟨parts, further, hsent, hparts, hfurther, hcomplete⟩ := exists_append_of_prefix hprefix
  refine ⟨answers, parts, further, hsent, hparts, hcomplete, ?_⟩
  intro r hr
  obtain ⟨q, hq, hsame⟩ := List.mem_map.mp (hfurther.subset (List.mem_map_of_mem hr))
  exact ⟨q, hfetches q hq, hsame.symm⟩

/-- Every message by which a registration goes out registers the observation. -/
theorem registers_of_opening {settings : TransferSettings} {answers : List Outcome} {r : Message}
    (ha : request.registration.toMessage = .ok a)
    (hr : r ∈ Transfer.opening settings { a with token } answers) : r.Registers token := by
  have hregisters := Message.registers_of_registration ha token
  obtain ⟨hcode, htoken⟩ := Transfer.opening_carries
    (inherited_header fun code t => code = .request .get ∧ t = token)
    ⟨hregisters.code, hregisters.token⟩ r hr
  have hobserve := Transfer.opening_carries
    (inherited_numbered (by decide) (by decide) (by decide) [.observe 0]) hregisters.observe r hr
  exact ⟨hcode, htoken, hobserve⟩

theorem registration_of_run (hs : (start options pipe messageIds tokens timer).run past = some s)
    (hcall : (n, .observe request handler) ∈
      callsMade (start options pipe messageIds tokens timer) past)
    (ha : request.registration.toMessage = .ok a)
    (hgrant : (n, token) ∈ grantsOf (start options pipe messageIds tokens timer) past) :
    ∃ answers parts further, s.requestsOf n = parts ++ further ∧
      parts.map Message.unnumbered <+:
        (Transfer.opening s.transfers { a with token } answers).map Message.unnumbered ∧
      (further ≠ [] → parts.map Message.unnumbered =
        (Transfer.opening s.transfers { a with token } answers).map Message.unnumbered) ∧
      (∀ r ∈ parts, r.Registers token) ∧ ∀ r ∈ further, a.AsksOn token r := by
  rcases (acts_run hs n).sent with hnone | ⟨p, hp, hallows⟩
  · refine ⟨[], [], [], hnone, List.nil_prefix, fun h => absurd rfl h, ?_, ?_⟩
    · intro r hr
      cases hr
    · intro r hr
      cases hr
  · obtain ⟨t, ht, rfl⟩ := plan_of_observe hs hcall ha hp
    obtain rfl := token_eq hs hgrant ht
    obtain ⟨answers, parts, further, hsent, hparts, hcomplete, hfurther⟩ := requests_of_plan hallows
    refine ⟨answers, parts, further, hsent, hparts, hcomplete, ?_, ?_⟩
    · intro r hr
      obtain ⟨q, hq, hsame⟩ := List.mem_map.mp (hparts.subset (List.mem_map_of_mem hr))
      exact (registers_of_opening ha hq).congr hsame.symm
    · intro r hr
      obtain ⟨q, hq, hsame⟩ := hfurther r hr
      exact (Message.asksOn_of_fetches ha hq).congr hsame

theorem notifications_of_run (hs : (start options pipe messageIds tokens timer).run past = some s)
    (hcall : (n, .observe request handler) ∈
      callsMade (start options pipe messageIds tokens timer) past)
    (ha : request.registration.toMessage = .ok a)
    (hgrant : (n, token) ∈ grantsOf (start options pipe messageIds tokens timer) past) {w : Worker}
    (hw : w ∈ enlistments (start options pipe messageIds tokens timer) past) (howner : w.owner = n)
    {r : Message} (hr : r ∈ s.sentBy (.worker w.serial)) : a.AsksOn token r := by
  subst howner
  obtain ⟨request', handler', b, t, hcall', hgrant', hb, htemplate⟩ := template_of_enlisted hs hw
  cases call_eq hs hcall hcall'
  cases ha.symm.trans hb
  obtain rfl := token_eq hs hgrant hgrant'
  obtain ⟨q, hq, hsame⟩ := fetches_of_sentBy hs hw hr
  rw [htemplate] at hq
  exact (Message.asksOn_of_fetches ha hq).congr hsame

/-- The first message of an operation that stops an observation ends it. -/
theorem deregisters_of_head (hs : (start options pipe messageIds tokens timer).run past = some s)
    (ha : request.registration.toMessage = .ok a)
    (hstop : (k, .stop x) ∈ callsMade (start options pipe messageIds tokens timer) past)
    (htemplate : x.template = a.observationTemplate token) {r : Message}
    (hr : (s.requestsOf k).head? = some r) : a.Deregisters token r := by
  rcases (acts_run hs k).sent with hnone | ⟨p, hp, answers, hprefix⟩
  · rw [hnone] at hr
    cases hr
  · obtain rfl := plan_of_stop hs hstop hp
    -- Without a payload there is only one message to open with.
    have hempty : (x.template.setOption (.observe observeDeregister)).payload.size = 0 := by
      rw [htemplate]
      rfl
    obtain ⟨later, hrequests, -⟩ := Transfer.requests_of_start s.transfers
      (x.template.setOption (.observe observeDeregister)) x.template answers
    rw [Transfer.opening_of_no_payload hempty] at hrequests
    obtain ⟨rest, hrest⟩ := List.head?_eq_some_iff.mp hr
    rw [hrest] at hprefix
    unfold Plan.requests Plan.transfer at hprefix
    rw [hrequests, List.singleton_append, List.map_cons, List.map_cons] at hprefix
    have hsame := (List.cons_prefix_cons.mp hprefix).1
    refine Message.Deregisters.congr ?_ hsame
    rw [htemplate]
    exact Message.deregisters_of_template ha token

/-- An operation that stops an observation leaves all other subscriptions, and when it ends, whatever it
ends with, the subscription under its token is gone. -/
theorem stop_step (hs : (start options pipe messageIds tokens timer).run past = some s)
    (hstop : (k, .stop x) ∈ callsMade (start options pipe messageIds tokens timer) past)
    (hstep : s.step (.operation k) = some s') :
    (∀ e, e.token ≠ x.token → (e ∈ s'.subscriptions.entries ↔ e ∈ s.subscriptions.entries)) ∧
    ∀ c, s'.completionsOf k = s.completionsOf k ++ [c] → s'.subscriptions.isActive x.token = false := by
  obtain ⟨o, ho, hnext⟩ := operation_of_step hstep
  obtain rfl := operation?_serial ho
  -- A step that leaves the table and the log does neither.
  have hquiet (htable : s'.subscriptions = s.subscriptions)
      (hsame : s'.completionsOf o.serial = s.completionsOf o.serial) :
      (∀ e, e.token ≠ x.token → (e ∈ s'.subscriptions.entries ↔ e ∈ s.subscriptions.entries)) ∧
      ∀ c, s'.completionsOf o.serial = s.completionsOf o.serial ++ [c] →
        s'.subscriptions.isActive x.token = false := by
    refine ⟨fun e _ => by rw [htable], fun c hc => ?_⟩
    rw [hsame] at hc
    exact absurd hc (by simp)
  have hproceed {purpose : Purpose} {next : Stride Transfer (Except ClientError Response)}
      (heq : s' = s.proceed o purpose next) : s'.subscriptions = s.subscriptions ∧
        s'.completionsOf o.serial = s.completionsOf o.serial := by
    rw [heq]
    exact ⟨subscriptions_proceed s o purpose next,
      (Prod.mk.inj (recordOf_of_log (log_proceed s o purpose next) o.serial)).2⟩
  have hdue := (acts_run hs o.serial).stage o ho
  unfold stepOperation at hnext
  cases hstage : o.stage with
  | called call =>
    rw [hstage] at hdue hnext
    cases hdue with
    | planned plan follows => cases follows
    | called made nothing =>
      cases call_eq hs made hstop
      obtain ⟨htable, hsame⟩ := hproceed (Option.some.inj hnext).symm
      exact hquiet htable hsame
  | joining =>
    rw [hstage] at hdue
    cases hdue with
    | planned plan follows => cases follows
    | joining made nothing => cases call_eq hs made hstop
  | enrolling request template handler =>
    rw [hstage] at hdue
    cases hdue with
    | planned plan follows =>
      obtain rfl := plan_of_stop hs hstop plan
      cases follows with
      | enrolling purpose nothing => cases purpose
  | running purpose transfer e =>
    by_cases hended : ∃ outcome, e = .ended outcome
    · obtain ⟨outcome, rfl⟩ := hended
      rw [hstage] at hnext
      obtain ⟨htable, hsame⟩ := hproceed (Option.some.inj hnext).symm
      exact hquiet htable hsame
    · have hgoing := stepOperation_running (s := s) hstage fun r he => hended ⟨r, he⟩
      unfold stepOperation at hgoing
      rw [hgoing] at hnext
      obtain ⟨c, -, heq⟩ := Option.map_eq_some_iff.mp hnext
      obtain ⟨-, -, hsame, -⟩ := absorb_putOperation heq.symm rfl ho
      refine hquiet ?_ hsame
      rw [← heq]
      exact subscriptions_absorb s (.operation o.serial) c
  | concluding purpose result =>
    rw [hstage] at hdue hnext
    cases hdue with
    | planned plan follows =>
      obtain rfl := plan_of_stop hs hstop plan
      cases follows
      -- Both ends take the subscription out of the table.
      have htable : s'.subscriptions = (s.subscriptions.deregister x.token).2 := by
        cases result <;> cases hnext <;> rfl
      rw [htable]
      refine ⟨fun e he => entries_deregister s.subscriptions fun h => he (Option.some.inj h).symm, ?_⟩
      intro c _
      rw [← Bool.not_eq_true, Subscriptions.isActive_deregister_iff]
      exact fun h => h.2 rfl

/-- An operation that has returned an observation makes no subscription any more. -/
theorem inactive_of_move (hs : (start options pipe messageIds tokens timer).run past = some s)
    (hbound : (grantsOf (start options pipe messageIds tokens timer) past).length ≤ UInt64.size)
    (hgrant : (n, token) ∈ grantsOf (start options pipe messageIds tokens timer) past)
    (hx : (n, .observation x) ∈ s.returned) (hinactive : s.subscriptions.isActive token = false)
    (hmove : s.move m = some s') : s'.subscriptions.isActive token = false := by
  have hnone {e : Subscription} (he : e ∈ s.subscriptions.entries) (htoken : e.token = token) : False := by
    have hactive := Subscriptions.isActive_iff.mpr ⟨e, he, htoken⟩
    rw [hinactive] at hactive
    cases hactive
  rw [← Bool.not_eq_true, Subscriptions.isActive_iff]
  rintro ⟨e, he, htoken⟩
  -- A subscription that is there now was there before the move, or has been made by it.
  cases upkeep_of_move hmove with
  | worked w mover there shift =>
    obtain ⟨f, hf, hsubscriptions⟩ := shift.subscriptions_cases
    rw [hsubscriptions] at he
    obtain ⟨p, hp, rfl⟩ := List.mem_map.mp he
    exact hnone hp ((hf.token p).symm.trans htoken)
  | aside mover table workers =>
    obtain ⟨p, hp, -, hsame⟩ := table.mem he
    exact hnone hp (hsame.trans htoken)
  | made w t mover role after serial rest registered workers next =>
    obtain ⟨-, hsubscriptions⟩ := Subscriptions.register_eq_ok registered
    rw [hsubscriptions] at he
    rcases List.mem_append.mp he with he | he
    · exact hnone he htoken
    · rw [List.mem_singleton.mp he] at htoken
      -- The token is that of the operation, which is over.
      obtain rfl : t = token := htoken
      have hown := (granted_run hs).own w.owner t (by rw [role]; rfl)
      obtain rfl : w.owner = n := owner_eq (nodup_grants hs hbound) hown hgrant
      cases ho : s.operation? w.owner with
      | none =>
        rw [roleOf_gone ho] at role
        cases role
      | some o =>
        have hmem := mem_completionsOf.mpr hx
        rw [(acts_run hs w.owner).going o ho] at hmem
        cases hmem

theorem inactive_of_run (hs : (start options pipe messageIds tokens timer).run past = some s)
    (hgrant : (n, token) ∈ grantsOf (start options pipe messageIds tokens timer) past)
    (hx : (n, .observation x) ∈ s.returned) (hinactive : s.subscriptions.isActive token = false)
    {later : List Move} (hlater : s.run later = some s')
    (hbound : (grantsOf (start options pipe messageIds tokens timer) (past ++ later)).length ≤
      UInt64.size) :
    s'.subscriptions.isActive token = false := by
  let first := start options pipe messageIds tokens timer
  refine (run_induction (P := fun later s' => (n, .observation x) ∈ s'.returned ∧
    ((grantsOf first (past ++ later)).length ≤ UInt64.size → s'.subscriptions.isActive token = false))
    ⟨hx, fun _ => hinactive⟩ ?_ hlater).2 hbound
  intro later s₁ m s₂ hlater ⟨hx, ih⟩ hmove
  have hrun : first.run (past ++ later) = some s₁ := run_append hs hlater
  refine ⟨?_, fun hbound => ?_⟩
  · obtain ⟨added, hlog, -⟩ := grown_of_move hmove
    rw [mem_returned, hlog]
    exact List.mem_append_left added (mem_returned.mp hx)
  · rw [← List.append_assoc] at hbound
    unfold grantsOf at hbound
    rw [along_concat grants hrun m, List.length_append] at hbound
    have hless : (grantsOf first (past ++ later)).length ≤ UInt64.size :=
      Nat.le_trans (Nat.le_add_right _ _) hbound
    have hgrant' : (n, token) ∈ grantsOf first (past ++ later) := by
      unfold grantsOf
      rw [along_append grants hs]
      exact List.mem_append_left _ hgrant
    exact inactive_of_move hrun hless hgrant' hx (ih hless) hmove

/-- Three kinds of messages are made of one request for an observation, whatever options it has been given:
in every run the operation, the worker of its subscription, and an operation that stops the observation
send messages of these kinds only, under the one token that the operation has been given. Without a token
there is nothing of the kind. -/
theorem observation_messages (hs : (start options pipe messageIds tokens timer).run past = some s)
    (hcall : (n, .observe request handler) ∈
      callsMade (start options pipe messageIds tokens timer) past)
    (ha : request.registration.toMessage = .ok a) :
    ((s.requestsOf n ≠ [] ∨
        (∃ w ∈ enlistments (start options pipe messageIds tokens timer) past, w.owner = n) ∨
        ∃ x, (n, .observation x) ∈ s.returned) →
      ∃ token, (n, token) ∈ grantsOf (start options pipe messageIds tokens timer) past) ∧
    ∀ token, (n, token) ∈ grantsOf (start options pipe messageIds tokens timer) past →
      Observes (start options pipe messageIds tokens timer) past s n a token := by
  refine ⟨?_, ?_⟩
  · rintro (hsent | ⟨w, hw, rfl⟩ | ⟨x, hx⟩)
    · obtain ⟨p, hp, -⟩ := (acts_run hs n).sent.resolve_left hsent
      obtain ⟨token, hgrant, -⟩ := plan_of_observe hs hcall ha hp
      exact ⟨token, hgrant⟩
    · obtain ⟨-, -, -, token, -, hgrant, -⟩ := template_of_enlisted hs hw
      exact ⟨token, hgrant⟩
    · exact ⟨x.token, (terms_of_returned hs hcall ha hx).1⟩
  · intro token hgrant
    exact {
      own := fun t ht => token_eq hs ht hgrant
      fresh := fun hbound k hk => owner_eq (nodup_grants hs hbound) hk hgrant
      registration := registration_of_run hs hcall ha hgrant
      notifications := fun w hw howner r hr => notifications_of_run hs hcall ha hgrant hw howner hr
      stops := by
        intro x k hx hstop
        obtain ⟨hown, htemplate⟩ := terms_of_returned hs hcall ha hx
        obtain rfl := token_eq hs hown hgrant
        exact ⟨fun r hr => deregisters_of_head hs ha hstop htemplate hr,
          fun s' hstep => stop_step hs hstop hstep⟩
      stays := fun x hx hinactive later s' hlater hbound =>
        inactive_of_run hs hgrant hx hinactive hlater hbound }

/-- A request that says more than once what observation it wants, and what size its payload has. -/
def loudRequest : Request where
  message := {
    type := .confirmable
    code := .request .put
    options := [.other 6 ⟨#[5]⟩, .maxAge 60, .size1 1, .observe 7]
    payload := ⟨#[1]⟩ }

/-- What its caller is told once the server has accepted it. -/
def quietObservation : Observation :=
  { acceptedObservation with template := { acceptedObservation.template with options := [.maxAge 60] } }

/-- The observation is registered and stopped. -/
def loudMoves : List Move :=
  let steps (n k : Nat) : List Move := List.replicate k (.step (.operation n))
  let answer : Message := { type := .acknowledgement, code := .response .content }
  [.input (.call (.observe loudRequest fun _ => .handled) false)] ++ steps 0 6 ++
    [.input (.message { answer with options := [.observe 5] }), .step .receiver] ++ steps 0 3 ++
    [.input (.call (.stop quietObservation) false)] ++ steps 2 5 ++
    [.input (.message { answer with id := 1 }), .step .receiver] ++ steps 2 3

/-- The registration has one Observe option, the first message of the stop another one, and the
subscription is gone with the end of the stop. -/
theorem loud_observation_is_registered_and_stopped : ∃ s a,
    observingClient.run loudMoves = some s ∧ loudRequest.registration.toMessage = .ok a ∧
    Observes observingClient loudMoves s 0 a (Wire.eightBytes 0) ∧
    s.requestsOf 0 = [{ a with token := Wire.eightBytes 0 }] ∧
    a.options = [.maxAge 60, .size1 1, .observe 0] ∧
    (0, .observation quietObservation) ∈ s.returned ∧
    s.requestsOf 2 =
      [{ quietObservation.template with id := 1, options := [.maxAge 60, .observe 1] }] ∧
    (s.completionsOf 2).length = 1 ∧ s.subscriptions.isActive (Wire.eightBytes 0) = false := by
  let a : Message :=
    { loudRequest.message with code := .request .get, options := [.maxAge 60, .size1 1, .observe 0] }
  have ha : loudRequest.registration.toMessage = .ok a := rfl
  have hends : (observingClient.run loudMoves).map (fun s => (s.requestsOf 0, s.completionsOf 0,
      s.requestsOf 2, (s.completionsOf 2).length, s.subscriptions.isActive (Wire.eightBytes 0))) =
      some ([{ a with token := Wire.eightBytes 0 }], [.observation quietObservation],
        [{ quietObservation.template with id := 1, options := [.maxAge 60, .observe 1] }], 1, false) := rfl
  obtain ⟨s, hs, hfacts⟩ := Option.map_eq_some_iff.mp hends
  simp only [Prod.mk.injEq] at hfacts
  obtain ⟨hsent, hreturned, hstopped, hended, hgone⟩ := hfacts
  have hcall : (0, .observe loudRequest fun _ => .handled) ∈ callsMade observingClient loudMoves :=
    List.mem_cons_self
  have hgrant : (0, Wire.eightBytes 0) ∈ grantsOf observingClient loudMoves := by
    have hgrants : grantsOf observingClient loudMoves = [(0, Wire.eightBytes 0)] := rfl
    rw [hgrants]
    exact List.mem_singleton_self _
  refine ⟨s, a, hs, ha, (observation_messages hs hcall ha).2 _ hgrant, hsent, rfl, ?_, hstopped, hended,
    hgone⟩
  rw [← mem_completionsOf, hreturned]
  exact List.mem_singleton_self _

end Session

end Coap
