import Coap.Observe.Delivery
import Coap.Proofs.ActivityRun

/-! What the delivery of one notification comes to: which call of the subscriber's handler it makes, if
any, in terms of the download of the notification's remaining blocks. -/
namespace Coap

/-- The message that a subscriber is shown of a notification, and the payload that takes the place of
the message's own: the notification as it is, where there is nothing to fetch; the notification with
all its blocks; or the answer that rejects the request for one of them. -/
inductive Shows (blockTransfer : Bool) (template notification : Message) (answers : List Outcome) :
    Message → Option ByteArray → Prop
  | whole (h : blockTransfer = false ∨ notification.block2Value = none) :
      Shows blockTransfer template notification answers notification none
  | reassembled (payload : ByteArray) (on : blockTransfer = true)
      (segmented : notification.block2Value.isSome = true)
      (download : ((Download.start template notification).run Download.resume answers).result =
        some (.ok (.reassembled payload))) :
      Shows blockTransfer template notification answers notification (some payload)
  | rejected (answer : Message) (on : blockTransfer = true)
      (segmented : notification.block2Value.isSome = true)
      (download : ((Download.start template notification).run Download.resume answers).result =
        some (.ok (.rejected answer))) :
      Shows blockTransfer template notification answers answer none

/-- The delivery of a notification succeeds with a call of the handler: what is shown has a response
code; the handler gets it as a response, with the sequence number of the notification. -/
def Succeeds (blockTransfer : Bool) (template notification : Message) (answers : List Outcome)
    (call : Notification) : Prop :=
  ∃ shown payload, Shows blockTransfer template notification answers shown payload ∧
    (∃ status, shown.code = .response status) ∧ call.sequence = notification.observeValue ∧
    Response.ofMessage { shown with payload := payload.getD shown.payload } = .ok call.response

/-- The delivery of one notification: the answers to the requests for its remaining blocks, and the call
of the handler if it has come to one. -/
structure Round where
  message : Message
  answers : List Outcome
  call : Option Notification

/-- The run of the delivery. -/
def Round.trace (blockTransfer : Bool) (template : Message) (r : Round) :
    Trace (Option Notification) :=
  (Delivery.start blockTransfer template r.message).run Delivery.resume r.answers

/-- The reports on the blocks of the notification, if they are to be fetched. -/
def Round.reports (blockTransfer : Bool) (template : Message) (r : Round) : List Progress :=
  if blockTransfer && r.message.block2Value.isSome then
    ((Download.start template r.message).run Download.resume r.answers).reports
  else []

/-- The handler is called as the notification and the answers demand. -/
def Round.Sound (blockTransfer : Bool) (template : Message) (r : Round) : Prop :=
  ∀ call, r.call = some call ↔ Succeeds blockTransfer template r.message r.answers call

/-- The delivery is over, with as many answers as it has made requests. -/
def Round.Over (blockTransfer : Bool) (template : Message) (r : Round) : Prop :=
  (r.trace blockTransfer template).result = some r.call ∧
    (r.trace blockTransfer template).requests.length = r.answers.length

variable {blockTransfer : Bool} {template notification shown : Message} {payload : Option ByteArray}
  {answers : List Outcome} {call : Notification} {calls : Option Notification}

namespace Delivery

/-- What the subscriber is called with at the end of a download. -/
def seen (notification : Message) : Except ClientError Assembly → Option Notification
  | .error _ => none
  | .ok (.rejected answer) => conclude notification answer none
  | .ok (.reassembled payload) => conclude notification notification (some payload)

theorem ofMessage_with (m : Message) (bytes : ByteArray) :
    Response.ofMessage { m with payload := bytes } =
      (Response.ofMessage m).map fun r => r.withPayload bytes := by
  obtain ⟨type, code, id, token, options, own⟩ := m
  cases code with
  | response status =>
    let r : Response := { message := ⟨type, .response status, id, token, options, own⟩, status }
    exact congrArg Except.ok (Response.foldl_note_withPayload options r bytes)
  | _ => rfl

theorem ofMessage_eq_ok_iff (m : Message) :
    (∃ r, Response.ofMessage m = .ok r) ↔ ∃ status, m.code = .response status := by
  unfold Response.ofMessage
  cases m.code with
  | response status => exact iff_of_true ⟨_, rfl⟩ ⟨status, rfl⟩
  | _ =>
    refine iff_of_false ?_ ?_
    · rintro ⟨r, hr⟩
      cases hr
    · rintro ⟨status, hstatus⟩
      cases hstatus

/-- The handler is called exactly if what it is to be shown is a response. -/
theorem conclude_eq_some_iff : conclude notification shown payload = some call ↔
    (∃ status, shown.code = .response status) ∧ call.sequence = notification.observeValue ∧
      Response.ofMessage { shown with payload := payload.getD shown.payload } = .ok call.response := by
  unfold conclude
  cases hshown : Response.ofMessage shown with
  | error e =>
    refine iff_of_false nofun ?_
    rintro ⟨hstatus, -⟩
    obtain ⟨r, hr⟩ := (ofMessage_eq_ok_iff shown).mpr hstatus
    rw [hshown] at hr
    cases hr
  | ok r =>
    have hstatus : ∃ status, shown.code = .response status :=
      (ofMessage_eq_ok_iff shown).mp ⟨r, hshown⟩
    have hsome {response : Response}
        (hwith : Response.ofMessage { shown with payload := payload.getD shown.payload } =
          .ok response) :
        some (Notification.mk notification.observeValue response) = some call ↔
          (∃ status, shown.code = .response status) ∧ call.sequence = notification.observeValue ∧
            Response.ofMessage { shown with payload := payload.getD shown.payload } =
              .ok call.response := by
      rw [hwith]
      constructor
      · intro h
        cases h
        exact ⟨hstatus, rfl, rfl⟩
      · rintro ⟨-, hsequence, hresponse⟩
        obtain ⟨sequence, shownResponse⟩ := call
        cases hsequence
        cases hresponse
        rfl
    cases payload with
    | none => exact hsome hshown
    | some bytes =>
      refine hsome ?_
      rw [Option.getD_some, ofMessage_with, hshown]
      rfl

theorem ofDownload_eq_map (notification : Message)
    (s : Stride Download (Except ClientError Assembly)) :
    ofDownload notification s =
      s.map (fun download => { notification, download }) (seen notification) := by
  unfold ofDownload Stride.map Turn.map
  cases s.turn with
  | ask request download => rfl
  | finish result =>
    cases result with
    | error e => rfl
    | ok assembly => cases assembly <;> rfl

theorem resume_eq_map (notification : Message) (download : Download) (answer : Outcome) :
    resume { notification, download } answer =
      (download.resume answer).map (fun download => { notification, download }) (seen notification) :=
  ofDownload_eq_map notification (download.resume answer)

/-- A delivery follows the download of its remaining blocks. -/
theorem turnAfter_ofDownload (notification : Message)
    (s : Stride Download (Except ClientError Assembly)) (answers : List Outcome) :
    (ofDownload notification s).turnAfter resume answers =
      (s.turnAfter Download.resume answers).map (fun download => { notification, download })
        (seen notification) := by
  rw [ofDownload_eq_map]
  exact Stride.turnAfter_map (resume_eq_map notification) s answers

theorem run_ofDownload (notification : Message) (s : Stride Download (Except ClientError Assembly))
    (answers : List Outcome) :
    (ofDownload notification s).run resume answers =
      { requests := (s.run Download.resume answers).requests
        reports := (s.run Download.resume answers).reports
        result := (s.run Download.resume answers).result.map (seen notification) } := by
  rw [ofDownload_eq_map]
  exact Stride.run_map (resume_eq_map notification) s answers

/-- The message and the payload that the subscriber is shown of a download that has succeeded. -/
def outcome (notification : Message) : Assembly → Message × Option ByteArray
  | .reassembled payload => (notification, some payload)
  | .rejected answer => (answer, none)

/-- Where there is nothing to fetch, the notification is shown as it is. -/
theorem shows_whole_iff (hfetch : ¬ (blockTransfer && notification.block2Value.isSome) = true) :
    Shows blockTransfer template notification answers shown payload ↔
      shown = notification ∧ payload = none := by
  constructor
  · intro h
    cases h with
    | whole => exact ⟨rfl, rfl⟩
    | reassembled bytes on segmented =>
      rw [on, segmented] at hfetch
      exact absurd rfl hfetch
    | rejected answer on segmented =>
      rw [on, segmented] at hfetch
      exact absurd rfl hfetch
  · rintro ⟨rfl, rfl⟩
    refine .whole ?_
    cases blockTransfer with
    | false => exact .inl rfl
    | true => simpa using hfetch

/-- Where blocks are to be fetched, what is shown is what their download comes to. -/
theorem shows_fetched_iff (hfetch : (blockTransfer && notification.block2Value.isSome) = true) :
    Shows blockTransfer template notification answers shown payload ↔
      ∃ assembly, ((Download.start template notification).run Download.resume answers).result =
        some (.ok assembly) ∧ outcome notification assembly = (shown, payload) := by
  obtain ⟨hon, hsegmented⟩ := Bool.and_eq_true_iff.mp hfetch
  constructor
  · intro h
    cases h with
    | whole h =>
      rcases h with hoff | hnone
      · rw [hon] at hoff
        cases hoff
      · rw [hnone] at hsegmented
        cases hsegmented
    | reassembled bytes _ _ download => exact ⟨_, download, rfl⟩
    | rejected answer _ _ download => exact ⟨_, download, rfl⟩
  · rintro ⟨assembly, hdownload, hshown⟩
    cases assembly <;> cases hshown
    · exact .reassembled _ hon hsegmented hdownload
    · exact .rejected _ hon hsegmented hdownload

/-- A delivery succeeds with a call exactly if it comes to its end with this call. -/
theorem succeeds_iff : Succeeds blockTransfer template notification answers call ↔
    (start blockTransfer template notification).turnAfter resume answers = .finish (some call) := by
  have hconclude : Succeeds blockTransfer template notification answers call ↔
      ∃ shown payload, Shows blockTransfer template notification answers shown payload ∧
        conclude notification shown payload = some call :=
    exists_congr fun _ => exists_congr fun _ => and_congr_right fun _ => conclude_eq_some_iff.symm
  rw [hconclude]
  unfold start
  by_cases hfetch : (blockTransfer && notification.block2Value.isSome) = true
  · rw [if_pos hfetch, turnAfter_ofDownload]
    have hrun := Stride.result_run Download.resume (Download.start template notification) answers
    simp only [shows_fetched_iff hfetch]
    cases hturn : (Download.start template notification).turnAfter Download.resume answers with
    | ask request download =>
      rw [hturn] at hrun
      refine iff_of_false ?_ nofun
      rintro ⟨shown, payload, ⟨assembly, hdownload, -⟩, -⟩
      rw [hdownload] at hrun
      cases hrun
    | finish result =>
      rw [hturn] at hrun
      constructor
      · rintro ⟨shown, payload, ⟨assembly, hdownload, hshown⟩, hcall⟩
        rw [hdownload] at hrun
        cases hrun
        cases assembly <;> cases hshown <;> exact congrArg Turn.finish hcall
      · intro h
        have hseen : seen notification result = some call := Turn.finish.inj h
        cases result with
        | error e => cases hseen
        | ok assembly =>
          refine ⟨_, _, ⟨assembly, hrun, rfl⟩, ?_⟩
          cases assembly <;> exact hseen
  · rw [if_neg hfetch, Stride.turnAfter_of_finish rfl]
    simp only [shows_whole_iff hfetch]
    constructor
    · rintro ⟨shown, payload, ⟨rfl, rfl⟩, hcall⟩
      exact congrArg Turn.finish hcall
    · intro h
      exact ⟨notification, none, ⟨rfl, rfl⟩, Turn.finish.inj h⟩

end Delivery

/-- A delivery that waits for another block has made no call. -/
theorem Round.sound_of_ask {r : Round} {request : Message} {delivery : Delivery}
    (hturn : (Delivery.start blockTransfer template r.message).turnAfter Delivery.resume r.answers =
      .ask request delivery) (hcall : r.call = none) : r.Sound blockTransfer template := by
  intro call
  rw [Delivery.succeeds_iff, hturn, hcall]
  exact iff_of_false nofun nofun

theorem Round.sound_of_finish {r : Round}
    (hturn : (Delivery.start blockTransfer template r.message).turnAfter Delivery.resume r.answers =
      .finish r.call) : r.Sound blockTransfer template := by
  intro call
  rw [Delivery.succeeds_iff, hturn]
  exact ⟨congrArg Turn.finish, Turn.finish.inj⟩

/-- A notification that needs no further block is delivered at once. -/
theorem Round.over_of_start
    (hturn : (Delivery.start blockTransfer template notification).turn = .finish calls) :
    Round.Over blockTransfer template { message := notification, answers := [], call := calls } := by
  unfold Over trace
  rw [Stride.run_of_finish hturn]
  exact ⟨rfl, rfl⟩

/-- A delivery is over with the answer to the latest request, if that finishes it. -/
theorem Round.over_of_resume {request : Message} {delivery : Delivery} {answer : Outcome}
    (hturn : (Delivery.start blockTransfer template notification).turnAfter Delivery.resume answers =
      .ask request delivery) (hfinish : (delivery.resume answer).turn = .finish calls) :
    Round.Over blockTransfer template
      { message := notification, answers := answers ++ [answer], call := calls } := by
  unfold Over trace
  constructor
  · rw [Stride.result_run, Stride.turnAfter_concat hturn, hfinish]
  · rw [Stride.length_requests_of_finish hturn hfinish, List.length_append]
    rfl

/-- A delivery reports what its download does. -/
theorem Round.reports_trace (blockTransfer : Bool) (template : Message) (r : Round) :
    (r.trace blockTransfer template).reports = r.reports blockTransfer template := by
  unfold trace reports Delivery.start
  split
  · rw [Delivery.run_ofDownload]
  · rw [Stride.run_of_finish rfl]

/-! The deliveries of one worker, one after the other. -/

/-- The call of the handler that a turn of a delivery comes to. -/
def Stride.called (next : Stride Delivery (Option Notification)) : Option Notification :=
  match next.turn with
  | .ask _ _ => none
  | .finish result => result

/-- The delivery that goes on after a turn. -/
def Stride.delivery? (next : Stride Delivery (Option Notification)) : Option Delivery :=
  match next.turn with
  | .ask _ delivery => some delivery
  | .finish _ => none

/-- Deliveries that account for the notifications taken, the answers used, the reports published and the
calls made so far: all of them are over, but for the one that is under way. -/
structure Accounts (blockTransfer : Bool) (template : Message) (taken : List Message)
    (used : List Outcome) (told : List Progress) (calls : List Notification)
    (current : Option Delivery) (rounds : List Round) : Prop where
  messages : rounds.map Round.message = taken
  answers : rounds.flatMap Round.answers = used
  reports : rounds.flatMap (Round.reports blockTransfer template) = told
  calls : rounds.filterMap Round.call = calls
  sound : ∀ r ∈ rounds, r.Sound blockTransfer template
  finished : current = none → ∀ r ∈ rounds, r.Over blockTransfer template
  underway : ∀ delivery, current = some delivery → ∃ before r request, rounds = before ++ [r] ∧
    (∀ q ∈ before, q.Over blockTransfer template) ∧ r.call = none ∧
    (Delivery.start blockTransfer template r.message).turnAfter Delivery.resume r.answers =
      .ask request delivery

section Accounts

variable {taken : List Message} {used : List Outcome} {told : List Progress}
  {made : List Notification} {current : Option Delivery} {rounds before : List Round} {r : Round}
  {next : Stride Delivery (Option Notification)}

/-- The latest delivery has come to a turn: it is over, or it goes on. -/
theorem Accounts.of_turn (hmessages : (before ++ [r]).map Round.message = taken)
    (hanswers : (before ++ [r]).flatMap Round.answers = used)
    (hreports : (before ++ [r]).flatMap (Round.reports blockTransfer template) = told)
    (hcalls : (before ++ [r]).filterMap Round.call = made)
    (hsound : ∀ q ∈ before, q.Sound blockTransfer template)
    (hover : ∀ q ∈ before, q.Over blockTransfer template) (hcall : r.call = next.called)
    (hturn : (Delivery.start blockTransfer template r.message).turnAfter Delivery.resume r.answers =
      next.turn)
    (hdone : ∀ result, next.turn = .finish result → r.Over blockTransfer template) :
    Accounts blockTransfer template taken used told made next.delivery? (before ++ [r]) where
  messages := hmessages
  answers := hanswers
  reports := hreports
  calls := hcalls
  sound := by
    intro q hq
    rcases List.mem_append.mp hq with hq | hq
    · exact hsound q hq
    · rw [List.mem_singleton.mp hq]
      unfold Stride.called at hcall
      cases hnext : next.turn with
      | ask request delivery =>
        rw [hnext] at hturn hcall
        exact Round.sound_of_ask hturn hcall
      | finish result =>
        rw [hnext] at hturn hcall
        exact Round.sound_of_finish (hturn.trans (congrArg Turn.finish hcall.symm))
  finished := by
    intro hnone q hq
    rcases List.mem_append.mp hq with hq | hq
    · exact hover q hq
    · rw [List.mem_singleton.mp hq]
      unfold Stride.delivery? at hnone
      cases hnext : next.turn with
      | ask request delivery =>
        rw [hnext] at hnone
        cases hnone
      | finish result => exact hdone result hnext
  underway := by
    intro delivery hsome
    unfold Stride.delivery? at hsome
    cases hnext : next.turn with
    | ask request d =>
      rw [hnext] at hsome
      cases hsome
      refine ⟨before, r, request, rfl, hover, ?_, hturn.trans hnext⟩
      unfold Stride.called at hcall
      rw [hnext] at hcall
      exact hcall
    | finish result =>
      rw [hnext] at hsome
      cases hsome

/-- All deliveries but the latest are over. -/
theorem Accounts.earlier (h : Accounts blockTransfer template taken used told made current rounds) :
    ∀ r ∈ rounds.dropLast, r.Over blockTransfer template := by
  intro r hr
  cases current with
  | none => exact h.finished rfl r (List.dropLast_subset _ hr)
  | some delivery =>
    obtain ⟨before, last, request, rfl, hover, -⟩ := h.underway delivery rfl
    rw [List.dropLast_concat] at hr
    exact hover r hr

/-- A notification is taken, and its delivery begins. -/
theorem Accounts.start (h : Accounts blockTransfer template taken used told made none rounds)
    (notification : Message) :
    Accounts blockTransfer template (taken ++ [notification]) used
      (told ++ (Delivery.start blockTransfer template notification).reports)
      (made ++ (Delivery.start blockTransfer template notification).called.toList)
      (Delivery.start blockTransfer template notification).delivery?
      (rounds ++ [{
        message := notification
        answers := []
        call := (Delivery.start blockTransfer template notification).called }]) := by
  refine .of_turn ?_ ?_ ?_ ?_ h.sound (h.finished rfl) rfl rfl ?_
  · rw [List.map_append, h.messages]
    rfl
  · rw [List.flatMap_append, h.answers]
    exact List.append_nil used
  · rw [List.flatMap_append, h.reports, List.flatMap_singleton, ← Round.reports_trace]
    exact congrArg (told ++ ·) (Stride.reports_nil _ _)
  · rw [List.filterMap_append, h.calls]
    cases hcall : (Delivery.start blockTransfer template notification).called <;> simp
  · intro result hfinish
    have hcall : (Delivery.start blockTransfer template notification).called = result := by
      unfold Stride.called
      rw [hfinish]
    rw [hcall]
    exact Round.over_of_start hfinish

/-- The delivery under way gets an answer. -/
theorem Accounts.resume {delivery : Delivery}
    (h : Accounts blockTransfer template taken used told made (some delivery) rounds)
    (answer : Outcome) :
    ∃ rounds', Accounts blockTransfer template taken (used ++ [answer])
      (told ++ (delivery.resume answer).reports) (made ++ (delivery.resume answer).called.toList)
      (delivery.resume answer).delivery? rounds' := by
  obtain ⟨before, r, request, rfl, hover, hcall, hturn⟩ := h.underway delivery rfl
  have hmessages := h.messages
  have hanswers := h.answers
  have hreports := h.reports
  have hcalls := h.calls
  refine ⟨before ++ [{ r with
    answers := r.answers ++ [answer], call := (delivery.resume answer).called }], ?_⟩
  refine .of_turn ?_ ?_ ?_ ?_ ?_ hover rfl (Stride.turnAfter_concat hturn answer) ?_
  · rw [← hmessages, List.map_append, List.map_append]
    rfl
  · rw [← hanswers, List.flatMap_append, List.flatMap_append, List.append_assoc]
    simp
  · rw [← hreports, List.flatMap_append, List.flatMap_append, List.append_assoc]
    refine congrArg (before.flatMap (Round.reports blockTransfer template) ++ ·) ?_
    rw [List.flatMap_singleton, List.flatMap_singleton, ← Round.reports_trace, ← Round.reports_trace]
    exact Stride.reports_concat hturn answer
  · rw [← hcalls, List.filterMap_append, List.filterMap_append]
    cases hnext : (delivery.resume answer).called <;> simp [hcall]
  · intro q hq
    exact h.sound q (List.mem_append_left _ hq)
  · intro result hfinish
    have hcalled : (delivery.resume answer).called = result := by
      unfold Stride.called
      rw [hfinish]
    rw [hcalled]
    exact Round.over_of_resume hturn hfinish

end Accounts

end Coap
