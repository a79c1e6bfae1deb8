import Coap.Proofs.TransferOutcome

/-! A message that carries the first block of a payload: as the answer to a request, and as the
notification of an observation. A success is treated alike in both roles; of any other message only
the observation fetches the blocks that follow. -/
namespace Coap

/-- The message is small enough to go out as it is. -/
def TransferSettings.SendsWhole (settings : TransferSettings) (request : Message) : Prop :=
  settings.blockTransfer = true → request.payload.size ≤ settings.blockSize.bytes

/-- A request that has been answered by `m` and the delivery of the notification `m` come to the
same: after the request itself both send the same messages, and the subscriber is called with the
response that the request returns, or not at all if it returns an error. -/
structure Agree (request m : Message) (asked : Trace (Except ClientError Response))
    (delivered : Trace (Option Notification)) : Prop where
  requests : asked.requests = request :: delivered.requests
  called : ∀ call, delivered.result = some (some call) ↔
    call.sequence = m.observeValue ∧ asked.result = some (.ok call.response)
  dropped : delivered.result = some none ↔ ∃ e, asked.result = some (.error e)

namespace Delivery

/-- The call of the handler that the outcome of a request would make. -/
def callOf (m : Message) : Except ClientError Response → Option Notification
  | .ok response => some { sequence := m.observeValue, response }
  | .error _ => none

theorem callOf_eq_some_iff {m : Message} {result : Except ClientError Response} {call : Notification} :
    callOf m result = some call ↔ call.sequence = m.observeValue ∧ result = .ok call.response := by
  obtain ⟨sequence, response⟩ := call
  cases result with
  | error e => simp [callOf]
  | ok r =>
    simp only [callOf, Option.some.injEq, Notification.mk.injEq, Except.ok.injEq]
    exact and_congr_left' eq_comm

theorem callOf_eq_none_iff {m : Message} {result : Except ClientError Response} :
    callOf m result = none ↔ ∃ e, result = .error e := by
  cases result <;> simp [callOf]

/-- A message is shown to the subscriber exactly if it is a response. -/
theorem conclude_eq_callOf (notification shown : Message) :
    conclude notification shown none = callOf notification shown.toResponse := by
  unfold conclude Message.toResponse
  cases Response.ofMessage shown <;> rfl

theorem conclude_payload_eq_callOf (notification : Message) (payload : ByteArray) :
    conclude notification notification (some payload) =
      callOf notification (notification.toResponse.map fun r => r.withPayload payload) := by
  unfold conclude Message.toResponse
  cases Response.ofMessage notification <;> rfl

/-- What the subscriber sees of a download is what a request would return of it. -/
theorem seen_eq_callOf (m : Message) (result : Except ClientError Assembly) :
    seen m result = callOf m (Transfer.concluded m result) := by
  cases result with
  | error e => rfl
  | ok assembly =>
    cases assembly with
    | reassembled payload => exact conclude_payload_eq_callOf m payload
    | rejected answer => exact conclude_eq_callOf m answer

/-- A delivery that has nothing to fetch is over at once. -/
theorem run_of_whole {blockTransfer : Bool} {m : Message}
    (h : ¬ (blockTransfer && m.block2Value.isSome) = true) (template : Message)
    (answers : List Outcome) :
    (start blockTransfer template m).run resume answers =
      { result := some (callOf m m.toResponse) } := by
  have hstart : start blockTransfer template m = { turn := .finish (conclude m m none) } := if_neg h
  rw [hstart, Stride.run_of_finish rfl, conclude_eq_callOf]

theorem run_of_segmented {blockTransfer : Bool} {m : Message}
    (h : (blockTransfer && m.block2Value.isSome) = true) (template : Message)
    (answers : List Outcome) :
    (start blockTransfer template m).run resume answers =
      { requests := ((Download.start template m).run Download.resume answers).requests
        reports := ((Download.start template m).run Download.resume answers).reports
        result := ((Download.start template m).run Download.resume answers).result.map
          fun result => callOf m (Transfer.concluded m result) } := by
  have hstart : start blockTransfer template m = ofDownload m (Download.start template m) := if_pos h
  have hseen : seen m = fun result => callOf m (Transfer.concluded m result) :=
    funext (seen_eq_callOf m)
  rw [hstart, run_ofDownload, hseen]

end Delivery

namespace Transfer

/-- A request that is sent as it is goes on from its answer. -/
theorem run_of_plain {settings : TransferSettings} {request : Message}
    (hwhole : settings.SendsWhole request) (followUp m : Message) (answers : List Outcome) :
    let t : Transfer := { settings, followUp, stage := .whole }
    (start settings request followUp).run resume (.ok m :: answers) =
      { (t.received m).run resume answers with
        requests := request :: ((t.received m).run resume answers).requests } := by
  intro t
  have hstart : start settings request followUp = { turn := .ask request t } := by
    refine if_neg ?_
    intro hlarge
    obtain ⟨hon, hlt⟩ := Bool.and_eq_true_iff.mp hlarge
    exact absurd (hwhole hon) (Nat.not_le.mpr (of_decide_eq_true hlt))
  rw [hstart, Stride.run_of_ask_cons rfl]
  rfl

/-- An answer that is no success, or has nothing to fetch, is returned as it is. -/
theorem run_of_unsegmented {t : Transfer} {m : Message}
    (h : ¬ (t.settings.blockTransfer && m.code.isSuccess && m.block2Value.isSome) = true)
    (answers : List Outcome) :
    (t.received m).run resume answers = { result := some m.toResponse } := by
  have hreceived : t.received m = { turn := .finish m.toResponse } := if_neg h
  rw [hreceived, Stride.run_of_finish rfl]

theorem run_of_segmented {t : Transfer} {m : Message}
    (h : (t.settings.blockTransfer && m.code.isSuccess && m.block2Value.isSome) = true)
    (answers : List Outcome) :
    (t.received m).run resume answers =
      { requests := ((Download.start t.followUp m).run Download.resume answers).requests
        reports := ((Download.start t.followUp m).run Download.resume answers).reports
        result := ((Download.start t.followUp m).run Download.resume answers).result.map
          (concluded m) } := by
  have hreceived : t.received m = t.ofDownload m (Download.start t.followUp m) := if_pos h
  rw [hreceived, run_ofDownload]

end Transfer

/-- The payload of a message that is itself the whole payload changes nothing of its response. -/
theorem Response.withPayload_self {m : Message} {r : Response} (h : ofMessage m = .ok r) :
    r.withPayload m.payload = r := by
  unfold ofMessage at h
  split at h
  · cases h
    exact (foldl_note_withPayload m.options _ m.payload).symm
  · cases h

namespace Agree

variable {settings : TransferSettings} {request m : Message} {status : Status}

theorem of_result {asked : Trace (Except ClientError Response)}
    {delivered : Trace (Option Notification)}
    (hrequests : asked.requests = request :: delivered.requests)
    (hresult : delivered.result = asked.result.map (Delivery.callOf m)) :
    Agree request m asked delivered where
  requests := hrequests
  called := by
    intro call
    rw [hresult]
    cases asked.result with
    | none => simp
    | some result => simp [Delivery.callOf_eq_some_iff]
  dropped := by
    rw [hresult]
    cases asked.result with
    | none => simp
    | some result => simp [Delivery.callOf_eq_none_iff]

/-- A success, or a message that has nothing to fetch, is treated alike to the last report. -/
theorem of_alike (hwhole : settings.SendsWhole request)
    (halike : m.code.isSuccess = true ∨ settings.blockTransfer = false ∨ m.block2Value = none)
    (followUp : Message) (answers : List Outcome) :
    let asked := (Transfer.start settings request followUp).run Transfer.resume (.ok m :: answers)
    let delivered := (Delivery.start settings.blockTransfer followUp m).run Delivery.resume answers
    Agree request m asked delivered ∧ asked.reports = delivered.reports := by
  intro asked delivered
  let t : Transfer := { settings, followUp, stage := .whole }
  have hasked : asked = { (t.received m).run Transfer.resume answers with
      requests := request :: ((t.received m).run Transfer.resume answers).requests } :=
    Transfer.run_of_plain hwhole followUp m answers
  by_cases hfetch : (settings.blockTransfer && m.block2Value.isSome) = true
  · -- Only a success is left of the three cases, and both follow its blocks.
    obtain ⟨hon, hblocks⟩ := Bool.and_eq_true_iff.mp hfetch
    have hs : m.code.isSuccess = true := by
      rcases halike with hs | hoff | hnone
      · exact hs
      · rw [hon] at hoff
        cases hoff
      · rw [hnone] at hblocks
        cases hblocks
    have hsegmented : (settings.blockTransfer && m.code.isSuccess && m.block2Value.isSome) = true := by
      rw [hon, hs, hblocks]
      rfl
    have hreceived := Transfer.run_of_segmented (t := t) hsegmented answers
    have hdelivered : delivered = _ := Delivery.run_of_segmented hfetch followUp answers
    rw [hreceived] at hasked
    rw [hasked, hdelivered]
    refine ⟨.of_result rfl ?_, rfl⟩
    rw [Option.map_map]
    rfl
  · have hunsegmented :
        ¬ (settings.blockTransfer && m.code.isSuccess && m.block2Value.isSome) = true := by
      intro h
      obtain ⟨hleft, hblocks⟩ := Bool.and_eq_true_iff.mp h
      exact hfetch (by rw [(Bool.and_eq_true_iff.mp hleft).1, hblocks]; rfl)
    have hreceived := Transfer.run_of_unsegmented (t := t) hunsegmented answers
    have hdelivered : delivered = _ := Delivery.run_of_whole hfetch followUp answers
    rw [hreceived] at hasked
    rw [hasked, hdelivered]
    exact ⟨.of_result rfl rfl, rfl⟩

/-- A message that is no success is returned to a request as it is, and its blocks are fetched for an
observation all the same. -/
theorem unlike_runs (hwhole : settings.SendsWhole request) (hcode : m.code = .response status)
    (hfails : status.isSuccess = false) (hon : settings.blockTransfer = true)
    (hblocks : m.block2Value.isSome = true) (followUp : Message) (answers : List Outcome) :
    let asked := (Transfer.start settings request followUp).run Transfer.resume (.ok m :: answers)
    let delivered := (Delivery.start settings.blockTransfer followUp m).run Delivery.resume answers
    let fetched := (Download.start followUp m).run Download.resume answers
    (asked.requests = [request] ∧ asked.reports = [] ∧
      ∃ r, Response.ofMessage m = .ok r ∧ asked.result = some (.ok r)) ∧
    delivered.requests = fetched.requests ∧ delivered.reports = fetched.reports ∧
    delivered.result =
      fetched.result.map fun result => Delivery.callOf m (Transfer.concluded m result) := by
  intro asked delivered fetched
  let t : Transfer := { settings, followUp, stage := .whole }
  have hasked : asked = { (t.received m).run Transfer.resume answers with
      requests := request :: ((t.received m).run Transfer.resume answers).requests } :=
    Transfer.run_of_plain hwhole followUp m answers
  have hsuccess : m.code.isSuccess = false := (congrArg Code.isSuccess hcode).trans hfails
  have hunsegmented :
      ¬ (settings.blockTransfer && m.code.isSuccess && m.block2Value.isSome) = true := by
    rw [hsuccess, Bool.and_false, Bool.false_and]
    exact Bool.false_ne_true
  have hfetch : (settings.blockTransfer && m.block2Value.isSome) = true := by
    rw [hon, hblocks]
    rfl
  have hreceived := Transfer.run_of_unsegmented (t := t) hunsegmented answers
  have hdelivered : delivered = _ := Delivery.run_of_segmented hfetch followUp answers
  obtain ⟨r, hr⟩ := (Delivery.ofMessage_eq_ok_iff m).mpr ⟨status, hcode⟩
  rw [hreceived, Message.toResponse_eq_ok_iff.mpr hr] at hasked
  rw [hasked, hdelivered]
  exact ⟨⟨rfl, rfl, r, hr, rfl⟩, rfl, rfl, rfl⟩

/-- A download whose first message carries the last block is over with that message. -/
theorem fetched_of_last {b : Block} (hb : m.responseBlock = .ok b) (hlast : b.more = false)
    (followUp : Message) (answers : List Outcome) :
    ((Download.start followUp m).run Download.resume answers).requests = [] ∧
      ((Download.start followUp m).run Download.resume answers).result =
        some (.ok (.reassembled m.payload)) := by
  have hturn := (Download.turn_of_start hb followUp).trans (Download.turn_of_complete hlast)
  rw [Stride.run_of_finish hturn]
  exact ⟨rfl, rfl⟩

/-- A download that asks for nothing and does not fail has the last block in its first message. -/
theorem last_of_fetched {followUp : Message} {answers : List Outcome} {assembly : Assembly}
    (hrequests : ((Download.start followUp m).run Download.resume answers).requests = [])
    (hresult : ((Download.start followUp m).run Download.resume answers).result = some (.ok assembly)) :
    ∃ b, m.responseBlock = .ok b ∧ b.more = false := by
  cases hb : m.responseBlock with
  | error e =>
    rw [Download.run_of_unreadable hb] at hresult
    cases hresult
  | ok b =>
    refine ⟨b, rfl, ?_⟩
    cases hmore : b.more with
    | false => rfl
    | true =>
      -- With more blocks to come it either asks for one or ends with an error.
      let d : Download := { template := followUp, announced := m.size2Value.map UInt32.toNat
                            buffer := m.payload, block := b }
      have hstart : (Download.start followUp m).turn = d.turn := Download.turn_of_start hb followUp
      cases hr : d.request with
      | error e =>
        rw [Stride.run_of_finish (hstart.trans (Download.turn_of_error hmore hr))] at hresult
        cases hresult
      | ok r =>
        have hask := hstart.trans (Download.turn_of_request hmore hr)
        cases answers with
        | nil =>
          rw [Stride.run_of_ask_nil hask] at hrequests
          cases hrequests
        | cons a rest =>
          rw [Stride.run_of_ask_cons hask] at hrequests
          cases hrequests

end Agree

/-- A message in the two roles, whatever the template, the settings and the answers. The roles agree
exactly if it is a success, or blocks are not fetched, or it carries none, or it carries the last one.
Any other message is returned to a request as it is, without another exchange, while for an
observation its blocks are fetched all the same. -/
theorem segmented_messages_agree (settings : TransferSettings) (request followUp m : Message)
    (status : Status) (answers : List Outcome) (hcode : m.code = .response status)
    (hwhole : settings.SendsWhole request) :
    let asked := (Transfer.start settings request followUp).run Transfer.resume (.ok m :: answers)
    let delivered := (Delivery.start settings.blockTransfer followUp m).run Delivery.resume answers
    let fetched := (Download.start followUp m).run Download.resume answers
    (Agree request m asked delivered ↔
      status.isSuccess = true ∨ settings.blockTransfer = false ∨ m.block2Value = none ∨
        ∃ b, m.responseBlock = .ok b ∧ b.more = false) ∧
    (status.isSuccess = true ∨ settings.blockTransfer = false ∨ m.block2Value = none →
      asked.reports = delivered.reports) ∧
    (status.isSuccess = false → settings.blockTransfer = true → m.block2Value.isSome = true →
      (asked.requests = [request] ∧ asked.reports = [] ∧
        ∃ r, Response.ofMessage m = .ok r ∧ asked.result = some (.ok r)) ∧
      delivered.requests = fetched.requests ∧ delivered.reports = fetched.reports ∧
      delivered.result =
        fetched.result.map fun result => Delivery.callOf m (Transfer.concluded m result)) := by
  intro asked delivered fetched
  have hsuccess : m.code.isSuccess = status.isSuccess := congrArg Code.isSuccess hcode
  have halike (h : status.isSuccess = true ∨ settings.blockTransfer = false ∨ m.block2Value = none) :
      Agree request m asked delivered ∧ asked.reports = delivered.reports :=
    Agree.of_alike hwhole (h.imp_left hsuccess.trans) followUp answers
  refine ⟨?_, fun h => (halike h).2, fun hfails hon hblocks =>
    Agree.unlike_runs hwhole hcode hfails hon hblocks followUp answers⟩
  by_cases h : status.isSuccess = true ∨ settings.blockTransfer = false ∨ m.block2Value = none
  · refine iff_of_true (halike h).1 ?_
    rcases h with hs | hoff | hnone
    · exact .inl hs
    · exact .inr (.inl hoff)
    · exact .inr (.inr (.inl hnone))
  · obtain ⟨hfails, hon, hblocks⟩ : status.isSuccess = false ∧ settings.blockTransfer = true ∧
        m.block2Value.isSome = true := by
      simpa [not_or, Option.isSome_iff_ne_none] using h
    obtain ⟨⟨hrequests, -, r, hr, hresult⟩, hfetches, -, hcalls⟩ :=
      Agree.unlike_runs hwhole hcode hfails hon hblocks followUp answers
    constructor
    · intro hagree
      have hnone : fetched.requests = [] := by
        have heq := hagree.requests
        rw [hrequests] at heq
        exact hfetches.symm.trans (List.cons.inj heq).2.symm
      have hcalled := (hagree.called ⟨m.observeValue, r⟩).mpr ⟨rfl, hresult⟩
      rw [hcalls] at hcalled
      obtain ⟨result, hresult', hcall⟩ := Option.map_eq_some_iff.mp hcalled
      cases result with
      | error e => cases hcall
      | ok assembly => exact .inr (.inr (.inr (Agree.last_of_fetched hnone hresult')))
    · rintro (hs | hoff | hnone | ⟨b, hb, hlast⟩)
      · rw [hfails] at hs
        cases hs
      · rw [hon] at hoff
        cases hoff
      · rw [hnone] at hblocks
        cases hblocks
      · obtain ⟨hnone, hfetched⟩ := Agree.fetched_of_last hb hlast followUp answers
        have hself : Transfer.concluded m (.ok (.reassembled m.payload)) = .ok r := by
          change m.toResponse.map (fun r => r.withPayload m.payload) = .ok r
          rw [Message.toResponse_eq_ok_iff.mpr hr]
          exact congrArg Except.ok (Response.withPayload_self hr)
        refine .of_result ?_ ?_
        · rw [hrequests, hfetches, hnone]
        · rw [hcalls, hresult, hfetched, Option.map_some, Option.map_some, hself]

/-- The first of two blocks, in a response with the given status. -/
def firstOfTwo (status : Status) : Message :=
  { type := .nonConfirmable, code := .response status, options := [.block2 8]
    payload := ⟨Array.replicate 16 1⟩ }

/-- The second of them. -/
def secondOfTwo : Message :=
  { type := .acknowledgement, code := .response .content, options := [.block2 16], payload := ⟨#[2]⟩ }

def plainRequest : Message := { type := .confirmable, code := .request .get }

def smallBlocks : TransferSettings := { blockTransfer := true, blockSize := .s16 }

/-- Both roles fetch the second block of a success. -/
theorem two_blocks_agree :
    let asked := (Transfer.start smallBlocks plainRequest plainRequest).run Transfer.resume
      [.ok (firstOfTwo .content), .ok secondOfTwo]
    let delivered := (Delivery.start true plainRequest (firstOfTwo .content)).run Delivery.resume
      [.ok secondOfTwo]
    smallBlocks.SendsWhole plainRequest ∧ Agree plainRequest (firstOfTwo .content) asked delivered ∧
      delivered.requests.length = 1 ∧ delivered.result.isSome = true := by
  have hwhole : smallBlocks.SendsWhole plainRequest := fun _ => by decide
  obtain ⟨hagree, -⟩ := segmented_messages_agree smallBlocks plainRequest plainRequest
    (firstOfTwo .content) .content [.ok secondOfTwo] rfl hwhole
  exact ⟨hwhole, hagree.mpr (.inl rfl), rfl, rfl⟩

/-- Of a response that is no success an observation fetches the next block, and a request does not. -/
theorem error_response_is_followed_by_observations_only :
    ¬ ∀ (settings : TransferSettings) (request followUp m : Message) (status : Status)
      (answers : List Outcome), m.code = .response status → settings.SendsWhole request →
        Agree request m ((Transfer.start settings request followUp).run Transfer.resume (.ok m :: answers))
          ((Delivery.start settings.blockTransfer followUp m).run Delivery.resume answers) := by
  intro h
  have hwhole : smallBlocks.SendsWhole plainRequest := fun _ => by decide
  have hagree := h smallBlocks plainRequest plainRequest (firstOfTwo .notFound) .notFound [] rfl hwhole
  have hrequests := congrArg List.length hagree.requests
  have hlengths : (1 : Nat) = 2 := hrequests
  exact absurd hlengths (by decide)

end Coap
